import BlobStore.Api.Dispatch
import BlobStore.Lib.Resumption.Prelude
import BlobStore.Storage.Refinement.Call

/-!
# A request as a task

The server handles every request in a task of its own, and tasks interleave. A task looks up the
accounts that the path, the host and the middleware ask for, and for an anonymous request the
container; then it makes the call of its plan. Run alone, it is `serveHttp` (`run_serveHttp`).

Before its call a task only looks at the store (`opens_serveHttp`).
-/

namespace BlobStore

open Codec Resumption Proc

namespace Task

variable (app : AppState) (m : Moment)

/-! ### Account resolution -/

/-- Whether an account exists; no lookup without a name. -/
def known : Option String → Store Bool
  | none         => pure false
  | some account => do
    let keys : Option (String × Option String) ← perform (Action.accountKeys account)
    pure keys.isSome

/-- Puts an account before the path, if the new text can be parsed. -/
def insertAccount (req : HttpRequest) : Option String → HttpRequest
  | none         => req
  | some account =>
    let rest := if req.path = "/" then "" else req.path
    let text := "/" ++ account ++ rest ++ (req.query.map ("?" ++ ·)).getD ""
    match app.pathAndQuery text with
    | some (path, query) => { req with path := path, query := query, signedPath := some req.path }
    | none               => req

def accountResolve (req : HttpRequest) : Store HttpRequest := do
  let firstSegmentKnown ← known (firstSegment req.path)
  let label := ((headerOpt req.headers "host").or req.uriHost).bind hostLabel
  -- the host counts only if the path names no account
  let hostLabelKnown ← known (if firstSegmentKnown then none else label)
  pure (insertAccount app req
    (resolveAccount label firstSegmentKnown hostLabelKnown app.defaultAccount))

/-! ### The middleware -/

def verifyAnonymous (account : String) (container comp : Option String) (isBlobScope : Bool)
    (method : Method) : Store AuthContext :=
  match container with
  | none           => fail (.new .authenticationFailed)
  | some container =>
    (FsBackend.getContainerProperties account container).finish fun
      | .error _  => fail (.new .containerNotFound)
      | .ok props =>
        let allowed :=
          if method ≠ .get ∧ method ≠ .head then false
          else if isBlobScope then props.publicAccess.allowsBlobRead
          else if comp = some "list" then props.publicAccess.allowsContainerListing
          else props.publicAccess.allowsContainerListing
        if allowed then pure ⟨account, .anonymous⟩ else fail (.new .containerNotFound)

/-- Only the anonymous scheme asks the store. -/
def authenticate (account key1 : String) (key2 : Option String) (container blob : Option String)
    (req : HttpRequest) : Store AuthContext :=
  let authHeader := headerStr req.headers "authorization"
  match (stripStart "SharedKey " authHeader).or (stripStart "SharedKeyLite " authHeader) with
  | some rest => ofExcept (verifySharedKey app account key1 key2 rest req req.params)
  | none      =>
    match stripStart "Bearer " authHeader with
    | some token => ofExcept (verifyBearer app account token)
    | none       =>
      match Sas.parseSasQuery req.params with
      | some params =>
        ofExcept (verifySas app m.now account key1 key2 params container blob blob.isSome
          (requiredPermission req.method req.comp))
      | none        => verifyAnonymous account container req.comp blob.isSome req.method

/-- The response to what a call answers. -/
def respond (render : Reply → Option Response) : Except AzureError Reply → Option Response
  | .ok reply  => render reply
  | .error err => some (azureErrorResponse m err m.errorId)

/-- Carries out a plan and finishes the response by `g`. -/
def carryOut (g : Response → Response) : Plan → Store (Option Response)
  | .answer resp   => pure (some (g resp))
  | .refuse err    => pure (some (g (azureErrorResponse m err m.errorId)))
  | .call c render =>
    (app.backend.call m.amb c).finish fun r => .ret (.ok ((respond m render r).map g))

def authMiddleware (req : HttpRequest) : Store (Option Response) :=
  match splitPath req.path with
  | (none, _, _) => pure (some (azureErrorResponse m (.new .requestUrlFailedToParse) m.requestId))
  | (some account, container, blob) => do
    let keys : Option (String × Option String) ← perform (Action.accountKeys account)
    match keys with
    | none              => pure (some (azureErrorResponse m (.new .authenticationFailed) m.requestId))
    | some (key1, key2) =>
      (authenticate app m account key1 key2 container blob req).finish fun
        | .ok _    =>
          carryOut app m (fun resp => finalizeResponse app m (stripBody req resp)) (plan app req)
        | .error e => pure (some (finalizeResponse app m (azureErrorResponse m e m.requestId)))

/-- The task of a request. -/
def serveHttp (req : HttpRequest) : Store (Option Response) :=
  if req.path = "/healthz" ∨ req.path = "/readyz" then pure (some (health req))
  else do
    let req ← accountResolve app req
    authMiddleware app m req

/-! ### Alone -/

variable {app m} {req : HttpRequest} {w : World}

lemma run_known (account : Option String) (w : World) :
    run Action.exec (known account) w =
      (.ok (account.any fun a => (w.db.accountKeys a).isSome), w) := by
  cases account with
  | none => rfl
  | some a => rfl

lemma run_accountResolve (req : HttpRequest) (w : World) :
    run Action.exec (accountResolve app req) w = (.ok (BlobStore.accountResolve app w.db req), w) := by
  have heq : BlobStore.accountResolve app w.db req = insertAccount app req
      (resolveAccount (((headerOpt req.headers "host").or req.uriHost).bind hostLabel)
        ((firstSegment req.path).any fun seg => (w.db.accountKeys seg).isSome)
        (((firstSegment req.path).any fun seg => (w.db.accountKeys seg).isSome) = false ∧
          (((headerOpt req.headers "host").or req.uriHost).bind hostLabel).any fun l =>
            (w.db.accountKeys l).isSome)
        app.defaultAccount) := rfl
  unfold accountResolve
  rw [run_bind_ok _ (run_known _ w), run_bind_ok _ (run_known _ w), run_pure, heq]
  cases (firstSegment req.path).any fun seg => (w.db.accountKeys seg).isSome with
  | true => simp [resolveAccount]
  | false => simp

/-- A call of a request: with its surroundings, and the response to what it answers. -/
structure Turn where
  req : Request
  respond : Except AzureError Reply → Option Response

instance : Inhabited Turn := ⟨⟨⟨⟨"", "", "", 0, 0, fun _ => 0, fun _ => false, none⟩,
  .getContainerProperties "" ""⟩, fun _ => none⟩⟩

/-- What follows is the call that the request's plan makes, whichever account its path is given. -/
def Makes (app : AppState) (m : Moment) (req : HttpRequest) (t : Turn) : Prop :=
  ∃ account render, plan app (insertAccount app req account) = .call t.req.call render ∧
    t.req.amb = m.amb ∧ t.respond = fun r => (respond m render r).map fun resp =>
      finalizeResponse app m (stripBody (insertAccount app req account) resp)

/-- The task looks, and then makes its call if it has one. -/
def OpensTo (app : AppState) (m : Moment) (req : HttpRequest) : Store (Option Response) → Prop :=
  Opens Action.IsRead (Makes app m req) (fun t => app.backend.call t.req.amb t.req.call)
    fun t r => .ok (t.respond r)

lemma issues_known (account : Option String) : Issues Action.IsRead (known account) := by
  cases account with
  | none => trivial
  | some account => exact ⟨trivial, fun _ => trivial⟩

lemma issues_getContainerProperties (a c : String) :
    Issues Action.IsRead (FsBackend.getContainerProperties a c) := by
  refine Issues.bind ⟨trivial, fun row => ?_⟩ fun _ => issues_pure
  cases row <;> trivial

lemma issues_verifyAnonymous (account : String) (container comp : Option String)
    (isBlobScope : Bool) (method : Method) :
    Issues Action.IsRead (verifyAnonymous account container comp isBlobScope method) := by
  cases container with
  | none => trivial
  | some container =>
    refine (issues_getContainerProperties account container).finish fun r => ?_
    cases r with
    | error e => trivial
    | ok props =>
      dsimp only
      split_ifs <;> trivial

lemma issues_authenticate (account key1 : String) (key2 container blob : Option String)
    (req : HttpRequest) :
    Issues Action.IsRead (authenticate app m account key1 key2 container blob req) := by
  unfold authenticate
  dsimp only
  split
  · trivial
  · split
    · trivial
    · split
      · trivial
      · exact issues_verifyAnonymous _ _ _ _ _

lemma opens_carryOut (account : Option String) :
    OpensTo app m req (carryOut app m (fun resp => finalizeResponse app m
      (stripBody (insertAccount app req account) resp)) (plan app (insertAccount app req account))) := by
  cases hplan : plan app (insertAccount app req account) with
  | answer resp => trivial
  | refuse err => trivial
  | call c render =>
    have hmakes : Makes app m req ⟨⟨m.amb, c⟩, fun r => (respond m render r).map fun resp =>
        finalizeResponse app m (stripBody (insertAccount app req account) resp)⟩ :=
      ⟨account, render, hplan, rfl, rfl⟩
    exact opens_body hmakes

lemma opens_authMiddleware (account : Option String) :
    OpensTo app m req (authMiddleware app m (insertAccount app req account)) := by
  unfold authMiddleware
  rcases splitPath (insertAccount app req account).path with ⟨_ | name, container, blob⟩
  · trivial
  · refine .inr ⟨trivial, fun keys => ?_⟩
    rcases keys with _ | ⟨key1, key2⟩
    · trivial
    · refine (issues_authenticate name key1 key2 container blob _).opens_finish fun r => ?_
      cases r with
      | error e => trivial
      | ok ctx => exact opens_carryOut account

/-- A task looks at the store and then makes at most one call. -/
theorem opens_serveHttp (app : AppState) (m : Moment) (req : HttpRequest) :
    OpensTo app m req (serveHttp app m req) := by
  unfold serveHttp
  split_ifs
  · trivial
  · unfold accountResolve
    simp only [bind_assoc, pure_bind]
    exact (issues_known _).opens_bind fun _ => (issues_known _).opens_bind fun _ =>
      opens_authMiddleware _

end Task
end BlobStore
