import BlobStore.Api.Router

/-!
# What is carried out

The router finds a handler by the raw path, and the handler makes at most one call. A request that
the middleware lets through is answered by that call; any other request is refused and changes
nothing.
-/

namespace BlobStore

open Codec

/-- The route of a request with its decoded parameters. -/
def HttpRequest.target (req : HttpRequest) : Option Route :=
  (matchRoute req.path).bind fun r => r.decode.toOption

/-- The middleware lets a request through. -/
structure Accepted (app : AppState) (m : Moment) (req : HttpRequest) (w : World)
    (account key1 : String) (key2 container blob : Option String) (ctx : AuthContext) : Prop where
  path : splitPath req.path = (some account, container, blob)
  keys : w.db.accountKeys account = some (key1, key2)
  auth : authenticate app m.now account key1 key2 container blob req w = .ok ctx

/-- The middleware lets a request through, by whatever scheme. -/
def Authorized (app : AppState) (m : Moment) (req : HttpRequest) (w : World) : Prop :=
  ∃ account key1 key2 container blob ctx, Accepted app m req w account key1 key2 container blob ctx

variable {app : AppState} {m : Moment} {req : HttpRequest} {w : World}

/-! ### Routes -/

@[simp] lemma decode_account {a : String} {r : Route} :
    (Route.account a).decode = .ok r ↔ ∃ a', Percent.decode a = some a' ∧ .account a' = r := by
  cases ha : Percent.decode a <;> simp [Route.decode, ha]

@[simp] lemma decode_container {a c : String} {r : Route} :
    (Route.container a c).decode = .ok r ↔
      ∃ a' c', Percent.decode a = some a' ∧ Percent.decode c = some c' ∧ .container a' c' = r := by
  cases ha : Percent.decode a <;> cases hc : Percent.decode c <;> simp [Route.decode, ha, hc]

@[simp] lemma decode_blob {a c b : String} {r : Route} :
    (Route.blob a c b).decode = .ok r ↔
      ∃ a' c' b', Percent.decode a = some a' ∧ Percent.decode c = some c' ∧
        Percent.decode b = some b' ∧ .blob a' c' b' = r := by
  cases ha : Percent.decode a <;> cases hc : Percent.decode c <;> cases hb : Percent.decode b <;>
    simp [Route.decode, ha, hc, hb]

/-- Whether there is a handler depends on the kind of the route only. -/
lemma handler_decode {r r' : Route} (h : r.decode = .ok r') :
    (handler app req r').isSome = (handler app req r).isSome ∧ r'.allow = r.allow := by
  cases r with
  | account a =>
    obtain ⟨a', -, rfl⟩ := decode_account.mp h
    unfold handler
    cases req.method <;> exact ⟨rfl, rfl⟩
  | container a c =>
    obtain ⟨a', c', -, -, rfl⟩ := decode_container.mp h
    unfold handler
    cases req.method <;> exact ⟨rfl, rfl⟩
  | blob a c b =>
    obtain ⟨a', c', b', -, -, -, rfl⟩ := decode_blob.mp h
    unfold handler
    cases req.method <;> exact ⟨rfl, rfl⟩

lemma target_eq_some {r : Route} :
    req.target = some r ↔ ∃ r₀, matchRoute req.path = some r₀ ∧ r₀.decode = .ok r := by
  unfold HttpRequest.target
  rw [Option.bind_eq_some_iff]
  refine exists_congr fun r₀ => and_congr_right fun _ => ?_
  cases r₀.decode <;> simp [Except.toOption]

lemma plan_of_target {r : Route} (h : req.target = some r) :
    plan app req = (handler app req r).getD (.answer (methodNotAllowed r.allow)) := by
  obtain ⟨r₀, hmatch, hok⟩ := target_eq_some.mp h
  obtain ⟨hsome, hallow⟩ : (handler app req r).isSome = (handler app req r₀).isSome ∧
      r.allow = r₀.allow := handler_decode hok
  unfold plan
  simp only [hmatch, hok]
  cases hr : handler app req r with
  | none =>
    rw [hr] at hsome
    cases hr₀ : handler app req r₀ with
    | none => simp [hallow]
    | some p => simp [hr₀] at hsome
  | some p =>
    rw [hr] at hsome
    cases hr₀ : handler app req r₀ with
    | none => simp [hr₀] at hsome
    | some p' => rfl

/-- A request without a route is refused. -/
lemma plan_of_no_target (h : req.target = none) :
    ∃ resp, plan app req = .answer resp ∧ 400 ≤ resp.status := by
  unfold plan
  cases hmatch : matchRoute req.path with
  | none => exact ⟨notFound, rfl, by decide⟩
  | some r =>
    cases hhandler : handler app req r with
    | none => exact ⟨methodNotAllowed r.allow, by simp [hhandler], by simp [methodNotAllowed]⟩
    | some p =>
      cases hdecode : r.decode with
      | error name => exact ⟨badParameter name, by simp [hhandler, hdecode], by simp [badParameter]⟩
      | ok r' => simp [HttpRequest.target, hmatch, hdecode, Except.toOption] at h

/-! ### Responses -/

@[simp] lemma stripBody_status (req : HttpRequest) (resp : Response) :
    (stripBody req resp).status = resp.status := by
  unfold stripBody
  split_ifs <;> rfl

@[simp] lemma finalizeResponse_status (app : AppState) (m : Moment) (resp : Response) :
    (finalizeResponse app m resp).status = resp.status := rfl

/-- A request that is let through gets the response of its plan. -/
lemma Accepted.run {account key1 : String} {key2 container blob : Option String} {ctx : AuthContext}
    (h : Accepted app m req w account key1 key2 container blob ctx) :
    authMiddleware app m req w =
      (((plan app req).run app m w).1.map fun resp => finalizeResponse app m (stripBody req resp),
        ((plan app req).run app m w).2) := by
  unfold authMiddleware
  simp only [h.path, h.keys, h.auth, route, Option.map_map]
  rfl

/-- The answer of a request is an error. -/
def IsError : Option Response → Prop
  | some resp => 400 ≤ resp.status
  | none      => False

lemma Accepted.isError {account key1 : String} {key2 container blob : Option String}
    {ctx : AuthContext} (h : Accepted app m req w account key1 key2 container blob ctx) :
    IsError (authMiddleware app m req w).1 ↔ IsError ((plan app req).run app m w).1 := by
  rw [h.run]
  cases ((plan app req).run app m w).1 with
  | none => rfl
  | some resp => simp [IsError]

lemma azureErrorResponse_status (m : Moment) (err : AzureError) (id : String) :
    400 ≤ (azureErrorResponse m err id).status := err.code.statusCode_ge

end BlobStore
