import BlobStore.Api.Anonymous
import BlobStore.Api.Interleaved
import BlobStore.Api.Unimplemented

/-!
# Nothing changes without credentials

Requests are served side by side, in any interleaving. The accounts do not change in between, so
what the middleware has found out about credentials stays true: every statement that changes
something is one of a request whose credentials were accepted (`httpRace_mediated`).
-/

namespace BlobStore

open Resumption Proc

/-- The statements and the calls that change nothing. -/
def Action.Looks (e : Action) : Prop := e.IsRead ∨ ∃ p, e = .openFile p

/-- The calls that change nothing. -/
def Call.Reads : Call → Prop
  | .getContainerProperties _ _ | .listContainers _ _ _ _ | .listBlobs _ _ _ _ _ _
  | .getBlob _ _ _ _ | .getBlobProperties _ _ _ | .getBlockList _ _ _ => True
  | _ => False

/-- The keys of an account are those of the table. -/
def Action.KeysOf (accounts : Table String AccountRow) : Event Action Action.Response → Prop
  | ⟨.accountKeys a, keys⟩ => keys = (MetadataDb.empty accounts).accountKeys a
  | _                      => True

/-- The credentials that a request shows are accepted, whatever else is stored. -/
def Credentialed (app : AppState) (m : Moment) (accounts : Table String AccountRow)
    (req : HttpRequest) (account : String) : Prop :=
  ∃ key1 key2 container blob ctx, ctx.method ≠ .anonymous ∧ ∀ w : World,
    w.db.accounts = accounts → Accepted app m req w account key1 key2 container blob ctx

/-- The request is one to put or to delete, and its credentials are accepted. -/
def MayChange (app : AppState) (m : Moment) (accounts : Table String AccountRow)
    (req : HttpRequest) : Prop :=
  (req.method = .put ∨ req.method = .delete) ∧ ∃ account, Credentialed app m accounts req account

/-- What changes something is asked for by the call of a request that may change something. -/
def Mediated (app : AppState) (m : Moment) (accounts : Table String AccountRow) (req : HttpRequest)
    (e : Action) : Prop :=
  e.Looks ∨ MayChange app m accounts req ∧
    ∃ call render, plan app req = .call call render ∧ call.Asks app.backend m.amb e

variable {app : AppState} {m : Moment} {req : HttpRequest} {accounts : Table String AccountRow}
  {B : FsBackend} {amb : Ambient} {call : Call} {e : Action}

/-! ### Calls that read -/

lemma Call.Asks.looks (h : call.Asks B amb e) (hcall : call.Reads) : e.Looks := by
  rcases h with hfile | hread | hwrite
  · cases call with
    | getBlob a c b range =>
      cases e with
      | openFile p => exact .inr ⟨p, rfl⟩
      | _ => cases hfile
    | _ => first | exact False.elim hcall | cases e <;> cases hfile
  · exact .inl hread
  · cases call <;> first | exact False.elim hcall | cases e <;> cases hwrite

/-- What a handler reads is all that it does. -/
lemma reads_plan (hmethod : req.method = .get ∨ req.method = .head)
    {render : Reply → Option Response} (hplan : plan app req = .call call render) : call.Reads := by
  have hreads : ∀ {c : Call}, c.readsIn.isSome = true → c.Reads := by
    intro c hc
    cases c <;> trivial
  cases htarget : req.target with
  | none =>
    obtain ⟨resp, hanswer, -⟩ : ∃ resp, plan app req = .answer resp ∧ 400 ≤ resp.status :=
      plan_of_no_target htarget
    rw [hanswer] at hplan
    cases hplan
  | some r =>
    rw [plan_of_target htarget] at hplan
    cases hr : r.container? with
    | none =>
      cases r with
      | account a =>
        have hhandler : handler app req (.account a) = some (listContainers app a req) := by
          rcases hmethod with hm | hm <;> simp only [handler, hm]
        rw [hhandler] at hplan
        cases hplan
        trivial
      | container a c => cases hr
      | blob a c b => cases hr
    | some c =>
      obtain ⟨call', render', hhandler, hc, -⟩ : ∃ call' render', handler app req r =
          some (.call call' render') ∧ call'.readsIn = some c ∧ _ := reads_handler hmethod hr
      rw [hhandler] at hplan
      cases hplan
      exact hreads (by rw [hc]; rfl)

/-- Only four methods have a handler. -/
lemma method_of_plan {render : Reply → Option Response} (hplan : plan app req = .call call render) :
    (req.method = .get ∨ req.method = .head) ∨ req.method = .put ∨ req.method = .delete := by
  cases htarget : req.target with
  | none =>
    obtain ⟨resp, hanswer, -⟩ : ∃ resp, plan app req = .answer resp ∧ 400 ≤ resp.status :=
      plan_of_no_target htarget
    rw [hanswer] at hplan
    cases hplan
  | some r =>
    rw [plan_of_target htarget] at hplan
    cases hm : req.method
    case get => exact .inl (.inl rfl)
    case head => exact .inl (.inr rfl)
    case put => exact .inr (.inl rfl)
    case delete => exact .inr (.inr rfl)
    all_goals cases r <;> simp [handler, hm] at hplan

/-! ### One task -/

/-- The steps of a task that has not made its call. -/
abbrev Looking {ε α : Type} (accounts : Table String AccountRow) (Q : Except ε α → Prop) :
    Proc Action Action.Response ε α → Prop :=
  Follows (Action.KeysOf accounts) (fun (_ : Unit) ev _ => ev.1.Looks) (fun _ => Q) ()

namespace Task

lemma looking_known (account : Option String) :
    Looking accounts (fun r => r = .ok (account.any fun a =>
      ((MetadataDb.empty accounts).accountKeys a).isSome)) (known account) := by
  cases account with
  | none => rfl
  | some a =>
    intro keys hkeys
    have hkeys' : keys = (MetadataDb.empty accounts).accountKeys a := hkeys
    exact ⟨(), .inl trivial, by rw [hkeys']; rfl⟩

/-- Two lookups, the second of which depends on the first, find what they find alone. -/
lemma looking_known_known (seg label : Option String) (f : Bool → Bool → HttpRequest)
    {p : Store HttpRequest} (hp : p = do
      let b ← known seg
      let b' ← known (if b then none else label)
      pure (f b b')) :
    Looking accounts
      (fun r => ∃ w : World, run Action.exec p ⟨.empty accounts, ⟨fun _ => none⟩⟩ = (r, w)) p := by
  subst hp
  refine (looking_known seg).bind (fun _ b hb => ?_) fun _ _ h => nomatch h
  refine (looking_known _).bind (fun _ b' hb' => ?_) fun _ _ h => nomatch h
  cases hb
  cases hb'
  exact ⟨_, by rw [run_bind_ok _ (run_known _ _), run_bind_ok _ (run_known _ _)]; rfl⟩

/-- A task finds the account that the table of accounts says. -/
lemma looking_accountResolve {p : Store HttpRequest} (hp : p = accountResolve app req)
    {req' : HttpRequest} (hreq' : req' = req.resolved app accounts) :
    Looking accounts (fun r => r = .ok req') p := by
  have hlook : Looking accounts (fun r => ∃ w : World,
      run Action.exec p ⟨.empty accounts, ⟨fun _ => none⟩⟩ = (r, w)) p :=
    looking_known_known (firstSegment req.path) _ _ hp
  refine hlook.mono fun _ r ⟨w, hr⟩ => ?_
  rw [hp, run_accountResolve] at hr
  rw [hreq']
  exact (congrArg Prod.fst hr).symm

/-- What is known of a context: it comes from credentials, or the request may be anyone's. -/
def Granted (app : AppState) (m : Moment) (account key1 : String)
    (key2 container blob : Option String) (req : HttpRequest) (ctx : AuthContext) : Prop :=
  (ctx.method ≠ .anonymous ∧ ∀ w,
    BlobStore.authenticate app m.now account key1 key2 container blob req w = .ok ctx) ∨
      req.method = .get ∨ req.method = .head

/-- The other schemes do not ask the store, and do not let anyone in without credentials. -/
lemma looking_ofExcept {account key1 : String} {key2 container blob : Option String}
    {r : Except AzureError AuthContext}
    (hauth : ∀ w, BlobStore.authenticate app m.now account key1 key2 container blob req w = r)
    (hr : ∀ ctx, r = .ok ctx → ctx.method ≠ .anonymous) :
    Looking accounts
      (fun r => ∀ ctx, r = .ok ctx → Granted app m account key1 key2 container blob req ctx)
      (ofExcept r) := by
  intro ctx hctx
  exact .inl ⟨hr ctx hctx, fun w => (hauth w).trans hctx⟩

lemma looking_verifyAnonymous (account key1 : String) (key2 container blob : Option String) :
    Looking accounts
      (fun r => ∀ ctx, r = .ok ctx → Granted app m account key1 key2 container blob req ctx)
      (verifyAnonymous account container req.comp blob.isSome req.method) := by
  cases container with
  | none => exact fun _ h => nomatch h
  | some c =>
    have hlook : Looking accounts (fun _ => True) (FsBackend.getContainerProperties account c) :=
      (issues_getContainerProperties account c).follows (fun e r he => .inl he) fun _ => trivial
    refine hlook.finish fun _ r _ => ?_
    cases r with
    | error e => exact fun _ h => nomatch h
    | ok props =>
      by_cases hmethod : req.method = .get ∨ req.method = .head
      · dsimp only
        split_ifs <;> exact fun ctx _ => .inr hmethod
      · have hmethod' : req.method ≠ .get ∧ req.method ≠ .head := not_or.mp hmethod
        dsimp only
        rw [if_pos hmethod', if_neg Bool.false_ne_true]
        exact fun _ h => nomatch h

lemma looking_authenticate (account key1 : String) (key2 container blob : Option String) :
    Looking accounts
      (fun r => ∀ ctx, r = .ok ctx → Granted app m account key1 key2 container blob req ctx)
      (authenticate app m account key1 key2 container blob req) := by
  unfold authenticate
  dsimp only
  split
  · next rest hscheme =>
    refine looking_ofExcept (fun w => by simp only [BlobStore.authenticate, hscheme]) ?_
    intro ctx hctx
    unfold verifySharedKey at hctx
    split at hctx
    · cases hctx
    · split_ifs at hctx
      split at hctx <;> cases hctx
      exact AuthMethod.noConfusion
  · next hscheme =>
    split
    · next token hbearer =>
      refine looking_ofExcept (fun w => by simp only [BlobStore.authenticate, hscheme, hbearer]) ?_
      intro ctx hctx
      unfold verifyBearer at hctx
      split at hctx
      · cases hctx
      · split at hctx <;> cases hctx
        exact AuthMethod.noConfusion
    · next hbearer =>
      split
      · next params hsas =>
        refine looking_ofExcept
          (fun w => by simp only [BlobStore.authenticate, hscheme, hbearer, hsas]) ?_
        intro ctx hctx
        unfold verifySas at hctx
        split at hctx
        · cases hctx
        · dsimp only at hctx
          split at hctx
          · cases hctx
          · split at hctx
            · cases hctx
            · split_ifs at hctx
              cases hctx
              exact AuthMethod.noConfusion
      · exact looking_verifyAnonymous account key1 key2 container blob

/-- Looking leaves a phase as it is. -/
lemma follows_of_looking {ε α Φ : Type} {Q : Except ε α → Prop} {p : Proc Action Action.Response ε α}
    (h : Looking accounts Q p) {Step : Φ → Event Action Action.Response → Φ → Prop} {φ : Φ}
    (hstep : ∀ ev : Event Action Action.Response, ev.1.Looks → Step φ ev φ) :
    Follows (Action.KeysOf accounts) Step (fun φ' r => φ' = φ ∧ Q r) φ p := by
  induction p with
  | ret r => exact ⟨rfl, h⟩
  | act e k ih =>
    intro r hr
    obtain ⟨_, hlook, hk⟩ := h r hr
    exact ⟨φ, hstep _ hlook, ih r hk⟩

/-- What is known of the calls that a request may make is known of all that it does. -/
structure Allows (A P : Event Action Action.Response → Prop) (app : AppState) (m : Moment)
    (accounts : Table String AccountRow) (req : HttpRequest) : Prop where
  known : ∀ ev, A ev → Action.KeysOf accounts ev
  look : ∀ ev : Event Action Action.Response, ev.1.Looks → P ev
  call : ∀ call render, plan app req = .call call render →
    call.Reads ∨ MayChange app m accounts req → Always A P (app.backend.call m.amb call)

variable {A P : Event Action Action.Response → Prop}

/-- The plan of a request that is let through is carried out. -/
lemma always_carryOut (h : Allows A P app m accounts req) {account key1 : String}
    {key2 container blob : Option String} {ctx : AuthContext}
    (hpath : splitPath req.path = (some account, container, blob))
    (hkeys : (MetadataDb.empty accounts).accountKeys account = some (key1, key2))
    (hctx : Granted app m account key1 key2 container blob req ctx) (g : Response → Response) :
    Always A P (carryOut app m g (plan app req)) := by
  cases hplan : plan app req with
  | answer resp => trivial
  | refuse err => trivial
  | call c render =>
    have hcall : Always A P (app.backend.call m.amb c) := by
      refine h.call c render hplan ?_
      by_cases hread : req.method = .get ∨ req.method = .head
      · exact .inl (reads_plan hread hplan)
      · obtain ⟨hmethod, hauth⟩ := hctx.resolve_right hread
        refine .inr ⟨(method_of_plan hplan).resolve_left hread, account, key1, key2, container,
          blob, ctx, hmethod, fun w hw => ⟨hpath, ?_, hauth w⟩⟩
        rw [← hkeys, MetadataDb.accountKeys, hw]
        rfl
    exact hcall.finish fun _ _ _ => trivial

lemma always_authMiddleware (h : Allows A P app m accounts req) :
    Always A P (authMiddleware app m req) := by
  unfold authMiddleware
  rcases hpath : splitPath req.path with ⟨_ | account, container, blob⟩
  · trivial
  · intro keys hkeys
    have hkeys' : keys = (MetadataDb.empty accounts).accountKeys account := h.known _ hkeys
    refine ⟨(), h.look _ (.inl trivial), ?_⟩
    rcases keys with _ | ⟨key1, key2⟩
    · trivial
    · refine ((follows_of_looking (looking_authenticate account key1 key2 container blob)
        fun ev hlook => h.look ev hlook).assume h.known).finish fun _ r hr => ?_
      cases r with
      | error e => trivial
      | ok ctx => exact always_carryOut h hpath hkeys'.symm (hr.2 ctx rfl) _

/-- A task looks, and makes the call that its method or its credentials allow. -/
lemma always_serveHttp (h : Allows A P app m accounts (req.resolved app accounts)) :
    Always A P (serveHttp app m req) := by
  unfold serveHttp
  split_ifs with hhealth
  · trivial
  · -- the process and the request as variables, so that unification does not evaluate them
    generalize hp : accountResolve app req = p
    generalize hreq' : req.resolved app accounts = req' at h
    have hresolve := looking_accountResolve hp.symm hreq'.symm
    refine ((follows_of_looking hresolve fun ev hlook => h.look ev hlook).assume h.known).bind
      (fun _ req'' hreq => ?_) fun _ _ _ => trivial
    cases hreq.2
    exact always_authMiddleware h

/-- What changes something is asked for by a call that may. -/
lemma allows_mediated (app : AppState) (m : Moment) (accounts : Table String AccountRow)
    (req : HttpRequest) : Allows (Action.KeysOf accounts)
      (fun ev => Mediated app m accounts req ev.1) app m accounts req where
  known _ h := h
  look _ h := .inl h
  call c render hplan hc := by
    refine (issues_asks m.amb c).always fun e _ he => ?_
    rcases hc with hreads | hmay
    · exact .inl (he.looks hreads)
    · exact .inr ⟨hmay, c, render, hplan, he⟩

end Task

/-! ### All of them -/

variable {ι : Type} {w : World}

lemma Action.Looks.exec (h : e.Looks) (w : World) : (e.exec w).2 = w := by
  rcases h with hread | ⟨p, rfl⟩
  · exact Action.IsRead.exec hread w
  · rfl

lemma keysOf_exec (hw : w.db.accounts = accounts) (e : Action) :
    Action.KeysOf accounts ⟨e, (e.exec w).1⟩ := by
  cases e with
  | accountKeys a =>
    subst hw
    rfl
  | _ => trivial

/-- Events that change nothing may be left out. -/
lemma after_filter {trusted : ι → Bool} {tr : Trace ι Action Action.Response}
    (htr : ∀ x ∈ tr, trusted x.1 = false → x.2.1.Looks) (w : World) :
    after Action.exec w (tr.filter fun x => trusted x.1) = after Action.exec w tr := by
  induction tr generalizing w with
  | nil => rfl
  | cons x tr ih =>
    have htail := ih fun y hy => htr y (List.mem_cons_of_mem x hy)
    rw [List.filter_cons, after_cons]
    cases hx : trusted x.1 with
    | true => rw [if_pos rfl, after_cons, htail]
    | false =>
      rw [if_neg Bool.false_ne_true, htail, (htr x List.mem_cons_self hx).exec]

variable [DecidableEq ι]

/-- In every interleaving, what changes the store is asked for by requests with credentials, and the
store is what their statements alone lead to. -/
theorem httpRace_mediated (app : AppState) (arrivals : ι → Arrival) (w : World)
    (schedule : List ι) :
    (∀ x ∈ (httpRace app arrivals w schedule).trace, Mediated app (arrivals x.1).moment
      w.db.accounts ((arrivals x.1).req.resolved app w.db.accounts) x.2.1) ∧
    ∀ trusted : ι → Bool,
      (∀ i, MayChange app (arrivals i).moment w.db.accounts
        ((arrivals i).req.resolved app w.db.accounts) → trusted i = true) →
      (httpRace app arrivals w schedule).state = after Action.exec w
        ((httpRace app arrivals w schedule).trace.filter fun x => trusted x.1) := by
  have hevents : ∀ x ∈ (httpRace app arrivals w schedule).trace, Mediated app (arrivals x.1).moment
      w.db.accounts ((arrivals x.1).req.resolved app w.db.accounts) x.2.1 :=
    Conf.run_always Action.exec (J := fun v : World => v.db.accounts = w.db.accounts)
      (fun v e hv => keysOf_exec hv e) (fun v _ e hv _ => (accounts_exec e v).trans hv) rfl
      (fun i => Task.always_serveHttp (Task.allows_mediated app (arrivals i).moment w.db.accounts _))
      schedule
  refine ⟨hevents, fun trusted htrusted => ?_⟩
  have hrecorded : Recorded Action.exec w (httpRace app arrivals w schedule) :=
    Conf.run_recorded Action.exec _ w schedule
  rw [after_filter, hrecorded.state]
  intro x hx huntrusted
  rcases hevents x hx with hlook | ⟨hmay, -⟩
  · exact hlook
  · rw [htrusted x.1 hmay] at huntrusted
    cases huntrusted

/-! ### Without credentials -/

/-- The container that the path of a request names, and whether it names a blob. -/
def HttpRequest.scope (req : HttpRequest) : Option (ContainerKey × Bool) :=
  match splitPath req.path with
  | (some account, some container, blob) => some (⟨account, container⟩, blob.isSome)
  | _                                    => none

/-- The row of the container is found, and it is open for the request. -/
def HttpRequest.SeesOpen (req : HttpRequest) : Event Action Action.Response → Prop
  | ⟨.getContainer c, some row⟩ => ∃ isBlobScope, req.scope = some (c, isBlobScope) ∧
    row.publicAccessLevel.opens req.method isBlobScope = true
  | _ => False

/-- Whether the container has been seen open. -/
def HttpRequest.OpenStep (req : HttpRequest) (seen : Bool) (ev : Event Action Action.Response)
    (seen' : Bool) : Prop :=
  seen' = seen ∨ seen' = true ∧ req.SeesOpen ev

/-- The response is no success, unless the container has been seen open. -/
abbrev OpenedFirst (accounts : Table String AccountRow) (req : HttpRequest) :
    Bool → Store (Option Response) → Prop :=
  Follows (Action.KeysOf accounts) req.OpenStep fun seen r =>
    ∀ resp, r = .ok (some resp) → resp.status < 400 → seen = true

namespace Task

omit [DecidableEq ι] in
/-- Afterwards anything goes. -/
lemma openedFirst_seen (p : Store (Option Response)) : OpenedFirst accounts req true p :=
  follows_of_stay (fun _ => .inl rfl) (fun _ _ _ _ => rfl) p

lemma openedFirst_error (seen : Bool) (err : AzureError) {g : Response → Response}
    (hg : ∀ resp, (g resp).status = resp.status) :
    OpenedFirst accounts req seen (pure (some (g (azureErrorResponse m err m.requestId)))) := by
  intro resp hresp hok
  cases hresp
  rw [hg] at hok
  exact absurd hok (not_lt.mpr (azureErrorResponse_status m err m.requestId))

lemma follows_getContainerProperties {c : ContainerKey} {isBlobScope : Bool}
    (hscope : req.scope = some (c, isBlobScope)) :
    Follows (Action.KeysOf accounts) req.OpenStep
      (fun seen r => ∀ props, r = .ok props →
        props.publicAccess.opens req.method isBlobScope = true → seen = true) false
      (FsBackend.getContainerProperties c.account c.container) := by
  intro row _
  cases row with
  | none => exact ⟨false, .inl rfl, fun _ h => nomatch h⟩
  | some row =>
    cases hopen : row.publicAccessLevel.opens req.method isBlobScope with
    | true => exact ⟨true, .inr ⟨rfl, isBlobScope, hscope, hopen⟩, fun _ _ _ => rfl⟩
    | false =>
      refine ⟨false, .inl rfl, fun props hprops hopen' => ?_⟩
      cases hprops
      exact hopen.symm.trans hopen'

lemma follows_verifyAnonymous {c : ContainerKey} {isBlobScope : Bool}
    (hscope : req.scope = some (c, isBlobScope)) (comp : Option String) :
    Follows (Action.KeysOf accounts) req.OpenStep (fun seen r => ∀ ctx, r = .ok ctx → seen = true)
      false (verifyAnonymous c.account (some c.container) comp isBlobScope req.method) := by
  refine (follows_getContainerProperties hscope).finish fun seen r hr => ?_
  cases r with
  | error e => exact fun _ h => nomatch h
  | ok props =>
    have hseen := hr props rfl
    unfold PublicAccessLevel.opens at hseen
    by_cases hmethod : req.method = .get ∨ req.method = .head
    · have hmethod' : ¬ (req.method ≠ .get ∧ req.method ≠ .head) := fun h => hmethod.elim h.1 h.2
      dsimp only
      rw [if_neg hmethod', ite_self]
      rw [decide_eq_true hmethod, Bool.true_and] at hseen
      split_ifs at hseen ⊢ with hblob hallowed
      all_goals first | exact fun _ _ => hseen ‹_› | exact fun _ h => nomatch h
    · have hmethod' : req.method ≠ .get ∧ req.method ≠ .head := not_or.mp hmethod
      dsimp only
      rw [if_pos hmethod', if_neg Bool.false_ne_true]
      exact fun _ h => nomatch h

/-- A task without credentials looks whether the container is open. -/
lemma openedFirst_authMiddleware (hreq : req.Unsigned) :
    OpenedFirst accounts req false (authMiddleware app m req) := by
  unfold authMiddleware
  rcases hpath : splitPath req.path with ⟨_ | account, container, blob⟩
  · exact openedFirst_error _ _ (g := id) fun _ => rfl
  · intro keys _
    refine ⟨false, .inl rfl, ?_⟩
    rcases keys with _ | ⟨key1, key2⟩
    · exact openedFirst_error _ _ (g := id) fun _ => rfl
    · have hauth : authenticate app m account key1 key2 container blob req =
          verifyAnonymous account container req.comp blob.isSome req.method := by
        simp only [authenticate, hreq.sharedKey, hreq.sharedKeyLite, hreq.bearer, hreq.token,
          Option.or_none]
      dsimp only [Proc.bind]
      rw [hauth]
      cases container with
      | none => exact openedFirst_error _ _ (finalizeResponse_status app m)
      | some c =>
        have hscope : req.scope = some (⟨account, c⟩, blob.isSome) := by
          unfold HttpRequest.scope
          rw [hpath]
        refine (follows_verifyAnonymous hscope req.comp).finish fun seen r hr => ?_
        cases r with
        | error e => exact openedFirst_error _ _ (finalizeResponse_status app m)
        | ok ctx =>
          rw [hr ctx rfl]
          exact openedFirst_seen _

/-- Nothing but looking happens before the middleware. -/
lemma openedFirst_serveHttp (hhealth : ¬ (req.path = "/healthz" ∨ req.path = "/readyz"))
    (hreq : (req.resolved app accounts).Unsigned) :
    OpenedFirst accounts (req.resolved app accounts) false (serveHttp app m req) := by
  unfold serveHttp
  rw [if_neg hhealth]
  generalize hp : accountResolve app req = p
  generalize hreq' : req.resolved app accounts = req' at hreq
  have hresolve := looking_accountResolve hp.symm hreq'.symm
  refine (follows_of_looking hresolve fun _ _ => .inl rfl).bind (fun _ req'' h => ?_) fun _ _ h => ?_
  · cases h.1
    cases h.2
    exact openedFirst_authMiddleware hreq
  · cases h.2

end Task

/-- What is known at every moment of a run: if request `i` has seen the container open, it was. -/
structure SeenOpen (app : AppState) (arrivals : ι → Arrival) (w : World) (i : ι) (v : World)
    (tr : Trace ι Action Action.Response) (seen : ι → Bool) : Prop where
  accounts : v.db.accounts = w.db.accounts
  state : v = after Action.exec w tr
  opened : seen i = true → ∃ c isBlobScope tr', tr' <+: tr ∧
    ((arrivals i).req.resolved app w.db.accounts).scope = some (c, isBlobScope) ∧
    ((after Action.exec w tr').db.level c).opens
      ((arrivals i).req.resolved app w.db.accounts).method isBlobScope = true

lemma SeenOpen.step {arrivals : ι → Arrival} {i j : ι} {v : World}
    {tr : Trace ι Action Action.Response} {seen : ι → Bool} {now : Bool}
    (h : SeenOpen app arrivals w i v tr seen)
    (hstep : now = seen j ∨ now = true ∧ j = i ∧
      ((arrivals i).req.resolved app w.db.accounts).SeesOpen ⟨e, (e.exec v).1⟩) :
    SeenOpen app arrivals w i (e.exec v).2 (tr ++ [(j, ⟨e, (e.exec v).1⟩)])
      (Function.update seen j now) := by
  refine ⟨(accounts_exec e v).trans h.accounts, ?_, fun hnow => ?_⟩
  · rw [after_append, ← h.state]
    rfl
  · rcases hstep with hsame | ⟨-, rfl, hsees⟩
    · have hi : seen i = true := by
        by_cases hij : i = j
        · subst hij
          rw [← hsame, ← hnow, Function.update_self]
        · rwa [Function.update_of_ne hij] at hnow
      obtain ⟨c, isBlobScope, tr', htr', hscope, hopen⟩ := h.opened hi
      exact ⟨c, isBlobScope, tr', htr'.trans (List.prefix_append _ _), hscope, hopen⟩
    · cases e with
      | getContainer c =>
        change HttpRequest.SeesOpen _ ⟨.getContainer c, v.db.getContainer c⟩ at hsees
        cases hrow : v.db.getContainer c with
        | none =>
          rw [hrow] at hsees
          exact False.elim hsees
        | some row =>
          rw [hrow] at hsees
          obtain ⟨isBlobScope, hscope, hopen⟩ := hsees
          refine ⟨c, isBlobScope, tr, List.prefix_append _ _, hscope, ?_⟩
          rw [← h.state, MetadataDb.level, hrow]
          exact hopen
      | _ => exact False.elim hsees

/-- A request without credentials that succeeds, in whatever interleaving: at some moment before,
the container in its path was open for it. -/
theorem httpRace_opened {app : AppState} {arrivals : ι → Arrival} {w : World} {schedule : List ι}
    {i : ι} {resp : Response}
    (hhealth : ¬ ((arrivals i).req.path = "/healthz" ∨ (arrivals i).req.path = "/readyz"))
    (hreq : ((arrivals i).req.resolved app w.db.accounts).Unsigned)
    (hreturned : (httpRace app arrivals w schedule).Returned i (.ok (some resp)))
    (hok : resp.status < 400) :
    ∃ c isBlobScope tr, tr <+: (httpRace app arrivals w schedule).trace ∧
      ((arrivals i).req.resolved app w.db.accounts).scope = some (c, isBlobScope) ∧
      ((after Action.exec w tr).db.level c).opens
        ((arrivals i).req.resolved app w.db.accounts).method isBlobScope = true := by
  -- the phase is whether request `i` has seen the container open
  have hpool : ∀ j, Follows (Action.KeysOf w.db.accounts)
      (fun seen ev seen' => seen' = seen ∨ seen' = true ∧ j = i ∧
        ((arrivals i).req.resolved app w.db.accounts).SeesOpen ev)
      (fun seen r => j = i → ∀ resp, r = .ok (some resp) → resp.status < 400 → seen = true)
      false (Task.serveHttp app (arrivals j).moment (arrivals j).req) := by
    intro j
    by_cases hj : j = i
    · subst hj
      have htask := @Task.openedFirst_serveHttp app (arrivals j).moment (arrivals j).req
        w.db.accounts hhealth hreq
      exact htask.imp (fun seen ev seen' h => h.imp_right fun h => ⟨h.1, rfl, h.2⟩)
        fun seen r h _ => h
    · exact follows_of_stay (fun _ => .inl rfl) (fun _ h => absurd h hj) _
  have hinit : SeenOpen app arrivals w i w [] fun _ => false := ⟨rfl, rfl, fun h => nomatch h⟩
  obtain ⟨φ, hI, hfollows⟩ := Conf.run_upheld Action.exec
    (fun v tr φ e hI => keysOf_exec hI.accounts e)
    (fun v tr φ j e seen hI hstep => hI.step hstep) hinit hpool schedule
  exact hI.opened ((hfollows i).outcome hreturned rfl resp rfl hok)

/-- Someone reads a container while its owner closes it. -/
def sampleClosing : Fin 2 → Arrival
  | 0 => ⟨sampleMoment, sampleAnonymous "/acc/c"⟩
  | 1 => ⟨sampleMoment,
    { sampleAnonymous "/acc/c" with
      method  := .put
      query   := some "comp=acl"
      headers := [("authorization", some "Bearer t")] }⟩

/-- A store with an open container. -/
def sampleOpenContainer : World :=
  sample.serve (sample.fresh sampleAccounts) [⟨sampleAmb 1, .createContainer "acc" "c" .container ∅⟩]

/-- The container is read after it was closed, and was open when the reader looked. -/
theorem httpRace_opened_closing :
    ((httpRace sampleBearerApp sampleClosing sampleOpenContainer
      ([0, 0, 0] ++ List.replicate 5 1 ++ [0])).state.db.level ⟨"acc", "c"⟩ = .off) ∧
    ∃ resp, (httpRace sampleBearerApp sampleClosing sampleOpenContainer
        ([0, 0, 0] ++ List.replicate 5 1 ++ [0])).Returned 0 (.ok (some resp)) ∧ resp.status = 200 ∧
      ∃ c isBlobScope tr, tr <+: (httpRace sampleBearerApp sampleClosing sampleOpenContainer
          ([0, 0, 0] ++ List.replicate 5 1 ++ [0])).trace ∧
        ((sampleClosing 0).req.resolved sampleBearerApp sampleOpenContainer.db.accounts).scope =
          some (c, isBlobScope) ∧
        ((after Action.exec sampleOpenContainer tr).db.level c).opens
          ((sampleClosing 0).req.resolved sampleBearerApp sampleOpenContainer.db.accounts).method
          isBlobScope = true := by
  have hresolved : (sampleClosing 0).req.resolved sampleBearerApp sampleOpenContainer.db.accounts =
      sampleAnonymous "/acc/c" := by
    unfold HttpRequest.resolved accountResolve
    dsimp only
    split <;> rfl
  have hreq : ((sampleClosing 0).req.resolved sampleBearerApp
      sampleOpenContainer.db.accounts).Unsigned := by
    rw [hresolved]
    exact ⟨by rfl, by rfl, by rfl, by rfl⟩
  have hrun : (httpRace sampleBearerApp sampleClosing sampleOpenContainer
        ([0, 0, 0] ++ List.replicate 5 1 ++ [0])).state.db.level ⟨"acc", "c"⟩ = .off ∧
      (((httpRace sampleBearerApp sampleClosing sampleOpenContainer
        ([0, 0, 0] ++ List.replicate 5 1 ++ [0])).pool 0).outcome?.bind fun r =>
          r.toOption.bind fun resp? => resp?.map Response.status) = some 200 := by
    decide +kernel
  refine ⟨hrun.1, ?_⟩
  obtain ⟨r, hr, hstatus⟩ := Option.bind_eq_some_iff.mp hrun.2
  obtain ⟨resp?, hr', hmap⟩ := Option.bind_eq_some_iff.mp hstatus
  obtain ⟨resp, hsome, hok⟩ := Option.map_eq_some_iff.mp hmap
  subst hsome
  have hreturned : (httpRace sampleBearerApp sampleClosing sampleOpenContainer
      ([0, 0, 0] ++ List.replicate 5 1 ++ [0])).Returned 0 (.ok (some resp)) := by
    cases r with
    | error e => cases hr'
    | ok resp' =>
      cases hr'
      exact hr
  exact ⟨resp, hreturned, hok, httpRace_opened (by decide) hreq hreturned (by omega)⟩

end BlobStore
