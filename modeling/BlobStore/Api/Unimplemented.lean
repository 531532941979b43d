import BlobStore.Api.Dispatch
import BlobStore.Api.SasBinding
import BlobStore.Storage.FailedCalls

/-!
# Operations that are not implemented

The handlers choose by `comp` among the operations they know, and take anything else for the plain
operation of the method. A request for an operation that is not implemented is therefore carried
out as another one: it leaves the store alone exactly if that other one fails.
-/

namespace BlobStore

open Codec FileTree Resumption Proc

variable {B : FsBackend} {amb : Ambient} {w : World}

/-! ### Calls that fail and change nothing -/

/-- The call fails, and all rows and the bytes behind them are as before. -/
def Refused (B : FsBackend) (amb : Ambient) (call : Call) (w : World) : Prop :=
  (∃ e, ((B.call amb call).run w).1 = .error e) ∧
    B.shelf ((B.call amb call).run w).2 = B.shelf w

section Refused

variable {α : Type} {p : Store α} {f : α → Reply} {call : Call}

lemma Refused.of_run (hcall : B.call amb call = do return f (← p)) {e : AzureError}
    (h : run Action.exec p w = (.error e, w)) : Refused B amb call w := by
  have hrun : (B.call amb call).run w = (.error e, w) := by
    rw [hcall]
    exact run_bind_pure _ h f
  exact ⟨⟨e, by rw [hrun]⟩, by rw [hrun]⟩

lemma not_refused_of_ok (hcall : B.call amb call = do return f (← p)) {x : α}
    (h : (run Action.exec p w).1 = .ok x) : ¬ Refused B amb call w := by
  rintro ⟨⟨e, he⟩, -⟩
  have hrun : (B.call amb call).run w = (.ok (f x), (run Action.exec p w).2) := by
    rw [hcall]
    exact run_bind_pure _ (Prod.ext h rfl) f
  rw [hrun] at he
  cases he

end Refused

lemma insertContainer_error {c : ContainerKey} {r : ContainerRecord} {db : MetadataDb}
    {fault : Option String} (h : fault.isSome = true ∨ (db.containers.lookup c).isSome = true ∨
      (db.accounts.lookup c.account).isNone = true) :
    ∃ e, MetadataDb.guarded fault (MetadataDb.insertContainer c r) db = (.error e, db) := by
  cases fault with
  | some message => exact ⟨_, rfl⟩
  | none =>
    unfold MetadataDb.guarded MetadataDb.insertContainer
    by_cases hc : (db.containers.lookup c).isSome = true
    · exact ⟨_, if_pos hc⟩
    · have ha : (db.accounts.lookup c.account).isNone = true := by simpa [hc] using h
      exact ⟨_, by rw [if_neg hc, if_pos ha]⟩

lemma refused_createContainer {a c : String} {pa : PublicAccessLevel} {m : Metadata} :
    Refused B amb (.createContainer a c pa m) w ↔ amb.dbFault.isSome = true ∨
      (w.db.containers.lookup ⟨a, c⟩).isSome = true ∨
      (w.db.accounts.lookup a).isNone = true := by
  constructor
  · rintro ⟨-, hsame⟩
    by_contra hnot
    simp only [not_or, Bool.not_eq_true, Option.isSome_eq_false_iff, Option.isNone_iff_eq_none]
      at hnot
    obtain ⟨hfault, hc, ha⟩ := hnot
    have hdb := db_createContainer (B := B) amb a c pa m w
    have hnew : (((B.call amb (.createContainer a c pa m)).run w).2.db.containers.lookup
        ⟨a, c⟩).isSome = true := by
      rw [hdb, hfault]
      simp [MetadataDb.guarded, MetadataDb.insertContainer, hc, ha]
    have hdb' : ((B.call amb (.createContainer a c pa m)).run w).2.db = w.db :=
      congrArg Shelf.db hsame
    rw [hdb', hc] at hnew
    cases hnew
  · intro h
    obtain ⟨e, he⟩ := insertContainer_error (c := ⟨a, c⟩)
      (r := ⟨pa.asDbStr, m, amb.etag, amb.lastModified⟩) h
    have hexec : Action.exec (.insertContainer amb.dbFault ⟨a, c⟩
        ⟨pa.asDbStr, m, amb.etag, amb.lastModified⟩) w = (.error e, w) :=
      congrArg (fun r => (r.1, { w with db := r.2 })) he
    have hrun : ∃ e', run Action.exec (B.createContainer amb a c pa m) w = (.error e', w) := by
      rw [FsBackend.createContainer, run_perform_bind, hexec]
      cases e <;> exact ⟨_, rfl⟩
    obtain ⟨e', hrun⟩ := hrun
    exact .of_run (f := Reply.container) rfl hrun

lemma refused_deleteContainer {a c : String} :
    Refused B amb (.deleteContainer a c) w ↔ amb.dbFault.isSome = true ∨
      (w.db.containers.lookup ⟨a, c⟩).isNone = true := by
  have hcall : B.call amb (.deleteContainer a c) =
      do return (fun _ => Reply.done) (← B.deleteContainer amb a c) := rfl
  cases hc : w.db.containers.lookup ⟨a, c⟩ with
  | none =>
    have hrow : Shelf.container ⟨a, c⟩ w.db = .error (.new .containerNotFound) := by
      simp [Shelf.container, MetadataDb.getContainer, hc]
    have hrun := (run_requireContainer a c w).trans (by rw [hrow])
    exact iff_of_true (.of_run hcall (run_bind_error _ hrun _)) (by simp)
  | some r =>
    have hsome : (w.db.containers.lookup ⟨a, c⟩).isSome = true := by simp [hc]
    obtain ⟨row, hrow⟩ := exists_container.mpr hsome
    have hrun : run Action.exec (requireContainer a c) w = (.ok row, w) := by
      rw [run_requireContainer, hrow]
    cases hfault : amb.dbFault with
    | some message =>
      refine iff_of_true (.of_run hcall (e := sqlError (.other message)) ?_) (by simp)
      rw [FsBackend.deleteContainer, run_bind_ok _ hrun, run_perform_bind, hfault]
      rfl
    | none =>
      refine iff_of_false (not_refused_of_ok hcall (x := ()) ?_) (by simp)
      rw [FsBackend.deleteContainer, run_bind_ok _ hrun, run_perform_bind, hfault]
      refine (congrArg Prod.fst (run_bind_ok _ (Prod.ext (run_removeAll_ok _ _ _) rfl) _)).trans ?_
      rfl

lemma refused_deleteBlob {a c b : String} :
    Refused B amb (.deleteBlob a c b) w ↔ amb.dbFault.isSome = true ∨
      (w.db.blobs.lookup ⟨a, c, b⟩).isNone = true := by
  have hcall : B.call amb (.deleteBlob a c b) =
      do return (fun _ => Reply.done) (← B.deleteBlob amb a c b) := rfl
  have hrun := run_requireBlob a c b w
  unfold Shelf.blob MetadataDb.getBlob at hrun
  cases hb : w.db.blobs.lookup ⟨a, c, b⟩ with
  | none =>
    rw [hb] at hrun
    exact iff_of_true (.of_run hcall (run_bind_error _ hrun _)) (by simp)
  | some row =>
    rw [hb] at hrun
    cases hfault : amb.dbFault with
    | some message =>
      refine iff_of_true (.of_run hcall (e := sqlError (.other message)) ?_) (by simp)
      rw [FsBackend.deleteBlob, run_bind_ok _ hrun, run_perform_bind, hfault]
      rfl
    | none =>
      refine iff_of_false (not_refused_of_ok hcall (x := ()) ?_) (by simp)
      rw [FsBackend.deleteBlob, run_bind_ok _ hrun, run_perform_bind, hfault]
      change (run Action.exec (FsIo.removeFileIfExists amb _).ignore _).1 = _
      rw [run_ignore]

section PutBlob

variable {s : Shelf}

/-- The bytes that a failing `put_blob` leaves behind the row of the blob. -/
inductive Leaves (B : FsBackend) (amb : Ambient) (k : BlobKey) (hd : Option String)
    (bytes : Bytes) : Option Bytes → Prop where
  | mismatch (h : hd.isSome = true ∧ hd ≠ Shelf.digest B bytes) :
      Leaves B amb k hd bytes (if amb.removeFails (B.blobFile k) then some bytes else none)
  | fault (h : ¬ (hd.isSome = true ∧ hd ≠ Shelf.digest B bytes)) (hf : amb.dbFault.isSome = true) :
      Leaves B amb k hd bytes (some bytes)

/-- `put_blob` fails, and the blob has no row or the same bytes as before. -/
def PutRefused (B : FsBackend) (amb : Ambient) (k : BlobKey) (body : ByteStream)
    (hd : Option String) (s : Shelf) : Prop :=
  (s.db.containers.lookup k.containerKey).isNone = true ∨ (∃ e, body.collect = .error e) ∨
    ∃ bytes left, body.collect = .ok bytes ∧ Leaves B amb k hd bytes left ∧
      (s.db.blobs.lookup k = none ∨ s.content k = left)

/-- The bytes behind a row are the same as before, or there is no row. -/
lemma overwrite_eq_self {k : BlobKey} {left : Option Bytes}
    (hs : s.db.blobs.lookup k = none → s.content k = none) :
    s.overwrite k left = s ↔ s.db.blobs.lookup k = none ∨ s.content k = left := by
  constructor
  · intro heq
    cases hrow : s.db.blobs.lookup k with
    | none => exact .inl rfl
    | some row =>
      have hcontent := congrFun (congrArg Shelf.content heq) k
      simp only [Shelf.overwrite, if_true, hrow, Option.bind_some] at hcontent
      exact .inr hcontent.symm
  · intro h
    ext1
    · rfl
    · funext k'
      simp only [Shelf.overwrite]
      split_ifs with hk
      · subst hk
        cases hrow : s.db.blobs.lookup k' with
        | none => simp [hs hrow]
        | some row =>
          rw [hrow] at h
          simpa using h.resolve_left (by simp) |>.symm
      · rfl
    · rfl

lemma replying_error {α : Type} {f : α → Reply} {op : Shelf.Op α} :
    (∃ e, (Shelf.replying f op s).1 = .error e) ↔ ∃ e, (op s).1 = .error e := by
  unfold Shelf.replying
  cases (op s).1 <;> simp [Except.map]

lemma putRefused_iff {a c b : String} {body : ByteStream} {ct hd : Option String} {m : Metadata}
    (hs : s.db.blobs.lookup ⟨a, c, b⟩ = none → s.content ⟨a, c, b⟩ = none) :
    ((∃ e, (Shelf.putBlob B amb ⟨a, c, b⟩ body ct hd m s).1 = .error e) ∧
      (Shelf.putBlob B amb ⟨a, c, b⟩ body ct hd m s).2 = s) ↔
      PutRefused B amb ⟨a, c, b⟩ body hd s := by
  unfold Shelf.putBlob PutRefused
  cases hc : Shelf.container (BlobKey.mk a c b).containerKey s.db with
  | error e =>
    have hnone : (s.db.containers.lookup (BlobKey.mk a c b).containerKey).isNone = true := by
      rw [← Option.not_isSome, Bool.not_eq_true', Bool.eq_false_iff]
      intro hsome
      obtain ⟨row, hrow⟩ := exists_container.mpr hsome
      rw [hc] at hrow
      cases hrow
    exact ⟨fun _ => .inl hnone, fun _ => ⟨⟨e, rfl⟩, rfl⟩⟩
  | ok row =>
    have hsome : (s.db.containers.lookup (BlobKey.mk a c b).containerKey).isNone = false := by
      have := isSome_of_container hc
      simpa [← Option.not_isSome] using this
    rw [hsome]
    cases hbody : body.collect with
    | error e => simp
    | ok bytes =>
      by_cases hmis : hd.isSome = true ∧ hd ≠ Shelf.digest B bytes
      · simp only [if_pos hmis]
        constructor
        · rintro ⟨-, hsame⟩
          exact .inr (.inr ⟨bytes, _, rfl, .mismatch hmis, (overwrite_eq_self hs).mp hsame⟩)
        · rintro (hf | ⟨e, he⟩ | ⟨bytes', left, hb, hleft, hcond⟩)
          · cases hf
          · cases he
          · cases hb
            refine ⟨⟨_, rfl⟩, ?_⟩
            cases hleft with
            | mismatch h => exact (overwrite_eq_self hs).mpr hcond
            | fault h hf => exact absurd hmis h
      · simp only [if_neg hmis]
        have hup := MetadataDb.upsertBlob_of_container (k := ⟨a, c, b⟩) (isSome_of_container hc)
          (Shelf.upsertFor B amb ⟨a, c, b⟩ bytes ct (Shelf.digest B bytes) m)
        cases hfault : amb.dbFault with
        | none =>
          obtain ⟨props, hok⟩ := record_ok hfault bytes hup
            ((Table.isSome_lookup_insert _ _ _ _).mpr (.inl rfl))
          rw [hok]
          constructor
          · rintro ⟨⟨e, he⟩, -⟩
            cases he
          · rintro (hf | ⟨e, he⟩ | ⟨bytes', left, hb, hleft, hcond⟩)
            · cases hf
            · cases he
            · cases hb
              cases hleft with
              | mismatch h => exact absurd h hmis
              | fault h hf =>
                rw [hfault] at hf
                cases hf
        | some message =>
          unfold Shelf.record
          simp only [hfault, MetadataDb.guarded]
          constructor
          · rintro ⟨-, hsame⟩
            exact .inr (.inr ⟨bytes, _, rfl, .fault hmis (by rw [hfault]; rfl),
              (overwrite_eq_self hs).mp hsame⟩)
          · rintro (hf | ⟨e, he⟩ | ⟨bytes', left, hb, hleft, hcond⟩)
            · cases hf
            · cases he
            · cases hb
              refine ⟨⟨_, rfl⟩, ?_⟩
              cases hleft with
              | mismatch h => exact absurd h hmis
              | fault h hf => exact (overwrite_eq_self hs).mpr hcond

end PutBlob

lemma refused_putBlob (hw : Sound B w) {a c b : String} (hord : (ContainerKey.mk a c).Ordinary)
    {body : ByteStream} {ct hd : Option String} {m : Metadata} :
    Refused B amb (.putBlob a c b body ct hd m) w ↔
      PutRefused B amb ⟨a, c, b⟩ body hd (B.shelf w) := by
  have hcall : (Call.putBlob a c b body ct hd m).Ordinary := by
    rintro c' ⟨⟩
    exact hord
  have hstep := call_refines hw amb hcall
  rw [Refused, hstep.answer, hstep.shelf, ← putRefused_iff fun hrow => ?_]
  · exact and_congr replying_error Iff.rfl
  · simp only [FsBackend.shelf] at hrow ⊢
    rw [hrow]
    rfl

/-! ### Requests -/

/-- The operations that a route knows for a method, by their `comp`. -/
def Route.comps : Route → Method → List String
  | .container _ _, .put => ["metadata", "acl"]
  | .blob _ _ _, .put    => ["block", "blocklist", "properties", "metadata"]
  | _, _                 => []

/-- The request asks for an operation that its route does not know. -/
def HttpRequest.Unimplemented (req : HttpRequest) : Prop :=
  ∃ comp, req.comp = some comp ∧ ∀ r ∈ req.target, comp ∉ r.comps req.method

/-- The request is answered with an error, and everything that is stored is as before. -/
def LeftAlone (app : AppState) (m : Moment) (req : HttpRequest) (w : World) : Prop :=
  IsError (authMiddleware app m req w).1 ∧
    app.backend.shelf (authMiddleware app m req w).2 = app.backend.shelf w

/-- The plain operation of the method, which is carried out instead, fails without a trace. -/
def PlainFails (app : AppState) (amb : Ambient) (req : HttpRequest) (w : World) : Prop :=
  match req.target, req.method with
  | some (.container a c), .put    => amb.dbFault.isSome = true ∨
      (w.db.containers.lookup ⟨a, c⟩).isSome = true ∨ (w.db.accounts.lookup a).isNone = true
  | some (.container a c), .delete => amb.dbFault.isSome = true ∨
      (w.db.containers.lookup ⟨a, c⟩).isNone = true
  | some (.blob a c b), .put       =>
      ((headerOpt req.headers "x-ms-blob-type").getD "" ≠ "" ∧
        (headerOpt req.headers "x-ms-blob-type").getD "" ≠ "BlockBlob") ∨
      PutRefused app.backend amb ⟨a, c, b⟩ req.body (headerOpt req.headers "content-md5")
        (app.backend.shelf w)
  | some (.blob a c b), .delete    => amb.dbFault.isSome = true ∨
      (w.db.blobs.lookup ⟨a, c, b⟩).isNone = true
  | _, _                           => True

section Requests

variable {app : AppState} {m : Moment} {req : HttpRequest}

/-- An answer that is given at once. -/
lemma leftAlone_of_answer {plan : Plan} {resp : Response}
    (h : plan.run app m w = (some resp, w)) (hstatus : 400 ≤ resp.status) :
    IsError (plan.run app m w).1 ∧
      app.backend.shelf (plan.run app m w).2 = app.backend.shelf w := by
  rw [h]
  exact ⟨hstatus, rfl⟩

/-- A plan whose call answers with a status below 400 if it succeeds. -/
lemma leftAlone_call {call : Call} {render : Reply → Option Response}
    (hrender : ∀ reply, ¬ IsError (render reply)) :
    (IsError ((Plan.call call render).run app m w).1 ∧
      app.backend.shelf ((Plan.call call render).run app m w).2 = app.backend.shelf w) ↔
      Refused app.backend m.amb call w := by
  unfold Refused
  rcases hrun : (app.backend.call m.amb call).run w with ⟨e | reply, w'⟩
  · simp [Plan.run, hrun, IsError, azureErrorResponse_status]
  · simp [Plan.run, hrun, hrender reply]

lemma not_isError_stamped {status : ℕ} (h : status < 400) (reply : Reply) :
    ¬ IsError (stamped status reply) := by
  cases reply <;> simp [stamped, IsError, h]

lemma not_isError_accepted (reply : Reply) : ¬ IsError (accepted reply) := by
  simp [accepted, IsError]

lemma containerPut_of_unknown {a c comp : String} (hcomp : req.comp = some comp)
    (h : comp ∉ ["metadata", "acl"]) :
    containerPut app a c req = .call (.createContainer a c
      (PublicAccessLevel.fromHeaderValue (headerOpt req.headers "x-ms-blob-public-access"))
      (extractMetadata app.low req.headers)) (stamped 201) := by
  simp only [List.mem_cons, List.not_mem_nil, or_false, not_or] at h
  simp [containerPut, hcomp, h.1, h.2]

lemma blobPut_of_unknown {a c b comp : String} (hcomp : req.comp = some comp)
    (h : comp ∉ ["block", "blocklist", "properties", "metadata"]) :
    (IsError ((blobPut app a c b req).run app m w).1 ∧
      app.backend.shelf ((blobPut app a c b req).run app m w).2 = app.backend.shelf w) ↔
      ((headerOpt req.headers "x-ms-blob-type").getD "" ≠ "" ∧
        (headerOpt req.headers "x-ms-blob-type").getD "" ≠ "BlockBlob") ∨
      Refused app.backend m.amb (.putBlob a c b req.body (headerOpt req.headers "content-type")
        (headerOpt req.headers "content-md5") (extractMetadata app.low req.headers)) w := by
  simp only [List.mem_cons, List.not_mem_nil, or_false, not_or] at h
  obtain ⟨hblock, hlist, hprops, hmeta⟩ := h
  simp only [blobPut, hcomp, Option.some.injEq, hblock, hlist, hprops, hmeta, if_false]
  by_cases htype : (headerOpt req.headers "x-ms-blob-type").getD "" ≠ "" ∧
      (headerOpt req.headers "x-ms-blob-type").getD "" ≠ "BlockBlob"
  · rw [if_pos htype]
    exact iff_of_true (leftAlone_of_answer rfl (azureErrorResponse_status m _ _)) (.inl htype)
  · rw [if_neg htype, or_iff_right htype]
    refine leftAlone_call fun reply => ?_
    cases reply <;> simp [IsError]

/-- A request for an operation that is not implemented does no harm exactly if the operation that
is carried out instead fails. -/
theorem unimplemented_iff (hmethod : req.method = .put ∨ req.method = .delete)
    (hauth : Authorized app m req w) (hcomp : req.Unimplemented)
    (hput : ∀ a c b, req.method = .put → req.target = some (.blob a c b) →
      Sound app.backend w ∧ (ContainerKey.mk a c).Ordinary) :
    LeftAlone app m req w ↔ PlainFails app m.amb req w := by
  obtain ⟨account, key1, key2, container, blob, ctx, hauth⟩ := hauth
  obtain ⟨comp, hcomp, hunknown⟩ := hcomp
  have hrun : LeftAlone app m req w ↔ IsError ((plan app req).run app m w).1 ∧
      app.backend.shelf ((plan app req).run app m w).2 = app.backend.shelf w := by
    rw [LeftAlone, hauth.isError, hauth.run]
  rw [hrun]
  unfold PlainFails
  cases htarget : req.target with
  | none =>
    obtain ⟨resp, hplan, hstatus⟩ : ∃ resp, plan app req = .answer resp ∧ 400 ≤ resp.status :=
      plan_of_no_target htarget
    rw [hplan]
    exact iff_of_true (leftAlone_of_answer rfl hstatus) trivial
  | some r =>
    have hnot := hunknown r htarget
    rw [plan_of_target htarget]
    rcases hmethod with hm | hm
    · rw [hm] at hnot
      cases r with
      | account a =>
        simp only [handler, hm, Option.getD_none]
        exact iff_of_true (leftAlone_of_answer rfl (by simp [methodNotAllowed])) trivial
      | container a c =>
        simp only [handler, hm, Option.getD_some, containerPut_of_unknown hcomp hnot]
        exact (leftAlone_call (not_isError_stamped (by decide))).trans refused_createContainer
      | blob a c b =>
        obtain ⟨hsound, hord⟩ := hput a c b hm htarget
        simp only [handler, hm, Option.getD_some]
        rw [blobPut_of_unknown hcomp hnot, refused_putBlob hsound hord]
    · cases r with
      | account a =>
        simp only [handler, hm, Option.getD_none]
        exact iff_of_true (leftAlone_of_answer rfl (by simp [methodNotAllowed])) trivial
      | container a c =>
        simp only [handler, hm, Option.getD_some, containerDelete]
        exact (leftAlone_call not_isError_accepted).trans refused_deleteContainer
      | blob a c b =>
        simp only [handler, hm, Option.getD_some, blobDelete]
        exact (leftAlone_call not_isError_accepted).trans refused_deleteBlob

end Requests

/-! ### A lease on a blob -/

/-- A server that takes one bearer token. -/
def sampleBearerApp : AppState :=
  { sampleApp with
    oidc := some fun token => if token = "t" then .ok (some "user") else .error .malformedCredential }

def sampleMoment : Moment where
  amb       := sampleAmb 3
  now       := 0
  requestId := "id"
  errorId   := "id"
  httpDate  := "Mon, 01 Jan 2024 00:00:00 GMT"
  isoTime   := "2024-01-01T00:00:00Z"

/-- A request for a lease, with an empty body. -/
def sampleLease (path : String) : HttpRequest where
  method     := .put
  path       := path
  query      := some "comp=lease"
  uriHost    := none
  headers    := [("authorization", some "Bearer t"), ("x-ms-lease-action", some "acquire")]
  body       := []
  signedPath := none

/-- A blob of one byte. -/
def sampleOneBlob : World :=
  sample.serve (sample.fresh sampleAccounts)
    [⟨sampleAmb 1, .createContainer "acc" "c" .off ∅⟩,
      ⟨sampleAmb 2, .putBlob "acc" "c" "b" [.ok [1]] none none ∅⟩]

lemma reachable_sampleOneBlob : Reachable sample sampleOneBlob :=
  ⟨_, _, sample.fresh_isFresh sampleAccounts, by decide, rfl⟩

lemma authorized_sampleLease {path account : String} {container blob : Option String}
    (hpath : splitPath path = (some account, container, blob))
    (hkeys : sampleOneBlob.db.accountKeys account = some ("a2V5", none)) :
    Authorized sampleBearerApp sampleMoment (sampleLease path) sampleOneBlob :=
  ⟨account, "a2V5", none, container, blob, ⟨account, .bearer (some "user")⟩, hpath, hkeys, by rfl⟩

/-- In a container that does not exist there is nothing to overwrite. -/
theorem unimplemented_missing_container :
    LeftAlone sampleBearerApp sampleMoment (sampleLease "/acc/x/b") sampleOneBlob := by
  have htarget : (sampleLease "/acc/x/b").target = some (.blob "acc" "x" "b") := by decide +kernel
  have hcomp : (sampleLease "/acc/x/b").comp = some "lease" := by decide +kernel
  have hpath : splitPath "/acc/x/b" = (some "acc", some "x", some "b") := by decide +kernel
  have hstored : sampleOneBlob.db.accountKeys "acc" = some ("a2V5", none) ∧
      (sampleOneBlob.db.containers.lookup ⟨"acc", "x"⟩).isNone = true := by
    decide +kernel
  refine (unimplemented_iff (.inl rfl) (authorized_sampleLease hpath hstored.1)
    ⟨"lease", hcomp, ?_⟩ ?_).mpr ?_
  · intro r hr
    rw [htarget] at hr
    cases hr
    decide
  · intro a c b _ hblob
    rw [htarget] at hblob
    cases hblob
    exact ⟨reachable_sampleOneBlob.sound, by decide⟩
  · unfold PlainFails
    rw [htarget]
    exact .inr (.inl hstored.2)

/-- A lease on a blob that is there empties it. -/
theorem unimplemented_lease :
    Authorized sampleBearerApp sampleMoment (sampleLease "/acc/c/b") sampleOneBlob ∧
      (sampleLease "/acc/c/b").Unimplemented ∧
      ((authMiddleware sampleBearerApp sampleMoment (sampleLease "/acc/c/b")
        sampleOneBlob).1.map Response.status = some 201 ∧
      (sample.shelf sampleOneBlob).content ⟨"acc", "c", "b"⟩ = some [1] ∧
      (sample.shelf (authMiddleware sampleBearerApp sampleMoment (sampleLease "/acc/c/b")
        sampleOneBlob).2).content ⟨"acc", "c", "b"⟩ = some []) ∧
      ¬ LeftAlone sampleBearerApp sampleMoment (sampleLease "/acc/c/b") sampleOneBlob := by
  have htarget : (sampleLease "/acc/c/b").target = some (.blob "acc" "c" "b") := by decide +kernel
  have hcomp : (sampleLease "/acc/c/b").comp = some "lease" := by decide +kernel
  have hpath : splitPath "/acc/c/b" = (some "acc", some "c", some "b") := by decide +kernel
  have hkeys : sampleOneBlob.db.accountKeys "acc" = some ("a2V5", none) := by decide +kernel
  have hrun : (authMiddleware sampleBearerApp sampleMoment (sampleLease "/acc/c/b")
        sampleOneBlob).1.map Response.status = some 201 ∧
      (sample.shelf sampleOneBlob).content ⟨"acc", "c", "b"⟩ = some [1] ∧
      (sample.shelf (authMiddleware sampleBearerApp sampleMoment (sampleLease "/acc/c/b")
        sampleOneBlob).2).content ⟨"acc", "c", "b"⟩ = some [] := by
    decide +kernel
  refine ⟨authorized_sampleLease hpath hkeys, ⟨"lease", hcomp, ?_⟩, hrun, ?_⟩
  · intro r hr
    rw [htarget] at hr
    cases hr
    decide
  · rintro ⟨-, hsame⟩
    have hbefore := hrun.2.2
    change (sampleBearerApp.backend.shelf _).content _ = _ at hbefore
    rw [hsame] at hbefore
    cases hrun.2.1.symm.trans hbefore

end BlobStore
