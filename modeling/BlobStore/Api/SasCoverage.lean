import BlobStore.Api.Resource
import BlobStore.Api.Unimplemented

/-!
# What a token permits

The middleware asks for a permission by the method and by `comp`, and the handler chooses its call
by the route, the method and `comp`. A query that says `comp=list` asks for the permission to list
whatever is carried out.
-/

namespace BlobStore

/-- The permission that an operation takes. -/
def Call.permission : Call → Permission
  | .listContainers _ _ _ _ | .listBlobs _ _ _ _ _ _ => .list
  | .getContainerProperties _ _ | .getBlob _ _ _ _ | .getBlobProperties _ _ _
  | .getBlockList _ _ _ => .read
  | .deleteContainer _ _ | .deleteBlob _ _ _ => .delete
  | .createContainer _ _ _ _ | .setContainerMetadata _ _ _ | .setContainerAcl _ _ _
  | .putBlob _ _ _ _ _ _ _ | .setBlobProperties _ _ _ _ | .setBlobMetadata _ _ _ _
  | .putBlock _ _ _ _ _ | .putBlockList _ _ _ _ _ _ => .write

/-- The permission that goes with a method. -/
def Method.permission (method : Method) : Permission := requiredPermission method none

/-- A listing of a container: the request that `comp=list` is meant for. -/
def HttpRequest.ListsContainer (req : HttpRequest) : Prop :=
  (∃ a c, req.target = some (.container a c)) ∧ (req.method = .get ∨ req.method = .head)

variable {app : AppState} {m : Moment} {req : HttpRequest} {w : World} {call : Call}
  {render : Reply → Option Response}

/-! ### What is carried out -/

lemma requiredPermission_of_list {comp : Option String} (h : comp = some "list") (method : Method) :
    requiredPermission method comp = .list := if_pos h

lemma requiredPermission_of_ne {comp : Option String} (h : comp ≠ some "list") (method : Method) :
    requiredPermission method comp = method.permission := by
  unfold Method.permission requiredPermission
  rw [if_neg h, if_neg (by simp)]

lemma permission_containerPut {a c : String}
    (h : containerPut app a c req = .call call render) : call.permission = .write := by
  unfold containerPut at h
  dsimp only at h
  split_ifs at h <;> cases h <;> rfl

lemma permission_containerGet {a c : String}
    (h : containerGet app a c req = .call call render) :
    call.permission = if req.comp = some "list" then .list else .read := by
  unfold containerGet at h
  dsimp only at h
  split_ifs at h with hlist hacl <;> cases h <;> simp [Call.permission, hlist]

lemma permission_blobPut {a c b : String} (h : blobPut app a c b req = .call call render) :
    call.permission = .write := by
  unfold blobPut at h
  dsimp only at h
  split_ifs at h
  · cases h
    rfl
  · split at h
    · cases h
    · split at h <;> cases h
      rfl
  · cases h
    rfl
  · cases h
    rfl
  · cases h
    rfl

lemma permission_blobGet {a c b : String} (h : blobGet a c b req = .call call render) :
    call.permission = .read := by
  unfold blobGet at h
  split_ifs at h <;> cases h <;> rfl

/-- On containers and blobs the method tells what is carried out, apart from listings. -/
lemma permission_of_handler {r : Route} (hr : ∀ a, r ≠ .account a)
    (h : handler app req r = some (.call call render)) :
    ((req.comp = some "list" ∧ (∃ a c, r = .container a c) ∧
        (req.method = .get ∨ req.method = .head)) ∧ call.permission = .list) ∨
      (¬ (req.comp = some "list" ∧ (∃ a c, r = .container a c) ∧
        (req.method = .get ∨ req.method = .head)) ∧
        call.permission = req.method.permission) := by
  cases r with
  | account a => exact absurd rfl (hr a)
  | container a c =>
    cases hm : req.method with
    | get =>
      have hcall := permission_containerGet (by simpa [handler, hm] using h)
      by_cases hlist : req.comp = some "list"
      · exact .inl ⟨⟨hlist, ⟨a, c, rfl⟩, .inl rfl⟩, by rw [hcall, if_pos hlist]⟩
      · exact .inr ⟨fun h' => hlist h'.1, by rw [hcall, if_neg hlist]; rfl⟩
    | head =>
      have hcall := permission_containerGet (by simpa [handler, hm] using h)
      by_cases hlist : req.comp = some "list"
      · exact .inl ⟨⟨hlist, ⟨a, c, rfl⟩, .inr rfl⟩, by rw [hcall, if_pos hlist]⟩
      · exact .inr ⟨fun h' => hlist h'.1, by rw [hcall, if_neg hlist]; rfl⟩
    | put =>
      have hcall := permission_containerPut (by simpa [handler, hm] using h)
      exact .inr ⟨by simp, hcall⟩
    | delete =>
      simp only [handler, hm, Option.some.injEq] at h
      refine .inr ⟨by simp, ?_⟩
      cases h
      rfl
    | _ => simp [handler, hm] at h
  | blob a c b =>
    refine .inr ⟨by simp, ?_⟩
    cases hm : req.method with
    | get => exact permission_blobGet (by simpa [handler, hm] using h)
    | head => exact permission_blobGet (by simpa [handler, hm] using h)
    | put => exact permission_blobPut (by simpa [handler, hm] using h)
    | delete =>
      simp only [handler, hm, Option.some.injEq] at h
      cases h
      rfl
    | _ => simp [handler, hm] at h

/-! ### What is asked for -/

/-- A request that comes in by a token is for a container, and the token has the permission that the
middleware asks for. -/
lemma Accepted.sas {account key1 : String} {key2 container blob : Option String} {ctx : AuthContext}
    (h : Accepted app m req w account key1 key2 container blob ctx) (hsas : ctx.method = .sas) :
    ∃ params, Sas.parseSasQuery req.params = some params ∧ container.isSome = true ∧
      Sas.hasPermission params (requiredPermission req.method req.comp).sasChar = true := by
  have hauth := h.auth
  unfold authenticate at hauth
  dsimp only at hauth
  split at hauth
  · unfold verifySharedKey at hauth
    split at hauth
    · cases hauth
    · split_ifs at hauth
      split at hauth <;> cases hauth
      cases hsas
  · split at hauth
    · unfold verifyBearer at hauth
      split at hauth
      · cases hauth
      · split at hauth <;> cases hauth
        cases hsas
    · split at hauth
      · next params hparams =>
        cases container with
        | none => cases hauth
        | some container => exact ⟨params, hparams, rfl, (verifySas_eq_ok hauth).2.2.2⟩
      · unfold verifyAnonymous at hauth
        split at hauth
        · cases hauth
        · split at hauth
          · cases hauth
          · dsimp only at hauth
            split_ifs at hauth <;> cases hauth <;> cases hsas

/-- The containers of an account are out of reach of a token. -/
lemma Accepted.target_ne_account {account key1 : String} {key2 container blob : Option String}
    {ctx : AuthContext} (h : Accepted app m req w account key1 key2 container blob ctx)
    (hcontainer : container.isSome = true) (a : String) : req.target ≠ some (.account a) := by
  intro htarget
  obtain ⟨r, hroute, hdecode⟩ := target_eq_some.mp htarget
  cases captures_of_matchRoute hroute with
  | @account cs a₀ hpath hcut ha =>
    have hsplit := splitPath_of_cut hpath hcut ha
    rw [h.path] at hsplit
    simp only [Prod.mk.injEq] at hsplit
    rw [hsplit.2.1] at hcontainer
    cases hcontainer
  | container => simp at hdecode
  | blob => simp at hdecode

/-- The operation of a request that comes in by a token is covered by the token, unless `comp` says
that it is a listing and it is none: then the token must happen to cover what the method does. -/
theorem sas_covers_iff {account key1 : String} {key2 container blob : Option String}
    {ctx : AuthContext} (h : Accepted app m req w account key1 key2 container blob ctx)
    (hsas : ctx.method = .sas) (hplan : plan app req = .call call render) :
    ∃ params, Sas.parseSasQuery req.params = some params ∧
      (Sas.hasPermission params call.permission.sasChar = true ↔
        req.comp ≠ some "list" ∨ req.ListsContainer ∨
          Sas.hasPermission params req.method.permission.sasChar = true) := by
  obtain ⟨params, hparams, hcontainer, hperm⟩ := h.sas hsas
  refine ⟨params, hparams, ?_⟩
  cases htarget : req.target with
  | none =>
    obtain ⟨resp, hanswer, -⟩ : ∃ resp, plan app req = .answer resp ∧ 400 ≤ resp.status :=
      plan_of_no_target htarget
    rw [hplan] at hanswer
    cases hanswer
  | some r =>
    have hr : ∀ a, r ≠ .account a := by
      rintro a rfl
      exact h.target_ne_account hcontainer a htarget
    have hhandler : handler app req r = some (.call call render) := by
      rw [plan_of_target htarget] at hplan
      cases hh : handler app req r with
      | none => simp [hh] at hplan
      | some p => rw [← hplan, hh]; rfl
    have hlists : req.ListsContainer ↔
        (∃ a c, r = .container a c) ∧ (req.method = .get ∨ req.method = .head) := by
      simp [HttpRequest.ListsContainer, htarget]
    rw [hlists]
    obtain ⟨⟨hlist, hlisting⟩, hcall⟩ | ⟨hnot, hcall⟩ := permission_of_handler hr hhandler
    · rw [requiredPermission_of_list hlist] at hperm
      rw [hcall]
      exact iff_of_true hperm (.inr (.inl hlisting))
    · rw [hcall]
      by_cases hlist : req.comp = some "list"
      · have hlisting : ¬ ((∃ a c, r = .container a c) ∧ (req.method = .get ∨ req.method = .head)) :=
          fun h' => hnot ⟨hlist, h'⟩
        simp [hlist, hlisting]
      · rw [requiredPermission_of_ne hlist] at hperm
        exact iff_of_true hperm (.inl hlist)

/-! ### A token that only lists -/

/-- A token to list a container until 2030. -/
def sampleListGrant : Grant where
  account   := "acc"
  container := "c"
  blob      := none
  params    :=
    ⟨"l", "", "2030-01-01T00:00:00Z", "c", "", "https", "2021-08-06", "", "", "", "", "", "", ""⟩

/-- Its HMAC under the key `key`. -/
def sampleListTag : Codec.Bytes :=
  [237, 251, 98, 123, 242, 90, 134, 134, 91, 53, 174, 248, 125, 192, 39, 154, 107, 251, 163, 91,
    165, 248, 23, 206, 100, 71, 172, 228, 83, 39, 129, 109]

/-- A server whose libraries know this tag. -/
def sampleListApp : AppState :=
  { sampleApp with
    lib := { sampleLib with
      hmacSha256 := fun _ m =>
        if m = Text.bytes sampleListGrant.text then sampleListTag else sampleListTag ++ 0 :: m } }

/-- A request with this token. -/
def sampleListRequest (method : Method) (path : String) : HttpRequest where
  method     := method
  path       := path
  query      := some ("comp=list&sp=l&se=2030-01-01T00:00:00Z&sr=c&spr=https&sv=2021-08-06&sig=" ++
    "7ftie/JahoZbNa74fcAnmmv7o1ul+BfOZEes5FMngW0=")
  uriHost    := none
  headers    := []
  body       := []
  signedPath := none

lemma accepted_sampleListRequest :
    Accepted sampleListApp sampleMoment (sampleListRequest .get "/acc/c") sampleOneBlob "acc" "a2V5"
      none (some "c") none ⟨"acc", .sas⟩ ∧
    Accepted sampleListApp sampleMoment (sampleListRequest .delete "/acc/c/b") sampleOneBlob "acc"
      "a2V5" none (some "c") (some "b") ⟨"acc", .sas⟩ := by
  have hkeys : sampleOneBlob.db.accountKeys "acc" = some ("a2V5", none) := by decide +kernel
  exact ⟨⟨by decide +kernel, hkeys, by decide +kernel⟩, ⟨by decide +kernel, hkeys, by decide +kernel⟩⟩

/-- The token lists the container. -/
theorem sas_covers_listing :
    ∃ call render, plan sampleListApp (sampleListRequest .get "/acc/c") = .call call render ∧
      ∃ params, Sas.parseSasQuery (sampleListRequest .get "/acc/c").params = some params ∧
        Sas.hasPermission params call.permission.sasChar = true := by
  have htarget : (sampleListRequest .get "/acc/c").target = some (.container "acc" "c") := by
    decide +kernel
  have hcomp : (sampleListRequest .get "/acc/c").comp = some "list" := by decide +kernel
  obtain ⟨call, render, hplan⟩ : ∃ call render,
      plan sampleListApp (sampleListRequest .get "/acc/c") = .call call render := by
    have hget : plan sampleListApp (sampleListRequest .get "/acc/c") =
        containerGet sampleListApp "acc" "c" (sampleListRequest .get "/acc/c") :=
      plan_of_target htarget
    rw [hget, containerGet]
    exact ⟨_, _, if_pos hcomp⟩
  obtain ⟨params, hparams, hiff⟩ := sas_covers_iff accepted_sampleListRequest.1 rfl hplan
  exact ⟨call, render, hplan, params, hparams,
    hiff.mpr (.inr (.inl ⟨⟨"acc", "c", htarget⟩, .inl rfl⟩))⟩

/-- The token deletes a blob. -/
theorem sas_covers_deletion :
    Accepted sampleListApp sampleMoment (sampleListRequest .delete "/acc/c/b") sampleOneBlob "acc"
      "a2V5" none (some "c") (some "b") ⟨"acc", .sas⟩ ∧
    (∃ call render, plan sampleListApp (sampleListRequest .delete "/acc/c/b") = .call call render ∧
      call.permission = .delete) ∧
    (sampleOneBlob.db.blobs.lookup ⟨"acc", "c", "b"⟩).isSome = true ∧
    ((authMiddleware sampleListApp sampleMoment (sampleListRequest .delete "/acc/c/b")
      sampleOneBlob).2.db.blobs.lookup ⟨"acc", "c", "b"⟩).isNone = true ∧
    ∃ params, Sas.parseSasQuery (sampleListRequest .delete "/acc/c/b").params = some params ∧
      Sas.hasPermission params Permission.delete.sasChar = false := by
  have htarget : (sampleListRequest .delete "/acc/c/b").target = some (.blob "acc" "c" "b") := by
    decide +kernel
  have hrun : (sampleOneBlob.db.blobs.lookup ⟨"acc", "c", "b"⟩).isSome = true ∧
      ((authMiddleware sampleListApp sampleMoment (sampleListRequest .delete "/acc/c/b")
        sampleOneBlob).2.db.blobs.lookup ⟨"acc", "c", "b"⟩).isNone = true := by
    decide +kernel
  have hparams : Sas.parseSasQuery (sampleListRequest .delete "/acc/c/b").params =
      some { sampleListGrant.params with
        sig := "7ftie/JahoZbNa74fcAnmmv7o1ul+BfOZEes5FMngW0=" } := by
    decide +kernel
  exact ⟨accepted_sampleListRequest.2, ⟨_, _, plan_of_target htarget, rfl⟩, hrun.1, hrun.2, _,
    hparams, by decide⟩

end BlobStore
