import BlobStore.Api.SasCoverage
import BlobStore.Server.Tenancy
import BlobStore.Storage.Listing

/-!
# What is open to everyone

A request without credentials is let through if the container is open at a level that covers it.
Two stores that agree on what is open answer such requests alike, provided that the container the
middleware looked at is the one the handler acts on.
-/

namespace BlobStore

open Codec Resumption Proc Paging

/-! ### Stores that look the same -/

/-- The level at which a container is open; one that does not exist is closed. -/
def MetadataDb.level (db : MetadataDb) (c : ContainerKey) : PublicAccessLevel :=
  ((db.getContainer c).map ContainerRow.publicAccessLevel).getD .off

/-- Two stores agree on a container: its row, its blobs with their bytes, and their block lists. -/
structure SameContainer (B : FsBackend) (c : ContainerKey) (w w' : World) : Prop where
  row : w.db.containers.lookup c = w'.db.containers.lookup c
  blobs : ∀ k : BlobKey, k.containerKey = c → w.db.blobs.lookup k = w'.db.blobs.lookup k
  bytes : ∀ (k : BlobKey) row, k.containerKey = c → w.db.blobs.lookup k = some row →
    w.fs.openFile (B.stored row.storagePath) = w'.fs.openFile (B.stored row.storagePath)
  committed : ∀ k : BlobKey, k.containerKey = c →
    w.db.getCommittedBlocks k = w'.db.getCommittedBlocks k
  uncommitted : ∀ k : BlobKey, k.containerKey = c →
    w.db.getUncommittedBlocks k = w'.db.getUncommittedBlocks k

/-- Two stores with these accounts that agree on every container that is open. -/
structure SameOpen (B : FsBackend) (accounts : Table String AccountRow) (w w' : World) : Prop where
  accounts : w.db.accounts = accounts ∧ w'.db.accounts = accounts
  known : w.db.InAccounts ∧ w'.db.InAccounts
  same : ∀ c, w.db.level c ≠ .off ∨ w'.db.level c ≠ .off → SameContainer B c w w'

variable {B : FsBackend} {accounts : Table String AccountRow} {w w' : World} {c : ContainerKey}

lemma SameContainer.level (h : SameContainer B c w w') : w.db.level c = w'.db.level c := by
  simp only [MetadataDb.level, MetadataDb.getContainer, h.row]

lemma SameOpen.level (h : SameOpen B accounts w w') (c : ContainerKey) :
    w.db.level c = w'.db.level c := by
  by_cases hc : w.db.level c ≠ .off ∨ w'.db.level c ≠ .off
  · exact (h.same c hc).level
  · push Not at hc
    rw [hc.1, hc.2]

/-- There is nothing in an account that is not known. -/
lemma SameOpen.unknown (h : SameOpen B accounts w w')
    (hc : (accounts.lookup c.account).isSome = false) : SameContainer B c w w' := by
  have hnone : ∀ v : World, v.db.accounts = accounts → v.db.InAccounts →
      v.db.containers.lookup c = none ∧ ∀ k : BlobKey, k.containerKey = c →
        v.db.blobs.lookup k = none ∧ v.db.getCommittedBlocks k = [] ∧
          v.db.getUncommittedBlocks k = [] := by
    intro v hv hdb
    have hknown : ∀ {ρ : Type} (row : Option ρ) (account : String), account = c.account →
        (row.isSome = true → (v.db.accounts.lookup account).isSome = true) → row = none := by
      rintro ρ row account rfl hrow
      rw [hv, hc] at hrow
      simpa using hrow
    refine ⟨hknown _ _ rfl (hdb.container c), ?_⟩
    rintro k rfl
    refine ⟨hknown _ _ rfl (hdb.blob k), ?_, ?_⟩
    · simp [MetadataDb.getCommittedBlocks, hknown _ _ rfl (hdb.committed k)]
    · have hempty : (v.db.stagedBlocks.selectWhere fun s => s.blob = k) = [] := by
        refine List.eq_nil_iff_forall_not_mem.mpr ?_
        rintro ⟨s, r⟩ hs
        obtain ⟨hsk, hlookup⟩ := Table.mem_selectWhere.mp hs
        have hs' := hknown _ _ (by rw [of_decide_eq_true hsk]; rfl) (hdb.staged s)
        rw [hs'] at hlookup
        cases hlookup
      simp [MetadataDb.getUncommittedBlocks, hempty]
  obtain ⟨hrow, hblobs⟩ := hnone w h.accounts.1 h.known.1
  obtain ⟨hrow', hblobs'⟩ := hnone w' h.accounts.2 h.known.2
  refine ⟨by rw [hrow, hrow'], fun k hk => ?_, fun k row hk hlookup => ?_, fun k hk => ?_,
    fun k hk => ?_⟩
  · rw [(hblobs k hk).1, (hblobs' k hk).1]
  · rw [(hblobs k hk).1] at hlookup
    cases hlookup
  · rw [(hblobs k hk).2.1, (hblobs' k hk).2.1]
  · rw [(hblobs k hk).2.2, (hblobs' k hk).2.2]

/-! ### Reading -/

/-- The container that a call reads in, if all it does is read in one. -/
def Call.readsIn : Call → Option ContainerKey
  | .getContainerProperties a c | .listBlobs a c _ _ _ _ => some ⟨a, c⟩
  | .getBlob a c _ _ | .getBlobProperties a c _ | .getBlockList a c _ => some ⟨a, c⟩
  | _ => none

/-- The list of the blobs of a container depends on their rows only. -/
lemma SameContainer.listBlobs (h : SameContainer B c w w') (namePrefix marker : Option String)
    (n : UInt32) : w.db.listBlobs c namePrefix marker n = w'.db.listBlobs c namePrefix marker n := by
  have hsorted : ∀ db : MetadataDb, ((db.blobs.selectWhere fun k =>
      k.containerKey = c && MetadataDb.listed (namePrefix.getD "") (marker.getD "") k.blob)
        |>.insertionSort fun x y => x.1.blob ≤ y.1.blob).Pairwise
        fun x y => x.1.blob < y.1.blob := by
    intro db
    exact sorted_insertionSort (MetadataDb.nodup_selectWhere (c := c) db _ fun k hk => by
      simpa using (Bool.and_eq_true_iff.mp hk).1)
  have hselected : ((w.db.blobs.selectWhere fun k =>
      k.containerKey = c && MetadataDb.listed (namePrefix.getD "") (marker.getD "") k.blob)
        |>.insertionSort fun x y => x.1.blob ≤ y.1.blob) =
      ((w'.db.blobs.selectWhere fun k =>
      k.containerKey = c && MetadataDb.listed (namePrefix.getD "") (marker.getD "") k.blob)
        |>.insertionSort fun x y => x.1.blob ≤ y.1.blob) := by
    refine eq_of_sorted (hsorted w.db) (hsorted w'.db) ?_
    rintro ⟨k, row⟩
    simp only [List.mem_insertionSort, Table.mem_selectWhere, Bool.and_eq_true, decide_eq_true_eq]
    refine and_congr_right fun hk => ?_
    rw [h.blobs k hk.1]
  simp only [MetadataDb.listBlobs]
  rw [hselected]

/-- A call that reads in a container is answered alike by stores that agree on it, and changes
nothing. -/
lemma SameContainer.read (h : SameContainer B c w w') {call : Call} (hcall : call.readsIn = some c)
    (amb : Ambient) :
    ((B.call amb call).run w).1 = ((B.call amb call).run w').1 ∧ ((B.call amb call).run w).2 = w := by
  have hcontainer : ∀ a c', (⟨a, c'⟩ : ContainerKey) = c →
      Shelf.container ⟨a, c'⟩ w.db = Shelf.container ⟨a, c'⟩ w'.db := by
    rintro a c' rfl
    simp only [Shelf.container, MetadataDb.getContainer, h.row]
  have hblob : ∀ a c' b, (⟨a, c'⟩ : ContainerKey) = c →
      Shelf.blob ⟨a, c', b⟩ w.db = Shelf.blob ⟨a, c', b⟩ w'.db := by
    rintro a c' b rfl
    simp only [Shelf.blob, MetadataDb.getBlob, h.blobs ⟨a, c', b⟩ rfl]
  cases call with
  | getContainerProperties a c' =>
    have hc := Option.some.inj hcall
    simp only [Store.run, FsBackend.call, FsBackend.getContainerProperties]
    simp only [run_bind, run_requireContainer, hcontainer a c' hc]
    cases Shelf.container ⟨a, c'⟩ w'.db <;> exact ⟨rfl, rfl⟩
  | listBlobs a c' np d mk n =>
    have hc := Option.some.inj hcall
    simp only [Store.run, FsBackend.call, FsBackend.listBlobs]
    simp only [run_bind, run_requireContainer, hcontainer a c' hc]
    cases Shelf.container ⟨a, c'⟩ w'.db with
    | error e => exact ⟨rfl, rfl⟩
    | ok row =>
      subst hc
      simp only [run_perform, Action.exec, h.listBlobs, run_pure]
      exact ⟨trivial, trivial⟩
  | getBlob a c' b range =>
    have hc := Option.some.inj hcall
    simp only [Store.run, FsBackend.call, FsBackend.getBlob]
    simp only [run_bind, run_requireBlob, hblob a c' b hc]
    cases hrow : Shelf.blob ⟨a, c', b⟩ w'.db with
    | error e => exact ⟨rfl, rfl⟩
    | ok row =>
      subst hc
      have hbytes := h.bytes ⟨a, c', b⟩ row rfl (lookup_of_blob ((hblob a c' b rfl).trans hrow))
      simp only [run_ofExcept]
      cases FsBackend.resolveRange row.contentLength range with
      | error e => exact ⟨rfl, rfl⟩
      | ok rr =>
        simp only [run_perform, Action.exec, hbytes]
        cases w'.fs.openFile (B.stored row.storagePath) <;> exact ⟨rfl, rfl⟩
  | getBlobProperties a c' b =>
    have hc := Option.some.inj hcall
    simp only [Store.run, FsBackend.call, FsBackend.getBlobProperties]
    simp only [run_bind, run_requireBlob, hblob a c' b hc]
    cases Shelf.blob ⟨a, c', b⟩ w'.db <;> exact ⟨rfl, rfl⟩
  | getBlockList a c' b =>
    have hc := Option.some.inj hcall
    subst hc
    simp only [Store.run, FsBackend.call, FsBackend.getBlockList]
    simp only [run_bind, run_perform, Action.exec, run_pure, h.committed ⟨a, c', b⟩ rfl,
      h.uncommitted ⟨a, c', b⟩ rfl]
    exact ⟨trivial, trivial⟩
  | _ => cases hcall

variable {app : AppState} {m : Moment} {req : HttpRequest}

/-- The response is the same, and nothing changes. -/
lemma SameContainer.run {plan : Plan} (h : SameContainer app.backend c w w') {call : Call}
    {render : Reply → Option Response} (hplan : plan = .call call render)
    (hcall : call.readsIn = some c) :
    (plan.run app m w).1 = (plan.run app m w').1 ∧ (plan.run app m w).2 = w := by
  obtain ⟨hanswer, hstate⟩ := h.read hcall m.amb
  subst hplan
  simp only [Plan.run]
  rcases hw : (app.backend.call m.amb call).run w with ⟨r, v⟩
  rcases hw' : (app.backend.call m.amb call).run w' with ⟨r', v'⟩
  rw [hw, hw'] at hanswer
  rw [hw] at hstate
  dsimp only at hanswer hstate
  subst hanswer hstate
  cases r <;> exact ⟨rfl, rfl⟩

/-! ### Requests without credentials -/

/-- The request has no credentials: no `Authorization` of a known scheme, no signature. -/
structure HttpRequest.Unsigned (req : HttpRequest) : Prop where
  sharedKey : stripStart "SharedKey " (headerStr req.headers "authorization") = none
  sharedKeyLite : stripStart "SharedKeyLite " (headerStr req.headers "authorization") = none
  bearer : stripStart "Bearer " (headerStr req.headers "authorization") = none
  token : Sas.parseSasQuery req.params = none

lemma HttpRequest.Unsigned.authenticate (h : req.Unsigned) (now : ℤ) (account key1 : String)
    (key2 container blob : Option String) (w : World) :
    BlobStore.authenticate app now account key1 key2 container blob req w =
      verifyAnonymous account container req.comp blob.isSome req.method w := by
  simp only [BlobStore.authenticate, h.sharedKey, h.sharedKeyLite, h.bearer, h.token,
    Option.or_none]

/-- What a level lets everyone do. -/
def PublicAccessLevel.opens (level : PublicAccessLevel) (method : Method) (isBlobScope : Bool) :
    Bool :=
  decide (method = .get ∨ method = .head) &&
    if isBlobScope then level.allowsBlobRead else level.allowsContainerListing

lemma verifyAnonymous_eq (account container : String) (comp : Option String) (isBlobScope : Bool)
    (method : Method) (w : World) :
    verifyAnonymous account (some container) comp isBlobScope method w =
      if (w.db.level ⟨account, container⟩).opens method isBlobScope then .ok ⟨account, .anonymous⟩
      else .error (.new .containerNotFound) := by
  have hrun : ((FsBackend.getContainerProperties account container).run w).1 =
      (Shelf.container ⟨account, container⟩ w.db).map containerRowToProps := by
    simp only [Store.run, FsBackend.getContainerProperties, run_bind, run_requireContainer]
    cases Shelf.container ⟨account, container⟩ w.db <;> rfl
  cases hrow : w.db.getContainer ⟨account, container⟩ with
  | none =>
    simp only [verifyAnonymous, hrun, MetadataDb.level, Shelf.container, hrow, Except.map,
      Option.map_none, Option.getD_none]
    cases isBlobScope <;> simp [PublicAccessLevel.opens, PublicAccessLevel.allowsBlobRead,
      PublicAccessLevel.allowsContainerListing]
  | some row =>
    simp only [verifyAnonymous, hrun, MetadataDb.level, Shelf.container, hrow, Except.map,
      containerRowToProps, Option.map_some, Option.getD_some, ite_self, PublicAccessLevel.opens]
    by_cases hm : method = .get ∨ method = .head
    · have hm' : ¬ (method ≠ .get ∧ method ≠ .head) := by
        rintro ⟨h1, h2⟩
        exact hm.elim h1 h2
      rw [if_neg hm']
      simp [hm]
    · have hm' : method ≠ .get ∧ method ≠ .head := not_or.mp hm
      rw [if_pos hm']
      simp [hm]

/-! ### What is looked at and what is read -/

/-- The container that a route is in. -/
def Route.container? : Route → Option ContainerKey
  | .account _     => none
  | .container a c => some ⟨a, c⟩
  | .blob a c _    => some ⟨a, c⟩

/-- The container that a call tells about: a listing or the properties of the container. -/
def Call.describes : Call → Option ContainerKey
  | .getContainerProperties a c | .listBlobs a c _ _ _ _ => some ⟨a, c⟩
  | _ => none

lemma reads_containerGet (a c : String) :
    ∃ call render, containerGet app a c req = .call call render ∧ call.readsIn = some ⟨a, c⟩ ∧
      call.describes = some ⟨a, c⟩ := by
  unfold containerGet
  dsimp only
  split_ifs <;> exact ⟨_, _, rfl, rfl, rfl⟩

lemma reads_blobGet (a c b : String) :
    ∃ call render, blobGet a c b req = .call call render ∧ call.readsIn = some ⟨a, c⟩ ∧
      call.describes = none := by
  unfold blobGet
  split_ifs <;> exact ⟨_, _, rfl, rfl, rfl⟩

/-- What is read on a route is in its container; and only a route to a container tells about it. -/
lemma reads_handler (hmethod : req.method = .get ∨ req.method = .head) {r : Route}
    (hr : r.container? = some c) :
    ∃ call render, handler app req r = some (.call call render) ∧ call.readsIn = some c ∧
      ∀ c', call.describes = some c' → r = .container c'.account c'.container := by
  cases r with
  | account a => cases hr
  | container a b =>
    cases hr
    obtain ⟨call, render, hget, hreads, hdescribes⟩ : ∃ call render,
        containerGet app a b req = .call call render ∧ call.readsIn = some ⟨a, b⟩ ∧
          call.describes = some ⟨a, b⟩ := reads_containerGet a b
    refine ⟨call, render, ?_, hreads, fun c' hc' => ?_⟩
    · rcases hmethod with hm | hm <;> simp only [handler, hm, hget]
    · rw [hdescribes] at hc'
      cases hc'
      rfl
  | blob a b n =>
    cases hr
    obtain ⟨call, render, hget, hreads, hdescribes⟩ : ∃ call render,
        blobGet a b n req = .call call render ∧ call.readsIn = some ⟨a, b⟩ ∧
          call.describes = none := reads_blobGet a b n
    refine ⟨call, render, ?_, hreads, fun c' hc' => ?_⟩
    · rcases hmethod with hm | hm <;> simp only [handler, hm, hget]
    · rw [hdescribes] at hc'
      cases hc'

/-- Before an empty first segment there are two slashes. -/
lemma eq_slash_of_cut {cs : List Char} {rest : String}
    (hcut : Text.cut '/' (String.ofList cs) = ("", some rest)) : cs = '/' :: rest.toList := by
  have heq := Text.cut_eq '/' (String.ofList cs)
  rw [hcut] at heq
  simpa using congrArg String.toList heq

/-- A path of two segments is never one of a blob. -/
lemma splitPath_of_container {a c : String} {account container blob : Option String}
    (htarget : req.target = some (.container a c))
    (hpath : splitPath req.path = (account, container, blob)) : blob = none := by
  obtain ⟨r, hroute, hdecode⟩ := target_eq_some.mp htarget
  cases captures_of_matchRoute hroute with
  | account => simp at hdecode
  | blob => simp at hdecode
  | @container cs a₀ rest c₀ hchars hcut hrest hc =>
    by_cases ha : a₀ = ""
    · subst ha
      have hslash : '/' ∉ rest.toList := by
        have heq := Text.cut_eq '/' rest
        have hnot := Text.not_mem_cut_fst (c := '/') (s := rest)
        rw [hrest] at heq hnot
        rwa [heq]
      have hdrop : (Text.chars req.path).dropWhile (· = '/') = rest.toList := by
        rw [hchars, eq_slash_of_cut hcut]
        simp only [List.dropWhile_cons, decide_true, if_true]
        refine List.dropWhile_eq_self_iff.mpr fun hlen => ?_
        intro hhead
        exact hslash (of_decide_eq_true hhead ▸ List.getElem_mem hlen)
      have hne : rest ≠ "" := by
        rintro rfl
        exact hc (congrArg Prod.fst hrest).symm
      unfold splitPath at hpath
      simp only [hdrop, String.ofList_toList, if_neg hne, hrest] at hpath
      cases hpath
      rfl
    · have hsplit := splitPath_of_cut hchars hcut ha
      simp only [hrest] at hsplit
      rw [hsplit] at hpath
      cases hpath
      rfl

/-- The middleware looks at the level of one container, and the handler reads in another one, of an
account that is known. -/
def HttpRequest.Misrouted (accounts : Table String AccountRow) (req : HttpRequest) : Prop :=
  (req.method = .get ∨ req.method = .head) ∧ ∃ a c b c', splitPath req.path = (some a, some c, b) ∧
    (accounts.lookup a).isSome = true ∧ req.target.bind Route.container? = some c' ∧
    c' ≠ ⟨a, c⟩ ∧ (accounts.lookup c'.account).isSome = true

section Accepted

variable {account key1 : String} {key2 container blob : Option String} {ctx : AuthContext}

/-- A request without credentials that is let through reads, and in an open container. -/
lemma HttpRequest.Unsigned.accepted (hreq : req.Unsigned)
    (h : Accepted app m req w account key1 key2 container blob ctx) :
    ∃ c, container = some c ∧ (req.method = .get ∨ req.method = .head) ∧
      w.db.level ⟨account, c⟩ ≠ .off ∧ (blob = none → w.db.level ⟨account, c⟩ = .container) := by
  have hauth := h.auth
  rw [hreq.authenticate] at hauth
  cases container with
  | none => cases hauth
  | some c =>
    rw [verifyAnonymous_eq] at hauth
    split_ifs at hauth with hopens
    simp only [PublicAccessLevel.opens, Bool.and_eq_true, decide_eq_true_eq] at hopens
    refine ⟨c, rfl, hopens.1, ?_, ?_⟩
    · intro hoff
      rw [hoff] at hopens
      cases blob <;> cases hopens.2
    · rintro rfl
      cases hlevel : w.db.level ⟨account, c⟩ with
      | container => rfl
      | off => simp [hlevel, PublicAccessLevel.allowsContainerListing] at hopens
      | blob => simp [hlevel, PublicAccessLevel.allowsContainerListing] at hopens

/-- What it reads is in that container, or in an account that is not known. -/
lemma HttpRequest.Unsigned.plan (hreq : req.Unsigned) (hroute : ¬ req.Misrouted accounts)
    (hw : w.db.accounts = accounts)
    (h : Accepted app m req w account key1 key2 container blob ctx) :
    (∃ resp, BlobStore.plan app req = .answer resp) ∨
      ∃ c call render, BlobStore.plan app req = .call call render ∧ call.readsIn = some c ∧
        (w.db.level c ≠ .off ∨ (accounts.lookup c.account).isSome = false) ∧
        ∀ c', call.describes = some c' → c' = c ∧
          (w.db.level c = .container ∨ (accounts.lookup c.account).isSome = false) := by
  obtain ⟨c, rfl, hmethod, hopen, hlisting⟩ := hreq.accepted h
  cases htarget : req.target with
  | none =>
    obtain ⟨resp, hanswer, -⟩ : ∃ resp, BlobStore.plan app req = .answer resp ∧
        400 ≤ resp.status := plan_of_no_target htarget
    exact .inl ⟨resp, hanswer⟩
  | some r =>
    right
    cases hr : r.container? with
    | none =>
      cases r with
      | account a => exact absurd htarget (h.target_ne_account rfl a)
      | container a c => cases hr
      | blob a c b => cases hr
    | some c' =>
      obtain ⟨call, render, hhandler, hreads, hdescribes⟩ : ∃ call render,
          handler app req r = some (.call call render) ∧ call.readsIn = some c' ∧
            ∀ c'', call.describes = some c'' → r = .container c''.account c''.container :=
        reads_handler hmethod hr
      have hplan : BlobStore.plan app req = .call call render := by
        rw [plan_of_target htarget, hhandler]
        rfl
      have hkey : c' = ⟨account, c⟩ ∨ (accounts.lookup c'.account).isSome = false := by
        by_contra hnot
        obtain ⟨hne, hknown⟩ := not_or.mp hnot
        have haccount : (accounts.lookup account).isSome = true := by
          have hkeys := h.keys
          rw [MetadataDb.accountKeys, hw] at hkeys
          obtain ⟨r, hr, -⟩ := Option.map_eq_some_iff.mp hkeys
          simp [hr]
        exact hroute ⟨hmethod, account, c, blob, c', h.path, haccount, by simp [htarget, hr], hne,
          by simpa [Option.isSome_iff_ne_none] using hknown⟩
      refine ⟨c', call, render, hplan, hreads, ?_, fun c'' hc'' => ?_⟩
      · refine hkey.imp_left fun hc => ?_
        rw [hc]
        exact hopen
      · have hroute' := hdescribes c'' hc''
        subst hroute'
        cases hr
        refine ⟨rfl, hkey.imp_left fun hc => ?_⟩
        rw [hc]
        exact hlisting (splitPath_of_container htarget h.path)

end Accepted

/-! ### Two stores -/

/-- The request as the middleware gets it, in a store with these accounts. -/
def HttpRequest.resolved (app : AppState) (accounts : Table String AccountRow) (req : HttpRequest) :
    HttpRequest := accountResolve app (.empty accounts) req

/-- A request is answered alike in all stores with these accounts that agree on what is open, it
changes none of them, and only a container that may be listed is told about. The moment `m` stands
for the ids and the dates of a response, which are not compared. -/
def Discreet (app : AppState) (m : Moment) (accounts : Table String AccountRow)
    (req : HttpRequest) : Prop :=
  ∀ w w', SameOpen app.backend accounts w w' →
    (serveHttp app m req w).1 = (serveHttp app m req w').1 ∧ (serveHttp app m req w).2 = w ∧
      ∀ c call render reply, ¬ (req.path = "/healthz" ∨ req.path = "/readyz") →
        Authorized app m (req.resolved app accounts) w →
        plan app (req.resolved app accounts) = .call call render → call.describes = some c →
        ((app.backend.call m.amb call).run w).1 = .ok reply → w.db.level c = .container

lemma accountResolve_eq {db : MetadataDb} (h : db.accounts = accounts) (req : HttpRequest) :
    accountResolve app db req = req.resolved app accounts := by
  have hkeys : ∀ a, db.accountKeys a = (MetadataDb.empty accounts).accountKeys a := by
    intro a
    rw [MetadataDb.accountKeys, MetadataDb.accountKeys, h]
    rfl
  simp only [HttpRequest.resolved, accountResolve, hkeys]

lemma serveHttp_eq {w : World} (h : w.db.accounts = accounts)
    (hreq : ¬ (req.path = "/healthz" ∨ req.path = "/readyz")) :
    serveHttp app m req w = authMiddleware app m (req.resolved app accounts) w := by
  rw [serveHttp, if_neg hreq, accountResolve_eq h]

section SameOpen

variable (h : SameOpen B accounts w w')
include h

lemma SameOpen.accountKeys (account : String) :
    w.db.accountKeys account = w'.db.accountKeys account := by
  simp only [MetadataDb.accountKeys, h.accounts.1, h.accounts.2]

lemma SameOpen.authenticate (hreq : req.Unsigned) (account key1 : String)
    (key2 container blob : Option String) :
    BlobStore.authenticate app m.now account key1 key2 container blob req w =
      BlobStore.authenticate app m.now account key1 key2 container blob req w' := by
  rw [hreq.authenticate, hreq.authenticate]
  cases container with
  | none => rfl
  | some c => rw [verifyAnonymous_eq, verifyAnonymous_eq, h.level]

/-- The middleware lets the same requests through. -/
lemma SameOpen.accepted (hreq : req.Unsigned) {account key1 : String}
    {key2 container blob : Option String} {ctx : AuthContext}
    (hacc : Accepted app m req w account key1 key2 container blob ctx) :
    Accepted app m req w' account key1 key2 container blob ctx where
  path := hacc.path
  keys := (h.accountKeys account).symm.trans hacc.keys
  auth := (h.authenticate hreq account key1 key2 container blob).symm.trans hacc.auth

/-- It refuses the others alike. -/
lemma SameOpen.refused (hreq : req.Unsigned) (hrefused : ¬ Authorized app m req w) :
    (authMiddleware app m req w).1 = (authMiddleware app m req w').1 ∧
      (authMiddleware app m req w).2 = w := by
  unfold authMiddleware
  rcases hpath : splitPath req.path with ⟨_ | account, container, blob⟩
  · exact ⟨rfl, rfl⟩
  · simp only [h.accountKeys account]
    rcases hkeys : w'.db.accountKeys account with _ | ⟨key1, key2⟩
    · exact ⟨rfl, rfl⟩
    · have hauth : BlobStore.authenticate app m.now account key1 key2 container blob req w =
          BlobStore.authenticate app m.now account key1 key2 container blob req w' :=
        h.authenticate hreq account key1 key2 container blob
      simp only [hauth]
      cases hctx : BlobStore.authenticate app m.now account key1 key2 container blob req w' with
      | error e => exact ⟨rfl, rfl⟩
      | ok ctx =>
        exact absurd ⟨account, key1, key2, container, blob, ctx, hpath,
          (h.accountKeys account).trans hkeys, hauth.trans hctx⟩ hrefused

end SameOpen

/-- Only a container that exists is told about. -/
lemma exists_of_describes {call : Call} (hcall : call.describes = some c) {amb : Ambient}
    {reply : Reply} (hok : ((B.call amb call).run w).1 = .ok reply) :
    (w.db.containers.lookup c).isSome = true := by
  have hcontainer : ∀ a c' row, Shelf.container ⟨a, c'⟩ w.db = .ok row →
      (w.db.containers.lookup ⟨a, c'⟩).isSome = true :=
    fun a c' row hrow => exists_container.mp ⟨row, hrow⟩
  cases call with
  | getContainerProperties a c' =>
    cases hcall
    simp only [Store.run, FsBackend.call, FsBackend.getContainerProperties, run_bind,
      run_requireContainer] at hok
    cases hrow : Shelf.container ⟨a, c'⟩ w.db with
    | error e => simp [hrow] at hok
    | ok row => exact hcontainer a c' row hrow
  | listBlobs a c' np d mk n =>
    cases hcall
    simp only [Store.run, FsBackend.call, FsBackend.listBlobs, run_bind,
      run_requireContainer] at hok
    cases hrow : Shelf.container ⟨a, c'⟩ w.db with
    | error e => simp [hrow] at hok
    | ok row => exact hcontainer a c' row hrow
  | _ => cases hcall

lemma discreet_of_not_misrouted (hreq : (req.resolved app accounts).Unsigned)
    (hroute : ¬ (req.resolved app accounts).Misrouted accounts) : Discreet app m accounts req := by
  intro w w' h
  by_cases hhealth : req.path = "/healthz" ∨ req.path = "/readyz"
  · refine ⟨?_, ?_, fun _ _ _ _ hnot => absurd hhealth hnot⟩ <;> simp [serveHttp, hhealth]
  · rw [serveHttp_eq h.accounts.1 hhealth, serveHttp_eq h.accounts.2 hhealth]
    by_cases hauth : Authorized app m (req.resolved app accounts) w
    · obtain ⟨account, key1, key2, container, blob, ctx, hacc⟩ := hauth
      rw [hacc.run, (h.accepted hreq hacc).run]
      rcases hreq.plan hroute h.accounts.1 hacc with ⟨resp, hplan⟩ |
        ⟨c, call, render, hplan, hreads, hopen, hdescribes⟩
      · simp [hplan, Plan.run]
      · have hsame : SameContainer app.backend c w w' :=
          hopen.elim (fun hc => h.same c (.inl hc)) h.unknown
        obtain ⟨hresp, hstate⟩ := hsame.run (m := m) hplan hreads
        dsimp only
        rw [hresp, hstate]
        refine ⟨rfl, rfl, ?_⟩
        rintro c' call' render' reply - - hplan' hc' hok
        rw [hplan] at hplan'
        cases hplan'
        obtain ⟨rfl, hlevel⟩ := hdescribes c' hc'
        refine hlevel.resolve_right fun hunknown => ?_
        have hknown := h.known.1.container c' (exists_of_describes hc' hok)
        rw [h.accounts.1, hunknown] at hknown
        cases hknown
    · obtain ⟨hresp, hstate⟩ := h.refused (m := m) hreq hauth
      exact ⟨hresp, hstate, fun _ _ _ _ _ hauth' => absurd hauth' hauth⟩

/-! ### A closed container that shows -/

/-- A store with one container, which is open and has no blob. -/
def openStore (accounts : Table String AccountRow) (c : ContainerKey) : World where
  db := { MetadataDb.empty accounts with
    containers := AList.insert c ⟨PublicAccessLevel.container.asDbStr, ∅, "", ""⟩ ∅ }
  fs := ⟨fun _ => none⟩

/-- The same with a closed container besides, in which there is a blob. -/
def hiddenStore (accounts : Table String AccountRow) (c : ContainerKey) (k : BlobKey) : World where
  db := { MetadataDb.empty accounts with
    containers := AList.insert k.containerKey ⟨PublicAccessLevel.off.asDbStr, ∅, "", ""⟩
      (openStore accounts c).db.containers
    blobs := AList.insert k (MetadataDb.upsertedRow k ⟨0, none, none, ∅, "", "", ""⟩ none) ∅
    committedBlocks := AList.insert k [⟨"", 0⟩] ∅ }
  fs := ⟨fun _ => none⟩

section Hidden

variable {k : BlobKey} (hne : k.containerKey ≠ c) (hc : (accounts.lookup c.account).isSome = true)
  (hk : (accounts.lookup k.account).isSome = true)

lemma level_openStore (c' : ContainerKey) :
    (openStore accounts c).db.level c' = if c' = c then .container else .off := by
  simp only [MetadataDb.level, MetadataDb.getContainer, openStore, Table.lookup_insert_eq]
  split_ifs with h <;> simp

include hne in
lemma level_hiddenStore (c' : ContainerKey) :
    (hiddenStore accounts c k).db.level c' = if c' = c then .container else .off := by
  by_cases hc' : c' = k.containerKey
  · subst hc'
    simp [MetadataDb.level, MetadataDb.getContainer, hiddenStore, hne]
  · have hopen : (openStore accounts c).db.level c' = _ := level_openStore c'
    rw [← hopen]
    simp only [MetadataDb.level, MetadataDb.getContainer, hiddenStore, Table.lookup_insert_eq,
      if_neg hc']

include hc in
lemma inAccounts_openStore : (openStore accounts c).db.InAccounts where
  container c' hc' := by
    rcases (Table.isSome_lookup_insert c c' _ ∅).mp hc' with rfl | hold
    · exact hc
    · simp at hold
  blob k hk := by simp [openStore, MetadataDb.empty] at hk
  staged s hs := by simp [openStore, MetadataDb.empty] at hs
  committed k hk := by simp [openStore, MetadataDb.empty] at hk

include hc hk in
lemma inAccounts_hiddenStore : (hiddenStore accounts c k).db.InAccounts where
  container c' hc' := by
    rcases (Table.isSome_lookup_insert k.containerKey c' _ _).mp hc' with rfl | hold
    · exact hk
    · exact (inAccounts_openStore hc).container c' hold
  blob k' hk' := by
    rcases (Table.isSome_lookup_insert k k' _ ∅).mp hk' with rfl | hold
    · exact hk
    · simp at hold
  staged s hs := by simp [hiddenStore, MetadataDb.empty] at hs
  committed k' hk' := by
    rcases (Table.isSome_lookup_insert k k' _ ∅).mp hk' with rfl | hold
    · exact hk
    · simp at hold

include hne hc hk in
/-- The two stores agree on what is open. -/
lemma sameOpen_hiddenStore :
    SameOpen B accounts (hiddenStore accounts c k) (openStore accounts c) where
  accounts := ⟨rfl, rfl⟩
  known := ⟨inAccounts_hiddenStore hc hk, inAccounts_openStore hc⟩
  same c' hopen := by
    rw [level_hiddenStore hne, level_openStore] at hopen
    have hcc : c' = c := by
      by_contra hnot
      simp [hnot] at hopen
    subst hcc
    have hkey : ∀ k' : BlobKey, k'.containerKey = c' → k' ≠ k := by
      rintro k' rfl rfl
      exact hne rfl
    refine ⟨?_, fun k' hk' => ?_, fun k' row hk' hrow => rfl, fun k' hk' => ?_, fun _ _ => rfl⟩
    · exact AList.lookup_insert_ne (Ne.symm hne)
    · exact AList.lookup_insert_ne (hkey k' hk')
    · exact congrArg (Option.getD · []) (AList.lookup_insert_ne (hkey k' hk'))

end Hidden

/-! #### Responses that differ -/

section Status

variable {a b n : String}

lemma run_getContainerProperties_call (amb : Ambient) :
    ((B.call amb (.getContainerProperties a b)).run w).1 =
      (Shelf.container ⟨a, b⟩ w.db).map fun row => .container (containerRowToProps row) := by
  rw [FsBackend.call, FsBackend.getContainerProperties, run_lookup (run_requireContainer a b w)]

lemma run_getBlobProperties_call (amb : Ambient) :
    ((B.call amb (.getBlobProperties a b n)).run w).1 =
      (Shelf.blob ⟨a, b, n⟩ w.db).map fun row => .blob (blobRowToProps row) := by
  rw [FsBackend.call, FsBackend.getBlobProperties, run_lookup (run_requireBlob a b n w)]

lemma run_listBlobs_call (amb : Ambient) (np d mk : Option String) (num : UInt32) :
    ((B.call amb (.listBlobs a b np d mk num)).run w).1 =
      (Shelf.container ⟨a, b⟩ w.db).map fun _ => .blobs ((FsBackend.groupRows (np.getD "") d
        (w.db.listBlobs ⟨a, b⟩ np mk num).1 [] []).map
          fun g => ⟨g.1, g.2, (w.db.listBlobs ⟨a, b⟩ np mk num).2⟩) := by
  rw [FsBackend.call, Store.run, run_bind_pure _ (run_listBlobs a b np d mk num w)]
  cases Shelf.container ⟨a, b⟩ w.db <;> simp [Except.map]

/-- Whether a container exists shows. -/
lemma status_containerGet :
    ((containerGet app a b req).run app m w).1.map Response.status = some 404 ↔
      w.db.containers.lookup ⟨a, b⟩ = none := by
  unfold containerGet
  dsimp only
  cases hrow : w.db.containers.lookup ⟨a, b⟩ with
  | none =>
    have hmissing : Shelf.container ⟨a, b⟩ w.db = .error (.new .containerNotFound) := by
      simp [Shelf.container, MetadataDb.getContainer, hrow]
    refine iff_of_true ?_ rfl
    by_cases hlist : req.comp = some "list"
    · rw [if_pos hlist, Plan.run_call, run_listBlobs_call, hmissing]
      rfl
    · rw [if_neg hlist]
      split_ifs <;> rw [Plan.run_call, run_getContainerProperties_call, hmissing] <;> rfl
  | some r =>
    obtain ⟨row, hfound⟩ := exists_container.mpr (show (w.db.containers.lookup ⟨a, b⟩).isSome = true
      by simp [hrow])
    refine iff_of_false ?_ (by simp)
    by_cases hlist : req.comp = some "list"
    · rw [if_pos hlist, Plan.run_call, run_listBlobs_call, hfound]
      simp only [Except.map]
      cases FsBackend.groupRows _ _ _ _ _ <;> simp [xmlResponse]
    · rw [if_neg hlist]
      split_ifs <;> rw [Plan.run_call, run_getContainerProperties_call, hfound] <;> simp [Except.map]

/-- A blob that exists is not reported as missing. -/
lemma status_getBlob {row : BlobRow} (hrow : Shelf.blob ⟨a, b, n⟩ w.db = .ok row) (amb : Ambient)
    (range : Option (ℕ × ℕ)) :
    (∃ payload, ((B.call amb (.getBlob a b n range)).run w).1 = .ok (.payload payload)) ∨
      ∃ err, ((B.call amb (.getBlob a b n range)).run w).1 = .error err ∧
        err.code.statusCode ≠ 404 := by
  simp only [Store.run, FsBackend.call, FsBackend.getBlob, run_bind, run_requireBlob, hrow,
    run_ofExcept]
  cases hrange : FsBackend.resolveRange row.contentLength range with
  | error e =>
    right
    refine ⟨e, rfl, ?_⟩
    cases range with
    | none => cases hrange
    | some r =>
      simp only [FsBackend.resolveRange] at hrange
      split_ifs at hrange
      cases hrange
      decide
  | ok rr =>
    simp only [run_perform, Action.exec]
    cases w.fs.openFile (B.stored row.storagePath) with
    | error e =>
      right
      refine ⟨ioError e, rfl, ?_⟩
      simp [ioError, AzureError.withMessage, AzureErrorCode.statusCode]
    | ok content => exact .inl ⟨_, rfl⟩

/-- Whether a blob exists shows, unless its blocks are asked for. -/
lemma status_blobGet (hcomp : req.comp ≠ some "blocklist") :
    ((blobGet a b n req).run app m w).1.map Response.status = some 404 ↔
      w.db.blobs.lookup ⟨a, b, n⟩ = none := by
  unfold blobGet
  rw [if_neg hcomp]
  cases hrow : w.db.blobs.lookup ⟨a, b, n⟩ with
  | none =>
    have hmissing : Shelf.blob ⟨a, b, n⟩ w.db = .error (.new .blobNotFound) := by
      simp [Shelf.blob, MetadataDb.getBlob, hrow]
    refine iff_of_true ?_ rfl
    split_ifs <;> rw [Plan.run_call]
    · rw [run_getBlobProperties_call, hmissing]
      rfl
    · rw [run_getBlobProperties_call, hmissing]
      rfl
    · simp only [Store.run, FsBackend.call, FsBackend.getBlob, run_bind, run_requireBlob, hmissing]
      rfl
  | some row =>
    have hfound : Shelf.blob ⟨a, b, n⟩ w.db = .ok row := by
      simp [Shelf.blob, MetadataDb.getBlob, hrow]
    refine iff_of_false ?_ (by simp)
    split_ifs <;> rw [Plan.run_call]
    · rw [run_getBlobProperties_call, hfound]
      simp [Except.map]
    · rw [run_getBlobProperties_call, hfound]
      simp [Except.map]
    · rcases status_getBlob hfound m.amb (requestedRange req.headers) (B := app.backend) with
        ⟨payload, hok⟩ | ⟨err, herr, hstatus⟩
      · rw [hok]
        simp only
        cases payload.range <;> simp
      · rw [herr]
        simpa [azureErrorResponse] using hstatus

/-- So does the list of its blocks. -/
lemma body_blobGet (hcomp : req.comp = some "blocklist") :
    ((blobGet a b n req).run app m w).1.map Response.body =
      some (Text.bytes (Xml.renderBlockListResponse ⟨w.db.getCommittedBlocks ⟨a, b, n⟩,
        w.db.getUncommittedBlocks ⟨a, b, n⟩⟩)) := by
  have hmeta : req.comp ≠ some "metadata" := by simp [hcomp]
  unfold blobGet
  rw [if_neg hmeta, if_pos hcomp, Plan.run_call]
  rfl

end Status

section Answered

variable {account key1 : String} {key2 container blob : Option String} {ctx : AuthContext}
  (h : Accepted app m req w account key1 key2 container blob ctx)
include h

lemma Accepted.status : (authMiddleware app m req w).1.map Response.status =
    ((plan app req).run app m w).1.map Response.status := by
  rw [h.run, Option.map_map]
  congr 1
  funext resp
  simp

lemma Accepted.body (hmethod : req.method ≠ .head) : (authMiddleware app m req w).1.map Response.body =
    ((plan app req).run app m w).1.map Response.body := by
  rw [h.run, Option.map_map]
  congr 1
  funext resp
  simp [finalizeResponse, stripBody, hmethod]

end Answered

/-- A container that is open to everyone lets requests that read through. -/
lemma HttpRequest.Unsigned.accepted_of_container (hreq : req.Unsigned)
    (hmethod : req.method = .get ∨ req.method = .head) {account c : String} {blob : Option String}
    (hpath : splitPath req.path = (some account, some c, blob))
    (haccount : (w.db.accounts.lookup account).isSome = true)
    (hlevel : w.db.level ⟨account, c⟩ = .container) :
    ∃ key1 key2, Accepted app m req w account key1 key2 (some c) blob ⟨account, .anonymous⟩ := by
  obtain ⟨keys, hkeys⟩ := Option.isSome_iff_exists.mp haccount
  refine ⟨keys.key1, keys.key2, hpath, by simp [MetadataDb.accountKeys, hkeys], ?_⟩
  rw [hreq.authenticate, verifyAnonymous_eq, hlevel, if_pos]
  cases blob <;> simp [PublicAccessLevel.opens, hmethod, PublicAccessLevel.allowsBlobRead,
    PublicAccessLevel.allowsContainerListing]

/-- A container that one store lacks and the other has. -/
lemma container_differs {k : BlobKey} (hne : k.containerKey ≠ c) :
    ((containerGet app k.account k.container req).run app m
        (hiddenStore accounts c k)).1.map Response.status ≠
      ((containerGet app k.account k.container req).run app m
        (openStore accounts c)).1.map Response.status := by
  have hmissing : (openStore accounts c).db.containers.lookup ⟨k.account, k.container⟩ = none :=
    AList.lookup_insert_ne hne
  have hfound : (hiddenStore accounts c k).db.containers.lookup ⟨k.account, k.container⟩ =
      some ⟨PublicAccessLevel.off.asDbStr, ∅, "", ""⟩ := AList.lookup_insert _
  rw [status_containerGet.mpr hmissing]
  intro hstatus
  cases hfound.symm.trans (status_containerGet.mp hstatus)

/-- A blob that one store lacks and the other has. -/
lemma blob_differs {k : BlobKey} (hcomp : req.comp ≠ some "blocklist") :
    ((blobGet k.account k.container k.blob req).run app m
        (hiddenStore accounts c k)).1.map Response.status ≠
      ((blobGet k.account k.container k.blob req).run app m
        (openStore accounts c)).1.map Response.status := by
  have hmissing : (openStore accounts c).db.blobs.lookup k = none := AList.lookup_empty k
  have hfound : (hiddenStore accounts c k).db.blobs.lookup k = some
      (MetadataDb.upsertedRow k ⟨0, none, none, ∅, "", "", ""⟩ none) := AList.lookup_insert ∅
  rw [(status_blobGet hcomp).mpr hmissing]
  intro hstatus
  cases hfound.symm.trans ((status_blobGet hcomp).mp hstatus)

/-- Its block list. -/
lemma blocks_differ {k : BlobKey} (hcomp : req.comp = some "blocklist") :
    ((blobGet k.account k.container k.blob req).run app m
        (hiddenStore accounts c k)).1.map Response.body ≠
      ((blobGet k.account k.container k.blob req).run app m
        (openStore accounts c)).1.map Response.body := by
  have hblocks : (hiddenStore accounts c k).db.getCommittedBlocks k = [⟨"", 0⟩] := by
    have hrow : (hiddenStore accounts c k).db.committedBlocks.lookup k = some [⟨"", 0⟩] :=
      AList.lookup_insert ∅
    rw [MetadataDb.getCommittedBlocks, hrow]
    rfl
  have hxml : Xml.renderBlockListResponse ⟨[⟨"", 0⟩], []⟩ ≠ Xml.renderBlockListResponse ⟨[], []⟩ := by
    decide +kernel
  rw [body_blobGet hcomp, body_blobGet hcomp, hblocks]
  exact fun hbody => hxml (Text.bytes_injective (Option.some.inj hbody))

/-- What is in a closed container shows if the middleware looked at another one. -/
lemma exists_differ (hreq : req.Unsigned) (hroute : req.Misrouted accounts)
    (hbody : ¬ (req.method = .head ∧ req.comp = some "blocklist")) :
    ∃ w w', SameOpen app.backend accounts w w' ∧
      (authMiddleware app m req w).1 ≠ (authMiddleware app m req w').1 := by
  obtain ⟨hmethod, a, c, b, c', hpath, ha, htarget, hne, hc'⟩ := hroute
  obtain ⟨r, hr, hrc⟩ := Option.bind_eq_some_iff.mp htarget
  -- the blob that is asked for, or any one in the container
  obtain ⟨k, rfl, hk⟩ : ∃ k : BlobKey, k.containerKey = c' ∧
      (r = .container k.account k.container ∨ r = .blob k.account k.container k.blob) := by
    cases r with
    | account x => cases hrc
    | container x y =>
      cases hrc
      exact ⟨⟨x, y, ""⟩, rfl, .inl rfl⟩
    | blob x y z =>
      cases hrc
      exact ⟨⟨x, y, z⟩, rfl, .inr rfl⟩
  refine ⟨hiddenStore accounts ⟨a, c⟩ k, openStore accounts ⟨a, c⟩,
    sameOpen_hiddenStore hne ha hc', fun hsame => ?_⟩
  obtain ⟨key1, key2, hacc⟩ : ∃ key1 key2, Accepted app m req (hiddenStore accounts ⟨a, c⟩ k) a key1
      key2 (some c) b ⟨a, .anonymous⟩ :=
    hreq.accepted_of_container hmethod hpath ha (by rw [level_hiddenStore hne, if_pos rfl])
  obtain ⟨key1', key2', hacc'⟩ : ∃ key1 key2, Accepted app m req (openStore accounts ⟨a, c⟩) a key1
      key2 (some c) b ⟨a, .anonymous⟩ :=
    hreq.accepted_of_container hmethod hpath ha (by rw [level_openStore, if_pos rfl])
  have hstatus := congrArg (Option.map Response.status) hsame
  rw [hacc.status, hacc'.status, plan_of_target hr] at hstatus
  rcases hk with rfl | rfl
  · have hplan : handler app req (.container k.account k.container) =
        some (containerGet app k.account k.container req) := by
      rcases hmethod with hm | hm <;> simp only [handler, hm]
    rw [hplan, Option.getD_some] at hstatus
    exact container_differs hne hstatus
  · have hplan : handler app req (.blob k.account k.container k.blob) =
        some (blobGet k.account k.container k.blob req) := by
      rcases hmethod with hm | hm <;> simp only [handler, hm]
    by_cases hcomp : req.comp = some "blocklist"
    · have hhead : req.method ≠ .head := fun hm => hbody ⟨hm, hcomp⟩
      have hbytes := congrArg (Option.map Response.body) hsame
      rw [hacc.body hhead, hacc'.body hhead, plan_of_target hr, hplan, Option.getD_some] at hbytes
      exact blocks_differ hcomp hbytes
    · rw [hplan, Option.getD_some] at hstatus
      exact blob_differs hcomp hstatus

/-! ### Paths without escapes -/

lemma path_of_cut {path a : String} {cs : List Char} {rest : Option String}
    (hchars : Text.chars path = '/' :: cs) (hcut : Text.cut '/' (String.ofList cs) = (a, rest)) :
    path = match rest with
      | none      => "/" ++ a
      | some rest => "/" ++ (a ++ ("/" ++ rest)) := by
  have heq := Text.cut_eq '/' (String.ofList cs)
  rw [hcut] at heq
  rw [Text.chars_eq] at hchars
  rw [← String.toList_inj, hchars]
  cases rest with
  | none => simpa using congrArg String.toList heq
  | some rest => simpa using congrArg String.toList heq

/-- A path without escapes that is misrouted begins with two slashes, and there is an account
without a name. -/
lemma HttpRequest.Misrouted.literal (h : req.Misrouted accounts)
    (hescape : Percent.hasEscape (Text.bytes req.path) = false) :
    (∃ rest, req.path = "//" ++ rest) ∧ (accounts.lookup "").isSome = true := by
  obtain ⟨-, a, c, b, c', hpath, -, htarget, hne, hknown⟩ := h
  obtain ⟨r', hr', hrc⟩ := Option.bind_eq_some_iff.mp htarget
  obtain ⟨r, hroute, hdecode⟩ := target_eq_some.mp hr'
  have hnot : ¬ r.Literal := by
    intro hliteral
    have hresource := (authorized_resource_iff hroute hdecode).mpr hliteral
    rw [hpath] at hresource
    cases r' with
    | account x => cases hrc
    | container x y =>
      cases hrc
      cases hresource
      exact hne rfl
    | blob x y z =>
      cases hrc
      cases hresource
      exact hne rfl
  cases captures_of_matchRoute hroute with
  | account =>
    obtain ⟨a', -, rfl⟩ := decode_account.mp hdecode
    cases hrc
  | @container cs a₀ rest c₀ hchars hcut hrest hc =>
    obtain ⟨a', c₁, ha', -, rfl⟩ := decode_container.mp hdecode
    cases hrc
    have hwhole := path_of_cut hchars hcut
    have hcontainer := Text.cut_eq '/' rest
    rw [hrest] at hcontainer
    by_cases ha : a₀ = ""
    · subst ha
      rw [decode_empty ha'] at hknown
      exact ⟨⟨rest, by rw [hwhole]; simp [← String.toList_inj]⟩, hknown⟩
    · rw [hwhole] at hescape
      obtain ⟨hfirst, hlast⟩ := Percent.hasEscape_append_eq_false
        (Percent.hasEscape_append_eq_false hescape).2
      have hsecond := (Percent.hasEscape_append_eq_false hlast).2
      rw [hcontainer] at hsecond
      exact absurd ⟨ha, hfirst, hsecond⟩ hnot
  | @blob cs a₀ rest c₀ b₀ hchars hcut hrest hb =>
    obtain ⟨a', c₁, b₁, ha', -, -, rfl⟩ := decode_blob.mp hdecode
    cases hrc
    have hwhole := path_of_cut hchars hcut
    have hcontainer := Text.cut_eq '/' rest
    rw [hrest] at hcontainer
    by_cases ha : a₀ = ""
    · subst ha
      rw [decode_empty ha'] at hknown
      exact ⟨⟨rest, by rw [hwhole]; simp [← String.toList_inj]⟩, hknown⟩
    · have hc₀ : c₀ ≠ "" := by
        rintro rfl
        have hsplit := splitPath_of_cut hchars hcut ha
        simp only [hrest, hpath] at hsplit
        cases hsplit
      rw [hwhole] at hescape
      obtain ⟨hfirst, hlast⟩ := Percent.hasEscape_append_eq_false
        (Percent.hasEscape_append_eq_false hescape).2
      have hsecond := (Percent.hasEscape_append_eq_false hlast).2
      rw [hcontainer] at hsecond
      obtain ⟨hmiddle, hthird⟩ := Percent.hasEscape_append_eq_false hsecond
      exact absurd ⟨⟨ha, hc₀⟩, hfirst, (Percent.hasEscape_append_eq_false hmiddle).1, hthird⟩ hnot

/-! ### When nothing shows -/

/-- A request without credentials tells nothing about closed containers, unless it is misrouted;
then it does, but for `HEAD` on a block list, whose response is the same whatever the list. -/
theorem anonymous_discreet (hreq : (req.resolved app accounts).Unsigned) :
    ((req.path = "/healthz" ∨ req.path = "/readyz") ∨
        ¬ (req.resolved app accounts).Misrouted accounts → Discreet app m accounts req) ∧
      (¬ ((req.resolved app accounts).method = .head ∧
          (req.resolved app accounts).comp = some "blocklist") → Discreet app m accounts req →
        (req.path = "/healthz" ∨ req.path = "/readyz") ∨
          ¬ (req.resolved app accounts).Misrouted accounts) := by
  constructor
  · rintro (hhealth | hroute)
    · intro w w' h
      refine ⟨?_, ?_, fun _ _ _ _ hnot => absurd hhealth hnot⟩ <;> simp [serveHttp, hhealth]
    · exact discreet_of_not_misrouted hreq hroute
  · intro hbody hdiscreet
    by_contra hnot
    obtain ⟨hhealth, hroute⟩ := not_or.mp hnot
    obtain ⟨w, w', hsame, hdiffer⟩ : ∃ w w', SameOpen app.backend accounts w w' ∧
        (authMiddleware app m (req.resolved app accounts) w).1 ≠
          (authMiddleware app m (req.resolved app accounts) w').1 :=
      exists_differ hreq (not_not.mp hroute) hbody
    have hanswer := (hdiscreet w w' hsame).1
    rw [serveHttp_eq hsame.accounts.1 hhealth, serveHttp_eq hsame.accounts.2 hhealth] at hanswer
    exact hdiffer hanswer

/-- A request to read, without credentials. -/
def sampleAnonymous (path : String) : HttpRequest where
  method     := .get
  path       := path
  query      := none
  uriHost    := none
  headers    := []
  body       := []
  signedPath := none

/-- An account without a name, besides the one of the samples. -/
def sampleNameless : Table String AccountRow := AList.insert "" ⟨"a2V5", none⟩ sampleAccounts

lemma resolved_sampleAnonymous (path : String) :
    (sampleAnonymous path).resolved sampleApp sampleNameless = sampleAnonymous path := by
  unfold HttpRequest.resolved accountResolve
  dsimp only
  split <;> rfl

lemma unsigned_sampleAnonymous (path : String) :
    ((sampleAnonymous path).resolved sampleApp sampleNameless).Unsigned := by
  rw [resolved_sampleAnonymous]
  exact ⟨by rfl, by rfl, by rfl, by rfl⟩

/-- A path with a single slash at its start. -/
theorem anonymous_discreet_blob :
    Discreet sampleApp sampleMoment sampleNameless (sampleAnonymous "/acc/c/b") := by
  refine (anonymous_discreet (unsigned_sampleAnonymous _)).1 (.inr fun hroute => ?_)
  rw [resolved_sampleAnonymous] at hroute
  obtain ⟨⟨rest, hrest⟩, -⟩ := hroute.literal (by decide +kernel)
  have hchars := congrArg String.toList hrest
  simp [sampleAnonymous] at hchars

/-- An open container, and a closed one in the account without a name that may have a blob in it. -/
def sampleNamelessStore (blob : Bool) : World :=
  sample.serve (sample.fresh sampleNameless)
    ([⟨sampleAmb 1, .createContainer "acc" "c" .container ∅⟩,
      ⟨sampleAmb 2, .createContainer "" "acc" .off ∅⟩] ++
      if blob then [⟨sampleAmb 3, .putBlob "" "acc" "c" [.ok [1]] none none ∅⟩] else [])

lemma arisen_sampleNamelessStore (blob : Bool) : Arisen sample (sampleNamelessStore blob) := by
  cases blob
  · exact .call (.call (.fresh (sample.fresh_isFresh _)) _ _) _ _
  · exact .call (.call (.call (.fresh (sample.fresh_isFresh _)) _ _) _ _) _ _

/-- The stores differ in the blob only. -/
lemma sameOpen_sampleNamelessStore :
    SameOpen sample sampleNameless (sampleNamelessStore true) (sampleNamelessStore false) := by
  obtain ⟨haccounts, hcontainers, ⟨hblobs, hblobs'⟩, hblocks⟩ :
      (∀ blob, (sampleNamelessStore blob).db.accounts = sampleNameless) ∧
      (∀ blob, (sampleNamelessStore blob).db.containers =
        AList.insert ⟨"", "acc"⟩ ⟨"off", ∅, "0x8DC", "Mon, 01 Jan 2024 00:00:00 GMT"⟩
          (AList.insert ⟨"acc", "c"⟩
            ⟨"container", ∅, "0x8DC", "Mon, 01 Jan 2024 00:00:00 GMT"⟩ ∅)) ∧
      ((sampleNamelessStore false).db.blobs = ∅ ∧
        (sampleNamelessStore true).db.blobs.keys = [⟨"", "acc", "c"⟩]) ∧
      ∀ blob, (sampleNamelessStore blob).db.stagedBlocks = ∅ ∧
        (sampleNamelessStore blob).db.committedBlocks = ∅ := by
    decide +kernel
  refine ⟨⟨haccounts true, haccounts false⟩, ⟨(arisen_sampleNamelessStore true).inAccounts,
    (arisen_sampleNamelessStore false).inAccounts⟩, fun c hc => ?_⟩
  have hopen : c = ⟨"acc", "c"⟩ := by
    by_contra hnot
    simp only [MetadataDb.level, MetadataDb.getContainer, hcontainers, Table.lookup_insert_eq,
      if_neg hnot] at hc
    split_ifs at hc <;> simp [PublicAccessLevel.fromDbStr] at hc
  have hother : ∀ k : BlobKey, k.containerKey = c →
      (sampleNamelessStore true).db.blobs.lookup k = none := by
    rintro k rfl
    refine AList.lookup_eq_none.mpr fun hk => ?_
    rw [AList.mem_keys, hblobs', List.mem_singleton] at hk
    subst hk
    exact absurd hopen (by decide)
  refine ⟨by rw [hcontainers, hcontainers], fun k hk => ?_, fun k row hk hrow => ?_, fun k _ => ?_,
    fun k _ => ?_⟩
  · rw [hother k hk, hblobs]
    rfl
  · rw [hother k hk] at hrow
    cases hrow
  · rw [MetadataDb.getCommittedBlocks, MetadataDb.getCommittedBlocks, (hblocks true).2,
      (hblocks false).2]
  · rw [MetadataDb.getUncommittedBlocks, MetadataDb.getUncommittedBlocks, (hblocks true).1,
      (hblocks false).1]

/-- The blob of the closed container is read through the open one. -/
theorem anonymous_discreet_nameless :
    Percent.hasEscape (Text.bytes (sampleAnonymous "//acc/c").path) = false ∧
      ((sampleAnonymous "//acc/c").resolved sampleApp sampleNameless).Unsigned ∧
      SameOpen sampleApp.backend sampleNameless (sampleNamelessStore true)
        (sampleNamelessStore false) ∧
      (serveHttp sampleApp sampleMoment (sampleAnonymous "//acc/c")
        (sampleNamelessStore true)).1.map Response.body = some [1] ∧
      (serveHttp sampleApp sampleMoment (sampleAnonymous "//acc/c")
        (sampleNamelessStore false)).1.map Response.status = some 404 ∧
      ¬ Discreet sampleApp sampleMoment sampleNameless (sampleAnonymous "//acc/c") := by
  have hruns : (serveHttp sampleApp sampleMoment (sampleAnonymous "//acc/c")
        (sampleNamelessStore true)).1.map (fun r => (r.status, r.body)) = some (200, [1]) ∧
      (serveHttp sampleApp sampleMoment (sampleAnonymous "//acc/c")
        (sampleNamelessStore false)).1.map Response.status = some 404 := by
    decide +kernel
  refine ⟨by decide +kernel, unsigned_sampleAnonymous _, sameOpen_sampleNamelessStore, ?_, hruns.2,
    fun hdiscreet => ?_⟩
  · simpa using congrArg (Option.map Prod.snd) hruns.1
  · have hanswer := (hdiscreet _ _ sameOpen_sampleNamelessStore).1
    have hfound := congrArg (Option.map Prod.fst) hruns.1
    rw [Option.map_map] at hfound
    rw [hanswer] at hfound
    have hstatus := hruns.2.symm.trans hfound
    cases hstatus

end BlobStore
