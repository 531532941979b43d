import BlobStore.Lib.Paging
import BlobStore.Storage.Ledger
import Mathlib.Algebra.GroupWithZero.Nat

/-!
# The committed block list and the blob it describes

`put_block_list` records ids and sizes of the blocks a blob was made of. `put_blob` replaces the
bytes of a blob and leaves that record, and a reference to a committed block takes its bytes from
the staged block and its size from the old record. Where neither happens, the list cuts the stored
bytes into what its blocks have contributed.
-/

namespace BlobStore

open Codec FileTree Paging

/-- The blocks of the last list a blob was made of, with the bytes each has contributed. -/
abbrev Contributions := BlobKey → List (String × Bytes)

/-- A block list that is accepted replaces the contributions to its blob. -/
def Contributions.enter (g : Contributions) (s : Shelf) :
    Call → Except AzureError Reply → Contributions
  | .putBlockList a c b refs _ _, .ok _ =>
    Function.update g ⟨a, c, b⟩
      (refs.map fun ref => (ref.blockId, (s.staged ⟨⟨a, c, b⟩, ref.blockId⟩).getD []))
  | _, _ => g

/-- The contributions after serving requests one after another. -/
def FsBackend.contributions (B : FsBackend) (g : Contributions) (w : World) :
    List Request → Contributions
  | []          => g
  | req :: reqs =>
    B.contributions (g.enter (B.shelf w) req.call ((B.call req.amb req.call).run w).1)
      ((B.call req.amb req.call).run w).2 reqs

/-- The committed list of a blob is empty, or it cuts the bytes of the blob into its parts. -/
def Described (s : Shelf) (k : BlobKey) (parts : List (String × Bytes)) : Prop :=
  s.db.getCommittedBlocks k = [] ∨ ∃ row, s.db.blobs.lookup k = some row ∧
    s.db.getCommittedBlocks k = parts.map (fun part => ⟨part.1, part.2.length⟩) ∧
    row.contentLength = (parts.map Prod.snd).flatten.length ∧
    s.content k = some (parts.map Prod.snd).flatten

/-- The staged blocks have the sizes in their rows. -/
def Sized (s : Shelf) : Prop :=
  ∀ b row, s.db.stagedBlocks.lookup b = some row → (s.staged b).map List.length = some row.blockSize

/-- A call in a state after which a block list may be stale. A `put_blob` whose body is read to its
end must find no committed list, or the same bytes and the announced digest. References to committed
blocks must be of the size of the staged block that stands in for them. The last two conditions are
about statements that fail after the file has been replaced. -/
def Call.KeepsList (B : FsBackend) (amb : Ambient) (s : Shelf) : Call → Prop
  | .putBlob a c b body _ hd _ =>
    ∀ bytes ∈ body.collect.toOption, s.db.getCommittedBlocks ⟨a, c, b⟩ = [] ∨
      s.content ⟨a, c, b⟩ = some bytes ∧ (hd = none ∨ hd = Shelf.digest B bytes)
  | .putBlockList a c b refs _ _ =>
    (amb.dbFault = none → ∀ ref ∈ refs, ref.kind = .committed →
      ∀ row ∈ s.db.stagedBlocks.lookup ⟨⟨a, c, b⟩, ref.blockId⟩,
        ∀ size ∈ FsBackend.committedSize (s.db.getCommittedBlocks ⟨a, c, b⟩) ref.blockId,
          size = row.blockSize) ∧
    (amb.dbFault ≠ none → s.db.getCommittedBlocks ⟨a, c, b⟩ = [] ∨
      s.content ⟨a, c, b⟩ = some (s.assemble ⟨a, c, b⟩ refs))
  | .putBlock a c b id body =>
    amb.dbFault ≠ none → ∀ bytes ∈ body.collect.toOption,
      ∀ row ∈ s.db.stagedBlocks.lookup ⟨⟨a, c, b⟩, id⟩, bytes.length = row.blockSize
  | _ => True

/-- Every call of a run keeps the lists, in the state it meets. -/
def KeepsLists (B : FsBackend) (w : World) : List Request → Prop
  | []          => True
  | req :: reqs => req.call.KeepsList B req.amb (B.shelf w) ∧
      KeepsLists B ((B.call req.amb req.call).run w).2 reqs

/-! ### Changes that leave a list alone -/

variable {B : FsBackend} {amb : Ambient} {s s' : Shelf} {k : BlobKey} {g : Contributions}
  {parts : List (String × Bytes)}

lemma Described.congr (h : Described s k parts)
    (hlist : s'.db.getCommittedBlocks k = s.db.getCommittedBlocks k)
    (hrow : (s'.db.blobs.lookup k).map BlobRow.contentLength =
      (s.db.blobs.lookup k).map BlobRow.contentLength)
    (hcontent : s'.content k = s.content k) : Described s' k parts := by
  rcases h with h | ⟨row, hlookup, hparts, hlen, hbytes⟩
  · exact .inl (hlist.trans h)
  · rw [hlookup, Option.map_some, Option.map_eq_some_iff] at hrow
    obtain ⟨row', hlookup', hlen'⟩ := hrow
    exact .inr ⟨row', hlookup', hlist.trans hparts, hlen'.trans hlen, hcontent.trans hbytes⟩

/-- What holds between the calls of such a run. -/
structure Telling (s : Shelf) (g : Contributions) : Prop where
  described : ∀ k, Described s k (g k)
  sized : Sized s

/-- The tables change, but no list, length or staged row. -/
lemma Telling.of_rows (h : Telling s g) {db : MetadataDb}
    (hlist : db.committedBlocks = s.db.committedBlocks)
    (hblob : ∀ k, (db.blobs.lookup k).map BlobRow.contentLength =
      (s.db.blobs.lookup k).map BlobRow.contentLength)
    (hstaged : db.stagedBlocks = s.db.stagedBlocks) : Telling { s with db := db } g where
  described k := (h.described k).congr (by simp [MetadataDb.getCommittedBlocks, hlist]) (hblob k) rfl
  sized b row hrow := h.sized b row (hstaged ▸ hrow)

lemma Telling.modify_blob (h : Telling s g) (k : BlobKey) {f : BlobRow → BlobRow}
    (hf : ∀ row, (f row).contentLength = row.contentLength) :
    Telling { s with db := { s.db with blobs := Table.modify k f s.db.blobs } } g := by
  refine h.of_rows rfl (fun k' => ?_) rfl
  by_cases hk : k' = k
  · subst hk
    simp only [Table.lookup_modify_self, Option.map_map]
    exact congrArg (Option.map · _) (funext hf)
  · simp only [Table.lookup_modify_ne hk]

lemma telling_update {ρ : Type} (h : Telling s g) (amb : Ambient)
    (row : MetadataDb → Except AzureError ρ)
    (stmt : MetadataDb → Except SqlError Unit × MetadataDb) {db : MetadataDb}
    (hstmt : stmt s.db = (.ok (), db)) (hdb : Telling { s with db := db } g) :
    Telling (Shelf.update amb row stmt s).2 g := by
  unfold Shelf.update
  cases row s.db with
  | error e => exact h
  | ok r =>
    cases amb.dbFault with
    | some message => exact h
    | none =>
      simp only [MetadataDb.guarded, hstmt]
      exact hdb

lemma telling_createContainer (h : Telling s g) (c : ContainerKey) (pa : PublicAccessLevel)
    (m : Metadata) : Telling (Shelf.createContainer amb c pa m s).2 g := by
  unfold Shelf.createContainer
  cases amb.dbFault with
  | some message => exact h
  | none =>
    simp only [MetadataDb.guarded, MetadataDb.insertContainer]
    split_ifs
    · exact h
    · exact h
    · exact h.of_rows rfl (fun _ => rfl) rfl

/-! ### Deletions -/

/-- Rows that go together with their lists. -/
lemma Telling.dropped (h : Telling s g) {pk : BlobKey → Prop} {pb : StagedBlockKey → Prop}
    [DecidablePred pk] [DecidablePred pb] {db : MetadataDb} (hdb : Drops pk pb s.db db)
    (hlist : ∀ k, db.getCommittedBlocks k = if pk k then [] else s.db.getCommittedBlocks k) :
    Telling ⟨db, fun k => if pk k then none else s.content k,
      fun b => if pb b then none else s.staged b⟩ g where
  described k := by
    by_cases hk : pk k
    · exact .inl ((hlist k).trans (if_pos hk))
    · refine (h.described k).congr ?_ ?_ (if_neg hk)
      · exact (hlist k).trans (if_neg hk)
      · exact congrArg _ ((hdb.blob k).trans (if_neg hk))
  sized b row hrow := by
    have hlookup := (hdb.staged b).symm.trans hrow
    split_ifs at hlookup with hb
    simp only [if_neg hb]
    exact h.sized b row hlookup

lemma telling_deleteBlob (h : Telling s g) (amb : Ambient) (k : BlobKey) :
    Telling (Shelf.deleteBlob amb k s).2 g := by
  unfold Shelf.deleteBlob
  cases Shelf.blob k s.db with
  | error e => exact h
  | ok row =>
    cases amb.dbFault with
    | some message => exact h
    | none =>
      refine h.dropped (drops_deleteBlob k s.db) fun k' => ?_
      change ((AList.erase k s.db.committedBlocks).lookup k').getD [] = _
      rw [Table.lookup_erase_eq]
      split_ifs <;> rfl

lemma telling_deleteContainer (h : Telling s g) (amb : Ambient) (c : ContainerKey) :
    Telling (Shelf.deleteContainer amb c s).2 g := by
  unfold Shelf.deleteContainer
  cases Shelf.container c s.db with
  | error e => exact h
  | ok row =>
    cases amb.dbFault with
    | some message => exact h
    | none =>
      refine h.dropped (drops_deleteContainer c s.db) fun k' => ?_
      change ((s.db.committedBlocks.deleteWhere fun k => k.containerKey = c).lookup k').getD [] = _
      rw [Table.lookup_deleteWhere]
      simp only [decide_eq_true_eq]
      split_ifs <;> rfl

/-! ### Writes -/

lemma Described.overwrite (h : Described s k parts) {k' : BlobKey} {bytes : Option Bytes}
    (hk : k' = k → s.db.getCommittedBlocks k = [] ∨ s.content k = bytes) :
    Described (s.overwrite k' bytes) k parts := by
  rcases h with h | ⟨row, hlookup, hparts, hlen, hbytes⟩
  · exact .inl h
  · by_cases hkk : k = k'
    · subst hkk
      rcases hk rfl with hnil | hsame
      · exact .inl hnil
      · refine .inr ⟨row, hlookup, hparts, hlen, ?_⟩
        simp [Shelf.overwrite, hlookup, ← hsame, hbytes]
    · refine .inr ⟨row, hlookup, hparts, hlen, ?_⟩
      simp only [Shelf.overwrite, if_neg hkk]
      exact hbytes

lemma Telling.overwrite (h : Telling s g) {bytes : Option Bytes}
    (hk : s.db.getCommittedBlocks k = [] ∨ s.content k = bytes) :
    Telling (s.overwrite k bytes) g where
  described k' := (h.described k').overwrite fun heq => heq ▸ hk
  sized := h.sized

/-- A row of newly written bytes, with the list that belongs to it. -/
lemma Telling.record (h : Telling s g) {bytes : Bytes} {db : MetadataDb}
    (hself : Described ⟨db, Function.update s.content k (some bytes), s.staged⟩ k parts)
    (hlist : ∀ k', k' ≠ k → db.getCommittedBlocks k' = s.db.getCommittedBlocks k')
    (hblob : ∀ k', k' ≠ k → db.blobs.lookup k' = s.db.blobs.lookup k')
    (hstaged : ∀ b row, db.stagedBlocks.lookup b = some row → s.db.stagedBlocks.lookup b = some row) :
    Telling
      { db      := db
        content := Function.update s.content k (some bytes)
        staged  := fun b => if (db.stagedBlocks.lookup b).isSome then s.staged b else none }
      (Function.update g k parts) where
  described k' := by
    by_cases hk : k' = k
    · subst hk
      rw [Function.update_self]
      exact hself
    · rw [Function.update_of_ne hk]
      exact (h.described k').congr (hlist k' hk) (by simp only [hblob k' hk])
        (Function.update_of_ne hk _ _)
  sized b row hrow := by
    simp only [hrow, Option.isSome_some, if_true]
    exact h.sized b row (hstaged b row hrow)

lemma telling_putBlob (h : Telling s g) {a c b : String} {body : ByteStream} {ct hd : Option String}
    {m : Metadata} (hkeeps : (Call.putBlob a c b body ct hd m).KeepsList B amb s) :
    Telling (Shelf.putBlob B amb ⟨a, c, b⟩ body ct hd m s).2 g := by
  unfold Shelf.putBlob
  cases hc : Shelf.container ⟨a, c⟩ s.db with
  | error e => simpa [hc] using h
  | ok row =>
    cases hbody : body.collect with
    | error e => simpa [hc] using h
    | ok bytes =>
      simp only [BlobKey.containerKey_mk, hc]
      have hfound := hkeeps bytes (by simp [hbody, Except.toOption])
      by_cases hmis : hd.isSome ∧ hd ≠ Shelf.digest B bytes
      · rw [if_pos hmis]
        rcases hfound with hnil | ⟨-, hnone | hdigest⟩
        · exact h.overwrite (.inl hnil)
        · simp [hnone] at hmis
        · exact absurd hdigest hmis.2
      · rw [if_neg hmis]
        unfold Shelf.record
        cases amb.dbFault with
        | some message => exact h.overwrite (hfound.imp_right fun hsame => hsame.1)
        | none =>
          have hup := MetadataDb.upsertBlob_of_container (k := ⟨a, c, b⟩) (isSome_of_container hc)
            (Shelf.upsertFor B amb ⟨a, c, b⟩ bytes ct (Shelf.digest B bytes) m)
          obtain ⟨hself, hne, hstaged⟩ := lookup_upsertBlob hup
          simp only [MetadataDb.guarded, hup]
          rw [← Function.update_eq_self (⟨a, c, b⟩ : BlobKey) g]
          refine h.record ?_ (fun _ _ => rfl) hne fun _ _ hrow => hrow
          rcases h.described ⟨a, c, b⟩ with hlist | ⟨row', hlookup, hparts, hlen, hbytes⟩
          · exact .inl hlist
          · rcases hfound with hnil | ⟨hsame, -⟩
            · exact .inl hnil
            · obtain ⟨row'', hlookup', hlen'⟩ := Option.map_eq_some_iff.mp hself
              have hbytes' := Option.some.inj (hsame.symm.trans hbytes)
              refine .inr ⟨row'', hlookup', hparts, ?_, ?_⟩
              · rw [hlen', ← hbytes']
                rfl
              · rw [← hbytes']
                exact Function.update_self _ _ _

lemma telling_putBlock (h : Telling s g) {a c b id : String} {body : ByteStream}
    (hkeeps : (Call.putBlock a c b id body).KeepsList B amb s) :
    Telling (Shelf.putBlock B amb ⟨⟨a, c, b⟩, id⟩ body s).2 g := by
  unfold Shelf.putBlock
  cases hc : Shelf.container ⟨a, c⟩ s.db with
  | error e => simpa [hc] using h
  | ok row =>
    cases hbody : body.collect with
    | error e => simpa [hc] using h
    | ok bytes =>
      simp only [BlobKey.containerKey_mk, hc]
      cases hfault : amb.dbFault with
      | some message =>
        refine ⟨h.described, fun b' row' hrow => ?_⟩
        simp only [MetadataDb.guarded, Shelf.restage] at hrow ⊢
        split_ifs with hb
        · subst hb
          have hlen := hkeeps (by simp [hfault]) bytes (by simp [hbody, Except.toOption]) row' hrow
          simp [hrow, hlen]
        · exact h.sized b' row' hrow
      | none =>
        simp only [MetadataDb.guarded, MetadataDb.stageBlock]
        refine ⟨h.described, fun b' row' hrow => ?_⟩
        simp only [Table.lookup_insert_eq] at hrow
        by_cases hb : b' = ⟨⟨a, c, b⟩, id⟩
        · subst hb
          simp only [if_true, Option.some.injEq] at hrow
          simp [← hrow]
        · rw [if_neg hb] at hrow
          simp only [Function.update_of_ne hb]
          exact h.sized b' row' hrow

/-- A list whose references have the sizes of the staged blocks is resolved to them. -/
lemma resolved_eq_parts (hsized : Sized s) {refs : List BlockRef} {resolved : List CommittedBlock}
    (hrefs : refs.mapM (Shelf.resolveRef k s.db) = some resolved)
    (hkeeps : ∀ ref ∈ refs, ref.kind = .committed →
      ∀ row ∈ s.db.stagedBlocks.lookup ⟨k, ref.blockId⟩,
        ∀ size ∈ FsBackend.committedSize (s.db.getCommittedBlocks k) ref.blockId,
          size = row.blockSize) :
    resolved = (refs.map fun ref => (ref.blockId, (s.staged ⟨k, ref.blockId⟩).getD [])).map
      fun part => ⟨part.1, part.2.length⟩ := by
  have hmap : refs.mapM (Shelf.resolveRef k s.db) =
      some (refs.map fun ref => ⟨ref.blockId, ((s.staged ⟨k, ref.blockId⟩).getD []).length⟩) := by
    rw [mapM_eq_some_iff, List.forall₂_map_right_iff, List.forall₂_same]
    intro ref href
    obtain ⟨block, -, hblock⟩ := exists_of_mapM hrefs href
    obtain ⟨row, hrow, hsize⟩ := Option.bind_eq_some_iff.mp hblock
    obtain ⟨bytes, hbytes, hlen⟩ := Option.map_eq_some_iff.mp (hsized ⟨k, ref.blockId⟩ row hrow)
    rw [hbytes, Option.getD_some, hlen, hblock]
    cases hkind : ref.kind with
    | committed =>
      rw [hkind] at hsize
      obtain ⟨size, hfound, rfl⟩ := Option.map_eq_some_iff.mp hsize
      rw [hkeeps ref href hkind row hrow size hfound]
    | uncommitted =>
      rw [hkind] at hsize
      exact hsize.symm
    | latest =>
      rw [hkind] at hsize
      exact hsize.symm
  rw [Option.some.inj (hrefs.symm.trans hmap), List.map_map]
  rfl

lemma telling_putBlockList (h : Telling s g) {a c b : String} {refs : List BlockRef}
    {ct : Option String} {m : Metadata}
    (hkeeps : (Call.putBlockList a c b refs ct m).KeepsList B amb s) :
    (∀ e, (Shelf.putBlockList B amb ⟨a, c, b⟩ refs ct m s).1 = .error e →
      Telling (Shelf.putBlockList B amb ⟨a, c, b⟩ refs ct m s).2 g) ∧
    ∀ p, (Shelf.putBlockList B amb ⟨a, c, b⟩ refs ct m s).1 = .ok p →
      Telling (Shelf.putBlockList B amb ⟨a, c, b⟩ refs ct m s).2
        (Function.update g ⟨a, c, b⟩
          (refs.map fun ref => (ref.blockId, (s.staged ⟨⟨a, c, b⟩, ref.blockId⟩).getD []))) := by
  unfold Shelf.putBlockList
  cases hc : Shelf.container ⟨a, c⟩ s.db with
  | error e =>
    simp only [BlobKey.containerKey_mk, hc]
    exact ⟨fun _ _ => h, fun p hp => by cases hp⟩
  | ok row =>
    cases hrefs : refs.mapM (Shelf.resolveRef ⟨a, c, b⟩ s.db) with
    | none =>
      simp only [BlobKey.containerKey_mk, hc]
      exact ⟨fun _ _ => h, fun p hp => by cases hp⟩
    | some resolved =>
      simp only [BlobKey.containerKey_mk, hc]
      unfold Shelf.record
      cases hfault : amb.dbFault with
      | some message =>
        refine ⟨fun _ _ => h.overwrite (hkeeps.2 (by simp [hfault])), fun p hp => ?_⟩
        cases hp
      | none =>
        have hup := MetadataDb.commitBlockList_of_container (k := ⟨a, c, b⟩)
          (isSome_of_container hc) resolved (Shelf.upsertFor B amb ⟨a, c, b⟩
            (s.assemble ⟨a, c, b⟩ refs) ct
            (some ((Shelf.digest B (s.assemble ⟨a, c, b⟩ refs)).getD "")) m)
        obtain ⟨hself, hne, -⟩ := lookup_commitBlockList hup
        obtain ⟨row', hlookup, hlen⟩ := Option.map_eq_some_iff.mp hself
        have hbytes : s.assemble ⟨a, c, b⟩ refs = ((refs.map fun ref =>
            (ref.blockId, (s.staged ⟨⟨a, c, b⟩, ref.blockId⟩).getD [])).map Prod.snd).flatten := by
          rw [Shelf.assemble, List.map_map]
          rfl
        simp only [MetadataDb.guarded, hup]
        refine ⟨fun e he => ?_, fun p _ => h.record (.inr ⟨row', hlookup, ?_, ?_, ?_⟩) ?_ hne ?_⟩
        · simp only [Shelf.blob, MetadataDb.getBlob, hlookup] at he
          cases he
        · rw [← resolved_eq_parts h.sized hrefs (hkeeps.1 hfault)]
          simp [MetadataDb.getCommittedBlocks]
        · rw [hlen, ← hbytes]
          rfl
        · rw [← hbytes]
          exact Function.update_self _ _ _
        · intro k' hk'
          simp only [MetadataDb.getCommittedBlocks, AList.lookup_insert_ne hk']
        · intro b' row' hrow
          exact Table.lookup_of_lookup_deleteWhere hrow

/-! ### Runs -/

lemma telling_call (h : Telling s g) {call : Call} (hkeeps : call.KeepsList B amb s) :
    Telling (Shelf.call B amb call s).2 (g.enter s call (Shelf.call B amb call s).1) := by
  cases call with
  | createContainer a c pa m => exact telling_createContainer h _ pa m
  | deleteContainer a c => exact telling_deleteContainer h amb _
  | getContainerProperties a c => exact h
  | setContainerMetadata a c m =>
    exact telling_update h amb (Shelf.container ⟨a, c⟩)
      (MetadataDb.setContainerMetadata ⟨a, c⟩ m amb.etag amb.lastModified) rfl
      (h.of_rows rfl (fun _ => rfl) rfl)
  | setContainerAcl a c pa =>
    exact telling_update h amb (Shelf.container ⟨a, c⟩)
      (MetadataDb.setContainerAcl ⟨a, c⟩ pa amb.etag amb.lastModified) rfl
      (h.of_rows rfl (fun _ => rfl) rfl)
  | listContainers a np marker n => exact h
  | listBlobs a c np d marker n => exact h
  | putBlob a c b body ct hd m => exact telling_putBlob h hkeeps
  | getBlob a c b range => exact h
  | getBlobProperties a c b => exact h
  | setBlobProperties a c b patch =>
    exact telling_update h amb (Shelf.blob ⟨a, c, b⟩)
      (MetadataDb.setBlobProperties ⟨a, c, b⟩ patch amb.etag amb.lastModified) rfl
      (h.modify_blob _ fun _ => rfl)
  | setBlobMetadata a c b m =>
    exact telling_update h amb (Shelf.blob ⟨a, c, b⟩)
      (MetadataDb.setBlobMetadata ⟨a, c, b⟩ m amb.etag amb.lastModified) rfl
      (h.modify_blob _ fun _ => rfl)
  | deleteBlob a c b => exact telling_deleteBlob h amb _
  | putBlock a c b id body => exact telling_putBlock h hkeeps
  | putBlockList a c b refs ct m =>
    obtain ⟨herror, hok⟩ := telling_putBlockList h hkeeps
    rw [Shelf.call, Shelf.replying]
    cases hans : (Shelf.putBlockList B amb ⟨a, c, b⟩ refs ct m s).1 with
    | error e => exact herror e hans
    | ok p => exact hok p hans
  | getBlockList a c b => exact h

lemma telling_serve {w : World} (hw : Sound B w) (h : Telling (B.shelf w) g) {reqs : List Request}
    (hord : ∀ req ∈ reqs, req.call.Ordinary) (hkeeps : KeepsLists B w reqs) :
    Telling (B.shelf (B.serve w reqs)) (B.contributions g w reqs) := by
  induction reqs generalizing w g with
  | nil => exact h
  | cons req reqs ih =>
    have hreq := hord req List.mem_cons_self
    have hstep := call_refines hw req.amb hreq
    refine ih (hw.call req.amb hreq) ?_ (fun r hr => hord r (List.mem_cons_of_mem _ hr)) hkeeps.2
    rw [hstep.shelf, hstep.answer]
    exact telling_call h hkeeps.1

lemma Fresh.telling {w : World} (h : Fresh B w) : Telling (B.shelf w) fun _ => [] := by
  obtain ⟨accounts, hdb⟩ := h.db
  refine ⟨fun k => .inl ?_, fun b row hrow => ?_⟩
  · simp [FsBackend.shelf, MetadataDb.getCommittedBlocks, hdb, MetadataDb.empty]
  · simp [FsBackend.shelf, hdb, MetadataDb.empty] at hrow

/-- The committed blocks that `get_block_list` returns. -/
def committedBlocks (k : BlobKey) (w : World) : List CommittedBlock :=
  match ((FsBackend.getBlockList k.account k.container k.blob).run w).1 with
  | .ok list => list.committed
  | .error _ => []

/-- The committed blocks of a blob describe it: there are none, or their sizes add up to its length
and they cut its bytes into `parts`; there are none without a row. -/
structure ListDescribes (B : FsBackend) (k : BlobKey) (parts : List (String × Bytes)) (w : World) :
    Prop where
  cut : ∀ row, w.db.blobs.lookup k = some row → committedBlocks k w = [] ∨
    ((committedBlocks k w).map CommittedBlock.size).sum = row.contentLength ∧
    committedBlocks k w = parts.map (fun part => ⟨part.1, part.2.length⟩) ∧
    B.readBlob k none w =
      .ok ⟨blobRowToProps row, row.contentLength, none, (parts.map Prod.snd).flatten⟩
  absent : w.db.blobs.lookup k = none → committedBlocks k w = []

lemma Described.listDescribes {w : World} (hw : Sound B w) (hk : k.containerKey.Ordinary)
    (h : Described (B.shelf w) k parts) : ListDescribes B k parts w := by
  have hlist : committedBlocks k w = w.db.getCommittedBlocks k := rfl
  have hdb : (B.shelf w).db = w.db := rfl
  rw [Described, hdb, ← hlist] at h
  constructor
  · intro row hrow
    refine h.imp_right ?_
    rintro ⟨row', hlookup, hparts, hlen, hbytes⟩
    cases hrow.symm.trans hlookup
    refine ⟨?_, hparts, ?_⟩
    · simp [hparts, hlen, List.length_flatten, Function.comp_def]
    · rw [readBlob_eq hw hk]
      simp [Shelf.getBlob, Shelf.blob, MetadataDb.getBlob, hdb, hrow, hbytes,
        FsBackend.resolveRange, FsBackend.readRange, hlen]
  · intro hnone
    rcases h with hnil | ⟨row, hrow, -⟩
    · exact hnil
    · cases hnone.symm.trans hrow

/-- In a run whose calls keep the lists, the committed blocks of every blob describe it. -/
theorem listDescribes_serve {w₀ : World} (hfresh : Fresh B w₀) (reqs : List Request)
    (hord : ∀ req ∈ reqs, req.call.Ordinary) (hkeeps : KeepsLists B w₀ reqs) (k : BlobKey)
    (hk : k.containerKey.Ordinary) :
    ListDescribes B k (B.contributions (fun _ => []) w₀ reqs k) (B.serve w₀ reqs) :=
  ((telling_serve hfresh.sound hfresh.telling hord hkeeps).described k).listDescribes
    (hfresh.sound.serve hord) hk

/-- A blob made of one block of two bytes. -/
def sampleCommitted : List Request :=
  [⟨sampleAmb 1, .createContainer "acc" "c" .off ∅⟩,
    ⟨sampleAmb 2, .putBlock "acc" "c" "b" "AAAA" [.ok [1, 2]]⟩,
    ⟨sampleAmb 3, .putBlockList "acc" "c" "b" [⟨"AAAA", .latest⟩] none ∅⟩]

theorem listDescribes_sampleCommitted :
    ListDescribes sample ⟨"acc", "c", "b"⟩
      (sample.contributions (fun _ => []) (sample.fresh sampleAccounts) sampleCommitted
        ⟨"acc", "c", "b"⟩)
      (sample.serve (sample.fresh sampleAccounts) sampleCommitted) := by
  refine listDescribes_serve (sample.fresh_isFresh sampleAccounts) _ (by decide) ?_ _ (by decide)
  refine ⟨trivial, fun h => absurd rfl h, ⟨fun _ ref href hkind => ?_, fun h => absurd rfl h⟩,
    trivial⟩
  rw [List.mem_singleton.mp href] at hkind
  cases hkind

/-- The blob is overwritten with one byte. -/
def sampleOverwritten : List Request :=
  sampleCommitted ++ [⟨sampleAmb 4, .putBlob "acc" "c" "b" [.ok [1]] none none ∅⟩]

/-- The block is staged again with one byte, and committed as the old one. -/
def sampleRecommitted : List Request :=
  sampleCommitted ++ [⟨sampleAmb 4, .putBlock "acc" "c" "b" "AAAA" [.ok [1]]⟩,
    ⟨sampleAmb 5, .putBlockList "acc" "c" "b" [⟨"AAAA", .committed⟩] none ∅⟩]

/-- In both cases the list says two bytes and the blob has one. -/
theorem not_listDescribes_sampleOverwritten :
    (∀ parts, ¬ ListDescribes sample ⟨"acc", "c", "b"⟩ parts
      (sample.serve (sample.fresh sampleAccounts) sampleOverwritten)) ∧
    ∀ parts, ¬ ListDescribes sample ⟨"acc", "c", "b"⟩ parts
      (sample.serve (sample.fresh sampleAccounts) sampleRecommitted) := by
  have hlists : ∀ reqs ∈ [sampleOverwritten, sampleRecommitted],
      committedBlocks ⟨"acc", "c", "b"⟩ (sample.serve (sample.fresh sampleAccounts) reqs) =
        [⟨"AAAA", 2⟩] ∧
      ((sample.serve (sample.fresh sampleAccounts) reqs).db.blobs.lookup ⟨"acc", "c", "b"⟩).map
        BlobRow.contentLength = some 1 := by
    decide +kernel
  have hstale : ∀ reqs ∈ [sampleOverwritten, sampleRecommitted], ∀ parts,
      ¬ ListDescribes sample ⟨"acc", "c", "b"⟩ parts
        (sample.serve (sample.fresh sampleAccounts) reqs) := by
    intro reqs hreqs parts h
    obtain ⟨hlist, hlen⟩ := hlists reqs hreqs
    obtain ⟨row, hrow, hlen⟩ := Option.map_eq_some_iff.mp hlen
    rcases h.cut row hrow with hnil | ⟨hsum, -⟩
    · simp [hlist] at hnil
    · simp [hlist, hlen] at hsum
  exact ⟨hstale _ (by simp), hstale _ (by simp)⟩

end BlobStore
