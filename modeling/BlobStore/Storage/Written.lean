import BlobStore.Lib.Paging
import BlobStore.Storage.Refinement.Call

/-!
# What successful writes leave

The two ways to write a blob, and the staging of a block, when nothing stands against them: the
answer and the shelf in closed form.
-/

namespace BlobStore

open Codec Paging

/-! ### Columns, digests and references -/

@[simp] lemma upsertedRow_contentLength (k : BlobKey) (u : BlobUpsert) (old : Option BlobRow) :
    (MetadataDb.upsertedRow k u old).contentLength = u.contentLength := by
  cases old <;> rfl

@[simp] lemma upsertedRow_contentMd5 (k : BlobKey) (u : BlobUpsert) (old : Option BlobRow) :
    (MetadataDb.upsertedRow k u old).contentMd5 = u.contentMd5 := by
  cases old <;> rfl

@[simp] lemma upsertFor_contentLength (B : FsBackend) (amb : Ambient) (k : BlobKey) (bytes : Bytes)
    (ct md5 : Option String) (m : Metadata) :
    (Shelf.upsertFor B amb k bytes ct md5 m).contentLength = bytes.length := rfl

@[simp] lemma upsertFor_contentMd5 (B : FsBackend) (amb : Ambient) (k : BlobKey) (bytes : Bytes)
    (ct md5 : Option String) (m : Metadata) :
    (Shelf.upsertFor B amb k bytes ct md5 m).contentMd5 = md5 := rfl

lemma digest_isSome (B : FsBackend) (bytes : Bytes) : (Shelf.digest B bytes).isSome = true := by
  rw [Shelf.digest, md5HexToBase64, hexDecode_hexEncode]
  rfl

/-- A digest never fails to be encoded. -/
lemma some_getD_digest (B : FsBackend) (bytes : Bytes) :
    some ((Shelf.digest B bytes).getD "") = Shelf.digest B bytes := by
  obtain ⟨md5, hmd5⟩ := Option.isSome_iff_exists.mp (digest_isSome B bytes)
  rw [hmd5, Option.getD_some]

/-- The entry of a reference in the list of committed blocks. -/
def stagedEntry (k : BlobKey) (db : MetadataDb) (ref : BlockRef) : CommittedBlock :=
  ⟨ref.blockId, ((db.stagedBlocks.lookup ⟨k, ref.blockId⟩).map StagedBlockRecord.blockSize).getD 0⟩

/-- References to staged blocks, other than as committed ones, are resolved by their rows. -/
lemma resolveRefs_of_staged {k : BlobKey} {db : MetadataDb} {refs : List BlockRef}
    (hrefs : ∀ ref ∈ refs, ref.kind ≠ .committed ∧
      (db.stagedBlocks.lookup ⟨k, ref.blockId⟩).isSome = true) :
    refs.mapM (Shelf.resolveRef k db) = some (refs.map (stagedEntry k db)) := by
  rw [mapM_eq_some_iff, List.forall₂_map_right_iff, List.forall₂_same]
  intro ref href
  obtain ⟨hkind, hstaged⟩ := hrefs ref href
  obtain ⟨r, hr⟩ := Option.isSome_iff_exists.mp hstaged
  unfold Shelf.resolveRef stagedEntry MetadataDb.getStagedBlock
  rw [hr]
  cases h : ref.kind with
  | committed => exact absurd h hkind
  | uncommitted => rfl
  | latest => rfl

/-- No block of a blob is left staged. -/
lemma MetadataDb.getUncommittedBlocks_deleteStagedBlocks (db : MetadataDb) (k : BlobKey) :
    (db.deleteStagedBlocks k).getUncommittedBlocks k = [] := by
  have hrows : (db.deleteStagedBlocks k).stagedBlocks.selectWhere (fun b => b.blob = k) = [] := by
    rw [List.eq_nil_iff_forall_not_mem]
    rintro ⟨b, r⟩ hmem
    obtain ⟨hb, hr⟩ := Table.mem_selectWhere.mp hmem
    have hgone : (db.deleteStagedBlocks k).stagedBlocks.lookup b = none :=
      Table.lookup_deleteWhere_of_pos (p := fun b : StagedBlockKey => decide (b.blob = k)) hb _
    rw [hgone] at hr
    cases hr
  unfold MetadataDb.getUncommittedBlocks
  rw [hrows]
  rfl

namespace Shelf

/-! ### Successful writes -/

variable {B : FsBackend} {amb : Ambient} {s : Shelf} {k : BlobKey}

/-- The bytes are in place and the statement succeeds. -/
lemma record_eq (hfault : amb.dbFault = none) (bytes : Bytes)
    {stmt : MetadataDb → Except SqlError Unit × MetadataDb} {db : MetadataDb} {row : BlobRow}
    (hstmt : stmt s.db = (.ok (), db)) (hrow : db.blobs.lookup k = some row) :
    record amb k bytes stmt s = (.ok (blobRowToProps row),
      { db      := db
        content := Function.update s.content k (some bytes)
        staged  := fun b => if (db.stagedBlocks.lookup b).isSome then s.staged b else none }) := by
  unfold record
  simp only [hfault, MetadataDb.guarded, hstmt, blob, MetadataDb.getBlob, hrow]
  rfl

lemma putBlob_eq (hfault : amb.dbFault = none)
    (hc : (s.db.containers.lookup k.containerKey).isSome = true) {body : ByteStream} {bytes : Bytes}
    (hbody : body.collect = .ok bytes) {ct hd : Option String}
    (hmd5 : ¬ (hd.isSome = true ∧ hd ≠ digest B bytes)) {m : Metadata} {row : BlobRow}
    (hrow : row = MetadataDb.upsertedRow k (upsertFor B amb k bytes ct (digest B bytes) m)
      (s.db.blobs.lookup k)) :
    putBlob B amb k body ct hd m s = (.ok (blobRowToProps row),
      { db      := { s.db with blobs := s.db.blobs.insert k row }
        content := Function.update s.content k (some bytes)
        staged  := fun b => if (s.db.stagedBlocks.lookup b).isSome then s.staged b else none }) := by
  obtain ⟨crow, hcrow⟩ := exists_container.mpr hc
  have hup := MetadataDb.upsertBlob_of_container hc
    (upsertFor B amb k bytes ct (digest B bytes) m)
  rw [← hrow] at hup
  unfold putBlob
  simp only [hcrow, hbody, if_neg hmd5]
  exact record_eq hfault bytes hup (AList.lookup_insert _)

lemma putBlockList_eq (hfault : amb.dbFault = none)
    (hc : (s.db.containers.lookup k.containerKey).isSome = true) {refs : List BlockRef}
    {resolved : List CommittedBlock} (hrefs : refs.mapM (resolveRef k s.db) = some resolved)
    {ct : Option String} {m : Metadata} {row : BlobRow}
    (hrow : row = MetadataDb.upsertedRow k (upsertFor B amb k (s.assemble k refs) ct
      (some ((digest B (s.assemble k refs)).getD "")) m) (s.db.blobs.lookup k)) :
    putBlockList B amb k refs ct m s = (.ok (blobRowToProps row),
      { db      := { s.db with
          blobs           := s.db.blobs.insert k row
          committedBlocks := s.db.committedBlocks.insert k resolved
          stagedBlocks    := s.db.stagedBlocks.deleteWhere fun b => b.blob = k }
        content := Function.update s.content k (some (s.assemble k refs))
        staged  := fun b => if ((s.db.stagedBlocks.deleteWhere fun b => b.blob = k).lookup b).isSome
          then s.staged b else none }) := by
  obtain ⟨crow, hcrow⟩ := exists_container.mpr hc
  have hup := MetadataDb.commitBlockList_of_container hc resolved
    (upsertFor B amb k (s.assemble k refs) ct (some ((digest B (s.assemble k refs)).getD "")) m)
  rw [← hrow] at hup
  unfold putBlockList
  simp only [hcrow, hrefs]
  exact record_eq hfault _ hup (AList.lookup_insert _)

lemma putBlock_eq (hfault : amb.dbFault = none) {b : StagedBlockKey}
    (hc : (s.db.containers.lookup b.blob.containerKey).isSome = true) {body : ByteStream}
    {bytes : Bytes} (hbody : body.collect = .ok bytes) {r : StagedBlockRecord}
    (hr : r = ⟨bytes.length, digest B bytes, (B.stagedBlockPath b.blob.account b.blob.container
      b.blob.blob b.blockId).2, amb.nowIso⟩) :
    putBlock B amb b body s = (.ok ((digest B bytes).getD ""),
      { s with
        db     := { s.db with stagedBlocks := s.db.stagedBlocks.insert b r }
        staged := Function.update s.staged b (some bytes) }) := by
  obtain ⟨crow, hcrow⟩ := exists_container.mpr hc
  unfold putBlock
  simp only [hcrow, hbody, hfault, MetadataDb.guarded, MetadataDb.stageBlock, hr]

/-! ### Versions -/

/-- The version of a blob on a shelf. -/
structure Has (s : Shelf) (k : BlobKey) (row : BlobRow) (bytes : Bytes)
    (blocks : BlockListResult) : Prop where
  row : s.db.blobs.lookup k = some row
  bytes : s.content k = some bytes
  blocks : getBlockList k s = blocks

/-- Written at once: the block list stays as it was. -/
lemma putBlob_has (hfault : amb.dbFault = none)
    (hc : (s.db.containers.lookup k.containerKey).isSome = true) {body : ByteStream} {bytes : Bytes}
    (hbody : body.collect = .ok bytes) {ct hd : Option String}
    (hmd5 : ¬ (hd.isSome = true ∧ hd ≠ digest B bytes)) {m : Metadata} {row : BlobRow}
    (hrow : row = MetadataDb.upsertedRow k (upsertFor B amb k bytes ct (digest B bytes) m)
      (s.db.blobs.lookup k)) :
    (putBlob B amb k body ct hd m s).1 = .ok (blobRowToProps row) ∧
      (putBlob B amb k body ct hd m s).2.Has k row bytes (getBlockList k s) := by
  rw [putBlob_eq hfault hc hbody hmd5 hrow]
  exact ⟨rfl, AList.lookup_insert _, Function.update_self .., rfl⟩

/-- Put together from staged blocks: the block list is the new one. -/
lemma putBlockList_has (hfault : amb.dbFault = none)
    (hc : (s.db.containers.lookup k.containerKey).isSome = true) {refs : List BlockRef}
    {resolved : List CommittedBlock} (hrefs : refs.mapM (resolveRef k s.db) = some resolved)
    {ct : Option String} {m : Metadata} {row : BlobRow}
    (hrow : row = MetadataDb.upsertedRow k (upsertFor B amb k (s.assemble k refs) ct
      (some ((digest B (s.assemble k refs)).getD "")) m) (s.db.blobs.lookup k)) :
    (putBlockList B amb k refs ct m s).1 = .ok (blobRowToProps row) ∧
      (putBlockList B amb k refs ct m s).2.Has k row (s.assemble k refs) ⟨resolved, []⟩ := by
  rw [putBlockList_eq hfault hc hrefs hrow]
  refine ⟨rfl, AList.lookup_insert _, Function.update_self .., ?_⟩
  simp only [getBlockList, MetadataDb.getCommittedBlocks, AList.lookup_insert]
  congr 1
  exact MetadataDb.getUncommittedBlocks_deleteStagedBlocks s.db k

/-! ### What a success tells -/

lemma replying_ok_inv {α β : Type} {f : α → β} {op : Op α} {y : β}
    (h : (replying f op s).1 = .ok y) : ∃ x, (op s).1 = .ok x := by
  unfold replying at h
  cases hop : (op s).1 with
  | error e =>
    rw [hop] at h
    cases h
  | ok x => exact ⟨x, rfl⟩

lemma record_ok_inv {bytes : Bytes} {stmt : MetadataDb → Except SqlError Unit × MetadataDb}
    {props : BlobProps} (h : (record amb k bytes stmt s).1 = .ok props) : amb.dbFault = none := by
  cases hfault : amb.dbFault with
  | none => rfl
  | some message =>
    unfold record at h
    simp only [hfault, MetadataDb.guarded] at h
    cases h

lemma putBlob_ok_inv {body : ByteStream} {ct hd : Option String} {m : Metadata} {props : BlobProps}
    (h : (putBlob B amb k body ct hd m s).1 = .ok props) :
    amb.dbFault = none ∧ (s.db.containers.lookup k.containerKey).isSome = true ∧
      ∃ bytes, body.collect = .ok bytes ∧ ¬ (hd.isSome = true ∧ hd ≠ digest B bytes) := by
  unfold putBlob at h
  cases hc : container k.containerKey s.db with
  | error e => simp [hc] at h
  | ok row =>
    cases hbody : body.collect with
    | error e => simp [hc, hbody] at h
    | ok bytes =>
      simp only [hc, hbody] at h
      by_cases hmd5 : hd.isSome = true ∧ hd ≠ digest B bytes
      · rw [if_pos hmd5] at h
        cases h
      · rw [if_neg hmd5] at h
        exact ⟨record_ok_inv h, isSome_of_container hc, bytes, rfl, hmd5⟩

lemma putBlockList_ok_inv {refs : List BlockRef} {ct : Option String} {m : Metadata}
    {props : BlobProps} (h : (putBlockList B amb k refs ct m s).1 = .ok props) :
    amb.dbFault = none ∧ (s.db.containers.lookup k.containerKey).isSome = true ∧
      ∃ resolved, refs.mapM (resolveRef k s.db) = some resolved := by
  unfold putBlockList at h
  cases hc : container k.containerKey s.db with
  | error e => simp [hc] at h
  | ok row =>
    cases hrefs : refs.mapM (resolveRef k s.db) with
    | none => simp [hc, hrefs] at h
    | some resolved =>
      simp only [hc, hrefs] at h
      exact ⟨record_ok_inv h, isSome_of_container hc, resolved, rfl⟩

/-! ### Reading -/

/-- Reading a blob whose bytes have the recorded length. -/
lemma getBlob_eq {row : BlobRow} {bytes : Bytes} (hrow : s.db.blobs.lookup k = some row)
    (hbytes : s.content k = some bytes) (range : Option (ℕ × ℕ)) :
    getBlob k range s = (FsBackend.resolveRange row.contentLength range).map fun r =>
      ⟨blobRowToProps row, row.contentLength, r,
        FsBackend.readRange bytes row.contentLength r⟩ := by
  unfold getBlob
  simp only [blob, MetadataDb.getBlob, hrow, hbytes]
  cases FsBackend.resolveRange row.contentLength range <;> rfl

end Shelf

/-! ### Calls -/

lemma exists_of_isOk {r : Except AzureError Reply} (h : r.isOk = true) : ∃ reply, r = .ok reply := by
  cases r with
  | error e => cases h
  | ok reply => exact ⟨reply, rfl⟩

/-- A call that answers with a new version of a blob, and leaves it. -/
structure Stores (B : FsBackend) (k : BlobKey) (row : BlobRow) (bytes : Bytes)
    (blocks : BlockListResult) (r : Except AzureError Reply × World) : Prop where
  answer : r.1 = .ok (.blob (blobRowToProps row))
  has : (B.shelf r.2).Has k row bytes blocks
  sound : Sound B r.2

variable {B : FsBackend} {w : World} {k : BlobKey} {amb : Ambient}

lemma stores_putBlockList (hw : Sound B w) (hk : k.containerKey.Ordinary)
    (hfault : amb.dbFault = none) (hc : (w.db.containers.lookup k.containerKey).isSome = true)
    {refs : List BlockRef} {resolved : List CommittedBlock}
    (hrefs : refs.mapM (Shelf.resolveRef k w.db) = some resolved) {bytes : Bytes}
    (hbytes : (B.shelf w).assemble k refs = bytes) (ct : Option String) (m : Metadata) :
    Stores B k (MetadataDb.upsertedRow k
        (Shelf.upsertFor B amb k bytes ct (Shelf.digest B bytes) m) (w.db.blobs.lookup k))
      bytes ⟨resolved, []⟩
      ((B.call amb (.putBlockList k.account k.container k.blob refs ct m)).run w) := by
  subst hbytes
  have hcall : (Call.putBlockList k.account k.container k.blob refs ct m).Ordinary := by
    rintro c ⟨⟩
    exact hk
  have hstep := call_refines hw amb hcall
  rw [← some_getD_digest]
  refine ⟨hstep.answer.trans ?_, ?_, hw.call amb hcall⟩
  · exact congrArg (Except.map Reply.blob) (Shelf.putBlockList_has hfault hc hrefs rfl).1
  · rw [hstep.shelf]
    exact (Shelf.putBlockList_has hfault hc hrefs rfl).2

end BlobStore
