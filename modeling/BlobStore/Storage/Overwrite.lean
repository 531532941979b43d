import BlobStore.Storage.Hierarchy
import BlobStore.Storage.Twins
import BlobStore.Storage.Written

/-!
# Overwriting a blob

A new version of a blob replaces the bytes, and most columns of the row. Four columns of the row
are only ever set by `set_blob_properties` and outlive the version they were set for, and a blob
that is written at once keeps the block list of the version before.
-/

namespace BlobStore

open Codec FileTree Resumption Proc

/-- A new version of a blob: written at once, or put together from staged blocks. -/
inductive Version where
  | single (body : ByteStream) (contentType contentMd5Header : Option String) (metadata : Metadata)
  | blocks (ids : List String) (contentType : Option String) (metadata : Metadata)

/-- References to staged blocks. -/
def stagedRefs (ids : List String) : List BlockRef := ids.map (BlockRef.mk · .uncommitted)

/-- The call that writes it. -/
def Version.call (k : BlobKey) : Version → Call
  | single body ct h m => .putBlob k.account k.container k.blob body ct h m
  | blocks ids ct m    => .putBlockList k.account k.container k.blob (stagedRefs ids) ct m

/-- Two stores that differ in one blob at most: in its row, its bytes and its block list. -/
structure ApartFrom (k : BlobKey) (s s' : Shelf) : Prop where
  accounts : s.db.accounts = s'.db.accounts
  containers : s.db.containers = s'.db.containers
  blobs : ∀ k', k' ≠ k → s.db.blobs.lookup k' = s'.db.blobs.lookup k'
  committed : ∀ k', k' ≠ k → s.db.committedBlocks.lookup k' = s'.db.committedBlocks.lookup k'
  staged : s.db.stagedBlocks = s'.db.stagedBlocks
  content : ∀ k', k' ≠ k → s.content k' = s'.content k'
  bytes : s.staged = s'.staged

/-- The blob looks the same in two states, apart from etags and times: its properties, its bytes
under every range and its block list. -/
structure SameVersion (B : FsBackend) (k : BlobKey) (w w' : World) : Prop where
  props : ((FsBackend.getBlobProperties k.account k.container k.blob).run w).1.map
      BlobProps.lasting =
    ((FsBackend.getBlobProperties k.account k.container k.blob).run w').1.map BlobProps.lasting
  bytes : ∀ range, (B.readBlob k range w).map BlobPayload.lasting =
    (B.readBlob k range w').map BlobPayload.lasting
  blocks : ((FsBackend.getBlockList k.account k.container k.blob).run w).1 =
    ((FsBackend.getBlockList k.account k.container k.blob).run w').1

/-- The columns that outlive a version. -/
@[ext] structure Leftover where
  contentEncoding : Option String
  contentLanguage : Option String
  cacheControl : Option String
  contentDisposition : Option String
  deriving DecidableEq

def leftover : Option BlobRow → Leftover
  | some row =>
    ⟨row.contentEncoding, row.contentLanguage, row.cacheControl, row.contentDisposition⟩
  | none     => ⟨none, none, none, none⟩

/-- What a new version takes over from the old one is the same on both sides. -/
def Version.SameLeftovers (v : Version) (k : BlobKey) (db db' : MetadataDb) : Prop :=
  leftover (db.blobs.lookup k) = leftover (db'.blobs.lookup k) ∧
    match v with
    | single .. => db.getCommittedBlocks k = db'.getCommittedBlocks k
    | blocks .. => True

variable {B : FsBackend} {w w' : World} {k : BlobKey}

/-! ### Rows that were written over -/

/-- The columns that are the same in every row of a blob. -/
def Plain (k : BlobKey) (row : BlobRow) : Prop := row.name = k.blob ∧ row.blobType = "BlockBlob"

lemma inborn_plain : MetadataDb.Inborn Plain where
  new _ _ := ⟨rfl, rfl⟩
  kept _ _ _ hname htype h := ⟨hname.trans h.1, htype.trans h.2⟩

/-- A row that was written over: the new columns and the leftovers. -/
lemma upsertedRow_lasting_eq {old : Option BlobRow} (hold : ∀ row ∈ old, Plain k row)
    (amb : Ambient) (bytes : Bytes) (ct md5 : Option String) (m : Metadata) :
    (blobRowToProps
      (MetadataDb.upsertedRow k (Shelf.upsertFor B amb k bytes ct md5 m) old)).lasting =
      { name               := k.blob
        blobType           := .blockBlob
        contentLength      := bytes.length
        contentType        := ct
        contentMd5         := md5
        contentEncoding    := (leftover old).contentEncoding
        contentLanguage    := (leftover old).contentLanguage
        cacheControl       := (leftover old).cacheControl
        contentDisposition := (leftover old).contentDisposition
        metadata           := m
        etag               := ""
        lastModified       := "" } := by
  have htype : (BlobType.parse "BlockBlob").getD .blockBlob = .blockBlob := by decide
  cases old with
  | none => simp [MetadataDb.upsertedRow, Shelf.upsertFor, blobRowToProps, BlobProps.lasting,
      leftover, htype]
  | some row =>
    obtain ⟨hname, hblob⟩ := hold row rfl
    simp [MetadataDb.upsertedRow, Shelf.upsertFor, blobRowToProps, BlobProps.lasting, leftover,
      hname, hblob, htype]

/-! ### What can be seen of a version -/

lemma getBlobProperties_of_row {row : BlobRow} (hrow : w.db.blobs.lookup k = some row) :
    ((FsBackend.getBlobProperties k.account k.container k.blob).run w).1 =
      .ok (blobRowToProps row) := by
  have hblob : Shelf.blob ⟨k.account, k.container, k.blob⟩ w.db = .ok row := by
    simp only [Shelf.blob, MetadataDb.getBlob, hrow]
  unfold FsBackend.getBlobProperties Store.run
  rw [run_bind_ok _ ((run_requireBlob _ _ _ w).trans (by rw [hblob]))]
  rfl

lemma run_getBlockList (w : World) :
    ((FsBackend.getBlockList k.account k.container k.blob).run w).1 =
      .ok (Shelf.getBlockList k (B.shelf w)) := rfl

/-- Of two versions with the same bytes, the columns and the block lists are what can differ. -/
lemma sameVersion_iff (hw : Sound B w) (hw' : Sound B w') (hk : k.containerKey.Ordinary)
    {row row' : BlobRow} {bytes : Bytes} {blocks blocks' : BlockListResult}
    (h : (B.shelf w).Has k row bytes blocks) (h' : (B.shelf w').Has k row' bytes blocks')
    (hlen : row.contentLength = row'.contentLength) :
    SameVersion B k w w' ↔
      (blobRowToProps row).lasting = (blobRowToProps row').lasting ∧ blocks = blocks' := by
  have hprops := getBlobProperties_of_row h.row
  have hprops' := getBlobProperties_of_row h'.row
  have hblocks := run_getBlockList (B := B) (k := k) w
  have hblocks' := run_getBlockList (B := B) (k := k) w'
  rw [h.blocks] at hblocks
  rw [h'.blocks] at hblocks'
  constructor
  · intro hsame
    have hp := hsame.props
    have hb := hsame.blocks
    rw [hprops, hprops'] at hp
    rw [hblocks, hblocks'] at hb
    exact ⟨Except.ok.inj hp, Except.ok.inj hb⟩
  · rintro ⟨hp, hb⟩
    refine ⟨?_, fun range => ?_, ?_⟩
    · rw [hprops, hprops']
      exact congrArg Except.ok hp
    · rw [readBlob_eq hw hk, readBlob_eq hw' hk, Shelf.getBlob_eq h.row h.bytes,
        Shelf.getBlob_eq h'.row h'.bytes, hlen]
      cases FsBackend.resolveRange row'.contentLength range with
      | error e => rfl
      | ok r => simp only [Except.map, BlobPayload.lasting, hp]
    · rw [hblocks, hblocks', hb]

/-! ### New versions on the shelf -/

section Shelf

variable {s : Shelf} {amb : Ambient} {reply : Reply} {ct : Option String} {m : Metadata}

lemma single_ok {body : ByteStream} {hd : Option String}
    (h : (Shelf.call B amb ((Version.single body ct hd m).call k) s).1 = .ok reply) :
    ∃ bytes, body.collect = .ok bytes ∧
      (Shelf.call B amb ((Version.single body ct hd m).call k) s).2.Has k
        (MetadataDb.upsertedRow k (Shelf.upsertFor B amb k bytes ct (Shelf.digest B bytes) m)
          (s.db.blobs.lookup k)) bytes (Shelf.getBlockList k s) := by
  obtain ⟨props, hprops⟩ : ∃ props, (Shelf.putBlob B amb k body ct hd m s).1 = .ok props :=
    Shelf.replying_ok_inv h
  obtain ⟨hfault, hc, bytes, hbody, hmd5⟩ := Shelf.putBlob_ok_inv hprops
  exact ⟨bytes, hbody, (Shelf.putBlob_has hfault hc hbody hmd5 rfl).2⟩

/-- References to staged blocks stand for their rows. -/
lemma mapM_stagedRefs (db : MetadataDb) (ids : List String) :
    (stagedRefs ids).mapM (Shelf.resolveRef k db) = ids.mapM fun id =>
      (db.stagedBlocks.lookup ⟨k, id⟩).map fun r => ⟨id, r.blockSize⟩ := by
  rw [stagedRefs, List.mapM_map]
  congr 1
  funext id
  simp only [Function.comp_apply, Shelf.resolveRef, MetadataDb.getStagedBlock]
  cases db.stagedBlocks.lookup ⟨k, id⟩ <;> rfl

lemma blocks_ok {ids : List String}
    (h : (Shelf.call B amb ((Version.blocks ids ct m).call k) s).1 = .ok reply) :
    ∃ resolved, (stagedRefs ids).mapM (Shelf.resolveRef k s.db) = some resolved ∧
      (Shelf.call B amb ((Version.blocks ids ct m).call k) s).2.Has k
        (MetadataDb.upsertedRow k (Shelf.upsertFor B amb k (s.assemble k (stagedRefs ids)) ct
          (some ((Shelf.digest B (s.assemble k (stagedRefs ids))).getD "")) m)
          (s.db.blobs.lookup k)) (s.assemble k (stagedRefs ids)) ⟨resolved, []⟩ := by
  obtain ⟨props, hprops⟩ :
      ∃ props, (Shelf.putBlockList B amb k (stagedRefs ids) ct m s).1 = .ok props :=
    Shelf.replying_ok_inv h
  obtain ⟨hfault, hc, resolved, hrefs⟩ := Shelf.putBlockList_ok_inv hprops
  exact ⟨resolved, hrefs, (Shelf.putBlockList_has hfault hc hrefs rfl).2⟩

end Shelf

/-! ### Two stores -/

/-- The same version, written to two stores that differ in the blob at most, looks the same in
both exactly if what it takes over from the old version was the same. -/
theorem overwrite_same_iff (hw : Reachable B w) (hw' : Reachable B w')
    (hk : k.containerKey.Ordinary) (hapart : ApartFrom k (B.shelf w) (B.shelf w')) {v : Version}
    {amb amb' : Ambient} {reply reply' : Reply}
    (hok : ((B.call amb (v.call k)).run w).1 = .ok reply)
    (hok' : ((B.call amb' (v.call k)).run w').1 = .ok reply') :
    SameVersion B k ((B.call amb (v.call k)).run w).2 ((B.call amb' (v.call k)).run w').2 ↔
      v.SameLeftovers k w.db w'.db := by
  have hcall : (v.call k).Ordinary := by
    intro c hc
    cases v <;> cases hc <;> exact hk
  have hplain : (B.shelf w).db.Rows Plain := hw.arisen.rows inborn_plain
  have hplain' : (B.shelf w').db.Rows Plain := hw'.arisen.rows inborn_plain
  have hstep := call_refines hw.sound amb hcall
  have hstep' := call_refines hw'.sound amb' hcall
  have hsound := hw.sound.call amb hcall
  have hsound' := hw'.sound.call amb' hcall
  rw [hstep.answer] at hok
  rw [hstep'.answer] at hok'
  have hdb : (B.shelf w).db = w.db := rfl
  have hdb' : (B.shelf w').db = w'.db := rfl
  cases v with
  | single body ct hd m =>
    obtain ⟨bytes, hbytes, hhas⟩ := single_ok hok
    obtain ⟨bytes', hbytes', hhas'⟩ := single_ok hok'
    rw [hbytes] at hbytes'
    cases hbytes'
    rw [← hstep.shelf] at hhas
    rw [← hstep'.shelf] at hhas'
    have huncommitted : w.db.getUncommittedBlocks k = w'.db.getUncommittedBlocks k :=
      congrArg (fun t => MetadataDb.getUncommittedBlocks k { w.db with stagedBlocks := t })
        hapart.staged
    rw [sameVersion_iff hsound hsound' hk hhas hhas' (by simp),
      upsertedRow_lasting_eq (hplain k), upsertedRow_lasting_eq (hplain' k)]
    simp [Shelf.getBlockList, Version.SameLeftovers, huncommitted, hdb, hdb', Leftover.ext_iff]
  | blocks ids ct m =>
    obtain ⟨resolved, hresolved, hhas⟩ := blocks_ok hok
    obtain ⟨resolved', hresolved', hhas'⟩ := blocks_ok hok'
    have hassemble : (B.shelf w').assemble k (stagedRefs ids) =
        (B.shelf w).assemble k (stagedRefs ids) := by
      unfold Shelf.assemble
      rw [hapart.bytes]
    rw [mapM_stagedRefs] at hresolved hresolved'
    rw [← hapart.staged, hresolved] at hresolved'
    cases hresolved'
    rw [hassemble] at hhas'
    rw [← hstep.shelf] at hhas
    rw [← hstep'.shelf] at hhas'
    rw [sameVersion_iff hsound hsound' hk hhas hhas' (by simp),
      upsertedRow_lasting_eq (hplain k), upsertedRow_lasting_eq (hplain' k)]
    simp [Version.SameLeftovers, hdb, hdb', Leftover.ext_iff]

/-! ### A container with one blob at most -/

/-- Stores without staged blocks and without other blobs. -/
lemma apartFrom_of_keys (h : (w.db.accounts = w'.db.accounts ∧
      w.db.containers = w'.db.containers) ∧
      ((∀ k' ∈ w.db.blobs.keys ++ w'.db.blobs.keys, k' = k) ∧
      ∀ k' ∈ w.db.committedBlocks.keys ++ w'.db.committedBlocks.keys, k' = k) ∧
      w.db.stagedBlocks = ∅ ∧ w'.db.stagedBlocks = ∅) :
    ApartFrom k (B.shelf w) (B.shelf w') := by
  obtain ⟨⟨haccounts, hcontainers⟩, ⟨hblobs, hcommitted⟩, hstaged, hstaged'⟩ := h
  have hlookup : ∀ {ρ : Type} {t t' : Table BlobKey ρ}, (∀ k' ∈ t.keys ++ t'.keys, k' = k) →
      ∀ k', k' ≠ k → t.lookup k' = none ∧ t'.lookup k' = none := by
    intro ρ t t' hkeys k' hk'
    constructor <;> refine AList.lookup_eq_none.mpr fun hmem => hk' (hkeys k' ?_)
    · exact List.mem_append_left _ (AList.mem_keys.mp hmem)
    · exact List.mem_append_right _ (AList.mem_keys.mp hmem)
  constructor
  · exact haccounts
  · exact hcontainers
  · intro k' hk'
    exact (hlookup hblobs k' hk').1.trans (hlookup hblobs k' hk').2.symm
  · intro k' hk'
    exact (hlookup hcommitted k' hk').1.trans (hlookup hcommitted k' hk').2.symm
  · exact hstaged.trans hstaged'.symm
  · intro k' hk'
    simp [FsBackend.shelf, (hlookup hblobs k' hk').1, (hlookup hblobs k' hk').2]
  · funext b
    simp [FsBackend.shelf, hstaged, hstaged']

/-- Properties that name an encoding. -/
def sampleEncoded : Call :=
  .setBlobProperties "acc" "c" "b" ⟨none, none, some "gzip", none, none, none⟩

/-- The store before the blob is written, with a version of it, and with an encoding as well. -/
def sampleBefore (n : ℕ) : World :=
  sample.serve (sample.fresh sampleAccounts)
    ([⟨sampleAmb 1, .createContainer "acc" "c" .off ∅⟩,
      ⟨sampleAmb 2, .putBlob "acc" "c" "b" [.ok [1]] none none ∅⟩,
      ⟨sampleAmb 3, sampleEncoded⟩].take n)

lemma reachable_sampleBefore (n : ℕ) : Reachable sample (sampleBefore n) := by
  refine ⟨_, _, sample.fresh_isFresh sampleAccounts, fun req hreq => ?_, rfl⟩
  have hall : ∀ req ∈ [(⟨sampleAmb 1, .createContainer "acc" "c" .off ∅⟩ : Request),
      ⟨sampleAmb 2, .putBlob "acc" "c" "b" [.ok [1]] none none ∅⟩, ⟨sampleAmb 3, sampleEncoded⟩],
      req.call.Ordinary := by decide
  exact hall req (List.mem_of_mem_take hreq)

/-- A new version of one byte. -/
def sampleVersion : Version := .single [.ok [2]] none none ∅

/-- Written to an empty container and over a version without leftovers. -/
theorem overwrite_same_sample :
    SameVersion sample ⟨"acc", "c", "b"⟩
      ((sample.call (sampleAmb 4) (sampleVersion.call ⟨"acc", "c", "b"⟩)).run (sampleBefore 1)).2
      ((sample.call (sampleAmb 5) (sampleVersion.call ⟨"acc", "c", "b"⟩)).run (sampleBefore 2)).2 := by
  obtain ⟨reply, hreply⟩ := exists_of_isOk (r := ((sample.call (sampleAmb 4)
    (sampleVersion.call ⟨"acc", "c", "b"⟩)).run (sampleBefore 1)).1) (by decide +kernel)
  obtain ⟨reply', hreply'⟩ := exists_of_isOk (r := ((sample.call (sampleAmb 5)
    (sampleVersion.call ⟨"acc", "c", "b"⟩)).run (sampleBefore 2)).1) (by decide +kernel)
  refine (overwrite_same_iff (reachable_sampleBefore 1) (reachable_sampleBefore 2) (by decide) ?_
    hreply hreply').mpr ?_
  · exact apartFrom_of_keys (by decide +kernel)
  · have hsame : leftover ((sampleBefore 1).db.blobs.lookup ⟨"acc", "c", "b"⟩) =
          leftover ((sampleBefore 2).db.blobs.lookup ⟨"acc", "c", "b"⟩) ∧
        (sampleBefore 1).db.getCommittedBlocks ⟨"acc", "c", "b"⟩ =
          (sampleBefore 2).db.getCommittedBlocks ⟨"acc", "c", "b"⟩ := by
      decide +kernel
    exact hsame

/-- The encoding of the old version is still there for the new one. -/
theorem overwrite_keeps_encoding :
    Reachable sample (sampleBefore 1) ∧ Reachable sample (sampleBefore 3) ∧
      ApartFrom ⟨"acc", "c", "b"⟩ (sample.shelf (sampleBefore 1)) (sample.shelf (sampleBefore 3)) ∧
      ((sample.call (sampleAmb 4) (sampleVersion.call ⟨"acc", "c", "b"⟩)).run
        (sampleBefore 1)).1.isOk = true ∧
      ((sample.call (sampleAmb 5) (sampleVersion.call ⟨"acc", "c", "b"⟩)).run
        (sampleBefore 3)).1.isOk = true ∧
      ¬ SameVersion sample ⟨"acc", "c", "b"⟩
        ((sample.call (sampleAmb 4) (sampleVersion.call ⟨"acc", "c", "b"⟩)).run (sampleBefore 1)).2
        ((sample.call (sampleAmb 5) (sampleVersion.call ⟨"acc", "c", "b"⟩)).run
          (sampleBefore 3)).2 := by
  refine ⟨reachable_sampleBefore 1, reachable_sampleBefore 3, ?_, by decide +kernel,
    by decide +kernel, fun h => ?_⟩
  · exact apartFrom_of_keys (by decide +kernel)
  · exact absurd h.props (by decide +kernel)

end BlobStore
