import BlobStore.Storage.Listing
import BlobStore.Storage.Refinement.Call

/-!
# Containers seen by themselves

A call on one container depends on the rows and bytes of that container and on nothing else. Two
stores, each with a container of its own, are twins if the rows of the two containers agree up to
etags, timestamps and storage paths, and so do the bytes behind them. Calls on twins are answered
alike and leave twins.

The same holds for a single blob; `P` says which names of the container are compared.
-/

namespace BlobStore

open Codec FileTree

/-! ### Names -/

/-- A blob of a container. -/
def ContainerKey.key (c : ContainerKey) (n : String) : BlobKey := ⟨c.account, c.container, n⟩

/-- The name of a blob that is compared. -/
def compared (c : ContainerKey) (P : String → Bool) (k : BlobKey) : Option String :=
  if k.containerKey = c ∧ P k.blob = true then some k.blob else none

def comparedBlock (c : ContainerKey) (P : String → Bool) (b : StagedBlockKey) :
    Option (String × String) :=
  (compared c P b.blob).map fun n => (n, b.blockId)

section Names

variable {c : ContainerKey} {P : String → Bool} {k : BlobKey} {n id : String}

lemma compared_eq_some : compared c P k = some n ↔ k = c.key n ∧ P n = true := by
  unfold compared
  constructor
  · intro h
    split_ifs at h with hk
    cases h
    exact ⟨MetadataDb.containerKey_eq_iff.mp hk.1, hk.2⟩
  · rintro ⟨rfl, hn⟩
    exact if_pos ⟨rfl, hn⟩

lemma compared_key (hn : P n = true) : compared c P (c.key n) = some n := compared_eq_some.mpr ⟨rfl, hn⟩

lemma names_compared : Table.Names (compared c P) := by
  intro k k' n h h'
  rw [(compared_eq_some.mp h).1, (compared_eq_some.mp h').1]

lemma comparedBlock_eq_some {b : StagedBlockKey} :
    comparedBlock c P b = some (n, id) ↔ b = ⟨c.key n, id⟩ ∧ P n = true := by
  obtain ⟨k, id'⟩ := b
  simp only [comparedBlock, Option.map_eq_some_iff, compared_eq_some, Prod.mk.injEq,
    StagedBlockKey.mk.injEq]
  constructor
  · rintro ⟨_, ⟨rfl, hn⟩, rfl, rfl⟩
    exact ⟨⟨rfl, rfl⟩, hn⟩
  · rintro ⟨⟨rfl, rfl⟩, hn⟩
    exact ⟨n, ⟨rfl, hn⟩, rfl, rfl⟩

lemma comparedBlock_key (hn : P n = true) : comparedBlock c P ⟨c.key n, id⟩ = some (n, id) :=
  comparedBlock_eq_some.mpr ⟨rfl, hn⟩

lemma names_comparedBlock : Table.Names (comparedBlock c P) := by
  rintro b b' ⟨n, id⟩ h h'
  rw [(comparedBlock_eq_some.mp h).1, (comparedBlock_eq_some.mp h').1]

end Names

/-! ### Etags, timestamps and paths aside -/

def ContainerRecord.lasting (r : ContainerRecord) : ContainerRecord :=
  { r with etag := "", lastModified := "" }

def BlobRow.lasting (row : BlobRow) : BlobRow :=
  { row with etag := "", lastModified := "", storagePath := "" }

/-- Only the order of the timestamps of staged blocks counts; `translate` keeps it. -/
def StagedBlockRecord.lasting (translate : String → String) (r : StagedBlockRecord) :
    StagedBlockRecord :=
  { r with storagePath := "", stagedAt := translate r.stagedAt }

def ContainerProps.lasting (props : ContainerProps) : ContainerProps :=
  { props with name := "", etag := "", lastModified := "" }

def BlobProps.lasting (props : BlobProps) : BlobProps :=
  { props with etag := "", lastModified := "" }

def BlobListPage.lasting (page : BlobListPage) : BlobListPage :=
  { page with blobs := page.blobs.map BlobProps.lasting }

def BlobPayload.lasting (payload : BlobPayload) : BlobPayload :=
  { payload with props := payload.props.lasting }

/-- An answer without etags and timestamps, and without the name of its container. -/
def Reply.lasting : Reply → Reply
  | .container props => .container props.lasting
  | .blobs page      => .blobs (page.map BlobListPage.lasting)
  | .blob props      => .blob props.lasting
  | .payload p       => .payload p.lasting
  | reply            => reply

/-- Two clocks that go alike: the times one of them tells, translated to the other in their
order. -/
structure Clocks where
  told : Set String
  translate : String → String
  mono : StrictMonoOn translate told

/-- The compared blobs of two containers agree, rows and bytes. -/
structure Twins (τ : Clocks) (P : String → Bool) (c c' : ContainerKey) (s s' : Shelf) :
    Prop where
  account : (s.db.accounts.lookup c.account).isSome = (s'.db.accounts.lookup c'.account).isSome
  container : (s.db.containers.lookup c).map ContainerRecord.lasting =
    (s'.db.containers.lookup c').map ContainerRecord.lasting
  blobs : s.db.blobs.part (compared c P) BlobRow.lasting =
    s'.db.blobs.part (compared c' P) BlobRow.lasting
  staged : s.db.stagedBlocks.part (comparedBlock c P) (StagedBlockRecord.lasting τ.translate) =
    s'.db.stagedBlocks.part (comparedBlock c' P) (StagedBlockRecord.lasting id)
  committed : s.db.committedBlocks.part (compared c P) id =
    s'.db.committedBlocks.part (compared c' P) id
  content : ∀ n, P n = true → s.content (c.key n) = s'.content (c'.key n)
  bytes : ∀ n id, P n = true → s.staged ⟨c.key n, id⟩ = s'.staged ⟨c'.key n, id⟩
  told : ∀ n id r, P n = true → s.db.stagedBlocks.lookup ⟨c.key n, id⟩ = some r →
    r.stagedAt ∈ τ.told

/-- Surroundings that differ in nothing that an answer shows: statements fail alike, files can be
removed, and the clocks go alike. -/
structure Peers (τ : Clocks) (amb amb' : Ambient) : Prop where
  told : amb.nowIso ∈ τ.told
  clock : τ.translate amb.nowIso = amb'.nowIso
  fault : amb.dbFault = amb'.dbFault
  removes : ∀ p, amb.removeFails p = false
  removes' : ∀ p, amb'.removeFails p = false

/-- Answers and states of two calls that are alike. -/
structure Alike (τ : Clocks) (P : String → Bool) (c c' : ContainerKey) {α β : Type}
    (lasting : α → β) (r r' : Except AzureError α × Shelf) : Prop where
  answer : r.1.map lasting = r'.1.map lasting
  twins : Twins τ P c c' r.2 r'.2

variable {τ : Clocks} {P : String → Bool} {c c' : ContainerKey} {s s' : Shelf}
  {amb amb' : Ambient} {B : FsBackend} {n : String}

section Rows

variable (h : Twins τ P c c' s s')
include h

lemma Twins.blob (hn : P n = true) : (s.db.blobs.lookup (c.key n)).map BlobRow.lasting =
    (s'.db.blobs.lookup (c'.key n)).map BlobRow.lasting := by
  rw [Table.lookup_part names_compared _ (compared_key hn),
    Table.lookup_part names_compared _ (compared_key hn), h.blobs]

lemma Twins.block (hn : P n = true) (blockId : String) :
    (s.db.stagedBlocks.lookup ⟨c.key n, blockId⟩).map (StagedBlockRecord.lasting τ.translate) =
      (s'.db.stagedBlocks.lookup ⟨c'.key n, blockId⟩).map (StagedBlockRecord.lasting id) := by
  rw [Table.lookup_part names_comparedBlock _ (comparedBlock_key hn),
    Table.lookup_part names_comparedBlock _ (comparedBlock_key hn), h.staged]

lemma Twins.list (hn : P n = true) :
    s.db.getCommittedBlocks (c.key n) = s'.db.getCommittedBlocks (c'.key n) := by
  have hlookup : s.db.committedBlocks.lookup (c.key n) =
      s'.db.committedBlocks.lookup (c'.key n) := by
    have hmap : (s.db.committedBlocks.lookup (c.key n)).map id =
        (s'.db.committedBlocks.lookup (c'.key n)).map id := by
      rw [Table.lookup_part names_compared _ (compared_key hn),
        Table.lookup_part names_compared _ (compared_key hn), h.committed]
    simpa using hmap
  rw [MetadataDb.getCommittedBlocks, MetadataDb.getCommittedBlocks, hlookup]

/-- The container is missing on both sides, or there on both with the same columns. -/
lemma Twins.container_cases :
    (Shelf.container c s.db = .error (.new .containerNotFound) ∧
      Shelf.container c' s'.db = .error (.new .containerNotFound)) ∨
    ∃ row row', Shelf.container c s.db = .ok row ∧ Shelf.container c' s'.db = .ok row' ∧
      (containerRowToProps row).lasting = (containerRowToProps row').lasting := by
  have hrows := h.container
  unfold Shelf.container MetadataDb.getContainer
  cases hr : s.db.containers.lookup c with
  | none =>
    rw [hr, Option.map_none] at hrows
    rw [Option.map_eq_none_iff.mp hrows.symm]
    exact .inl ⟨rfl, rfl⟩
  | some r =>
    rw [hr, Option.map_some] at hrows
    obtain ⟨r', hr', hlasting⟩ := Option.map_eq_some_iff.mp hrows.symm
    rw [hr']
    refine .inr ⟨_, _, rfl, rfl, ?_⟩
    simp only [ContainerRecord.lasting, ContainerRecord.mk.injEq, and_true] at hlasting
    simp [containerRowToProps, ContainerProps.lasting, hlasting.1, hlasting.2]

/-- The blob is missing on both sides, or there on both with the same columns. -/
lemma Twins.blob_cases (hn : P n = true) :
    (Shelf.blob (c.key n) s.db = .error (.new .blobNotFound) ∧
      Shelf.blob (c'.key n) s'.db = .error (.new .blobNotFound)) ∨
    ∃ row row', Shelf.blob (c.key n) s.db = .ok row ∧ Shelf.blob (c'.key n) s'.db = .ok row' ∧
      row.lasting = row'.lasting := by
  have hrows := h.blob hn
  unfold Shelf.blob MetadataDb.getBlob
  cases hr : s.db.blobs.lookup (c.key n) with
  | none =>
    rw [hr, Option.map_none] at hrows
    rw [Option.map_eq_none_iff.mp hrows.symm]
    exact .inl ⟨rfl, rfl⟩
  | some row =>
    rw [hr, Option.map_some] at hrows
    obtain ⟨row', hr', hlasting⟩ := Option.map_eq_some_iff.mp hrows.symm
    rw [hr']
    exact .inr ⟨row, row', rfl, rfl, hlasting.symm⟩

end Rows

/-! ### Looking -/

lemma Alike.refuse {α β : Type} {lasting : α → β} (h : Twins τ P c c' s s') (e : AzureError) :
    Alike τ P c c' lasting (.error e, s) (.error e, s') := ⟨rfl, h⟩

lemma Alike.replying {α β γ δ : Type} {lasting : α → β} {lasting' : γ → δ} {f f' : α → γ}
    {op op' : Shelf.Op α} (h : Alike τ P c c' lasting (op s) (op' s'))
    (hf : ∀ x y, lasting x = lasting y → lasting' (f x) = lasting' (f' y)) :
    Alike τ P c c' lasting' (Shelf.replying f op s) (Shelf.replying f' op' s') := by
  refine ⟨?_, h.twins⟩
  have hans := h.answer
  unfold Shelf.replying
  dsimp only
  generalize (op s).1 = r at hans ⊢
  generalize (op' s').1 = r' at hans ⊢
  rcases r with e | x <;> rcases r' with e' | y
  · exact congrArg Except.error (Except.error.inj hans)
  · cases hans
  · cases hans
  · exact congrArg Except.ok (hf x y (Except.ok.inj hans))

/-- Rows of the two tables under keys of one name, changed alike. -/
lemma part_insert_congr {κ κ' ι ρ σ : Type} [DecidableEq κ] [DecidableEq κ'] [DecidableEq ι]
    {f : κ → Option ι} {f' : κ' → Option ι} {g g' : ρ → σ} {t : Table κ ρ} {t' : Table κ' ρ}
    (h : t.part f g = t'.part f' g') (hf : Table.Names f) (hf' : Table.Names f') {k : κ} {k' : κ'}
    {i : ι} (hk : f k = some i) (hk' : f' k' = some i) {r r' : ρ} (hr : g r = g' r') :
    Table.part f g (AList.insert k r t) = Table.part f' g' (AList.insert k' r' t') := by
  rw [Table.part_insert hf t hk, Table.part_insert hf' t' hk', h, hr]

lemma part_modify_congr {κ κ' ι ρ σ : Type} [DecidableEq κ] [DecidableEq κ'] [DecidableEq ι]
    {f : κ → Option ι} {f' : κ' → Option ι} {g : ρ → σ} {t : Table κ ρ} {t' : Table κ' ρ}
    (h : t.part f g = t'.part f' g) (hf : Table.Names f) (hf' : Table.Names f') {k : κ} {k' : κ'}
    {i : ι} (hk : f k = some i) (hk' : f' k' = some i) {m m' : ρ → ρ}
    (hm : ∀ r r', g r = g r' → g (m r) = g (m' r')) :
    Table.part f g (Table.modify k m t) = Table.part f' g (Table.modify k' m' t') := by
  have hlookup : (t.lookup k).map g = (t'.lookup k').map g := by
    rw [Table.lookup_part hf t hk, Table.lookup_part hf' t' hk', h]
  unfold Table.modify
  cases hr : t.lookup k with
  | none =>
    rw [hr, Option.map_none] at hlookup
    rw [Option.map_eq_none_iff.mp hlookup.symm]
    exact h
  | some r =>
    rw [hr, Option.map_some] at hlookup
    obtain ⟨r', hr', heq⟩ := Option.map_eq_some_iff.mp hlookup.symm
    rw [hr']
    exact part_insert_congr h hf hf' hk hk' (hm r r' heq.symm)

lemma Twins.containerRow (h : Twins τ P c c' s s') :
    (Shelf.container c s.db).map (fun row => (containerRowToProps row).lasting) =
      (Shelf.container c' s'.db).map fun row => (containerRowToProps row).lasting := by
  rcases h.container_cases with ⟨hr, hr'⟩ | ⟨row, row', hr, hr', hlasting⟩
  · rw [hr, hr']
  · rw [hr, hr']
    exact congrArg Except.ok hlasting

lemma Twins.blobRow (h : Twins τ P c c' s s') (hn : P n = true) :
    (Shelf.blob (c.key n) s.db).map BlobRow.lasting =
      (Shelf.blob (c'.key n) s'.db).map BlobRow.lasting := by
  rcases h.blob_cases hn with ⟨hr, hr'⟩ | ⟨row, row', hr, hr', hlasting⟩
  · rw [hr, hr']
  · rw [hr, hr']
    exact congrArg Except.ok hlasting

lemma Twins.modify_container (h : Twins τ P c c' s s') {m m' : ContainerRecord → ContainerRecord}
    (hm : ∀ r r', r.lasting = r'.lasting → (m r).lasting = (m' r').lasting) :
    Twins τ P c c' { s with db := { s.db with containers := Table.modify c m s.db.containers } }
      { s' with db := { s'.db with containers := Table.modify c' m' s'.db.containers } } := by
  refine { h with container := ?_ }
  have hrows := h.container
  simp only [Table.lookup_modify_self, Option.map_map]
  cases hr : s.db.containers.lookup c with
  | none =>
    rw [hr, Option.map_none] at hrows
    rw [Option.map_eq_none_iff.mp hrows.symm]
    rfl
  | some r =>
    rw [hr, Option.map_some] at hrows
    obtain ⟨r', hr', heq⟩ := Option.map_eq_some_iff.mp hrows.symm
    rw [hr']
    exact congrArg some (hm r r' heq.symm)

lemma Twins.modify_blob (h : Twins τ P c c' s s') (hn : P n = true) {m m' : BlobRow → BlobRow}
    (hm : ∀ r r', r.lasting = r'.lasting → (m r).lasting = (m' r').lasting) :
    Twins τ P c c' { s with db := { s.db with blobs := Table.modify (c.key n) m s.db.blobs } }
      { s' with db := { s'.db with blobs := Table.modify (c'.key n) m' s'.db.blobs } } :=
  { h with
    blobs := part_modify_congr h.blobs names_compared names_compared (compared_key hn)
      (compared_key hn) hm }

/-! ### Writing bytes -/

lemma key_inj {n' : String} : c.key n' = c.key n ↔ n' = n := by
  simp [ContainerKey.key]

lemma isSome_of_map_eq {α β γ : Type} {o : Option α} {o' : Option β} {g : α → γ} {g' : β → γ}
    (h : o.map g = o'.map g') : o.isSome = o'.isSome := by
  have := congrArg Option.isSome h
  simpa using this

lemma Twins.overwrite (h : Twins τ P c c' s s') (hn : P n = true) (bytes : Option Bytes) :
    Twins τ P c c' (s.overwrite (c.key n) bytes) (s'.overwrite (c'.key n) bytes) := by
  refine { h with content := fun n' hn' => ?_ }
  simp only [Shelf.overwrite, key_inj]
  split_ifs
  · exact bind_const_congr (isSome_of_map_eq (h.blob hn)) bytes
  · exact h.content n' hn'

/-- Columns of an upsert that last. -/
lemma upsertedRow_lasting {u u' : BlobUpsert} {old old' : Option BlobRow}
    (hold : old.map BlobRow.lasting = old'.map BlobRow.lasting)
    (hu : { u with etag := "", lastModified := "", storagePath := "" } =
      { u' with etag := "", lastModified := "", storagePath := "" }) :
    (MetadataDb.upsertedRow (c.key n) u old).lasting =
      (MetadataDb.upsertedRow (c'.key n) u' old').lasting := by
  simp only [BlobUpsert.mk.injEq, and_true] at hu
  obtain ⟨hlen, htype, hmd5, hmeta⟩ := hu
  cases old with
  | none =>
    rw [Option.map_none] at hold
    rw [Option.map_eq_none_iff.mp hold.symm]
    simp [MetadataDb.upsertedRow, BlobRow.lasting, hlen, htype, hmd5, hmeta, ContainerKey.key]
  | some row =>
    rw [Option.map_some] at hold
    obtain ⟨row', rfl, hrow⟩ := Option.map_eq_some_iff.mp hold.symm
    simp only [BlobRow.lasting, BlobRow.mk.injEq, and_true] at hrow
    simp [MetadataDb.upsertedRow, BlobRow.lasting, hlen, htype, hmd5, hmeta, hrow]

/-- The blobs table after an upsert. -/
def MetadataDb.upserted (db : MetadataDb) (k : BlobKey) (u : BlobUpsert) : Table BlobKey BlobRow :=
  db.blobs.insert k (MetadataDb.upsertedRow k u (db.blobs.lookup k))

lemma Twins.upserted (h : Twins τ P c c' s s') (hn : P n = true) {u u' : BlobUpsert}
    (hu : { u with etag := "", lastModified := "", storagePath := "" } =
      { u' with etag := "", lastModified := "", storagePath := "" }) :
    Table.part (compared c P) BlobRow.lasting (s.db.upserted (c.key n) u) =
      Table.part (compared c' P) BlobRow.lasting (s'.db.upserted (c'.key n) u') :=
  part_insert_congr h.blobs names_compared names_compared (compared_key hn) (compared_key hn)
    (upsertedRow_lasting (h.blob hn) hu)

/-- The staged blocks of one blob, deleted on both sides. -/
lemma part_deleteBlocks_congr (h : Twins τ P c c' s s') (n : String) :
    (s.db.stagedBlocks.deleteWhere fun b => b.blob = c.key n).part (comparedBlock c P)
        (StagedBlockRecord.lasting τ.translate) =
      (s'.db.stagedBlocks.deleteWhere fun b => b.blob = c'.key n).part (comparedBlock c' P)
        (StagedBlockRecord.lasting id) := by
  have hpart : ∀ (c : ContainerKey) (b : StagedBlockKey) (i : String × String),
      comparedBlock c P b = some i → decide (b.blob = c.key n) = decide (i.1 = n) := by
    rintro c b ⟨n', id⟩ hb
    rw [(comparedBlock_eq_some.mp hb).1]
    simp only [key_inj]
  rw [Table.part_deleteWhere (hpart c), Table.part_deleteWhere (hpart c'), h.staged]

lemma Twins.resolveRef (h : Twins τ P c c' s s') (hn : P n = true) :
    Shelf.resolveRef (c.key n) s.db = Shelf.resolveRef (c'.key n) s'.db := by
  funext ref
  have hrow := h.block hn ref.blockId
  unfold Shelf.resolveRef MetadataDb.getStagedBlock
  rw [h.list hn]
  cases hr : s.db.stagedBlocks.lookup ⟨c.key n, ref.blockId⟩ with
  | none =>
    rw [hr, Option.map_none] at hrow
    rw [Option.map_eq_none_iff.mp hrow.symm]
  | some r =>
    rw [hr, Option.map_some] at hrow
    obtain ⟨r', hr', heq⟩ := Option.map_eq_some_iff.mp hrow.symm
    have hsize : r'.blockSize = r.blockSize := by
      have hsizes := congrArg StagedBlockRecord.blockSize heq
      exact hsizes
    rw [hr', Option.bind_some, Option.bind_some, hsize]

lemma Twins.assemble (h : Twins τ P c c' s s') (hn : P n = true) (refs : List BlockRef) :
    s.assemble (c.key n) refs = s'.assemble (c'.key n) refs := by
  simp only [Shelf.assemble, h.bytes n _ hn]


/-- The columns and rows of a block list that was committed. -/
lemma Twins.commit (h : Twins τ P c c' s s') (hn : P n = true) (resolved : List CommittedBlock)
    {u u' : BlobUpsert} (hu : { u with etag := "", lastModified := "", storagePath := "" } =
      { u' with etag := "", lastModified := "", storagePath := "" }) :
    Twins τ P c c'
      { s with db := { s.db with
        blobs := s.db.upserted (c.key n) u
        committedBlocks := AList.insert (c.key n) resolved s.db.committedBlocks
        stagedBlocks := s.db.stagedBlocks.deleteWhere fun b => b.blob = c.key n } }
      { s' with db := { s'.db with
        blobs := s'.db.upserted (c'.key n) u'
        committedBlocks := AList.insert (c'.key n) resolved s'.db.committedBlocks
        stagedBlocks := s'.db.stagedBlocks.deleteWhere fun b => b.blob = c'.key n } } :=
  { h with
    blobs := h.upserted hn hu
    committed := part_insert_congr h.committed names_compared names_compared (compared_key hn)
      (compared_key hn) rfl
    staged := part_deleteBlocks_congr h n
    told := fun n' id r hn' hr => h.told n' id r hn' (Table.lookup_of_lookup_deleteWhere hr) }

end BlobStore
