import BlobStore.Lib.Table.Keep
import BlobStore.Storage.World

/-!
# The rows of some containers

`only S` keeps the rows of the containers in `S`, in their order. A statement about such a container
answers and changes the same in the whole database and in that portion of it; a statement about
another container does not change the portion.
-/

namespace BlobStore

open Codec FileTree Resumption

/-- The rows of the containers in `S`, and all accounts. -/
def MetadataDb.only (S : ContainerKey → Bool) (db : MetadataDb) : MetadataDb where
  accounts        := db.accounts
  containers      := db.containers.keep S
  blobs           := db.blobs.keep fun k => S k.containerKey
  stagedBlocks    := db.stagedBlocks.keep fun s => S s.blob.containerKey
  committedBlocks := db.committedBlocks.keep fun k => S k.containerKey

/-- The container whose rows an action reads or changes. -/
def Action.rows : Action → Option ContainerKey
  | .getContainer c | .insertContainer _ c _ | .deleteContainer _ c
  | .setContainerMetadata _ c _ _ _ | .setContainerAcl _ c _ _ _ | .listBlobs c _ _ _ => some c
  | .getBlob k | .upsertBlob _ k _ | .setBlobProperties _ k _ _ _ | .setBlobMetadata _ k _ _ _
  | .deleteBlobRow _ k | .deleteCommittedBlocks k | .deleteStagedBlocks k | .getCommittedBlocks k
  | .getUncommittedBlocks k | .commitBlockList _ k _ _ => some k.containerKey
  | .stageBlock _ s _ | .getStagedBlock s => some s.blob.containerKey
  | _ => none

/-- The action is a statement that the rows of the containers in `S` answer by themselves. -/
def Action.Covered (S : ContainerKey → Bool) (e : Action) : Prop :=
  (∃ c, e.rows = some c ∧ S c = true) ∨ (∃ a, e = .accountKeys a) ∨
    ∃ a np mk n, e = .listContainers a np mk n ∧ ∀ c : ContainerKey, c.account = a → S c = true

namespace MetadataDb

variable {S : ContainerKey → Bool} {db : MetadataDb} {c : ContainerKey} {k : BlobKey}
  {s : StagedBlockKey}

/-! ### Lookups -/

lemma containers_only (hc : S c = true) :
    (db.only S).containers.lookup c = db.containers.lookup c := Table.lookup_keep hc db.containers

lemma blobs_only (hk : S k.containerKey = true) :
    (db.only S).blobs.lookup k = db.blobs.lookup k :=
  Table.lookup_keep (p := fun k : BlobKey => S k.containerKey) hk db.blobs

lemma stagedBlocks_only (hs : S s.blob.containerKey = true) :
    (db.only S).stagedBlocks.lookup s = db.stagedBlocks.lookup s :=
  Table.lookup_keep (p := fun s : StagedBlockKey => S s.blob.containerKey) hs db.stagedBlocks

lemma committedBlocks_only (hk : S k.containerKey = true) :
    (db.only S).committedBlocks.lookup k = db.committedBlocks.lookup k :=
  Table.lookup_keep (p := fun k : BlobKey => S k.containerKey) hk db.committedBlocks

lemma getContainer_only (hc : S c = true) : (db.only S).getContainer c = db.getContainer c := by
  unfold getContainer
  rw [containers_only hc]

lemma listBlobs_only (hc : S c = true) (np mk : Option String) (n : UInt32) :
    (db.only S).listBlobs c np mk n = db.listBlobs c np mk n := by
  have hrows : ∀ f : String → Bool,
      (db.only S).blobs.selectWhere (fun k => k.containerKey = c && f k.blob) =
        db.blobs.selectWhere fun k => k.containerKey = c && f k.blob := by
    intro f
    refine Table.selectWhere_keep (p := fun k : BlobKey => S k.containerKey) (fun k hk => ?_) _
    rw [Bool.and_eq_true, decide_eq_true_eq] at hk
    rw [hk.1, hc]
  unfold listBlobs
  dsimp only
  rw [hrows]

lemma listContainers_only {a : String} (ha : ∀ c : ContainerKey, c.account = a → S c = true)
    (np mk : Option String) (n : UInt32) :
    (db.only S).listContainers a np mk n = db.listContainers a np mk n := by
  have hrows : ∀ f : String → Bool,
      (db.only S).containers.selectWhere (fun c => c.account = a && f c.container) =
        db.containers.selectWhere fun c => c.account = a && f c.container := by
    intro f
    refine Table.selectWhere_keep (fun c hc => ha c ?_) db.containers
    simpa using (Bool.and_eq_true_iff.mp hc).1
  unfold listContainers
  dsimp only
  rw [hrows]

lemma getUncommittedBlocks_only (hk : S k.containerKey = true) :
    (db.only S).getUncommittedBlocks k = db.getUncommittedBlocks k := by
  have hrows : (db.only S).stagedBlocks.selectWhere (fun s => s.blob = k) =
      db.stagedBlocks.selectWhere fun s => s.blob = k := by
    refine Table.selectWhere_keep (p := fun s : StagedBlockKey => S s.blob.containerKey)
      (fun s hs => ?_) _
    rw [of_decide_eq_true hs, hk]
  unfold getUncommittedBlocks
  rw [hrows]

/-! ### Statements about a container that is kept -/

/-- A statement does the same in the portion as in the whole. -/
def Portioned {α : Type} (S : ContainerKey → Bool)
    (stmt : MetadataDb → Except SqlError α × MetadataDb) : Prop :=
  ∀ db, stmt (db.only S) = ((stmt db).1, (stmt db).2.only S)

lemma Portioned.guarded {α : Type} {stmt : MetadataDb → Except SqlError α × MetadataDb}
    (h : Portioned S stmt) (fault : Option String) : Portioned S (guarded fault stmt) := by
  intro db
  cases fault with
  | none => exact h db
  | some message => rfl

lemma portioned_insertContainer (hc : S c = true) (r : ContainerRecord) :
    Portioned S (insertContainer c r) := by
  intro db
  have haccounts : (db.only S).accounts = db.accounts := rfl
  unfold insertContainer
  rw [containers_only hc, haccounts]
  split_ifs
  · rfl
  · rfl
  · refine Prod.ext rfl ?_
    simp only [only, Table.keep_insert hc]

lemma portioned_deleteContainer (hc : S c = true) : Portioned S (deleteContainer c) := by
  intro db
  have hrows : (db.only S).blobs.selectWhere (fun k => k.containerKey = c) =
      db.blobs.selectWhere fun k => k.containerKey = c := by
    refine Table.selectWhere_keep (p := fun k : BlobKey => S k.containerKey) (fun k hk => ?_) _
    rw [of_decide_eq_true hk, hc]
  unfold deleteContainer
  rw [hrows]
  refine Prod.ext rfl ?_
  simp only [only, Table.keep_deleteWhere, Table.keep_erase hc]

lemma portioned_modify_container (hc : S c = true) (f : ContainerRecord → ContainerRecord) :
    Portioned S fun db => (.ok (), { db with containers := db.containers.modify c f }) := by
  intro db
  refine Prod.ext rfl ?_
  simp only [only, Table.keep_modify hc]

lemma portioned_modify_blob (hk : S k.containerKey = true) (f : BlobRow → BlobRow) :
    Portioned S fun db => (.ok (), { db with blobs := db.blobs.modify k f }) := by
  intro db
  refine Prod.ext rfl ?_
  simp only [only, Table.keep_modify (p := fun k : BlobKey => S k.containerKey) hk]

lemma portioned_upsertBlob (hk : S k.containerKey = true) (u : BlobUpsert) :
    Portioned S (upsertBlob k u) := by
  intro db
  unfold upsertBlob
  rw [containers_only hk, blobs_only hk]
  split_ifs
  · rfl
  · refine Prod.ext rfl ?_
    simp only [only, Table.keep_insert (p := fun k : BlobKey => S k.containerKey) hk]

lemma portioned_commitBlockList (hk : S k.containerKey = true) (resolved : List CommittedBlock)
    (u : BlobUpsert) : Portioned S (commitBlockList k resolved u) := by
  intro db
  have hup := portioned_upsertBlob hk u db
  unfold commitBlockList
  rw [hup]
  rcases upsertBlob k u db with ⟨_ | _, db'⟩
  · rfl
  · refine Prod.ext rfl ?_
    simp only [only, Table.keep_insert (p := fun k : BlobKey => S k.containerKey) hk,
      Table.keep_deleteWhere]

lemma portioned_deleteBlobRow (hk : S k.containerKey = true) : Portioned S (deleteBlobRow k) := by
  intro db
  refine Prod.ext rfl ?_
  simp only [deleteBlobRow, only, Table.keep_erase (p := fun k : BlobKey => S k.containerKey) hk]

lemma portioned_stageBlock (hs : S s.blob.containerKey = true) (r : StagedBlockRecord) :
    Portioned S (stageBlock s r) := by
  intro db
  refine Prod.ext rfl ?_
  simp only [stageBlock, only,
    Table.keep_insert (p := fun s : StagedBlockKey => S s.blob.containerKey) hs]

/-! ### Statements about another container -/

/-- A statement does not change the portion. -/
def Beside {α : Type} (S : ContainerKey → Bool)
    (stmt : MetadataDb → Except SqlError α × MetadataDb) : Prop :=
  ∀ db, (stmt db).2.only S = db.only S

lemma Beside.guarded {α : Type} {stmt : MetadataDb → Except SqlError α × MetadataDb}
    (h : Beside S stmt) (fault : Option String) : Beside S (guarded fault stmt) := by
  intro db
  cases fault with
  | none => exact h db
  | some message => rfl

lemma beside_insertContainer (hc : S c = false) (r : ContainerRecord) :
    Beside S (insertContainer c r) := by
  intro db
  unfold insertContainer
  split_ifs
  · rfl
  · rfl
  · simp only [only, Table.keep_insert_of_not hc]

lemma beside_deleteContainer (hc : S c = false) : Beside S (deleteContainer c) := by
  intro db
  simp only [deleteContainer, only, Table.keep_erase_of_not hc]
  congr 1
  · exact Table.keep_deleteWhere_of_not (fun k hk => by rw [of_decide_eq_true hk, hc]) _
  · exact Table.keep_deleteWhere_of_not (fun k hk => by rw [of_decide_eq_true hk, hc]) _
  · exact Table.keep_deleteWhere_of_not (fun k hk => by rw [of_decide_eq_true hk, hc]) _

lemma beside_modify_container (hc : S c = false) (f : ContainerRecord → ContainerRecord) :
    Beside S fun db => ((.ok () : Except SqlError Unit),
      { db with containers := db.containers.modify c f }) := by
  intro db
  simp only [only, Table.keep_modify_of_not hc]

lemma beside_modify_blob (hk : S k.containerKey = false) (f : BlobRow → BlobRow) :
    Beside S fun db => ((.ok () : Except SqlError Unit), { db with blobs := db.blobs.modify k f }) := by
  intro db
  simp only [only, Table.keep_modify_of_not (p := fun k : BlobKey => S k.containerKey) hk]

lemma beside_upsertBlob (hk : S k.containerKey = false) (u : BlobUpsert) :
    Beside S (upsertBlob k u) := by
  intro db
  unfold upsertBlob
  split_ifs
  · rfl
  · simp only [only, Table.keep_insert_of_not (p := fun k : BlobKey => S k.containerKey) hk]

lemma beside_deleteStagedBlocks (hk : S k.containerKey = false) (db : MetadataDb) :
    (db.deleteStagedBlocks k).only S = db.only S := by
  simp only [deleteStagedBlocks, only]
  congr 1
  exact Table.keep_deleteWhere_of_not (fun s hs => by rw [of_decide_eq_true hs, hk]) _

lemma beside_commitBlockList (hk : S k.containerKey = false) (resolved : List CommittedBlock)
    (u : BlobUpsert) : Beside S (commitBlockList k resolved u) := by
  intro db
  have hup := beside_upsertBlob hk u db
  unfold commitBlockList
  rcases hres : upsertBlob k u db with ⟨_ | _, db'⟩
  · rfl
  · rw [hres] at hup
    rw [← hup, ← beside_deleteStagedBlocks hk db']
    simp only [deleteStagedBlocks, only,
      Table.keep_insert_of_not (p := fun k : BlobKey => S k.containerKey) hk]

lemma beside_deleteBlobRow (hk : S k.containerKey = false) : Beside S (deleteBlobRow k) := by
  intro db
  simp only [deleteBlobRow, only,
    Table.keep_erase_of_not (p := fun k : BlobKey => S k.containerKey) hk]

lemma beside_stageBlock (hs : S s.blob.containerKey = false) (r : StagedBlockRecord) :
    Beside S (stageBlock s r) := by
  intro db
  simp only [stageBlock, only,
    Table.keep_insert_of_not (p := fun s : StagedBlockKey => S s.blob.containerKey) hs]

end MetadataDb

/-! ### Actions -/

variable {S : ContainerKey → Bool} {e : Action} {c : ContainerKey}

/-- What it means that the portion answers an action by itself. -/
abbrev Action.Answers (S : ContainerKey → Bool) (e : Action) (w : World) (fs : FsTree UInt8) : Prop :=
  (e.exec ⟨w.db.only S, fs⟩).1 = (e.exec w).1 ∧
    (e.exec ⟨w.db.only S, fs⟩).2.db = (e.exec w).2.db.only S ∧
    (e.exec ⟨w.db.only S, fs⟩).2.fs = fs ∧ (e.exec w).2.fs = w.fs

/-- The same for a statement. -/
lemma onDb_portioned {α : Type} {stmt : MetadataDb → Except SqlError α × MetadataDb}
    (h : MetadataDb.Portioned S stmt) (w : World) (fs : FsTree UInt8) :
    (Action.onDb stmt ⟨w.db.only S, fs⟩).1 = (Action.onDb stmt w).1 ∧
      (Action.onDb stmt ⟨w.db.only S, fs⟩).2.db = (Action.onDb stmt w).2.db.only S ∧
      (Action.onDb stmt ⟨w.db.only S, fs⟩).2.fs = fs ∧ (Action.onDb stmt w).2.fs = w.fs := by
  unfold Action.onDb
  rw [h w.db]
  exact ⟨rfl, rfl, rfl, rfl⟩

/-- A statement about a container that is kept. -/
lemma Action.exec_portioned (hc : e.rows = some c) (hS : S c = true) (w : World)
    (fs : FsTree UInt8) : e.Answers S w fs := by
  cases e with
  | getContainer c' =>
    cases hc
    exact ⟨MetadataDb.getContainer_only hS, rfl, rfl, rfl⟩
  | insertContainer fault c' r =>
    cases hc
    exact onDb_portioned ((MetadataDb.portioned_insertContainer hS r).guarded fault) w fs
  | deleteContainer fault c' =>
    cases hc
    exact onDb_portioned ((MetadataDb.portioned_deleteContainer hS).guarded fault) w fs
  | setContainerMetadata fault c' m et l =>
    cases hc
    exact onDb_portioned ((MetadataDb.portioned_modify_container hS _).guarded fault) w fs
  | setContainerAcl fault c' pa et l =>
    cases hc
    exact onDb_portioned ((MetadataDb.portioned_modify_container hS _).guarded fault) w fs
  | listBlobs c' np mk n =>
    cases hc
    exact ⟨MetadataDb.listBlobs_only hS np mk n, rfl, rfl, rfl⟩
  | getBlob k =>
    cases hc
    exact ⟨MetadataDb.blobs_only hS, rfl, rfl, rfl⟩
  | upsertBlob fault k u =>
    cases hc
    exact onDb_portioned ((MetadataDb.portioned_upsertBlob hS u).guarded fault) w fs
  | setBlobProperties fault k patch et l =>
    cases hc
    exact onDb_portioned ((MetadataDb.portioned_modify_blob hS _).guarded fault) w fs
  | setBlobMetadata fault k m et l =>
    cases hc
    exact onDb_portioned ((MetadataDb.portioned_modify_blob hS _).guarded fault) w fs
  | deleteBlobRow fault k =>
    cases hc
    exact onDb_portioned ((MetadataDb.portioned_deleteBlobRow hS).guarded fault) w fs
  | deleteCommittedBlocks k =>
    cases hc
    refine ⟨rfl, ?_, rfl, rfl⟩
    simp only [Action.exec, MetadataDb.deleteCommittedBlocks, MetadataDb.only,
      Table.keep_erase (p := fun k : BlobKey => S k.containerKey) hS]
  | deleteStagedBlocks k =>
    cases hc
    refine ⟨rfl, ?_, rfl, rfl⟩
    simp only [Action.exec, MetadataDb.deleteStagedBlocks, MetadataDb.only, Table.keep_deleteWhere]
  | stageBlock fault s r =>
    cases hc
    exact onDb_portioned ((MetadataDb.portioned_stageBlock hS r).guarded fault) w fs
  | getStagedBlock s =>
    cases hc
    exact ⟨MetadataDb.stagedBlocks_only hS, rfl, rfl, rfl⟩
  | getCommittedBlocks k =>
    cases hc
    exact ⟨congrArg (fun r => Option.getD r []) (MetadataDb.committedBlocks_only hS), rfl, rfl, rfl⟩
  | getUncommittedBlocks k =>
    cases hc
    exact ⟨MetadataDb.getUncommittedBlocks_only hS, rfl, rfl, rfl⟩
  | commitBlockList fault k resolved u =>
    cases hc
    exact onDb_portioned ((MetadataDb.portioned_commitBlockList hS resolved u).guarded fault) w fs
  | _ => cases hc

/-- A statement that the portion answers by itself. -/
lemma Action.Covered.exec (h : e.Covered S) (w : World) (fs : FsTree UInt8) : e.Answers S w fs := by
  rcases h with ⟨c, hc, hS⟩ | ⟨a, rfl⟩ | ⟨a, np, mk, n, rfl, ha⟩
  · exact Action.exec_portioned hc hS w fs
  · exact ⟨rfl, rfl, rfl, rfl⟩
  · exact ⟨MetadataDb.listContainers_only ha np mk n, rfl, rfl, rfl⟩

lemma onDb_beside {α : Type} {stmt : MetadataDb → Except SqlError α × MetadataDb}
    (h : MetadataDb.Beside S stmt) (w : World) :
    (Action.onDb stmt w).2.db.only S = w.db.only S ∧ (Action.onDb stmt w).2.fs = w.fs :=
  ⟨h w.db, rfl⟩

/-- A statement about another container. -/
lemma Action.exec_beside (hc : e.rows = some c) (hS : S c = false) (w : World) :
    (e.exec w).2.db.only S = w.db.only S ∧ (e.exec w).2.fs = w.fs := by
  cases e with
  | insertContainer fault c' r =>
    cases hc
    exact onDb_beside ((MetadataDb.beside_insertContainer hS r).guarded fault) w
  | deleteContainer fault c' =>
    cases hc
    exact onDb_beside ((MetadataDb.beside_deleteContainer hS).guarded fault) w
  | setContainerMetadata fault c' m et l =>
    cases hc
    exact onDb_beside ((MetadataDb.beside_modify_container hS _).guarded fault) w
  | setContainerAcl fault c' pa et l =>
    cases hc
    exact onDb_beside ((MetadataDb.beside_modify_container hS _).guarded fault) w
  | upsertBlob fault k u =>
    cases hc
    exact onDb_beside ((MetadataDb.beside_upsertBlob hS u).guarded fault) w
  | setBlobProperties fault k patch et l =>
    cases hc
    exact onDb_beside ((MetadataDb.beside_modify_blob hS _).guarded fault) w
  | setBlobMetadata fault k m et l =>
    cases hc
    exact onDb_beside ((MetadataDb.beside_modify_blob hS _).guarded fault) w
  | deleteBlobRow fault k =>
    cases hc
    exact onDb_beside ((MetadataDb.beside_deleteBlobRow hS).guarded fault) w
  | deleteCommittedBlocks k =>
    cases hc
    refine ⟨?_, rfl⟩
    simp only [Action.exec, MetadataDb.deleteCommittedBlocks, MetadataDb.only,
      Table.keep_erase_of_not (p := fun k : BlobKey => S k.containerKey) hS]
  | deleteStagedBlocks k =>
    cases hc
    exact ⟨MetadataDb.beside_deleteStagedBlocks hS w.db, rfl⟩
  | stageBlock fault s r =>
    cases hc
    exact onDb_beside ((MetadataDb.beside_stageBlock hS r).guarded fault) w
  | commitBlockList fault k resolved u =>
    cases hc
    exact onDb_beside ((MetadataDb.beside_commitBlockList hS resolved u).guarded fault) w
  | _ => first | cases hc; done | exact ⟨rfl, rfl⟩

end BlobStore
