import BlobStore.Storage.Refinement.Basic

/-!
# Deletions

Rows go first, files afterwards and as far as they can be removed; what stays behind no row points
at.
-/

namespace BlobStore

open Codec FileTree Resumption Proc

variable {B : FsBackend} {w w' : World}

/-! ### Deletions -/

/-- A change of the tables that deletes the rows of blobs in `pk` and of blocks in `pb`. -/
structure Drops (pk : BlobKey → Prop) (pb : StagedBlockKey → Prop) [DecidablePred pk]
    [DecidablePred pb] (db db' : MetadataDb) : Prop where
  blob : ∀ k, db'.blobs.lookup k = if pk k then none else db.blobs.lookup k
  staged : ∀ b, db'.stagedBlocks.lookup b = if pb b then none else db.stagedBlocks.lookup b
  owned : Owned db → Owned db'

section Drops

variable {pk : BlobKey → Prop} {pb : StagedBlockKey → Prop} [DecidablePred pk] [DecidablePred pb]
  {db : MetadataDb}

lemma Drops.shelf (h : Drops pk pb w.db db) : B.shelf { w with db := db } =
    { db      := db
      content := fun k => if pk k then none else (B.shelf w).content k
      staged  := fun b => if pb b then none else (B.shelf w).staged b } := by
  ext1
  · rfl
  · funext k
    simp only [FsBackend.shelf, h.blob]
    split_ifs <;> rfl
  · funext b
    simp only [FsBackend.shelf, h.staged]
    split_ifs <;> rfl

lemma Drops.staged_isSome (h : Drops pk pb w.db db) {b : StagedBlockKey}
    (hb : (db.stagedBlocks.lookup b).isSome) : ¬ pb b ∧ (w.db.stagedBlocks.lookup b).isSome := by
  rw [h.staged] at hb
  split_ifs at hb with hpb
  · cases hb
  · exact ⟨hpb, hb⟩

lemma Drops.blob_isSome (h : Drops pk pb w.db db) {k : BlobKey}
    (hk : (db.blobs.lookup k).isSome) : ¬ pk k := by
  rw [h.blob] at hk
  split_ifs at hk with hpk
  · cases hk
  · exact hpk

lemma Drops.settled (h : Drops pk pb w.db db) (hw : Settled B w) :
    Settled B { w with db := db } where
  tidy := hw.tidy
  owned := h.owned hw.owned
  staged b hb := hw.staged b (h.staged_isSome hb).2

end Drops

lemma drops_deleteBlob (k : BlobKey) (db : MetadataDb) :
    Drops (· = k) (·.blob = k) db
      (((MetadataDb.deleteBlobRow k db).2.deleteCommittedBlocks k).deleteStagedBlocks k) where
  blob k' := by
    change (AList.erase k db.blobs).lookup k' = _
    split_ifs with hk
    · rw [hk]
      exact AList.lookup_erase k db.blobs
    · exact AList.lookup_erase_ne hk
  staged b := by
    refine (Table.lookup_deleteWhere _ db.stagedBlocks b).trans ?_
    simp only [decide_eq_true_eq]
  owned h :=
    { blob := fun k' hk' => h.blob k' (Table.isSome_lookup_erase.mp hk').2
      staged := fun b hb => h.staged b (Table.isSome_lookup_deleteWhere.mp hb).2
      committed := fun k' hk' => h.committed k' (Table.isSome_lookup_erase.mp hk').2 }

lemma drops_deleteContainer (c : ContainerKey) (db : MetadataDb) :
    Drops (·.containerKey = c) (·.blob.containerKey = c) db
      (MetadataDb.deleteContainer c db).2 where
  blob k := by
    refine (Table.lookup_deleteWhere _ db.blobs k).trans ?_
    simp only [decide_eq_true_eq]
  staged b := by
    refine (Table.lookup_deleteWhere _ db.stagedBlocks b).trans ?_
    simp only [decide_eq_true_eq]
  owned h := by
    refine ⟨fun k hk => ?_, fun b hb => ?_, fun k hk => ?_⟩
    · obtain ⟨hne, hk⟩ := Table.isSome_lookup_deleteWhere.mp hk
      exact Table.isSome_lookup_erase.mpr ⟨by simpa using hne, h.blob k hk⟩
    · obtain ⟨hne, hb⟩ := Table.isSome_lookup_deleteWhere.mp hb
      exact Table.isSome_lookup_erase.mpr ⟨by simpa using hne, h.staged b hb⟩
    · obtain ⟨hne, hk⟩ := Table.isSome_lookup_deleteWhere.mp hk
      exact Table.isSome_lookup_erase.mpr ⟨by simpa using hne, h.committed k hk⟩

lemma lookup_of_blob {k : BlobKey} {db : MetadataDb} {row : BlobRow}
    (h : Shelf.blob k db = .ok row) : db.blobs.lookup k = some row := by
  unfold Shelf.blob MetadataDb.getBlob at h
  cases hk : db.blobs.lookup k with
  | none => simp [hk] at h
  | some r =>
    rw [hk] at h
    cases h
    rfl

/-- The best-effort removal of the file of a blob. -/
lemma run_removeFile (hw : Settled B w) (amb : Ambient) (k : BlobKey) :
    ∃ w', run Action.exec (FsIo.removeFileIfExists amb (B.blobFile k)).ignore w =
        ((.ok () : Except AzureError Unit), w') ∧
      Removed B.root (· = B.blobFile k) w w' := by
  obtain ⟨rel, hrel, hpath⟩ := filePos_blobFile (B := B) k
  have h := run_removeFileIfExists hw.tidy hrel amb
  rw [← hpath] at h
  refine ⟨_, run_ignore _ _ _, h.1, fun q => ?_, h.2.2⟩
  rw [h.2.1]
  split_ifs with hq
  · exact .inr ⟨rfl, hq.1⟩
  · exact .inl rfl

lemma deleteBlob_refines (hw : Sound B w) (amb : Ambient) {a c : String}
    (hord : (ContainerKey.mk a c).Ordinary) (b : String) :
    Refines B (B.deleteBlob amb a c b) (Shelf.deleteBlob amb ⟨a, c, b⟩) w := by
  have hdb : (B.shelf w).db = w.db := rfl
  unfold FsBackend.deleteBlob
  cases hb : Shelf.blob ⟨a, c, b⟩ w.db with
  | error e =>
    refine .of_run (run_bind_error _ ((run_requireBlob a c b w).trans (by rw [hb])) _) ?_
      hw.toSettled
    simp only [Shelf.deleteBlob, hdb, hb]
  | ok row =>
    have hb' : run Action.exec (requireBlob a c b) w = (.ok row, w) := by
      rw [run_requireBlob, hb]
    cases hfault : amb.dbFault with
    | some message =>
      refine .of_run (v := w) (r := .error (sqlError (.other message))) ?_ ?_ hw.toSettled
      · rw [run_bind_ok _ hb', run_perform_bind]
        rfl
      · simp only [Shelf.deleteBlob, hdb, hb, hfault, MetadataDb.guarded]
    | none =>
      have hpath : B.stored row.storagePath = B.blobFile ⟨a, c, b⟩ :=
        hw.located.stored_blob (k := ⟨a, c, b⟩) hord (lookup_of_blob hb)
      have hdrops := drops_deleteBlob ⟨a, c, b⟩ w.db
      obtain ⟨w₁, hrun, hrem⟩ := run_removeFile (hdrops.settled hw.toSettled) amb ⟨a, c, b⟩
      have hstaged : ∀ b', ((((MetadataDb.deleteBlobRow ⟨a, c, b⟩ w.db).2.deleteCommittedBlocks
          ⟨a, c, b⟩).deleteStagedBlocks ⟨a, c, b⟩).stagedBlocks.lookup b').isSome →
          B.stagedFile b' ≠ B.blobFile ⟨a, c, b⟩ :=
        fun b' _ => (B.blobFile_ne_stagedFile _ _).symm
      refine .of_run (v := w₁) (r := .ok ()) ?_ ?_
        (hrem.settled (hdrops.settled hw.toSettled) hstaged)
      · rw [run_bind_ok _ hb', run_perform_bind, hpath]
        exact hrun
      · rw [hrem.shelf (fun k' hk' h => hdrops.blob_isSome hk' (B.blobFile_injective h)) hstaged,
          hdrops.shelf]
        simp only [Shelf.deleteBlob, hdb, hb, hfault, MetadataDb.guarded]
        rfl

lemma deleteContainer_refines (hw : Sound B w) (amb : Ambient) {a c : String}
    (hord : (ContainerKey.mk a c).Ordinary) :
    Refines B (B.deleteContainer amb a c) (Shelf.deleteContainer amb ⟨a, c⟩) w := by
  have hdb : (B.shelf w).db = w.db := rfl
  unfold FsBackend.deleteContainer
  cases hc : Shelf.container ⟨a, c⟩ w.db with
  | error e =>
    refine .of_run (run_bind_error _ ((run_requireContainer a c w).trans (by rw [hc])) _) ?_
      hw.toSettled
    simp only [Shelf.deleteContainer, hdb, hc]
  | ok row =>
    have hc' : run Action.exec (requireContainer a c) w = (.ok row, w) := by
      rw [run_requireContainer, hc]
    cases hfault : amb.dbFault with
    | some message =>
      refine .of_run (v := w) (r := .error (sqlError (.other message))) ?_ ?_ hw.toSettled
      · rw [run_bind_ok _ hc', run_perform_bind]
        rfl
      · simp only [Shelf.deleteContainer, hdb, hc, hfault, MetadataDb.guarded]
    | none =>
      have hdrops := drops_deleteContainer ⟨a, c⟩ w.db
      have hsettled := hdrops.settled hw.toSettled
      set paths := (w.db.blobs.selectWhere fun k => k.containerKey = ⟨a, c⟩).map
        fun e => e.2.storagePath with hpaths
      -- the files removed one by one lie in the directory that is removed afterwards
      have hmem : ∀ p ∈ paths.map B.stored, B.containerDir ⟨a, c⟩ <+: p ∧
          ∃ rel, FilePos rel ∧ p = B.root ++ rel := by
        intro p hp
        rw [hpaths, List.map_map, List.mem_map] at hp
        obtain ⟨⟨k, r⟩, hmem, rfl⟩ := hp
        obtain ⟨hk, hrow⟩ := Table.mem_selectWhere.mp hmem
        have hk' : k.containerKey = ⟨a, c⟩ := by simpa using hk
        have hfile : B.stored r.storagePath = B.blobFile k :=
          hw.located.stored_blob (hk' ▸ hord) hrow
        dsimp only [Function.comp]
        rw [hfile]
        exact ⟨B.containerDir_blobFile.mpr hk', filePos_blobFile k⟩
      obtain ⟨w₁, hrun₁, hrem₁⟩ := run_removeAll hsettled.tidy amb _ hmem
      have hrem := hrem₁.trans (exec_removeDirAll hrem₁.tidy amb.removeFails
        (B.containerDir ⟨a, c⟩))
      have hstaged : ∀ b, ((MetadataDb.deleteContainer ⟨a, c⟩ w.db).2.stagedBlocks.lookup
          b).isSome → ¬ B.containerDir ⟨a, c⟩ <+: B.stagedFile b :=
        fun b hb h => (hdrops.staged_isSome hb).1 (B.containerDir_stagedFile.mp h)
      refine .of_run (r := .ok ()) ?_ ?_ (hrem.settled hsettled hstaged)
      · rw [run_bind_ok _ hc', run_perform_bind]
        refine (run_bind_ok _ hrun₁ _).trans ?_
        rw [B.resolve_containerRoot hord.account hord.container, run_perform_bind]
        rfl
      · rw [hrem.shelf (fun k hk h => hdrops.blob_isSome hk (B.containerDir_blobFile.mp h)) hstaged,
          hdrops.shelf]
        simp only [Shelf.deleteContainer, hdb, hc, hfault, MetadataDb.guarded]
        rfl

end BlobStore
