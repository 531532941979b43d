import BlobStore.Storage.Refinement.Write

/-!
# `put_block_list`

The references are looked up, the files behind them concatenated, and the commit deletes all
staged rows of the blob before their files are cleaned up.
-/

namespace BlobStore

open Codec FileTree Resumption Proc

variable {B : FsBackend} {w w' : World}

/-! ### `put_block_list` -/

section BlockList

variable {k : BlobKey}

lemma resolveRef_of_some (hl : Located B w.db) (hk : k.containerKey.Ordinary) {ref : BlockRef}
    {cb : CommittedBlock} (h : Shelf.resolveRef k w.db ref = some cb) :
    B.resolveRef (w.db.getCommittedBlocks k) (w.db.getStagedBlock ⟨k, ref.blockId⟩) ref =
      .ok (cb.size, some (B.stagedFile ⟨k, ref.blockId⟩)) ∧ cb.blockId = ref.blockId ∧
      (w.db.stagedBlocks.lookup ⟨k, ref.blockId⟩).isSome := by
  obtain ⟨id, kind⟩ := ref
  unfold Shelf.resolveRef at h
  cases hs : w.db.getStagedBlock ⟨k, id⟩ with
  | none => simp [hs] at h
  | some r =>
    have hpath : B.stored r.storagePath = B.stagedFile ⟨k, id⟩ :=
      hl.stored_staged (s := ⟨k, id⟩) hk hs
    have hsome : (w.db.stagedBlocks.lookup ⟨k, id⟩).isSome := by
      rw [show w.db.stagedBlocks.lookup ⟨k, id⟩ = some r from hs]
      rfl
    simp only [hs, Option.bind_some] at h
    cases kind with
    | committed =>
      obtain ⟨size, hsize, rfl⟩ := Option.map_eq_some_iff.mp h
      exact ⟨by simp [FsBackend.resolveRef, hsize, hpath], rfl, hsome⟩
    | uncommitted =>
      cases h
      exact ⟨by simp [FsBackend.resolveRef, hpath], rfl, hsome⟩
    | latest =>
      cases h
      exact ⟨by simp [FsBackend.resolveRef, hpath], rfl, hsome⟩

lemma resolveRef_of_none {ref : BlockRef} (h : Shelf.resolveRef k w.db ref = none) :
    B.resolveRef (w.db.getCommittedBlocks k) (w.db.getStagedBlock ⟨k, ref.blockId⟩) ref =
        .error (.new .invalidBlockList) ∨
      ∃ size, B.resolveRef (w.db.getCommittedBlocks k)
        (w.db.getStagedBlock ⟨k, ref.blockId⟩) ref = .ok (size, none) := by
  obtain ⟨id, kind⟩ := ref
  unfold Shelf.resolveRef at h
  unfold FsBackend.resolveRef
  cases hs : w.db.getStagedBlock ⟨k, id⟩ <;>
    cases hsize : FsBackend.committedSize (w.db.getCommittedBlocks k) id <;>
      cases kind <;> simp_all

/-- The references, looked up one by one. -/
lemma run_resolveRefs (hl : Located B w.db) (hk : k.containerKey.Ordinary)
    (refs : List BlockRef) :
    match refs.mapM (Shelf.resolveRef k w.db) with
    | some resolved =>
      run Action.exec (B.resolveRefs k (w.db.getCommittedBlocks k) refs) w =
        (.ok (resolved.map fun cb => (cb, some (B.stagedFile ⟨k, cb.blockId⟩))), w) ∧
      resolved.map CommittedBlock.blockId = refs.map BlockRef.blockId ∧
      ∀ ref ∈ refs, (w.db.stagedBlocks.lookup ⟨k, ref.blockId⟩).isSome
    | none =>
      run Action.exec (B.resolveRefs k (w.db.getCommittedBlocks k) refs) w =
        (.error (.new .invalidBlockList), w) ∨
      ∃ xs, run Action.exec (B.resolveRefs k (w.db.getCommittedBlocks k) refs) w = (.ok xs, w) ∧
        xs.mapM Prod.snd = none := by
  induction refs with
  | nil => exact ⟨rfl, rfl, by simp⟩
  | cons ref refs ih =>
    -- an answer of the rest, with the first reference in front
    have hcons : ∀ {p xs}, B.resolveRef (w.db.getCommittedBlocks k)
        (w.db.getStagedBlock ⟨k, ref.blockId⟩) ref = .ok p →
        run Action.exec (B.resolveRefs k (w.db.getCommittedBlocks k) refs) w = (xs, w) →
        run Action.exec (B.resolveRefs k (w.db.getCommittedBlocks k) (ref :: refs)) w =
          (xs.map ((⟨ref.blockId, p.1⟩, p.2) :: ·), w) := by
      intro p xs hp hxs
      rw [FsBackend.resolveRefs, run_perform_bind]
      simp only [Action.exec, hp, ofExcept_ok_bind]
      exact run_bind_pure _ hxs _
    have herror : B.resolveRef (w.db.getCommittedBlocks k)
        (w.db.getStagedBlock ⟨k, ref.blockId⟩) ref = .error (.new .invalidBlockList) →
        run Action.exec (B.resolveRefs k (w.db.getCommittedBlocks k) (ref :: refs)) w =
          (.error (.new .invalidBlockList), w) := by
      intro hp
      rw [FsBackend.resolveRefs, run_perform_bind]
      simp only [Action.exec, hp, ofExcept_error_bind, run_fail]
    rw [List.mapM_cons]
    cases href : Shelf.resolveRef k w.db ref with
    | none =>
      rcases resolveRef_of_none (B := B) href with hp | ⟨size, hp⟩
      · exact .inl (herror hp)
      · cases hrest : refs.mapM (Shelf.resolveRef k w.db) with
        | some resolved =>
          simp only [hrest] at ih
          exact .inr ⟨_, hcons hp ih.1, rfl⟩
        | none =>
          simp only [hrest] at ih
          rcases ih with h | ⟨xs, h, -⟩
          · exact .inl (hcons hp h)
          · exact .inr ⟨_, hcons hp h, rfl⟩
    | some cb =>
      obtain ⟨hp, hid, hsome⟩ := resolveRef_of_some hl hk href
      cases hrest : refs.mapM (Shelf.resolveRef k w.db) with
      | some resolved =>
        simp only [hrest] at ih
        obtain ⟨h, hids, hall⟩ := ih
        refine ⟨?_, ?_, ?_⟩
        · rw [hcons hp h]
          simp [Except.map, ← hid]
        · simp [hid, hids]
        · intro r hr
          rcases List.mem_cons.mp hr with rfl | hr
          · exact hsome
          · exact hall r hr
      | none =>
        simp only [hrest] at ih
        rcases ih with h | ⟨xs, h, hnone⟩
        · exact .inl (hcons hp h)
        · refine .inr ⟨_, hcons hp h, ?_⟩
          simp [hnone]

lemma mapM_snd_map {α β : Type} (f : α → β) (xs : List α) :
    (xs.map fun x => (x, some (f x))).mapM Prod.snd = some (xs.map f) := by
  induction xs with
  | nil => rfl
  | cons x xs ih => simp [ih]

/-- The parts of a block list are the files behind its references. -/
lemma parts_of_staged (hw : Settled B w) (amb : Ambient) {refs : List BlockRef}
    (hrefs : ∀ ref ∈ refs, (w.db.stagedBlocks.lookup ⟨k, ref.blockId⟩).isSome) :
    List.Forall₂ (fun p b => p ≠ B.tmpFile k.account amb ∧ w.fs.file? p = some b)
      (refs.map fun ref => B.stagedFile ⟨k, ref.blockId⟩)
      (refs.map fun ref => ((B.shelf w).staged ⟨k, ref.blockId⟩).getD []) := by
  rw [List.forall₂_map_left_iff, List.forall₂_map_right_iff]
  refine List.forall₂_same.mpr fun ref href => ⟨(B.tmpFile_ne_stagedFile _ _ _).symm, ?_⟩
  obtain ⟨r, hr⟩ := Option.isSome_iff_exists.mp (hrefs ref href)
  obtain ⟨bytes, hbytes⟩ := Option.isSome_iff_exists.mp (hw.staged _ (hrefs ref href))
  simp [FsBackend.shelf, hr, hbytes]

end BlockList

/-- The clean-up of `put_block_list`: after the commit no row points at the parts. -/
lemma run_removeParts {k : BlobKey} (hw : Settled B w) (amb : Ambient) (refs : List BlockRef)
    (hnone : ∀ b, b.blob = k → w.db.stagedBlocks.lookup b = none) :
    ∃ w', run Action.exec (FsBackend.removeAll amb
        (refs.map fun ref => B.stagedFile ⟨k, ref.blockId⟩)) w = (.ok (), w') ∧
      B.shelf w' = B.shelf w ∧ Settled B w' := by
  have hpaths : ∀ p ∈ refs.map fun ref => B.stagedFile ⟨k, ref.blockId⟩,
      (∃ id, p = B.stagedFile ⟨k, id⟩) ∧ ∃ rel, FilePos rel ∧ p = B.root ++ rel := by
    intro p hp
    obtain ⟨ref, -, rfl⟩ := List.mem_map.mp hp
    exact ⟨⟨_, rfl⟩, filePos_stagedFile _⟩
  obtain ⟨w', hrun, h⟩ := run_removeAll hw.tidy amb _ hpaths
  have hstaged : ∀ b, (w.db.stagedBlocks.lookup b).isSome →
      ¬ ∃ id, B.stagedFile b = B.stagedFile ⟨k, id⟩ := by
    rintro b hb ⟨id, hid⟩
    rw [hnone b (by rw [B.stagedFile_injective hid])] at hb
    cases hb
  refine ⟨w', hrun, h.shelf (fun k' _ => ?_) hstaged, h.settled hw hstaged⟩
  rintro ⟨id, hid⟩
  exact B.blobFile_ne_stagedFile _ _ hid

/-- A commit that succeeded has deleted the staged rows of the blob. -/
lemma staged_of_commit {amb : Ambient} {k : BlobKey} {bytes : Bytes}
    {resolved : List CommittedBlock} {u : BlobUpsert} {props : BlobProps} {s : Shelf}
    (h : Shelf.record amb k bytes (MetadataDb.commitBlockList k resolved u) s =
      (.ok props, B.shelf w)) (b : StagedBlockKey) (hb : b.blob = k) :
    w.db.stagedBlocks.lookup b = none := by
  have hdb : (Shelf.record amb k bytes (MetadataDb.commitBlockList k resolved u) s).2.db = w.db :=
    congrArg (fun x => x.2.db) h
  have hans := congrArg Prod.fst h
  unfold Shelf.record at hdb hans
  cases hfault : amb.dbFault with
  | some message =>
    rw [hfault] at hans
    cases hans
  | none =>
    rw [hfault, MetadataDb.guarded] at hdb hans
    unfold MetadataDb.commitBlockList at hdb hans
    rcases hup : MetadataDb.upsertBlob k u s.db with ⟨e | _, db⟩
    · rw [hup] at hans
      cases hans
    · rw [hup] at hdb
      dsimp only at hdb
      rw [← hdb]
      exact Table.lookup_deleteWhere_of_pos (by simp [hb]) _

lemma putBlockList_refines (hw : Sound B w) (amb : Ambient) {a c : String}
    (hord : (ContainerKey.mk a c).Ordinary) (b : String) (refs : List BlockRef)
    (ct : Option String) (m : Metadata) :
    Refines B (B.putBlockList amb a c b refs ct m)
      (Shelf.putBlockList B amb ⟨a, c, b⟩ refs ct m) w := by
  have hdb : (B.shelf w).db = w.db := rfl
  have hpath : UnixPath.resolve (B.blobPaths a c b).1 = B.blobFile ⟨a, c, b⟩ :=
    B.resolve_blobPaths hord.account hord.container
  unfold FsBackend.putBlockList
  cases hc : Shelf.container ⟨a, c⟩ w.db with
  | error e =>
    refine .of_run (run_bind_error _ ((run_requireContainer a c w).trans (by rw [hc])) _) ?_
      hw.toSettled
    simp only [Shelf.putBlockList, hdb, BlobKey.containerKey_mk, hc]
  | ok row =>
    have hc' : run Action.exec (requireContainer a c) w = (.ok row, w) := by
      rw [run_requireContainer, hc]
    have hresolve := run_resolveRefs (k := ⟨a, c, b⟩) hw.located hord refs
    cases hrefs : refs.mapM (Shelf.resolveRef ⟨a, c, b⟩ w.db) with
    | none =>
      simp only [hrefs] at hresolve
      refine .of_run (r := .error (.new .invalidBlockList)) (v := w) ?_ ?_ hw.toSettled
      · rw [run_bind_ok _ hc', run_perform_bind]
        rcases hresolve with h | ⟨xs, h, hnone⟩
        · exact run_bind_error _ h _
        · refine (run_bind_ok _ h _).trans ?_
          simp only [hnone, ofExcept_error_bind, run_fail]
      · simp only [Shelf.putBlockList, hdb, BlobKey.containerKey_mk, hc, hrefs]
    | some resolved =>
      simp only [hrefs] at hresolve
      obtain ⟨hrun, hids, hsome⟩ := hresolve
      have hparts : (resolved.map fun cb => B.stagedFile ⟨⟨a, c, b⟩, cb.blockId⟩) =
          refs.map fun ref => B.stagedFile ⟨⟨a, c, b⟩, ref.blockId⟩ := by
        have h := congrArg (List.map fun id => B.stagedFile ⟨⟨a, c, b⟩, id⟩) hids
        rw [List.map_map, List.map_map] at h
        exact h
      obtain ⟨w₁, hwrite, hrep⟩ := run_concatenateFiles hw.toSettled amb hord.account hpath
        (filePos_blobFile _) (parts_of_staged hw.toSettled amb hsome)
      have hfile : w₁.fs.file? (B.blobFile ⟨a, c, b⟩) =
          some ((B.shelf w).assemble ⟨a, c, b⟩ refs) := by
        rw [hrep.file _ (B.tmpFile_ne_blobFile a amb _).symm, if_pos rfl]
        rfl
      set bytes := (B.shelf w).assemble ⟨a, c, b⟩ refs with hbytes
      set u := Shelf.upsertFor B amb ⟨a, c, b⟩ bytes ct (some ((Shelf.digest B bytes).getD "")) m
        with hu
      obtain ⟨r, w₂, hrun₂, hop, hsettled₂⟩ := run_record amb
        (hw.toSettled.of_replaced_blob hrep) hrep.db hfile (shelf_of_replaced_blob hrep) hc
        (p := perform (Action.commitBlockList amb.dbFault ⟨a, c, b⟩ resolved u)) rfl
        (MetadataDb.atomic_commitBlockList _ _ _)
        (records_commitBlockList (k := ⟨a, c, b⟩) (isSome_of_container hc) resolved u)
      have hopen : run Action.exec (B.putBlockList amb a c b refs ct m) w =
          run Action.exec (do
            let row ← FsBackend.commitBlockList amb a c b resolved (B.blobPaths a c b).2
              bytes.length ((Shelf.digest B bytes).getD "") ct m
            FsBackend.removeAll amb (refs.map fun ref => B.stagedFile ⟨⟨a, c, b⟩, ref.blockId⟩)
            pure (blobRowToProps row)) w₁ := by
        unfold FsBackend.putBlockList
        rw [run_bind_ok _ hc', run_perform_bind]
        refine (run_bind_ok _ hrun _).trans ?_
        simp only [mapM_snd_map, ofExcept_ok_bind, List.map_map, hparts]
        refine (run_bind_ok _ hwrite _).trans ?_
        simp only [Function.comp_def, List.map_id']
        rfl
      have hop' : Shelf.putBlockList B amb ⟨a, c, b⟩ refs ct m (B.shelf w) =
          (r.map blobRowToProps, B.shelf w₂) := by
        simp only [Shelf.putBlockList, hdb, BlobKey.containerKey_mk, hc, hrefs]
        exact hop
      cases r with
      | error e => exact .of_run (hopen.trans (run_bind_error _ hrun₂ _)) hop' hsettled₂
      | ok row' =>
        have hnone := staged_of_commit hop
        obtain ⟨w₃, hrun₃, hshelf₃, hsettled₃⟩ := run_removeParts hsettled₂ amb refs hnone
        refine .of_run (hopen.trans ?_) (hop'.trans (by rw [hshelf₃])) hsettled₃
        exact (run_bind_ok _ hrun₂ _).trans (run_bind_ok _ hrun₃ _)

end BlobStore
