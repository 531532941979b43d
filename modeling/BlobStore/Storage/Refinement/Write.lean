import BlobStore.Storage.Refinement.Basic

/-!
# Calls that write bytes

`put_blob` and `put_block`: the bytes go to a temporary file, the file is moved into place, and a
statement records it. Between the last two steps the shelf already has the new bytes behind the
old row.
-/

namespace BlobStore

open Codec FileTree UnixPath Resumption Proc

variable {B : FsBackend} {w w' : World}

/-! ### Calls that write bytes -/

section Write

variable {a finalPath : String} {dst : Path}

lemma resolve_tmpDir_eq_dropLast (ha : IsComponent a) (amb : Ambient) :
    UnixPath.resolve (B.tmpDir a) = (B.tmpFile a amb).dropLast := by
  rw [B.resolve_tmpDir ha]
  simp [FsBackend.tmpFile]

/-- Writing a body, before any row is touched. -/
lemma run_writeFile (hw : Settled B w) (amb : Ambient) (ha : IsComponent a)
    (hfinal : UnixPath.resolve finalPath = dst)
    (hdst : ∃ rel, FilePos rel ∧ dst = B.root ++ rel) (body : ByteStream) :
    ∃ w', match body.collect with
      | .ok bytes =>
        run Action.exec ((FsIo.writeStreamAtomic B.md5 amb (B.tmpDir a) finalPath body).mapErr
          ioError) w = (.ok (bytes.length, hexEncode (B.md5 bytes)), w') ∧
        Replaced B.root (B.tmpFile a amb) dst bytes w w'
      | .error e =>
        run Action.exec ((FsIo.writeStreamAtomic B.md5 amb (B.tmpDir a) finalPath body).mapErr
          ioError) w = (.error (ioError e.1), w') ∧
        Scratch B.root (B.tmpFile a amb) w w' := by
  obtain ⟨rel, hrel, htmp⟩ := filePos_tmpFile (B := B) a amb
  obtain ⟨rel', hrel', rfl⟩ := hdst
  have hdir := resolve_tmpDir_eq_dropLast (B := B) ha amb
  rw [htmp] at hdir
  obtain ⟨w', h⟩ := run_writeStreamAtomic hw.tidy hrel hrel'
    ((B.uniqueTmpPath_tmpDir ha amb).trans htmp) hdir hfinal B.md5 body
  refine ⟨w', ?_⟩
  rw [run_mapErr, htmp]
  cases hbody : body.collect with
  | ok bytes =>
    simp only [hbody] at h ⊢
    rw [h.1]
    exact ⟨rfl, h.2⟩
  | error e =>
    simp only [hbody] at h ⊢
    rw [h.1]
    exact ⟨rfl, h.2⟩

/-- Writing the parts of a block list, before any row is touched. -/
lemma run_concatenateFiles (hw : Settled B w) (amb : Ambient) (ha : IsComponent a)
    (hfinal : UnixPath.resolve finalPath = dst)
    (hdst : ∃ rel, FilePos rel ∧ dst = B.root ++ rel) {parts : List Path} {contents : List Bytes}
    (hparts : List.Forall₂ (fun p b => p ≠ B.tmpFile a amb ∧ w.fs.file? p = some b)
      parts contents) :
    ∃ w', run Action.exec ((FsIo.concatenateFilesAtomic B.md5 amb (B.tmpDir a) finalPath
        parts).mapErr ioError) w =
        (.ok (contents.flatten.length, hexEncode (B.md5 contents.flatten)), w') ∧
      Replaced B.root (B.tmpFile a amb) dst contents.flatten w w' := by
  obtain ⟨rel, hrel, htmp⟩ := filePos_tmpFile (B := B) a amb
  obtain ⟨rel', hrel', rfl⟩ := hdst
  have hdir := resolve_tmpDir_eq_dropLast (B := B) ha amb
  rw [htmp] at hdir hparts
  obtain ⟨w', hrun, h⟩ := run_concatenateFilesAtomic hw.tidy hrel hrel'
    ((B.uniqueTmpPath_tmpDir ha amb).trans htmp) hdir hfinal B.md5 hparts
  refine ⟨w', ?_, htmp ▸ h⟩
  rw [run_mapErr, hrun]

end Write

/-! ### Recording a blob -/

/-- A statement that puts a row under `k` and may delete rows of blocks. -/
structure Records (k : BlobKey) (db db' : MetadataDb) : Prop where
  blob : ∀ k', (db'.blobs.lookup k').isSome = true ↔ k' = k ∨ (db.blobs.lookup k').isSome = true
  staged : ∀ b, (db'.stagedBlocks.lookup b).isSome → (db.stagedBlocks.lookup b).isSome
  owned : Owned db → Owned db'

lemma Owned.insert_blob {db : MetadataDb} (h : Owned db) {k : BlobKey}
    (hc : (db.containers.lookup k.containerKey).isSome) (row : BlobRow) :
    Owned { db with blobs := db.blobs.insert k row } where
  blob k' hk' := by
    rcases (Table.isSome_lookup_insert k k' row db.blobs).mp hk' with rfl | hk'
    · exact hc
    · exact h.blob k' hk'
  staged := h.staged
  committed := h.committed

lemma records_upsertBlob {k : BlobKey} {db : MetadataDb}
    (hc : (db.containers.lookup k.containerKey).isSome) (u : BlobUpsert) :
    Records k db (MetadataDb.upsertBlob k u db).2 := by
  rw [MetadataDb.upsertBlob_of_container hc]
  exact ⟨fun k' => Table.isSome_lookup_insert k k' _ _, fun _ hb => hb, fun hdb => hdb.insert_blob hc _⟩

lemma records_commitBlockList {k : BlobKey} {db : MetadataDb}
    (hc : (db.containers.lookup k.containerKey).isSome) (resolved : List CommittedBlock)
    (u : BlobUpsert) : Records k db (MetadataDb.commitBlockList k resolved u db).2 := by
  rw [MetadataDb.commitBlockList_of_container hc]
  refine ⟨fun k' => Table.isSome_lookup_insert k k' _ _, fun _ hb => (Table.isSome_lookup_deleteWhere.mp hb).2,
    fun hdb => ⟨(hdb.insert_blob hc _).blob,
      fun b hb => hdb.staged b ((Table.isSome_lookup_deleteWhere.mp hb).2), fun k' hk' => ?_⟩⟩
  rcases (Table.isSome_lookup_insert k k' resolved db.committedBlocks).mp hk' with rfl | hk'
  · exact hc
  · exact hdb.committed k' hk'

/-- A world whose file for `k` is new and whose rows are about to follow. -/
lemma Records.shelf {k : BlobKey} {bytes : Bytes} {db : MetadataDb} (h : Records k w.db db)
    (hdb : w'.db = w.db) (hfile : w'.fs.file? (B.blobFile k) = some bytes)
    (hshelf : B.shelf w' = (B.shelf w).overwrite k (some bytes)) :
    B.shelf { w' with db := db } =
      { db      := db
        content := Function.update (B.shelf w).content k (some bytes)
        staged  := fun b =>
          if (db.stagedBlocks.lookup b).isSome then (B.shelf w).staged b else none } := by
  ext1
  · rfl
  · funext k'
    by_cases hk : k' = k
    · subst hk
      obtain ⟨row, hrow⟩ := Option.isSome_iff_exists.mp ((h.blob k').mpr (.inl rfl))
      simp [FsBackend.shelf, hrow, hfile]
    · have hsame : (db.blobs.lookup k').isSome = (w'.db.blobs.lookup k').isSome := by
        rw [hdb, Bool.eq_iff_iff, h.blob]
        simp [hk]
      dsimp only
      rw [Function.update_of_ne hk]
      calc (B.shelf { w' with db := db }).content k'
          = (B.shelf w').content k' := bind_const_congr hsame _
        _ = ((B.shelf w).overwrite k (some bytes)).content k' := by rw [hshelf]
        _ = (B.shelf w).content k' := if_neg hk
  · funext b
    dsimp only
    split_ifs with hb
    · have hsame : (db.stagedBlocks.lookup b).isSome = (w'.db.stagedBlocks.lookup b).isSome := by
        rw [hdb, hb, h.staged b hb]
      calc (B.shelf { w' with db := db }).staged b
          = (B.shelf w').staged b := bind_const_congr hsame _
        _ = (B.shelf w).staged b := by rw [hshelf]; rfl
    · rw [Option.not_isSome_iff_eq_none] at hb
      simp [FsBackend.shelf, hb]

lemma Records.settled {k : BlobKey} {db : MetadataDb} (h : Records k w.db db)
    (hw : Settled B w) : Settled B { w with db := db } where
  tidy := hw.tidy
  owned := h.owned hw.owned
  staged b hb := hw.staged b (h.staged b hb)

lemma isSome_of_container {c : ContainerKey} {db : MetadataDb} {row : ContainerRow}
    (h : Shelf.container c db = .ok row) : (db.containers.lookup c).isSome := by
  unfold Shelf.container MetadataDb.getContainer at h
  cases hc : db.containers.lookup c with
  | none => simp [hc] at h
  | some r => rfl

lemma exists_container {c : ContainerKey} {db : MetadataDb} :
    (∃ row, Shelf.container c db = .ok row) ↔ (db.containers.lookup c).isSome = true := by
  unfold Shelf.container MetadataDb.getContainer
  cases db.containers.lookup c <;> simp

/-- The last step of both writers: check the container again, record the bytes, read the row. -/
lemma run_record (amb : Ambient) {a c b : String} {bytes : Bytes} {row : ContainerRow}
    {p : Store (Except SqlError Unit)} {stmt : MetadataDb → Except SqlError Unit × MetadataDb}
    (hw' : Settled B w') (hdb : w'.db = w.db)
    (hfile : w'.fs.file? (B.blobFile ⟨a, c, b⟩) = some bytes)
    (hshelf : B.shelf w' = (B.shelf w).overwrite ⟨a, c, b⟩ (some bytes))
    (hc : Shelf.container ⟨a, c⟩ w.db = .ok row)
    (hp : run Action.exec p w' = (.ok (MetadataDb.guarded amb.dbFault stmt w'.db).1,
      { w' with db := (MetadataDb.guarded amb.dbFault stmt w'.db).2 }))
    (hatomic : MetadataDb.Atomic stmt) (hrec : Records ⟨a, c, b⟩ w.db (stmt w.db).2) :
    ∃ r w'', run Action.exec (do
        let _ ← requireContainer a c
        let res ← p
        orInternal res
        requireBlob a c b) w' = (r, w'') ∧
      Shelf.record amb ⟨a, c, b⟩ bytes stmt (B.shelf w) =
        (r.map blobRowToProps, B.shelf w'') ∧ Settled B w'' := by
  have hc' : run Action.exec (requireContainer a c) w' = (.ok row, w') := by
    rw [run_requireContainer, hdb, hc]
  have hguard := hatomic.guarded amb.dbFault
  have hsdb : (B.shelf w).db = w.db := rfl
  rw [hdb] at hp
  rcases hg : MetadataDb.guarded amb.dbFault stmt w.db with ⟨e | _, db⟩
  · obtain rfl := hguard _ _ _ hg
    refine ⟨.error (sqlError e), w', ?_, ?_, hw'⟩
    · rw [run_bind_ok _ hc', run_bind_ok _ hp, hg, ← hdb]
      rfl
    · rw [Shelf.record, hsdb, hg, hshelf]
      rfl
  · -- without a fault the statement itself has run
    have hdb' : (stmt w.db).2 = db := by
      cases hfault : amb.dbFault with
      | some message =>
        rw [hfault] at hg
        cases hg
      | none =>
        rw [hfault, MetadataDb.guarded] at hg
        rw [hg]
    rw [hdb'] at hrec
    refine ⟨Shelf.blob ⟨a, c, b⟩ db, { w' with db := db }, ?_, ?_, ?_⟩
    · rw [run_bind_ok _ hc', run_bind_ok _ hp, hg]
      exact run_requireBlob a c b _
    · rw [Shelf.record, hsdb, hg, hrec.shelf hdb hfile hshelf]
    · rw [← hdb] at hrec
      exact hrec.settled hw'

/-! ### `put_blob` -/

/-- After a mismatch the file in place, the new one, is removed or stays. -/
lemma run_withdraw (hw' : Settled B w') (amb : Ambient) {k : BlobKey} {bytes : Bytes}
    (hdb : w'.db = w.db) (hfile : w'.fs.file? (B.blobFile k) = some bytes)
    (hshelf : B.shelf w' = (B.shelf w).overwrite k (some bytes)) :
    ∃ w'', run Action.exec (FsIo.removeFileIfExists amb (B.blobFile k)).ignore w' =
        ((.ok () : Except AzureError Unit), w'') ∧
      B.shelf w'' = (B.shelf w).overwrite k
        (if amb.removeFails (B.blobFile k) then some bytes else none) ∧ Settled B w'' := by
  obtain ⟨rel, hrel, hpath⟩ := filePos_blobFile (B := B) k
  have h := run_removeFileIfExists hw'.tidy hrel amb
  rw [← hpath] at h
  refine ⟨_, run_ignore _ _ _, ?_, h.2.2, h.1 ▸ hw'.owned, fun b hb => ?_⟩
  · ext1
    · exact h.1.trans hdb
    · funext k'
      by_cases hk : k' = k
      · subst hk
        simp only [FsBackend.shelf, Shelf.overwrite, h.1, h.2.1, hdb, hfile]
        cases amb.removeFails (B.blobFile k') <;> simp
      · have hne : B.blobFile k' ≠ B.blobFile k := fun h' => hk (B.blobFile_injective h')
        have hk' := congrFun (congrArg Shelf.content hshelf) k'
        simp only [FsBackend.shelf, Shelf.overwrite, if_neg hk] at hk' ⊢
        rw [h.1, h.2.1, if_neg fun h' => hne h'.1, hk']
    · funext b
      have hne : B.stagedFile b ≠ B.blobFile k := (B.blobFile_ne_stagedFile k b).symm
      have hb := congrFun (congrArg Shelf.staged hshelf) b
      simp only [FsBackend.shelf, Shelf.overwrite] at hb ⊢
      rw [h.1, h.2.1, if_neg fun h' => hne h'.1, hb]
  · rw [h.2.1, if_neg fun h' => (B.blobFile_ne_stagedFile k b).symm h'.1]
    exact hw'.staged b (h.1 ▸ hb)

lemma putBlob_refines (hw : Settled B w) (amb : Ambient) {a c : String}
    (ha : IsComponent a) (hname : IsComponent c) (b : String) (body : ByteStream)
    (ct h : Option String) (m : Metadata) :
    Refines B (B.putBlob amb a c b body ct h m)
      (Shelf.putBlob B amb ⟨a, c, b⟩ body ct h m) w := by
  have hdb : (B.shelf w).db = w.db := rfl
  have hpath : UnixPath.resolve (B.blobPaths a c b).1 = B.blobFile ⟨a, c, b⟩ :=
    B.resolve_blobPaths ha hname
  unfold FsBackend.putBlob
  cases hc : Shelf.container ⟨a, c⟩ w.db with
  | error e =>
    refine .of_run (run_bind_error _ ((run_requireContainer a c w).trans (by rw [hc])) _) ?_ hw
    simp only [Shelf.putBlob, hdb, BlobKey.containerKey_mk, hc]
  | ok row =>
    have hc' : run Action.exec (requireContainer a c) w = (.ok row, w) := by
      rw [run_requireContainer, hc]
    obtain ⟨w₁, hwrite⟩ := run_writeFile hw amb ha hpath (filePos_blobFile _) body
    cases hbody : body.collect with
    | error e =>
      simp only [hbody] at hwrite
      refine .of_run ((run_bind_ok _ hc' _).trans (run_bind_error _ hwrite.1 _)) ?_
        (hw.of_scratch hwrite.2)
      simp only [Shelf.putBlob, hdb, BlobKey.containerKey_mk, hc, hbody, shelf_of_scratch hwrite.2]
    | ok bytes =>
      simp only [hbody] at hwrite
      obtain ⟨hrun, hrep⟩ := hwrite
      have hfile : w₁.fs.file? (B.blobFile ⟨a, c, b⟩) = some bytes := by
        rw [hrep.file _ (B.tmpFile_ne_blobFile a amb _).symm, if_pos rfl]
      have hshelf := shelf_of_replaced_blob hrep
      have hsettled := hw.of_replaced_blob hrep
      by_cases hmd5 : h.isSome ∧ h ≠ md5HexToBase64 (hexEncode (B.md5 bytes))
      · obtain ⟨w₂, hrun₂, hshelf₂, hsettled₂⟩ := run_withdraw hsettled amb hrep.db hfile hshelf
        refine .of_run (r := .error (.new .md5Mismatch)) ?_ ?_ hsettled₂
        · rw [run_bind_ok _ hc', run_bind_ok _ hrun]
          refine run_bind_error _ ?_ _
          rw [FsBackend.checkMd5, if_pos hmd5, hpath, run_bind_ok _ hrun₂, run_fail]
        · simp only [Shelf.putBlob, hdb, BlobKey.containerKey_mk, hc, hbody, hshelf₂]
          exact if_pos hmd5
      · set u := Shelf.upsertFor B amb ⟨a, c, b⟩ bytes ct (Shelf.digest B bytes) m
        obtain ⟨r, w₂, hrun₂, hop, hsettled₂⟩ := run_record amb hsettled hrep.db hfile hshelf hc
          (p := perform (Action.upsertBlob amb.dbFault ⟨a, c, b⟩ u)) rfl
          (MetadataDb.atomic_upsertBlob _ _)
          (records_upsertBlob (k := ⟨a, c, b⟩) (isSome_of_container hc) u)
        refine .of_run (r := r.map blobRowToProps) ?_ ?_ hsettled₂
        · rw [run_bind_ok _ hc', run_bind_ok _ hrun]
          refine (run_bind_ok _ (a := ()) ?_ _).trans (run_bind_pure _ hrun₂ _)
          rw [FsBackend.checkMd5, if_neg hmd5, run_pure]
        · simp only [Shelf.putBlob, hdb, BlobKey.containerKey_mk, hc, hbody]
          exact (if_neg hmd5).trans hop

/-! ### `put_block` -/

/-- A world whose file for a staged block is new and whose row is about to follow. -/
lemma shelf_insert_staged {b : StagedBlockKey} {r : StagedBlockRecord} {bytes : Bytes}
    (hdb : w'.db = w.db) (hfile : w'.fs.file? (B.stagedFile b) = some bytes)
    (hshelf : B.shelf w' = (B.shelf w).restage b bytes) :
    B.shelf { w' with db := { w'.db with stagedBlocks := w'.db.stagedBlocks.insert b r } } =
      { B.shelf w with
        db := { w.db with stagedBlocks := w.db.stagedBlocks.insert b r }
        staged := Function.update (B.shelf w).staged b (some bytes) } := by
  ext1
  · dsimp only [FsBackend.shelf]
    rw [hdb]
  · funext k
    exact congrFun (congrArg Shelf.content hshelf) k
  · funext b'
    dsimp only [FsBackend.shelf]
    rw [Table.lookup_insert_eq]
    by_cases hb : b' = b
    · subst hb
      simp [hfile]
    · have h := congrFun (congrArg Shelf.staged hshelf) b'
      dsimp only [FsBackend.shelf, Shelf.restage] at h
      rw [if_neg hb, h, if_neg hb, Function.update_of_ne hb]

lemma Settled.insert_staged {b : StagedBlockKey} (hw : Settled B w)
    (hfile : (w.fs.file? (B.stagedFile b)).isSome)
    (hc : (w.db.containers.lookup b.blob.containerKey).isSome) (r : StagedBlockRecord) :
    Settled B { w with db := { w.db with stagedBlocks := w.db.stagedBlocks.insert b r } } where
  tidy := hw.tidy
  owned :=
    { blob := hw.owned.blob
      staged := fun b' hb' => by
        rcases (Table.isSome_lookup_insert b b' r w.db.stagedBlocks).mp hb' with rfl | hb'
        · exact hc
        · exact hw.owned.staged b' hb'
      committed := hw.owned.committed }
  staged b' hb' := by
    rcases (Table.isSome_lookup_insert b b' r w.db.stagedBlocks).mp hb' with rfl | hb'
    · exact hfile
    · exact hw.staged b' hb'

lemma putBlock_refines (hw : Settled B w) (amb : Ambient) {a c : String}
    (hord : (ContainerKey.mk a c).Ordinary) (b id : String) (body : ByteStream) :
    Refines B (B.putBlock amb a c b id body) (Shelf.putBlock B amb ⟨⟨a, c, b⟩, id⟩ body) w := by
  have hdb : (B.shelf w).db = w.db := rfl
  have hpath : UnixPath.resolve (B.stagedBlockPath a c b id).1 = B.stagedFile ⟨⟨a, c, b⟩, id⟩ :=
    B.resolve_stagedBlockPath hord.account hord.container id
  unfold FsBackend.putBlock
  cases hc : Shelf.container ⟨a, c⟩ w.db with
  | error e =>
    refine .of_run (run_bind_error _ ((run_requireContainer a c w).trans (by rw [hc])) _) ?_ hw
    simp only [Shelf.putBlock, hdb, BlobKey.containerKey_mk, hc]
  | ok row =>
    have hc' : run Action.exec (requireContainer a c) w = (.ok row, w) := by
      rw [run_requireContainer, hc]
    obtain ⟨w₁, hwrite⟩ := run_writeFile hw amb hord.account.toIsComponent hpath (filePos_stagedFile _) body
    cases hbody : body.collect with
    | error e =>
      simp only [hbody] at hwrite
      refine .of_run ((run_bind_ok _ hc' _).trans (run_bind_error _ hwrite.1 _)) ?_
        (hw.of_scratch hwrite.2)
      simp only [Shelf.putBlock, hdb, BlobKey.containerKey_mk, hc, hbody,
        shelf_of_scratch hwrite.2]
    | ok bytes =>
      simp only [hbody] at hwrite
      obtain ⟨hrun, hrep⟩ := hwrite
      have hfile : w₁.fs.file? (B.stagedFile ⟨⟨a, c, b⟩, id⟩) = some bytes := by
        rw [hrep.file _ (B.tmpFile_ne_stagedFile a amb _).symm, if_pos rfl]
      have hshelf := shelf_of_replaced_staged hrep
      have hsettled := hw.of_replaced_staged hrep
      cases hfault : amb.dbFault with
      | some message =>
        refine .of_run (v := w₁) (r := .error (sqlError (.other message))) ?_ ?_ hsettled
        · rw [run_bind_ok _ hc', run_bind_ok _ hrun, run_perform_bind]
          rfl
        · simp only [Shelf.putBlock, hdb, BlobKey.containerKey_mk, hc, hbody, hfault,
            MetadataDb.guarded, hshelf]
      | none =>
        set r : StagedBlockRecord := ⟨bytes.length, Shelf.digest B bytes,
          (B.stagedBlockPath a c b id).2, amb.nowIso⟩
        refine .of_run (v := { w₁ with db := { w₁.db with
          stagedBlocks := w₁.db.stagedBlocks.insert ⟨⟨a, c, b⟩, id⟩ r } })
          (r := .ok ((Shelf.digest B bytes).getD "")) ?_ ?_ ?_
        · rw [run_bind_ok _ hc', run_bind_ok _ hrun, run_perform_bind]
          rfl
        · simp only [Shelf.putBlock, hdb, BlobKey.containerKey_mk, hc, hbody, hfault,
            MetadataDb.guarded, MetadataDb.stageBlock]
          rw [shelf_insert_staged hrep.db hfile hshelf]
        · refine hsettled.insert_staged (by rw [hfile]; rfl) ?_ r
          rw [hrep.db]
          exact isSome_of_container hc

end BlobStore
