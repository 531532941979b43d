import BlobStore.Lib.Resumption.Guarantee
import BlobStore.Storage.Layout

/-!
# Rows point at their own files

The storage path in a row is the one computed from the key of the row. This is an invariant of
single actions: it holds in every state of every run, between the calls and in the middle of them.
-/

namespace BlobStore

open Codec FileTree UnixPath Resumption Proc

/-! ### Whom a call concerns -/

/-- The container a call names, if it names one. -/
def Call.target : Call → Option ContainerKey
  | .createContainer a c _ _       => some ⟨a, c⟩
  | .deleteContainer a c           => some ⟨a, c⟩
  | .getContainerProperties a c    => some ⟨a, c⟩
  | .setContainerMetadata a c _    => some ⟨a, c⟩
  | .setContainerAcl a c _         => some ⟨a, c⟩
  | .listContainers _ _ _ _        => none
  | .listBlobs a c _ _ _ _         => some ⟨a, c⟩
  | .putBlob a c _ _ _ _ _         => some ⟨a, c⟩
  | .getBlob a c _ _               => some ⟨a, c⟩
  | .getBlobProperties a c _       => some ⟨a, c⟩
  | .setBlobProperties a c _ _     => some ⟨a, c⟩
  | .setBlobMetadata a c _ _       => some ⟨a, c⟩
  | .deleteBlob a c _              => some ⟨a, c⟩
  | .putBlock a c _ _ _            => some ⟨a, c⟩
  | .putBlockList a c _ _ _ _      => some ⟨a, c⟩
  | .getBlockList a c _            => some ⟨a, c⟩

/-- The account and the container a call names are ordinary. -/
def Call.Ordinary (call : Call) : Prop := ∀ c ∈ call.target, c.Ordinary

instance (call : Call) : Decidable call.Ordinary :=
  inferInstanceAs (Decidable (∀ c ∈ call.target, c.Ordinary))

/-! ### Actions on files only -/

/-- The file-system calls among the actions. -/
def Action.IsFs : Action → Prop
  | .createDirAll _ | .createFile _ | .writeAll _ _ | .syncAll _ | .rename _ _ | .fsyncDir _
  | .openFile _ | .removeFile _ _ | .removeDirAll _ _ => True
  | _ => False

/-- They leave the database alone. -/
lemma Action.IsFs.exec_db {a : Action} (h : a.IsFs) (w : World) : (a.exec w).2.db = w.db := by
  cases a <;> try cases h
  all_goals try rfl
  case removeFile fails p => cases fails <;> rfl

/-- The calls of a write: directories, reads, a temporary file and its move to the final path. -/
def Action.Writing (tmp final : Path) : Action → Prop
  | .createDirAll _ | .openFile _ | .fsyncDir _  => True
  | .createFile p | .writeAll p _ | .syncAll p   => p = tmp
  | .rename src dst                              => src = tmp ∧ dst = final
  | _                                            => False

/-- The removal of a file. -/
def Action.Removing : Action → Prop
  | .removeFile _ _ => True
  | _               => False

lemma Action.Writing.isFs {tmp final : Path} {a : Action} (h : a.Writing tmp final) : a.IsFs := by
  cases a <;> trivial

lemma Action.Removing.isFs {a : Action} (h : a.Removing) : a.IsFs := by
  cases a <;> trivial

namespace FsIo

variable (md5 : Bytes → Bytes) (amb : Ambient) {tmp final : Path}

lemma issues_createDirAll {P : Action → Prop} {p : Path} (h : P (.createDirAll p)) :
    Issues P (createDirAll p) := Issues.perform_bind h fun _ => issues_ofExcept

lemma issues_writeChunks (body : ByteStream) (total : ℕ) (hashed : Bytes) :
    Issues (Action.Writing tmp final) (writeChunks tmp body total hashed) := by
  induction body generalizing total hashed with
  | nil => trivial
  | cons x body ih =>
    cases x with
    | error e => trivial
    | ok chunk => exact Issues.perform_bind rfl fun _ => ih _ _

lemma issues_publish : Issues (Action.Writing tmp final) (publish tmp final) := by
  refine Issues.perform_bind rfl fun _ => Issues.perform_bind ⟨rfl, rfl⟩ fun r => ?_
  exact Issues.bind issues_ofExcept fun _ => issues_perform.mpr trivial

lemma issues_writeStreamAtomic (tmpDir finalPath : String) (body : ByteStream) :
    Issues (Action.Writing (uniqueTmpPath amb tmpDir) (resolve finalPath))
      (writeStreamAtomic md5 amb tmpDir finalPath body) := by
  refine Issues.bind (issues_createDirAll trivial) fun _ => ?_
  refine Issues.bind (issues_createDirAll trivial) fun _ => Issues.perform_bind rfl fun r => ?_
  refine Issues.bind issues_ofExcept fun _ => ?_
  refine Issues.bind (issues_writeChunks _ _ _) fun _ => ?_
  exact Issues.bind issues_publish fun _ => issues_pure

lemma issues_copyParts (parts : List Path) (total : ℕ) (hashed : Bytes) :
    Issues (Action.Writing tmp final) (copyParts amb tmp parts total hashed) := by
  induction parts generalizing total hashed with
  | nil => trivial
  | cons part parts ih =>
    refine Issues.perform_bind trivial fun r => Issues.bind issues_ofExcept fun content => ?_
    exact Issues.bind (issues_writeChunks _ _ _) fun _ => ih _ _

lemma issues_concatenateFilesAtomic (tmpDir finalPath : String) (parts : List Path) :
    Issues (Action.Writing (uniqueTmpPath amb tmpDir) (resolve finalPath))
      (concatenateFilesAtomic md5 amb tmpDir finalPath parts) := by
  refine Issues.bind (issues_createDirAll trivial) fun _ => ?_
  refine Issues.bind (issues_createDirAll trivial) fun _ => Issues.perform_bind rfl fun r => ?_
  refine Issues.bind issues_ofExcept fun _ => ?_
  refine Issues.bind (issues_copyParts _ _ _ _) fun _ => ?_
  exact Issues.bind issues_publish fun _ => issues_pure

lemma issues_removeFileIfExists (p : Path) : Issues Action.Removing (removeFileIfExists amb p) := by
  refine Issues.perform_bind trivial fun r => ?_
  rcases r with (_ | _ | _ | _) | _ <;> trivial

end FsIo

lemma FsBackend.issues_removeAll (amb : Ambient) (paths : List Path) :
    Issues Action.Removing (removeAll amb paths) := by
  induction paths with
  | nil => trivial
  | cons p paths ih =>
    exact Issues.bind (issues_ignore.mpr (FsIo.issues_removeFileIfExists amb p)) fun _ => ih

/-! ### The invariant -/

variable (B : FsBackend)

/-- Every row records the path computed from its key. -/
structure Located (db : MetadataDb) : Prop where
  blob : ∀ k row, db.blobs.lookup k = some row →
    row.storagePath = (B.blobPaths k.account k.container k.blob).2
  staged : ∀ s r, db.stagedBlocks.lookup s = some r →
    r.storagePath = (B.stagedBlockPath s.blob.account s.blob.container s.blob.blob s.blockId).2

/-- An action that writes rows writes this path into them. -/
def Action.Locates : Action → Prop
  | .upsertBlob _ k u        => u.storagePath = (B.blobPaths k.account k.container k.blob).2
  | .commitBlockList _ k _ u => u.storagePath = (B.blobPaths k.account k.container k.blob).2
  | .stageBlock _ s r        => r.storagePath =
      (B.stagedBlockPath s.blob.account s.blob.container s.blob.blob s.blockId).2
  | _ => True

variable {B} {db db' : MetadataDb}

lemma Located.stored_blob (h : Located B db) {k : BlobKey} (hk : k.containerKey.Ordinary)
    {row : BlobRow} (hrow : db.blobs.lookup k = some row) :
    B.stored row.storagePath = B.blobFile k := by
  rw [h.blob k row hrow]
  exact B.stored_blobPaths hk.account hk.container

lemma Located.stored_staged (h : Located B db) {s : StagedBlockKey}
    (hs : s.blob.containerKey.Ordinary) {r : StagedBlockRecord}
    (hr : db.stagedBlocks.lookup s = some r) : B.stored r.storagePath = B.stagedFile s := by
  rw [h.staged s r hr]
  exact B.stored_stagedBlockPath hs.account hs.container s.blockId

/-- Tables whose rows come from the old ones, with the path kept. -/
lemma Located.of_rows (h : Located B db)
    (hblob : ∀ k row, db'.blobs.lookup k = some row →
      ∃ old, db.blobs.lookup k = some old ∧ row.storagePath = old.storagePath)
    (hstaged : ∀ s r, db'.stagedBlocks.lookup s = some r → db.stagedBlocks.lookup s = some r) :
    Located B db' where
  blob k row hrow := by
    obtain ⟨old, hold, hpath⟩ := hblob k row hrow
    rw [hpath]
    exact h.blob k old hold
  staged s r hr := h.staged s r (hstaged s r hr)

lemma Located.modify_blob (h : Located B db) (k : BlobKey) {f : BlobRow → BlobRow}
    (hf : ∀ row, (f row).storagePath = row.storagePath) :
    Located B { db with blobs := Table.modify k f db.blobs } := by
  refine h.of_rows (fun k' row hrow => ?_) fun _ _ hr => hr
  by_cases hk : k' = k
  · subst hk
    dsimp only at hrow
    rw [Table.lookup_modify_self, Option.map_eq_some_iff] at hrow
    obtain ⟨old, hold, rfl⟩ := hrow
    exact ⟨old, hold, hf old⟩
  · dsimp only at hrow
    rw [Table.lookup_modify_ne hk] at hrow
    exact ⟨row, hrow, rfl⟩

lemma Located.upsertBlob (h : Located B db) {k : BlobKey} {u : BlobUpsert}
    (hu : u.storagePath = (B.blobPaths k.account k.container k.blob).2) :
    Located B (MetadataDb.upsertBlob k u db).2 := by
  unfold MetadataDb.upsertBlob
  split_ifs
  · exact h
  · refine ⟨fun k' row hrow => ?_, h.staged⟩
    dsimp only at hrow
    rw [Table.lookup_insert_eq] at hrow
    split_ifs at hrow with hk
    · cases hrow
      subst hk
      cases db.blobs.lookup k' <;> exact hu
    · exact h.blob k' row hrow

/-- Deleting rows is harmless. -/
lemma Located.of_deleted (h : Located B db)
    (hblob : ∀ k row, db'.blobs.lookup k = some row → db.blobs.lookup k = some row)
    (hstaged : ∀ s r, db'.stagedBlocks.lookup s = some r → db.stagedBlocks.lookup s = some r) :
    Located B db' :=
  h.of_rows (fun k row hrow => ⟨row, hblob k row hrow, rfl⟩) hstaged

lemma Located.commitBlockList (h : Located B db) {k : BlobKey} {u : BlobUpsert}
    (hu : u.storagePath = (B.blobPaths k.account k.container k.blob).2)
    (resolved : List CommittedBlock) :
    Located B (MetadataDb.commitBlockList k resolved u db).2 := by
  have hup := h.upsertBlob hu
  unfold MetadataDb.commitBlockList
  generalize MetadataDb.upsertBlob k u db = r at hup
  obtain ⟨r | r, db'⟩ := r
  · exact h
  · exact hup.of_deleted (fun _ _ hrow => hrow) fun _ _ hr => Table.lookup_of_lookup_deleteWhere hr

lemma Located.stageBlock (h : Located B db) {s : StagedBlockKey} {r : StagedBlockRecord}
    (hr : r.storagePath =
      (B.stagedBlockPath s.blob.account s.blob.container s.blob.blob s.blockId).2) :
    Located B (MetadataDb.stageBlock s r db).2 := by
  refine ⟨h.blob, fun s' r' hr' => ?_⟩
  dsimp only [MetadataDb.stageBlock] at hr'
  rw [Table.lookup_insert_eq] at hr'
  split_ifs at hr' with hs
  · cases hr'
    subst hs
    exact hr
  · exact h.staged s' r' hr'

lemma Located.guarded {α : Type} (h : Located B db) (fault : Option String)
    {stmt : MetadataDb → Except SqlError α × MetadataDb} (hstmt : Located B (stmt db).2) :
    Located B (MetadataDb.guarded fault stmt db).2 := by
  cases fault with
  | none => exact hstmt
  | some message => exact h

/-- One action keeps the invariant. -/
theorem Located.exec {w : World} (h : Located B w.db) {a : Action} (ha : a.Locates B) :
    Located B (a.exec w).2.db := by
  cases a with
  | upsertBlob fault k u => exact h.guarded fault (h.upsertBlob ha)
  | commitBlockList fault k resolved u => exact h.guarded fault (h.commitBlockList ha resolved)
  | stageBlock fault s r => exact h.guarded fault (h.stageBlock ha)
  | insertContainer fault c r =>
    refine h.guarded fault ?_
    unfold MetadataDb.insertContainer
    split_ifs <;> exact ⟨h.blob, h.staged⟩
  | deleteContainer fault c =>
    exact h.guarded fault (h.of_deleted (fun _ _ hrow => Table.lookup_of_lookup_deleteWhere hrow)
      fun _ _ hr => Table.lookup_of_lookup_deleteWhere hr)
  | setContainerMetadata fault c m e l => exact h.guarded fault ⟨h.blob, h.staged⟩
  | setContainerAcl fault c pa e l => exact h.guarded fault ⟨h.blob, h.staged⟩
  | setBlobProperties fault k patch e l => exact h.guarded fault (h.modify_blob k fun _ => rfl)
  | setBlobMetadata fault k m e l => exact h.guarded fault (h.modify_blob k fun _ => rfl)
  | deleteBlobRow fault k =>
    exact h.guarded fault (h.of_deleted (fun _ _ hrow => Table.lookup_of_lookup_erase hrow)
      fun _ _ hr => hr)
  | deleteCommittedBlocks k => exact ⟨h.blob, h.staged⟩
  | deleteStagedBlocks k =>
    exact h.of_deleted (fun _ _ hrow => hrow) fun _ _ hr => Table.lookup_of_lookup_deleteWhere hr
  | removeFile fails p =>
    rw [Action.IsFs.exec_db (a := .removeFile fails p) trivial]
    exact h
  | _ => exact h

/-! ### Every call keeps the invariant -/

lemma Action.IsFs.locates {a : Action} (h : a.IsFs) : a.Locates B := by
  cases a <;> trivial

/-! ### What calls ask for -/

/-- The statements that only look. -/
def Action.IsRead : Action → Prop
  | .accountKeys _ | .getContainer _ | .listContainers _ _ _ _ | .listBlobs _ _ _ _ | .getBlob _
  | .getStagedBlock _ | .getCommittedBlocks _ | .getUncommittedBlocks _ => True
  | _ => False

/-- The statements by which a call changes rows, with their keys and the paths they record. -/
def Call.Writes (B : FsBackend) : Call → Action → Prop
  | .createContainer a c _ _, .insertContainer _ c' _            => c' = ⟨a, c⟩
  | .deleteContainer a c, .deleteContainer _ c'                  => c' = ⟨a, c⟩
  | .setContainerMetadata a c _, .setContainerMetadata _ c' _ _ _ => c' = ⟨a, c⟩
  | .setContainerAcl a c _, .setContainerAcl _ c' _ _ _          => c' = ⟨a, c⟩
  | .putBlob a c b _ _ _ _, .upsertBlob _ k u                    =>
    k = ⟨a, c, b⟩ ∧ u.storagePath = (B.blobPaths a c b).2
  | .setBlobProperties a c b _, .setBlobProperties _ k _ _ _     => k = ⟨a, c, b⟩
  | .setBlobMetadata a c b _, .setBlobMetadata _ k _ _ _         => k = ⟨a, c, b⟩
  | .deleteBlob a c b, .deleteBlobRow _ k                        => k = ⟨a, c, b⟩
  | .deleteBlob a c b, .deleteCommittedBlocks k                  => k = ⟨a, c, b⟩
  | .deleteBlob a c b, .deleteStagedBlocks k                     => k = ⟨a, c, b⟩
  | .putBlock a c b id _, .stageBlock _ s r                      =>
    s = ⟨⟨a, c, b⟩, id⟩ ∧ r.storagePath = (B.stagedBlockPath a c b id).2
  | .putBlockList a c b _ _ _, .commitBlockList _ k _ u          =>
    k = ⟨a, c, b⟩ ∧ u.storagePath = (B.blobPaths a c b).2
  | _, _ => False

/-- The file-system calls of a call: where it writes, and what else it does to files. -/
def Call.Files (B : FsBackend) (amb : Ambient) : Call → Action → Prop
  | .createContainer _ _ _ _, .createDirAll _ => True
  | .deleteContainer a c, e                   =>
    e.Removing ∨
      e = .removeDirAll amb.removeFails (resolve (PathLayout.containerRoot B.storageRoot a c))
  | .putBlob a c b _ _ _ _, e                 =>
    e.Writing (FsIo.uniqueTmpPath amb (B.tmpDir a)) (resolve (B.blobPaths a c b).1) ∨ e.Removing
  | .getBlob _ _ _ _, .openFile _             => True
  | .deleteBlob _ _ _, e                      => e.Removing
  | .putBlock a c b id _, e                   =>
    e.Writing (FsIo.uniqueTmpPath amb (B.tmpDir a)) (resolve (B.stagedBlockPath a c b id).1)
  | .putBlockList a c b _ _ _, e              =>
    e.Writing (FsIo.uniqueTmpPath amb (B.tmpDir a)) (resolve (B.blobPaths a c b).1) ∨ e.Removing
  | _, _                                      => False

/-- What a call asks for: its files, reads, and its own statements. -/
def Call.Asks (B : FsBackend) (amb : Ambient) (call : Call) (e : Action) : Prop :=
  call.Files B amb e ∨ e.IsRead ∨ call.Writes B e

/-- What a call may ask for: files, reads, and its own statements. -/
def Call.Uses (B : FsBackend) (call : Call) (e : Action) : Prop :=
  e.IsFs ∨ e.IsRead ∨ call.Writes B e

section Uses

variable {call : Call} {amb : Ambient}

lemma issues_asks_files {ε α : Type} {p : Proc Action Action.Response ε α} {P : Action → Prop}
    (hp : Issues P p) (hfiles : ∀ e, P e → call.Files B amb e) : Issues (call.Asks B amb) p :=
  hp.mono fun e he => .inl (hfiles e he)

lemma issues_asks_requireContainer (a c : String) :
    Issues (call.Asks B amb) (requireContainer a c) := by
  refine Issues.perform_bind (.inr (.inl trivial)) fun row => ?_
  cases row <;> trivial

lemma issues_asks_requireBlob (a c b : String) : Issues (call.Asks B amb) (requireBlob a c b) := by
  refine Issues.perform_bind (.inr (.inl trivial)) fun row => ?_
  cases row <;> trivial

lemma issues_asks_orInternal {α : Type} (r : Except SqlError α) :
    Issues (call.Asks B amb) (orInternal r) := issues_ofExcept

/-- A statement between two lookups. -/
lemma issues_asks_update {α β : Type} {look : Store α} {stmt : Store (Except SqlError Unit)}
    {f : α → β} (hlook : Issues (call.Asks B amb) look) (hstmt : Issues (call.Asks B amb) stmt) :
    Issues (call.Asks B amb) (do
      let _ ← look
      let res ← stmt
      orInternal res
      let row ← look
      pure (f row)) :=
  hlook.bind fun _ => hstmt.bind fun _ => (issues_asks_orInternal _).bind fun _ =>
    hlook.bind fun _ => issues_pure

lemma issues_asks_resolveRefs (k : BlobKey) (committed : List CommittedBlock)
    (refs : List BlockRef) : Issues (call.Asks B amb) (B.resolveRefs k committed refs) := by
  induction refs with
  | nil => trivial
  | cons ref refs ih =>
    refine Issues.perform_bind (.inr (.inl trivial)) fun staged => ?_
    refine Issues.bind issues_ofExcept fun _ => ?_
    exact ih.bind fun _ => issues_pure

lemma issues_asks_putBlob (amb : Ambient) (a c b : String) (body : ByteStream)
    (ct h : Option String) (m : Metadata) :
    Issues ((Call.putBlob a c b body ct h m).Asks B amb) (B.putBlob amb a c b body ct h m) := by
  have hwrite : ∀ e : Action, e.Writing (FsIo.uniqueTmpPath amb (B.tmpDir a))
      (resolve (B.blobPaths a c b).1) → (Call.putBlob a c b body ct h m).Files B amb e :=
    fun _ => Or.inl
  have hremove : ∀ e : Action, e.Removing → (Call.putBlob a c b body ct h m).Files B amb e :=
    fun _ => Or.inr
  unfold FsBackend.putBlob
  refine (issues_asks_requireContainer a c).bind fun _ => ?_
  refine (issues_mapErr.mpr (issues_asks_files (FsIo.issues_writeStreamAtomic _ _ _ _ _) hwrite)).bind
    fun _ => ?_
  refine Issues.bind ?_ fun _ => Issues.bind ?_ fun _ => issues_pure
  · unfold FsBackend.checkMd5
    split_ifs
    · exact Issues.bind (issues_ignore.mpr (issues_asks_files (FsIo.issues_removeFileIfExists _ _) hremove))
        fun _ => issues_fail
    · exact issues_pure
  · refine (issues_asks_requireContainer a c).bind fun _ => ?_
    refine Issues.perform_bind (.inr (.inr ⟨rfl, rfl⟩)) fun _ => ?_
    exact (issues_asks_orInternal _).bind fun _ => issues_asks_requireBlob a c b

lemma issues_asks_putBlock (amb : Ambient) (a c b id : String) (body : ByteStream) :
    Issues ((Call.putBlock a c b id body).Asks B amb) (B.putBlock amb a c b id body) := by
  have hwrite : ∀ e : Action, e.Writing (FsIo.uniqueTmpPath amb (B.tmpDir a))
      (resolve (B.stagedBlockPath a c b id).1) → (Call.putBlock a c b id body).Files B amb e :=
    fun _ he => he
  unfold FsBackend.putBlock
  refine (issues_asks_requireContainer a c).bind fun _ => ?_
  refine (issues_mapErr.mpr (issues_asks_files (FsIo.issues_writeStreamAtomic _ _ _ _ _) hwrite)).bind
    fun _ => ?_
  refine Issues.perform_bind (.inr (.inr ⟨rfl, rfl⟩)) fun _ => ?_
  exact (issues_asks_orInternal _).bind fun _ => issues_pure

lemma issues_asks_putBlockList (amb : Ambient) (a c b : String) (refs : List BlockRef)
    (ct : Option String) (m : Metadata) :
    Issues ((Call.putBlockList a c b refs ct m).Asks B amb) (B.putBlockList amb a c b refs ct m) := by
  have hwrite : ∀ e : Action, e.Writing (FsIo.uniqueTmpPath amb (B.tmpDir a))
      (resolve (B.blobPaths a c b).1) → (Call.putBlockList a c b refs ct m).Files B amb e :=
    fun _ => Or.inl
  have hremove : ∀ e : Action, e.Removing → (Call.putBlockList a c b refs ct m).Files B amb e :=
    fun _ => Or.inr
  unfold FsBackend.putBlockList
  refine (issues_asks_requireContainer a c).bind fun _ => ?_
  refine Issues.perform_bind (.inr (.inl trivial)) fun committed => ?_
  refine (issues_asks_resolveRefs _ _ _).bind fun resolved => ?_
  refine Issues.bind issues_ofExcept fun parts => ?_
  refine (issues_mapErr.mpr (issues_asks_files (FsIo.issues_concatenateFilesAtomic _ _ _ _ _) hwrite)).bind
    fun _ => ?_
  refine Issues.bind ?_ fun _ => ?_
  · refine (issues_asks_requireContainer a c).bind fun _ => ?_
    refine Issues.perform_bind (.inr (.inr ⟨rfl, rfl⟩)) fun _ => ?_
    exact (issues_asks_orInternal _).bind fun _ => issues_asks_requireBlob a c b
  · exact (issues_asks_files (FsBackend.issues_removeAll _ _) hremove).bind fun _ => issues_pure

lemma issues_asks_deleteContainer (amb : Ambient) (a c : String) :
    Issues ((Call.deleteContainer a c).Asks B amb) (B.deleteContainer amb a c) := by
  have hremove : ∀ e : Action, e.Removing → (Call.deleteContainer a c).Files B amb e :=
    fun _ => Or.inl
  unfold FsBackend.deleteContainer
  refine (issues_asks_requireContainer a c).bind fun _ => ?_
  refine Issues.perform_bind (.inr (.inr rfl)) fun _ => ?_
  refine (issues_asks_orInternal _).bind fun paths => ?_
  refine (issues_asks_files (FsBackend.issues_removeAll _ _) hremove).bind fun _ => ?_
  exact Issues.perform_bind (.inl (.inr rfl)) fun _ => issues_pure

lemma issues_asks_deleteBlob (amb : Ambient) (a c b : String) :
    Issues ((Call.deleteBlob a c b).Asks B amb) (B.deleteBlob amb a c b) := by
  unfold FsBackend.deleteBlob
  refine (issues_asks_requireBlob a c b).bind fun row => ?_
  refine Issues.perform_bind (.inr (.inr rfl)) fun _ => ?_
  refine (issues_asks_orInternal _).bind fun _ => ?_
  refine Issues.perform_bind (.inr (.inr rfl)) fun _ => ?_
  refine Issues.perform_bind (.inr (.inr rfl)) fun _ => ?_
  exact issues_ignore.mpr (issues_asks_files (FsIo.issues_removeFileIfExists _ _) fun _ => id)

/-- A call asks for nothing but what it may use. -/
theorem issues_asks (amb : Ambient) (call : Call) : Issues (call.Asks B amb) (B.call amb call) := by
  cases call with
  | createContainer a c pa m =>
    refine Issues.bind (Issues.perform_bind (.inr (.inr rfl)) fun r => ?_) fun _ => issues_pure
    rcases r with (_ | _ | _) | _
    · exact issues_fail
    · exact issues_fail
    · exact issues_fail
    · exact (issues_mapErr.mpr (FsIo.issues_createDirAll (.inl trivial))).bind
        fun _ => issues_pure
  | deleteContainer a c =>
    exact (issues_asks_deleteContainer amb a c).bind fun _ => issues_pure
  | getContainerProperties a c =>
    exact ((issues_asks_requireContainer a c).bind fun _ => issues_pure).bind fun _ => issues_pure
  | setContainerMetadata a c m =>
    exact (issues_asks_update (issues_asks_requireContainer a c)
      (issues_perform.mpr (.inr (.inr rfl)))).bind fun _ => issues_pure
  | setContainerAcl a c pa =>
    exact (issues_asks_update (issues_asks_requireContainer a c)
      (issues_perform.mpr (.inr (.inr rfl)))).bind fun _ => issues_pure
  | listContainers a np mk n =>
    exact Issues.bind (Issues.perform_bind (.inr (.inl trivial)) fun _ => issues_pure)
      fun _ => issues_pure
  | listBlobs a c np d mk n =>
    exact Issues.bind ((issues_asks_requireContainer a c).bind fun _ =>
      Issues.perform_bind (.inr (.inl trivial)) fun _ => issues_pure) fun _ => issues_pure
  | putBlob a c b body ct h m =>
    exact (issues_asks_putBlob amb a c b body ct h m).bind fun _ => issues_pure
  | getBlob a c b range =>
    refine Issues.bind ((issues_asks_requireBlob a c b).bind fun row => ?_) fun _ => issues_pure
    refine Issues.bind issues_ofExcept fun _ => Issues.perform_bind (.inl trivial) fun _ => ?_
    exact Issues.bind issues_ofExcept fun _ => issues_pure
  | getBlobProperties a c b =>
    exact ((issues_asks_requireBlob a c b).bind fun _ => issues_pure).bind fun _ => issues_pure
  | setBlobProperties a c b patch =>
    exact (issues_asks_update (issues_asks_requireBlob a c b)
      (issues_perform.mpr (.inr (.inr rfl)))).bind fun _ => issues_pure
  | setBlobMetadata a c b m =>
    exact (issues_asks_update (issues_asks_requireBlob a c b)
      (issues_perform.mpr (.inr (.inr rfl)))).bind fun _ => issues_pure
  | deleteBlob a c b => exact (issues_asks_deleteBlob amb a c b).bind fun _ => issues_pure
  | putBlock a c b id body =>
    exact (issues_asks_putBlock amb a c b id body).bind fun _ => issues_pure
  | putBlockList a c b refs ct m =>
    exact (issues_asks_putBlockList amb a c b refs ct m).bind fun _ => issues_pure
  | getBlockList a c b =>
    exact Issues.bind (Issues.perform_bind (.inr (.inl trivial)) fun _ =>
      Issues.perform_bind (.inr (.inl trivial)) fun _ => issues_pure) fun _ => issues_pure

lemma Call.Files.isFs {e : Action} (h : call.Files B amb e) : e.IsFs := by
  cases call with
  | deleteContainer a c =>
    rcases h with h | rfl
    · exact h.isFs
    · trivial
  | deleteBlob a c b => exact Action.Removing.isFs h
  | putBlob a c b body ct hd m => exact h.elim Action.Writing.isFs Action.Removing.isFs
  | putBlock a c b id body => exact Action.Writing.isFs h
  | putBlockList a c b refs ct m => exact h.elim Action.Writing.isFs Action.Removing.isFs
  | _ => cases e <;> trivial

theorem issues_uses (amb : Ambient) (call : Call) : Issues (call.Uses B) (B.call amb call) :=
  (issues_asks amb call).mono fun _ h => h.imp_left Call.Files.isFs

lemma Call.Writes.locates {e : Action} (h : call.Writes B e) : e.Locates B := by
  cases call <;> cases e <;> try trivial
  all_goals
    obtain ⟨rfl, hpath⟩ := h
    exact hpath

lemma Call.Uses.locates {e : Action} (h : call.Uses B e) : e.Locates B := by
  rcases h with hfs | hread | hwrite
  · exact hfs.locates
  · cases e <;> trivial
  · exact hwrite.locates

end Uses

/-- No call writes a foreign path into a row, whatever the names it is given. -/
theorem issues_locates (amb : Ambient) (call : Call) :
    Issues (Action.Locates B) (B.call amb call) := (issues_uses amb call).mono fun _ h => h.locates

/-- A call that runs alone keeps the invariant. -/
theorem Located.call {w : World} (h : Located B w.db) (amb : Ambient) (call : Call) :
    Located B ((B.call amb call).run w).2.db :=
  (issues_locates amb call).run_inv (I := fun w : World => Located B w.db)
    (fun _ _ ha hw => hw.exec ha) h

/-! ### Tables after a call -/

lemma run_db_of_fs {ε α : Type} {p : Proc Action Action.Response ε α} (hp : Issues Action.IsFs p)
    (w : World) : (run Action.exec p w).2.db = w.db :=
  hp.run_inv (I := fun v : World => v.db = w.db) (fun _ v he hv => (he.exec_db v).trans hv) rfl

/-- The row of a container is there or not, whatever becomes of its directory. -/
lemma db_createContainer (amb : Ambient) (a c : String) (pa : PublicAccessLevel) (m : Metadata)
    (w : World) : ((B.call amb (.createContainer a c pa m)).run w).2.db =
      (MetadataDb.guarded amb.dbFault (MetadataDb.insertContainer ⟨a, c⟩
        ⟨pa.asDbStr, m, amb.etag, amb.lastModified⟩) w.db).2 := by
  set stmt := MetadataDb.guarded amb.dbFault (MetadataDb.insertContainer ⟨a, c⟩
    ⟨pa.asDbStr, m, amb.etag, amb.lastModified⟩) with hstmt
  have hrun : ((B.call amb (.createContainer a c pa m)).run w).2 =
      (run Action.exec (B.createContainer amb a c pa m) w).2 := by
    rw [Store.run, FsBackend.call, run_bind_pure _ rfl]
  rw [hrun, FsBackend.createContainer]
  have hexec : Action.exec (.insertContainer amb.dbFault ⟨a, c⟩
      ⟨pa.asDbStr, m, amb.etag, amb.lastModified⟩) w =
      ((stmt w.db).1, { w with db := (stmt w.db).2 }) := rfl
  rw [run_perform_bind, hexec]
  rcases (stmt w.db).1 with (_ | _ | _) | _
  · rfl
  · rfl
  · rfl
  · have hdir := run_db_of_fs (issues_mapErr.mpr (FsIo.issues_createDirAll
      (p := UnixPath.resolve (PathLayout.containerRoot B.storageRoot a c)) trivial)) (ε := AzureError)
      { w with db := (stmt w.db).2 } (p := (FsIo.createDirAll _).mapErr ioError)
    rw [run_bind_pure _ rfl]
    exact hdir

end BlobStore
