import BlobStore.Storage.TableHash
import BlobStore.Storage.Written

/-!
# Files that no row points at

Rows are deleted in bulk and files one by one. `delete_blob` deletes the rows of all staged blocks
of the blob and removes only the file of the blob, and `put_block_list` deletes the rows of all
staged blocks and removes only the files of those it lists. In a run where no staged block is left
out in this way, every file of a blob or block belongs to a row.
-/

namespace BlobStore

open Codec FileTree UnixPath Resumption Proc

/-- The last component of a path has this extension. -/
def HasExt (ext : String) (p : Path) : Prop := ∃ stem, p.getLast? = some (stem ++ ext)

/-- Every file of a blob is in the row of one blob, and every file of a block in one staged row. -/
structure NoOrphans (B : FsBackend) (w : World) : Prop where
  bin : ∀ p, B.root <+: p → (w.fs.file? p).isSome = true → HasExt ".bin" p →
    ∃! k, ∃ row, w.db.blobs.lookup k = some row ∧ B.stored row.storagePath = p
  blk : ∀ p, B.root <+: p → (w.fs.file? p).isSome = true → HasExt ".blk" p →
    ∃! b, ∃ r, w.db.stagedBlocks.lookup b = some r ∧ B.stored r.storagePath = p

/-- A call that deletes no row of a staged block without its file: a blob is deleted only when no
block of it is staged, and a block list has all staged blocks. -/
def Call.LeavesNoBlock (db : MetadataDb) : Call → Prop
  | .deleteBlob a c b             => ∀ id, db.stagedBlocks.lookup ⟨⟨a, c, b⟩, id⟩ = none
  | .putBlockList a c b refs _ _  =>
    ∀ id, (db.stagedBlocks.lookup ⟨⟨a, c, b⟩, id⟩).isSome = true → id ∈ refs.map BlockRef.blockId
  | _                             => True

/-- Every call of a run is of this kind, in the state it meets. -/
def LeavesNoBlocks (B : FsBackend) (w : World) : List Request → Prop
  | []          => True
  | req :: reqs => req.call.LeavesNoBlock w.db ∧
      LeavesNoBlocks B ((B.call req.amb req.call).run w).2 reqs

variable {B : FsBackend} {w w' : World} {amb : Ambient}

/-! ### Extensions -/

lemma HasExt.unique {ext ext' : String} {p : Path} (h : HasExt ext p) (h' : HasExt ext' p)
    (hlen : ext.toList.length = ext'.toList.length) : ext = ext' := by
  obtain ⟨stem, hstem⟩ := h
  obtain ⟨stem', hstem'⟩ := h'
  have heq := congrArg String.toList (Option.some.inj (hstem.symm.trans hstem'))
  rw [String.toList_append, String.toList_append] at heq
  exact String.toList_injective (List.append_inj_right' heq hlen)

lemma hasExt_blobFile (k : BlobKey) : HasExt ".bin" (B.blobFile k) :=
  ⟨B.hash.hashHex k.blob, by simp [FsBackend.blobFile]⟩

lemma hasExt_stagedFile (b : StagedBlockKey) : HasExt ".blk" (B.stagedFile b) :=
  ⟨B.hash.hashHex b.blockId, by simp [FsBackend.stagedFile]⟩

lemma hasExt_tmpFile (a : String) (amb : Ambient) : HasExt ".tmp" (B.tmpFile a amb) :=
  ⟨uuidLike amb.nanos amb.tid, by simp [FsBackend.tmpFile]⟩

/-! ### The invariant -/

/-- The file of a row. -/
def FsBackend.Belongs (B : FsBackend) (db : MetadataDb) (p : Path) : Prop :=
  (∃ k, (db.blobs.lookup k).isSome = true ∧ p = B.blobFile k) ∨
    ∃ b, (db.stagedBlocks.lookup b).isSome = true ∧ p = B.stagedFile b

/-- Containers have ordinary names and a directory, and files belong to rows or are temporary. -/
structure Accounted (B : FsBackend) (w : World) : Prop where
  ordinary : ∀ c, (w.db.containers.lookup c).isSome = true → c.Ordinary
  dir : ∀ c, (w.db.containers.lookup c).isSome = true → w.fs.isDir (B.containerDir c) = true
  file : ∀ p, B.root <+: p → (w.fs.file? p).isSome = true →
    HasExt ".tmp" p ∨ B.Belongs w.db p

lemma Fresh.accounted (h : Fresh B w) : Accounted B w := by
  obtain ⟨accounts, hdb⟩ := h.db
  refine ⟨fun c hc => ?_, fun c hc => ?_, ?_⟩
  · simp [hdb, MetadataDb.empty] at hc
  · simp [hdb, MetadataDb.empty] at hc
  · rintro p ⟨rel, rfl⟩ hp
    by_cases hrel : rel = []
    · rw [hrel, List.append_nil, h.above _ (List.prefix_refl _)] at hp
      cases hp
    · simp [FsTree.file?, h.below rel hrel] at hp

lemma Accounted.noOrphans (h : Accounted B w) (hw : Sound B w) : NoOrphans B w := by
  constructor
  · intro p hroot hp hext
    rcases h.file p hroot hp with htmp | ⟨k, hk, rfl⟩ | ⟨b, hb, rfl⟩
    · exact absurd (hext.unique htmp (by simp)) (by decide)
    · obtain ⟨row, hrow⟩ := Option.isSome_iff_exists.mp hk
      have hord : ∀ k' row', w.db.blobs.lookup k' = some row' →
          B.stored row'.storagePath = B.blobFile k' := fun k' row' hrow' =>
        hw.located.stored_blob (h.ordinary _ (hw.owned.blob k' (by simp [hrow']))) hrow'
      refine ⟨k, ⟨row, hrow, hord k row hrow⟩, ?_⟩
      rintro k' ⟨row', hrow', hpath⟩
      rw [hord k' row' hrow'] at hpath
      exact B.blobFile_injective hpath
    · exact absurd (hext.unique (hasExt_stagedFile b) (by simp)) (by decide)
  · intro p hroot hp hext
    rcases h.file p hroot hp with htmp | ⟨k, hk, rfl⟩ | ⟨b, hb, rfl⟩
    · exact absurd (hext.unique htmp (by simp)) (by decide)
    · exact absurd (hext.unique (hasExt_blobFile k) (by simp)) (by decide)
    · obtain ⟨r, hr⟩ := Option.isSome_iff_exists.mp hb
      have hord : ∀ b' r', w.db.stagedBlocks.lookup b' = some r' →
          B.stored r'.storagePath = B.stagedFile b' := fun b' r' hr' =>
        hw.located.stored_staged (h.ordinary _ (hw.owned.staged b' (by simp [hr']))) hr'
      refine ⟨b, ⟨r, hr, hord b r hr⟩, ?_⟩
      rintro b' ⟨r', hr', hpath⟩
      rw [hord b' r' hr'] at hpath
      exact B.stagedFile_injective hpath

/-! ### The files a call creates -/

/-- New files only in `S`, and no directory is removed. -/
def Action.Adds (S : Path → Prop) : Action → Prop
  | .createFile p     => S p
  | .rename _ dst     => S dst
  | .removeDirAll _ _ => False
  | _                 => True

section Adds

variable {S : Path → Prop} {e : Action}

lemma Action.Adds.exec (h : e.Adds S) (w : World) : FsTree.Grows S w.fs (e.exec w).2.fs := by
  cases e with
  | createDirAll p => exact .createDirAll p w.fs
  | createFile p => exact .createFile h w.fs
  | writeAll p b => exact .write p b w.fs
  | rename src dst => exact .rename src h w.fs
  | removeFile fails p =>
    cases fails with
    | true => exact .refl S w.fs
    | false => exact .removeFile p w.fs
  | removeDirAll keep p => exact h.elim
  | _ => exact .refl S w.fs

lemma grows_run {ε α : Type} {p : Proc Action Action.Response ε α} (hp : Issues (Action.Adds S) p)
    (w : World) : FsTree.Grows S w.fs (run Action.exec p w).2.fs :=
  hp.run_inv (I := fun v : World => FsTree.Grows S w.fs v.fs)
    (fun _ v he hv => hv.trans (he.exec v)) (.refl S w.fs)

lemma Action.Writing.adds {tmp final : Path} (h : e.Writing tmp final) (htmp : S tmp)
    (hfinal : S final) : e.Adds S := by
  cases e with
  | createFile p =>
    cases h
    exact htmp
  | rename src dst =>
    obtain ⟨-, rfl⟩ := h
    exact hfinal
  | _ => trivial

lemma Action.Removing.adds (h : e.Removing) : e.Adds S := by
  cases e <;> trivial

lemma Action.IsRead.adds (h : e.IsRead) : e.Adds S := by
  cases e <;> trivial

lemma Call.Writes.adds {call : Call} (h : call.Writes B e) : e.Adds S := by
  cases call <;> cases e <;> trivial

end Adds

/-- The files a call with ordinary names may create. -/
def Call.Creates (B : FsBackend) (amb : Ambient) : Call → Path → Prop
  | .putBlob a c b _ _ _ _, p    => p = B.tmpFile a amb ∨ p = B.blobFile ⟨a, c, b⟩
  | .putBlock a c b id _, p      => p = B.tmpFile a amb ∨ p = B.stagedFile ⟨⟨a, c, b⟩, id⟩
  | .putBlockList a c b _ _ _, p => p = B.tmpFile a amb ∨ p = B.blobFile ⟨a, c, b⟩
  | _, _                         => False

lemma Call.Files.adds {call : Call} (hcall : call.Ordinary)
    (hne : ∀ a c, call ≠ .deleteContainer a c) {e : Action} (h : call.Files B amb e) :
    e.Adds (call.Creates B amb) := by
  cases call with
  | deleteContainer a c => exact absurd rfl (hne a c)
  | putBlob a c b body ct hd m =>
    have hord := hcall ⟨a, c⟩ rfl
    rcases h with h | h
    · exact h.adds (.inl (B.uniqueTmpPath_tmpDir hord.account amb))
        (.inr (B.resolve_blobPaths hord.account hord.container))
    · exact h.adds
  | putBlock a c b id body =>
    have hord := hcall ⟨a, c⟩ rfl
    exact Action.Writing.adds h (.inl (B.uniqueTmpPath_tmpDir hord.account amb))
      (.inr (B.resolve_stagedBlockPath hord.account hord.container id))
  | putBlockList a c b refs ct m =>
    have hord := hcall ⟨a, c⟩ rfl
    rcases h with h | h
    · exact h.adds (.inl (B.uniqueTmpPath_tmpDir hord.account amb))
        (.inr (B.resolve_blobPaths hord.account hord.container))
    · exact h.adds
  | deleteBlob a c b => exact Action.Removing.adds h
  | _ => cases e <;> trivial

/-- A call other than `delete_container` creates its own files and removes no directory. -/
lemma grows_call {call : Call} (hcall : call.Ordinary)
    (hne : ∀ a c, call ≠ .deleteContainer a c) (amb : Ambient) (w : World) :
    FsTree.Grows (call.Creates B amb) w.fs ((B.call amb call).run w).2.fs := by
  refine grows_run ((issues_asks amb call).mono fun e he => ?_) w
  rcases he with hfiles | hread | hwrites
  · exact hfiles.adds hcall hne
  · exact hread.adds
  · exact hwrites.adds

/-! ### Steps of the invariant -/

/-- The files of rows still belong to rows, or are gone. -/
lemma Accounted.step (h : Accounted B w) {S : Path → Prop}
    (hfile : ∀ p, (w'.fs.file? p).isSome = true → S p ∨ (w.fs.file? p).isSome = true)
    (hnew : ∀ p, S p → HasExt ".tmp" p ∨ B.Belongs w'.db p)
    (hold : ∀ p, B.Belongs w.db p → (w'.fs.file? p).isSome = true → B.Belongs w'.db p)
    (hcontainer : ∀ c, (w'.db.containers.lookup c).isSome = true →
      c.Ordinary ∧ w'.fs.isDir (B.containerDir c) = true) : Accounted B w' := by
  refine ⟨fun c hc => (hcontainer c hc).1, fun c hc => (hcontainer c hc).2, ?_⟩
  intro p hroot hp
  rcases hfile p hp with hS | hw
  · exact hnew p hS
  · rcases h.file p hroot hw with htmp | hbelongs
    · exact .inl htmp
    · exact .inr (hold p hbelongs hp)

lemma FsBackend.Belongs.mono {db db' : MetadataDb} {p : Path} (h : B.Belongs db p)
    (hblob : ∀ k, (db.blobs.lookup k).isSome = true → (db'.blobs.lookup k).isSome = true)
    (hstaged : ∀ b, (db.stagedBlocks.lookup b).isSome = true →
      (db'.stagedBlocks.lookup b).isSome = true) : B.Belongs db' p := by
  rcases h with ⟨k, hk, rfl⟩ | ⟨b, hb, rfl⟩
  · exact .inl ⟨k, hblob k hk, rfl⟩
  · exact .inr ⟨b, hstaged b hb, rfl⟩

/-- A call that creates only files of rows, and after which files of deleted rows are gone. -/
lemma Accounted.call (h : Accounted B w) {call : Call} (hcall : call.Ordinary)
    (hne : ∀ a c, call ≠ .deleteContainer a c) (hrun : ((B.call amb call).run w).2 = w')
    (hnew : ∀ p, call.Creates B amb p → HasExt ".tmp" p ∨ B.Belongs w'.db p)
    (hold : ∀ p, B.Belongs w.db p → (w'.fs.file? p).isSome = true → B.Belongs w'.db p)
    (hcontainer : ∀ c, (w'.db.containers.lookup c).isSome = true →
      (w.db.containers.lookup c).isSome = true ∨
        c.Ordinary ∧ w'.fs.isDir (B.containerDir c) = true) : Accounted B w' := by
  have hgrows := grows_call (B := B) hcall hne amb w
  rw [hrun] at hgrows
  refine h.step hgrows.file hnew hold fun c hc => ?_
  rcases hcontainer c hc with hc | hc
  · exact ⟨h.ordinary c hc, hgrows.dir _ (h.dir c hc)⟩
  · exact hc

/-! ### Calls that keep all keys -/

/-- Tables with rows under the same keys. -/
structure SameKeys (db db' : MetadataDb) : Prop where
  container : ∀ c, (db'.containers.lookup c).isSome = (db.containers.lookup c).isSome
  blob : ∀ k, (db'.blobs.lookup k).isSome = (db.blobs.lookup k).isSome
  staged : ∀ b, (db'.stagedBlocks.lookup b).isSome = (db.stagedBlocks.lookup b).isSome

lemma SameKeys.refl (db : MetadataDb) : SameKeys db db := ⟨fun _ => rfl, fun _ => rfl, fun _ => rfl⟩

lemma SameKeys.trans {db db' db'' : MetadataDb} (h : SameKeys db db') (h' : SameKeys db' db'') :
    SameKeys db db'' where
  container c := (h'.container c).trans (h.container c)
  blob k := (h'.blob k).trans (h.blob k)
  staged b := (h'.staged b).trans (h.staged b)

lemma SameKeys.modify_container (db : MetadataDb) (c : ContainerKey)
    (f : ContainerRecord → ContainerRecord) (fault : Option String) :
    SameKeys db (MetadataDb.guarded fault (fun db => (Except.ok (),
      { db with containers := Table.modify c f db.containers })) db).2 := by
  cases fault with
  | some message => exact .refl db
  | none =>
    exact ⟨fun c' => Table.isSome_lookup_modify c c' f db.containers, fun _ => rfl, fun _ => rfl⟩

lemma SameKeys.modify_blob (db : MetadataDb) (k : BlobKey) (f : BlobRow → BlobRow)
    (fault : Option String) :
    SameKeys db (MetadataDb.guarded fault (fun db => (Except.ok (),
      { db with blobs := Table.modify k f db.blobs })) db).2 := by
  cases fault with
  | some message => exact .refl db
  | none => exact ⟨fun _ => rfl, fun k' => Table.isSome_lookup_modify k k' f db.blobs, fun _ => rfl⟩

/-- The calls that only look, or change columns. -/
def Call.KeepsKeys : Call → Prop
  | .createContainer _ _ _ _ | .deleteContainer _ _ | .putBlob _ _ _ _ _ _ _ | .deleteBlob _ _ _
  | .putBlock _ _ _ _ _ | .putBlockList _ _ _ _ _ _ => False
  | _ => True

lemma Call.Writes.sameKeys {call : Call} (hcall : call.KeepsKeys) {e : Action}
    (h : call.Writes B e) (w : World) : SameKeys w.db (e.exec w).2.db := by
  cases call with
  | setContainerMetadata a c m =>
    cases e with
    | setContainerMetadata fault c' m' e' l => exact .modify_container w.db c' _ fault
    | _ => exact h.elim
  | setContainerAcl a c pa =>
    cases e with
    | setContainerAcl fault c' pa' e' l => exact .modify_container w.db c' _ fault
    | _ => exact h.elim
  | setBlobProperties a c b patch =>
    cases e with
    | setBlobProperties fault k patch' e' l => exact .modify_blob w.db k _ fault
    | _ => exact h.elim
  | setBlobMetadata a c b m =>
    cases e with
    | setBlobMetadata fault k m' e' l => exact .modify_blob w.db k _ fault
    | _ => exact h.elim
  | createContainer a c pa m => exact hcall.elim
  | deleteContainer a c => exact hcall.elim
  | putBlob a c b body ct hd m => exact hcall.elim
  | deleteBlob a c b => exact hcall.elim
  | putBlock a c b id body => exact hcall.elim
  | putBlockList a c b refs ct m => exact hcall.elim
  | _ => exact h.elim

lemma sameKeys_call {call : Call} (hcall : call.KeepsKeys) (amb : Ambient) (w : World) :
    SameKeys w.db ((B.call amb call).run w).2.db := by
  refine (issues_uses amb call).run_inv (I := fun v : World => SameKeys w.db v.db) ?_ (.refl w.db)
  rintro e v (hfs | hread | hwrites) hv
  · rw [hfs.exec_db]
    exact hv
  · cases e <;> first | exact hv | exact hread.elim
  · exact hv.trans (hwrites.sameKeys hcall v)

lemma Accounted.of_keepsKeys (h : Accounted B w) {call : Call} (hcall : call.Ordinary)
    (hkeys : call.KeepsKeys) : Accounted B ((B.call amb call).run w).2 := by
  have hsame := sameKeys_call (B := B) hkeys amb w
  refine h.call hcall ?_ rfl ?_ ?_ ?_
  · rintro a c rfl
    exact hkeys
  · intro p hp
    cases call <;> first | exact hp.elim | exact hkeys.elim
  · intro p hp _
    exact hp.mono (fun k hk => (hsame.blob k).trans hk) fun b hb => (hsame.staged b).trans hb
  · intro c hc
    exact .inl ((hsame.container c).symm.trans hc)

/-! ### New containers -/

lemma isDir_of_createDirAll {p : Path} {u : Unit}
    (h : run Action.exec ((FsIo.createDirAll p).mapErr ioError) w = (.ok u, w')) :
    w'.fs.isDir p = true := by
  rw [run_mapErr, FsIo.createDirAll, run_perform_bind, run_ofExcept] at h
  have hexec : Action.exec (.createDirAll p) w =
      ((FsTree.createDirAll p w.fs).1, { w with fs := (FsTree.createDirAll p w.fs).2 }) := rfl
  rw [hexec] at h
  cases hres : (FsTree.createDirAll p w.fs).1 with
  | error e =>
    rw [hres] at h
    cases h
  | ok u' =>
    rw [hres] at h
    cases h
    exact (FsTree.isDir_createDirAll_of_ok hres p).mpr (.inl (List.prefix_refl p))

lemma isDir_of_createContainer {a c : String} (hord : (ContainerKey.mk a c).Ordinary)
    {pa : PublicAccessLevel} {m : Metadata} {props : ContainerProps}
    (h : run Action.exec (B.createContainer amb a c pa m) w = (.ok props, w')) :
    w'.fs.isDir (B.containerDir ⟨a, c⟩) = true := by
  rw [FsBackend.createContainer, run_perform_bind] at h
  generalize Action.exec _ w = r at h
  obtain ⟨(_ | _ | _) | _, v⟩ := r
  · cases h
  · cases h
  · cases h
  · obtain ⟨u, v', hdir, hpure⟩ := run_bind_ok_inv _ h
    cases hpure
    rw [B.resolve_containerRoot hord.account hord.container] at hdir
    exact isDir_of_createDirAll hdir

lemma isSome_of_insertContainer {c c' : ContainerKey} {r : ContainerRecord} {db : MetadataDb}
    {fault : Option String} (h : ((MetadataDb.guarded fault (MetadataDb.insertContainer c r)
      db).2.containers.lookup c').isSome = true) :
    (db.containers.lookup c').isSome = true ∨ c' = c := by
  cases fault with
  | some message => exact .inl h
  | none =>
    unfold MetadataDb.guarded MetadataDb.insertContainer at h
    split_ifs at h
    · exact .inl h
    · exact .inl h
    · exact ((Table.isSome_lookup_insert c c' r db.containers).mp h).symm

lemma Accounted.createContainer (h : Accounted B w) {a c : String} {pa : PublicAccessLevel} {m : Metadata}
    (hcall : (Call.createContainer a c pa m).Ordinary)
    (hok : ((B.call amb (.createContainer a c pa m)).run w).1.isOk = true) :
    Accounted B ((B.call amb (.createContainer a c pa m)).run w).2 := by
  have hdb := db_createContainer (B := B) amb a c pa m w
  have hrows := (SameRows.insertContainer w.db ⟨a, c⟩
    ⟨pa.asDbStr, m, amb.etag, amb.lastModified⟩).guarded amb.dbFault
  rw [← hdb] at hrows
  refine h.call hcall (by simp) rfl (fun p hp => hp.elim) (fun p hp _ => ?_) fun c' hc' => ?_
  · exact hp.mono (fun k hk => (hrows.blob k).trans hk) fun b hb => (hrows.staged b).trans hb
  · rw [hdb] at hc'
    rcases isSome_of_insertContainer hc' with hc' | rfl
    · exact .inl hc'
    · obtain ⟨reply, hreply⟩ := exists_of_isOk hok
      obtain ⟨props, v, hrun, hpure⟩ := run_bind_ok_inv _ (Prod.ext hreply rfl)
      refine .inr ⟨hcall _ rfl, ?_⟩
      have hv : v = ((B.call amb (.createContainer a c pa m)).run w).2 :=
        congrArg Prod.snd hpure
      rw [← hv]
      exact isDir_of_createContainer (hcall _ rfl) hrun

/-! ### Tables after a success -/

namespace Shelf

variable {s : Shelf} {k : BlobKey}

lemma db_putBlob {body : ByteStream} {ct hd : Option String} {m : Metadata} {props : BlobProps}
    (h : (putBlob B amb k body ct hd m s).1 = .ok props) :
    ∃ row, (putBlob B amb k body ct hd m s).2.db =
      { s.db with blobs := s.db.blobs.insert k row } := by
  obtain ⟨hfault, hc, bytes, hbody, hmd5⟩ := putBlob_ok_inv h
  exact ⟨_, congrArg (fun r => r.2.db) (putBlob_eq hfault hc hbody hmd5 rfl)⟩

lemma db_putBlockList {refs : List BlockRef} {ct : Option String} {m : Metadata}
    {props : BlobProps} (h : (putBlockList B amb k refs ct m s).1 = .ok props) :
    ∃ row resolved, (putBlockList B amb k refs ct m s).2.db =
      { s.db with
        blobs           := s.db.blobs.insert k row
        committedBlocks := s.db.committedBlocks.insert k resolved
        stagedBlocks    := s.db.stagedBlocks.deleteWhere fun b => b.blob = k } := by
  obtain ⟨hfault, hc, resolved, hrefs⟩ := putBlockList_ok_inv h
  exact ⟨_, _, congrArg (fun r => r.2.db) (putBlockList_eq hfault hc hrefs rfl)⟩

lemma db_putBlock {b : StagedBlockKey} {body : ByteStream} {md5 : String}
    (h : (putBlock B amb b body s).1 = .ok md5) :
    ∃ r, (putBlock B amb b body s).2.db =
      { s.db with stagedBlocks := s.db.stagedBlocks.insert b r } := by
  unfold putBlock at h
  cases hc : container b.blob.containerKey s.db with
  | error e => simp [hc] at h
  | ok row =>
    cases hbody : body.collect with
    | error e => simp [hc, hbody] at h
    | ok bytes =>
      cases hfault : amb.dbFault with
      | some message => simp [hc, hbody, hfault, MetadataDb.guarded] at h
      | none =>
        exact ⟨_, congrArg (fun r => r.2.db)
          (putBlock_eq hfault (isSome_of_container hc) hbody rfl)⟩

lemma drops_of_deleteBlob (h : (deleteBlob amb k s).1 = .ok ()) :
    Drops (· = k) (·.blob = k) s.db (deleteBlob amb k s).2.db ∧
      (deleteBlob amb k s).2.db.containers = s.db.containers := by
  unfold deleteBlob at h ⊢
  cases hb : blob k s.db with
  | error e => simp [hb] at h
  | ok row =>
    cases hfault : amb.dbFault with
    | some message => simp [hb, hfault, MetadataDb.guarded] at h
    | none =>
      simp only [MetadataDb.guarded]
      exact ⟨drops_deleteBlob k s.db, rfl⟩

lemma drops_of_deleteContainer {c : ContainerKey} (h : (deleteContainer amb c s).1 = .ok ()) :
    Drops (·.containerKey = c) (·.blob.containerKey = c) s.db (deleteContainer amb c s).2.db ∧
      (deleteContainer amb c s).2.db.containers = s.db.containers.erase c := by
  unfold deleteContainer at h ⊢
  cases hc : container c s.db with
  | error e => simp [hc] at h
  | ok row =>
    cases hfault : amb.dbFault with
    | some message => simp [hc, hfault, MetadataDb.guarded] at h
    | none =>
      simp only [MetadataDb.guarded]
      exact ⟨drops_deleteContainer c s.db, rfl⟩

end Shelf

/-- The operation on the shelf behind a call that succeeded. -/
lemma ok_on_shelf {α : Type} {p : Store α} {op : Shelf.Op α} (h : Refines B p op w) {f : α → Reply}
    {call : Call} (hrun : (B.call amb call).run w = Store.run (do return f (← p)) w)
    (hok : ((B.call amb call).run w).1.isOk = true) :
    (∃ x, (op (B.shelf w)).1 = .ok x) ∧
      ((B.call amb call).run w).2.db = (op (B.shelf w)).2.db := by
  have hmap := h.map f
  obtain ⟨reply, hreply⟩ := exists_of_isOk hok
  rw [hrun, hmap.answer] at hreply
  rw [hrun]
  exact ⟨Shelf.replying_ok_inv hreply, congrArg Shelf.db hmap.shelf⟩

/-! ### New blobs and blocks -/

lemma Accounted.putBlob (h : Accounted B w) (hw : Sound B w) {a c b : String} {body : ByteStream}
    {ct hd : Option String} {m : Metadata} (hcall : (Call.putBlob a c b body ct hd m).Ordinary)
    (hok : ((B.call amb (.putBlob a c b body ct hd m)).run w).1.isOk = true) :
    Accounted B ((B.call amb (.putBlob a c b body ct hd m)).run w).2 := by
  obtain ⟨⟨props, hprops⟩, hshelf⟩ := ok_on_shelf (f := Reply.blob)
    (putBlob_refines hw.toSettled amb (hcall _ rfl).account (hcall _ rfl).container b body ct hd m) rfl
      hok
  obtain ⟨row, hrow⟩ := Shelf.db_putBlob hprops
  have hdb := hshelf.trans hrow
  refine h.call hcall (by simp) rfl ?_ ?_ ?_
  · rintro p (rfl | rfl)
    · exact .inl (hasExt_tmpFile a amb)
    · refine .inr (.inl ⟨⟨a, c, b⟩, ?_, rfl⟩)
      rw [hdb]
      exact (Table.isSome_lookup_insert _ _ _ _).mpr (.inl rfl)
  · intro p hp _
    rw [hdb]
    exact hp.mono (fun k hk => (Table.isSome_lookup_insert _ _ _ _).mpr (.inr hk)) fun _ hb => hb
  · intro c' hc'
    rw [hdb] at hc'
    exact .inl hc'

lemma Accounted.putBlock (h : Accounted B w) (hw : Sound B w) {a c b id : String} {body : ByteStream}
    (hcall : (Call.putBlock a c b id body).Ordinary)
    (hok : ((B.call amb (.putBlock a c b id body)).run w).1.isOk = true) :
    Accounted B ((B.call amb (.putBlock a c b id body)).run w).2 := by
  obtain ⟨⟨md5, hmd5⟩, hshelf⟩ := ok_on_shelf (f := Reply.md5)
    (putBlock_refines hw.toSettled amb (hcall _ rfl) b id body) rfl hok
  obtain ⟨r, hr⟩ := Shelf.db_putBlock hmd5
  have hdb := hshelf.trans hr
  refine h.call hcall (by simp) rfl ?_ ?_ ?_
  · rintro p (rfl | rfl)
    · exact .inl (hasExt_tmpFile a amb)
    · refine .inr (.inr ⟨⟨⟨a, c, b⟩, id⟩, ?_, rfl⟩)
      rw [hdb]
      exact (Table.isSome_lookup_insert _ _ _ _).mpr (.inl rfl)
  · intro p hp _
    rw [hdb]
    exact hp.mono (fun _ hk => hk) fun b hb => (Table.isSome_lookup_insert _ _ _ _).mpr (.inr hb)
  · intro c' hc'
    rw [hdb] at hc'
    exact .inl hc'

/-! ### Removed files -/

section Removals

variable (hremove : ∀ p, amb.removeFails p = false)

include hremove

lemma fs_removeFileIfExists (p : Path) (w : World) :
    (run Action.exec (FsIo.removeFileIfExists amb p) w).2.fs = (FsTree.removeFile p w.fs).2 := by
  rw [FsIo.removeFileIfExists, hremove p, run_perform_bind]
  have hexec : Action.exec (.removeFile false p) w =
      ((FsTree.removeFile p w.fs).1, { w with fs := (FsTree.removeFile p w.fs).2 }) := rfl
  rw [hexec]
  rcases (FsTree.removeFile p w.fs).1 with (_ | _ | _ | _) | _ <;> rfl

/-- Files that are removed one by one are gone. -/
lemma file?_removeAll {paths : List Path} {p : Path} (hp : p ∈ paths) (w : World) :
    (run Action.exec (FsBackend.removeAll amb paths) w).2.fs.file? p = none := by
  induction paths generalizing w with
  | nil => cases hp
  | cons q paths ih =>
    rw [FsBackend.removeAll, run_bind_ok _ (run_ignore _ _ _)]
    by_cases hq : p = q
    · have hgrows := grows_run (S := fun _ => False)
        ((FsBackend.issues_removeAll amb paths).mono fun _ he => he.adds)
        (run Action.exec (FsIo.removeFileIfExists amb q) w).2
      rw [← Option.not_isSome_iff_eq_none]
      intro hfile
      rcases hgrows.file p hfile with hnew | hold
      · exact hnew
      · rw [fs_removeFileIfExists hremove, hq, FsTree.file?_removeFile, if_pos rfl] at hold
        cases hold
    · exact ih ((List.mem_cons.mp hp).resolve_left hq) _

/-- A block list that is committed takes the files of its blocks away. -/
lemma file?_putBlockList (hl : Located B w.db) {a c b : String}
    (hord : (ContainerKey.mk a c).Ordinary) {refs : List BlockRef} {ct : Option String}
    {m : Metadata} {props : BlobProps}
    (h : run Action.exec (B.putBlockList amb a c b refs ct m) w = (.ok props, w')) {id : String}
    (hid : id ∈ refs.map BlockRef.blockId) :
    w'.fs.file? (B.stagedFile ⟨⟨a, c, b⟩, id⟩) = none := by
  have hresolve := run_resolveRefs (k := ⟨a, c, b⟩) hl hord refs
  obtain ⟨row, w₁, hrow, hresolving⟩ := run_bind_ok_inv _ h
  obtain rfl : w₁ = w := congrArg Prod.snd (hrow.symm.trans (run_requireContainer a c w))
  rw [run_perform_bind] at hresolving
  obtain ⟨xs, w₂, hxs, hparts⟩ := run_bind_ok_inv _ hresolving
  change run Action.exec (B.resolveRefs ⟨a, c, b⟩ (w₁.db.getCommittedBlocks ⟨a, c, b⟩) refs) w₁ =
    (.ok xs, w₂) at hxs
  obtain ⟨paths, w₃, hpaths, hwriting⟩ := run_bind_ok_inv _ hparts
  obtain ⟨written, w₄, -, hcommitting⟩ := run_bind_ok_inv _ hwriting
  obtain ⟨row', w₅, -, hremoving⟩ := run_bind_ok_inv _ hcommitting
  obtain ⟨u, w₆, hclean, hpure⟩ := run_bind_ok_inv _ hremoving
  cases hpure
  -- the paths that are removed are those of the references
  have hmem : B.stagedFile ⟨⟨a, c, b⟩, id⟩ ∈ paths := by
    cases hrefs : refs.mapM (Shelf.resolveRef ⟨a, c, b⟩ w₁.db) with
    | none =>
      simp only [hrefs] at hresolve
      rcases hresolve with hrun | ⟨ys, hrun, hnone⟩
      · rw [hrun] at hxs
        cases hxs
      · rw [hrun] at hxs
        cases hxs
        rw [hnone] at hpaths
        cases hpaths
    | some resolved =>
      simp only [hrefs] at hresolve
      obtain ⟨hrun, hids, -⟩ := hresolve
      rw [hrun] at hxs
      cases hxs
      rw [mapM_snd_map] at hpaths
      cases hpaths
      rw [← hids] at hid
      obtain ⟨cb, hcb, rfl⟩ := List.mem_map.mp hid
      exact List.mem_map.mpr ⟨cb, hcb, rfl⟩
  have hgone := file?_removeAll hremove hmem w₅
  rw [hclean] at hgone
  exact hgone

lemma Accounted.putBlockList (h : Accounted B w) (hw : Sound B w) {a c b : String} {refs : List BlockRef}
    {ct : Option String} {m : Metadata} (hcall : (Call.putBlockList a c b refs ct m).Ordinary)
    (hok : ((B.call amb (.putBlockList a c b refs ct m)).run w).1.isOk = true)
    (hlist : (Call.putBlockList a c b refs ct m).LeavesNoBlock w.db) :
    Accounted B ((B.call amb (.putBlockList a c b refs ct m)).run w).2 := by
  obtain ⟨⟨props, hprops⟩, hshelf⟩ := ok_on_shelf (f := Reply.blob)
    (putBlockList_refines hw amb (hcall _ rfl) b refs ct m) rfl hok
  obtain ⟨row, resolved, hrow⟩ := Shelf.db_putBlockList hprops
  have hdb := hshelf.trans hrow
  refine h.call hcall (by simp) rfl ?_ ?_ ?_
  · rintro p (rfl | rfl)
    · exact .inl (hasExt_tmpFile a amb)
    · refine .inr (.inl ⟨⟨a, c, b⟩, ?_, rfl⟩)
      rw [hdb]
      exact (Table.isSome_lookup_insert _ _ _ _).mpr (.inl rfl)
  · rintro p (⟨k, hk, rfl⟩ | ⟨⟨k, id⟩, hb, rfl⟩) hfile
    · refine .inl ⟨k, ?_, rfl⟩
      rw [hdb]
      exact (Table.isSome_lookup_insert _ _ _ _).mpr (.inr hk)
    · by_cases hk : k = ⟨a, c, b⟩
      · subst hk
        obtain ⟨reply, hreply⟩ := exists_of_isOk hok
        obtain ⟨props', v, hrun, hpure⟩ := run_bind_ok_inv _ (Prod.ext hreply rfl)
        have hv : v = ((B.call amb (.putBlockList a c b refs ct m)).run w).2 :=
          congrArg Prod.snd hpure
        rw [← hv, file?_putBlockList hremove hw.located (hcall _ rfl) hrun (hlist id hb)] at hfile
        cases hfile
      · refine .inr ⟨⟨k, id⟩, ?_, rfl⟩
        rw [hdb]
        exact Table.isSome_lookup_deleteWhere.mpr ⟨by simp [hk], hb⟩
  · intro c' hc'
    rw [hdb] at hc'
    exact .inl hc'

lemma file?_deleteBlob (hl : Located B w.db) {a c b : String}
    (hord : (ContainerKey.mk a c).Ordinary) {u : Unit}
    (h : run Action.exec (B.deleteBlob amb a c b) w = (.ok u, w')) :
    w'.fs.file? (B.blobFile ⟨a, c, b⟩) = none := by
  obtain ⟨row, w₁, hrow, hdelete⟩ := run_bind_ok_inv _ h
  rw [run_requireBlob] at hrow
  obtain rfl : w = w₁ := congrArg Prod.snd hrow
  have hpath : B.stored row.storagePath = B.blobFile ⟨a, c, b⟩ :=
    hl.stored_blob (k := ⟨a, c, b⟩) hord (lookup_of_blob (congrArg Prod.fst hrow))
  rw [run_perform_bind] at hdelete
  obtain ⟨u', w₂, -, hclean⟩ := run_bind_ok_inv _ hdelete
  rw [run_perform_bind, run_perform_bind, run_ignore, hpath] at hclean
  obtain ⟨-, rfl⟩ := Prod.mk.inj hclean
  rw [fs_removeFileIfExists hremove, FsTree.file?_removeFile, if_pos rfl]

lemma Accounted.deleteBlob (h : Accounted B w) (hw : Sound B w) {a c b : String}
    (hcall : (Call.deleteBlob a c b).Ordinary)
    (hok : ((B.call amb (.deleteBlob a c b)).run w).1.isOk = true)
    (hlist : (Call.deleteBlob a c b).LeavesNoBlock w.db) :
    Accounted B ((B.call amb (.deleteBlob a c b)).run w).2 := by
  obtain ⟨⟨u, hu⟩, hshelf⟩ := ok_on_shelf (f := fun _ => Reply.done)
    (deleteBlob_refines hw amb (hcall _ rfl) b) rfl hok
  obtain ⟨hdrops, hcontainers⟩ := Shelf.drops_of_deleteBlob hu
  rw [← hshelf] at hdrops hcontainers
  refine h.call hcall (by simp) rfl (fun p hp => hp.elim) ?_ ?_
  · rintro p (⟨k, hk, rfl⟩ | ⟨s, hs, rfl⟩) hfile
    · by_cases hkey : k = ⟨a, c, b⟩
      · subst hkey
        obtain ⟨reply, hreply⟩ := exists_of_isOk hok
        obtain ⟨u', v, hrun, hpure⟩ := run_bind_ok_inv _ (Prod.ext hreply rfl)
        have hv : v = ((B.call amb (.deleteBlob a c b)).run w).2 := congrArg Prod.snd hpure
        rw [← hv, file?_deleteBlob hremove hw.located (hcall _ rfl) hrun] at hfile
        cases hfile
      · refine .inl ⟨k, ?_, rfl⟩
        rw [hdrops.blob, if_neg hkey]
        exact hk
    · refine .inr ⟨s, ?_, rfl⟩
      obtain ⟨k, id⟩ := s
      have hkey : k ≠ ⟨a, c, b⟩ := by
        rintro rfl
        rw [hlist id] at hs
        cases hs
      rw [hdrops.staged, if_neg hkey]
      exact hs
  · intro c' hc'
    rw [hcontainers] at hc'
    exact .inl hc'

/-- The directory of the container is there and goes with everything below it. -/
lemma deleteContainer_removes {a c : String} (hord : (ContainerKey.mk a c).Ordinary) {u : Unit}
    (hdir : w.fs.isDir (B.containerDir ⟨a, c⟩) = true)
    (h : run Action.exec (B.deleteContainer amb a c) w = (.ok u, w')) :
    (∀ p, (w'.fs.file? p).isSome = true →
      (w.fs.file? p).isSome = true ∧ ¬ B.containerDir ⟨a, c⟩ <+: p) ∧
    ∀ p, ¬ B.containerDir ⟨a, c⟩ <+: p → w.fs.isDir p = true → w'.fs.isDir p = true := by
  obtain ⟨row, w₁, hrow, hdelete⟩ := run_bind_ok_inv _ h
  rw [run_requireContainer] at hrow
  obtain rfl : w = w₁ := congrArg Prod.snd hrow
  rw [run_perform_bind] at hdelete
  obtain ⟨paths, w₂, hpaths, hremoving⟩ := run_bind_ok_inv _ hdelete
  have hw₂ : w₂.fs = w.fs := congrArg (fun r => r.2.fs) hpaths.symm
  obtain ⟨u', w₃, hclean, hlast⟩ := run_bind_ok_inv _ hremoving
  have hgrows := grows_run (S := fun _ => False)
    ((FsBackend.issues_removeAll amb (paths.map B.stored)).mono fun _ he => he.adds) w₂
  rw [hclean, hw₂] at hgrows
  rw [B.resolve_containerRoot hord.account hord.container, run_perform_bind] at hlast
  have hfs : w'.fs = (FsTree.removeDirAll amb.removeFails (B.containerDir ⟨a, c⟩) w₃.fs).2 :=
    congrArg (fun r => r.2.fs) hlast.symm
  rw [hfs]
  constructor
  · intro p hp
    rw [FsTree.file?_removeDirAll] at hp
    split_ifs at hp with hgone
    · cases hp
    · refine ⟨(hgrows.file p hp).resolve_left id, fun hpre => hgone ?_⟩
      exact ⟨hgrows.dir _ hdir, hpre, hremove p⟩
  · intro p hp hpdir
    rw [FsTree.isDir_removeDirAll_of_not hp]
    exact hgrows.dir p hpdir

lemma Accounted.deleteContainer (h : Accounted B w) (hw : Sound B w) {a c : String}
    (hcall : (Call.deleteContainer a c).Ordinary)
    (hok : ((B.call amb (.deleteContainer a c)).run w).1.isOk = true) :
    Accounted B ((B.call amb (.deleteContainer a c)).run w).2 := by
  have hord := hcall ⟨a, c⟩ rfl
  obtain ⟨⟨u, hu⟩, hshelf⟩ := ok_on_shelf (f := fun _ => Reply.done)
    (deleteContainer_refines hw amb hord) rfl hok
  obtain ⟨hdrops, hcontainers⟩ := Shelf.drops_of_deleteContainer hu
  rw [← hshelf] at hdrops hcontainers
  obtain ⟨reply, hreply⟩ := exists_of_isOk hok
  obtain ⟨u', v, hrun, hpure⟩ := run_bind_ok_inv _ (Prod.ext hreply rfl)
  have hv : v = ((B.call amb (.deleteContainer a c)).run w).2 := congrArg Prod.snd hpure
  have hdir : w.fs.isDir (B.containerDir ⟨a, c⟩) = true := by
    obtain ⟨row, w₁, hrow, -⟩ := run_bind_ok_inv _ hrun
    rw [run_requireContainer] at hrow
    exact h.dir _ (isSome_of_container (congrArg Prod.fst hrow))
  obtain ⟨hfile, hdirs⟩ := deleteContainer_removes hremove hord hdir hrun
  rw [← hv] at hdrops hcontainers ⊢
  refine h.step (S := fun _ => False) (fun p hp => .inr (hfile p hp).1) (fun p hp => hp.elim) ?_ ?_
  · rintro p (⟨k, hk, rfl⟩ | ⟨s, hs, rfl⟩) hp
    · refine .inl ⟨k, ?_, rfl⟩
      rw [hdrops.blob, if_neg fun hk' => (hfile _ hp).2 (B.containerDir_blobFile.mpr hk')]
      exact hk
    · refine .inr ⟨s, ?_, rfl⟩
      rw [hdrops.staged, if_neg fun hs' => (hfile _ hp).2 (B.containerDir_stagedFile.mpr hs')]
      exact hs
  · intro c' hc'
    rw [hcontainers] at hc'
    obtain ⟨hne, hc'⟩ := Table.isSome_lookup_erase.mp hc'
    refine ⟨h.ordinary c' hc', hdirs _ (fun hpre => hne ?_) (h.dir c' hc')⟩
    have hlen : (B.containerDir ⟨a, c⟩).length = (B.containerDir c').length := by
      simp [FsBackend.containerDir]
    exact (B.containerDir_injective (hpre.eq_of_length hlen)).symm

/-- A call that succeeds and leaves no staged block behind. -/
lemma Accounted.of_call (h : Accounted B w) (hw : Sound B w) {call : Call} (hcall : call.Ordinary)
    (hok : ((B.call amb call).run w).1.isOk = true) (hlist : call.LeavesNoBlock w.db) :
    Accounted B ((B.call amb call).run w).2 := by
  cases call with
  | createContainer a c pa m => exact h.createContainer hcall hok
  | deleteContainer a c => exact h.deleteContainer hremove hw hcall hok
  | putBlob a c b body ct hd m => exact h.putBlob hw hcall hok
  | deleteBlob a c b => exact h.deleteBlob hremove hw hcall hok hlist
  | putBlock a c b id body => exact h.putBlock hw hcall hok
  | putBlockList a c b refs ct m => exact h.putBlockList hremove hw hcall hok hlist
  | _ => exact h.of_keepsKeys hcall trivial

end Removals

/-! ### Runs -/

lemma Accounted.serve (h : Accounted B w) (hw : Sound B w) {reqs : List Request}
    (hord : ∀ req ∈ reqs, req.call.Ordinary)
    (hremove : ∀ req ∈ reqs, ∀ p, req.amb.removeFails p = false)
    (hok : ∀ r ∈ B.answers w reqs, r.isOk = true) (hlists : LeavesNoBlocks B w reqs) :
    Accounted B (B.serve w reqs) := by
  induction reqs generalizing w with
  | nil => exact h
  | cons req reqs ih =>
    have hreq := hord req List.mem_cons_self
    have hstep := h.of_call (hremove req List.mem_cons_self) hw hreq
      (hok _ List.mem_cons_self) hlists.1
    exact ih hstep (hw.call req.amb hreq) (fun r hr => hord r (List.mem_cons_of_mem _ hr))
      (fun r hr => hremove r (List.mem_cons_of_mem _ hr))
      (fun r hr => hok r (List.mem_cons_of_mem _ hr)) hlists.2

/-- Calls that succeed one after another leave no file without a row, if no staged block is left
behind by a deletion or a block list. -/
theorem noOrphans_serve {w₀ : World} (hfresh : Fresh B w₀) {reqs : List Request}
    (hord : ∀ req ∈ reqs, req.call.Ordinary)
    (hremove : ∀ req ∈ reqs, ∀ p, req.amb.removeFails p = false)
    (hok : ∀ r ∈ B.answers w₀ reqs, r.isOk = true) (hlists : LeavesNoBlocks B w₀ reqs) :
    NoOrphans B (B.serve w₀ reqs) :=
  (hfresh.accounted.serve hfresh.sound hord hremove hok hlists).noOrphans (hfresh.sound.serve hord)

lemma leavesNoBlocks_append {reqs reqs' : List Request} (h : LeavesNoBlocks B w reqs)
    (h' : LeavesNoBlocks B (B.serve w reqs) reqs') : LeavesNoBlocks B w (reqs ++ reqs') := by
  induction reqs generalizing w with
  | nil => exact h'
  | cons req reqs ih => exact ⟨h.1, ih h.2 h'⟩

/-- A block is staged, -/
def sampleOneStaged : List Request :=
  [⟨sampleAmb 1, .createContainer "acc" "c" .off ∅⟩,
    ⟨sampleAmb 2, .putBlock "acc" "c" "b" "AAAA" [.ok [1]]⟩]

/-- and committed. -/
def sampleOneCommitted : List Request := sampleOneStaged ++
  [⟨sampleAmb 3, .putBlockList "acc" "c" "b" [⟨"AAAA", .latest⟩] none ∅⟩]

/-- The staged block is the one of the list. -/
theorem noOrphans_committed :
    NoOrphans sample (sample.serve (sample.fresh sampleAccounts) sampleOneCommitted) := by
  have hfacts : (∀ r ∈ sample.answers (sample.fresh sampleAccounts) sampleOneCommitted,
      r.isOk = true) ∧ (sample.serve (sample.fresh sampleAccounts)
        sampleOneStaged).db.stagedBlocks.keys =
      [⟨⟨"acc", "c", "b"⟩, "AAAA"⟩] := by
    decide +kernel
  refine noOrphans_serve (sample.fresh_isFresh sampleAccounts) (by decide) ?_ hfacts.1
    (leavesNoBlocks_append ⟨trivial, trivial, trivial⟩ ⟨fun id hid => ?_, trivial⟩)
  · intro req hreq p
    simp only [sampleOneCommitted, sampleOneStaged, List.cons_append, List.nil_append,
      List.mem_cons, List.not_mem_nil, or_false] at hreq
    rcases hreq with rfl | rfl | rfl <;> rfl
  · have hmem := AList.mem_keys.mp (AList.lookup_isSome.mp hid)
    rw [hfacts.2] at hmem
    simp only [List.mem_singleton, StagedBlockKey.mk.injEq, true_and] at hmem
    subst hmem
    decide

/-- A blob with a staged block is deleted. -/
def sampleAbandoned : List Request :=
  [⟨sampleAmb 1, .createContainer "acc" "c" .off ∅⟩,
    ⟨sampleAmb 2, .putBlob "acc" "c" "b" [.ok [1]] none none ∅⟩,
    ⟨sampleAmb 3, .putBlock "acc" "c" "b" "AAAA" [.ok [2]]⟩,
    ⟨sampleAmb 4, .deleteBlob "acc" "c" "b"⟩]

/-- The file of the block stays, and its row is gone. -/
theorem orphan_abandoned :
    (∀ req ∈ sampleAbandoned, req.call.Ordinary) ∧
      (∀ req ∈ sampleAbandoned, ∀ p, req.amb.removeFails p = false) ∧
      (∀ r ∈ sample.answers (sample.fresh sampleAccounts) sampleAbandoned, r.isOk = true) ∧
      ¬ NoOrphans sample (sample.serve (sample.fresh sampleAccounts) sampleAbandoned) := by
  have hfacts : (∀ r ∈ sample.answers (sample.fresh sampleAccounts) sampleAbandoned,
      r.isOk = true) ∧
      (sample.serve (sample.fresh sampleAccounts) sampleAbandoned).db.stagedBlocks = ∅ ∧
      ((sample.serve (sample.fresh sampleAccounts) sampleAbandoned).fs.file?
        (sample.stagedFile ⟨⟨"acc", "c", "b"⟩, "AAAA"⟩)).isSome = true := by
    decide +kernel
  refine ⟨by decide, fun req hreq p => ?_, hfacts.1, fun h => ?_⟩
  · simp only [sampleAbandoned, List.mem_cons, List.not_mem_nil, or_false] at hreq
    rcases hreq with rfl | rfl | rfl | rfl <;> rfl
  · have hroot : sample.root <+: sample.stagedFile ⟨⟨"acc", "c", "b"⟩, "AAAA"⟩ := by
      obtain ⟨rel, -, hpath⟩ := filePos_stagedFile (B := sample) ⟨⟨"acc", "c", "b"⟩, "AAAA"⟩
      rw [hpath]
      exact List.prefix_append _ _
    obtain ⟨b, ⟨r, hr, -⟩, -⟩ := h.blk _ hroot hfacts.2.2 (hasExt_stagedFile _)
    rw [hfacts.2.1] at hr
    cases hr

end BlobStore
