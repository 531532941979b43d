import BlobStore.Storage.Located
import BlobStore.Storage.Shelf
import BlobStore.Storage.Tidy

/-!
# Sound states and their shelves

What holds between calls that run one after another, the shelf of a state, and what it means that
a process does on a state what an operation does on its shelf. The calls that only look at rows or
change their columns are treated here.
-/

namespace BlobStore

open Codec FileTree UnixPath Resumption Proc

/-! ### Sound states -/

/-- Rows of blobs and blocks belong to containers that exist. -/
structure Owned (db : MetadataDb) : Prop where
  blob : ∀ k, (db.blobs.lookup k).isSome → (db.containers.lookup k.containerKey).isSome
  staged : ∀ b, (db.stagedBlocks.lookup b).isSome →
    (db.containers.lookup b.blob.containerKey).isSome
  committed : ∀ k, (db.committedBlocks.lookup k).isSome →
    (db.containers.lookup k.containerKey).isSome

variable (B : FsBackend)

/-- What holds between calls, apart from the paths in the rows. -/
structure Settled (w : World) : Prop where
  tidy : Tidy B.root w.fs
  owned : Owned w.db
  staged : ∀ b, (w.db.stagedBlocks.lookup b).isSome → (w.fs.file? (B.stagedFile b)).isSome

/-- What holds between calls. -/
structure Sound (w : World) : Prop extends Settled B w where
  located : Located B w.db

/-- The shelf of a state. -/
def FsBackend.shelf (w : World) : Shelf where
  db        := w.db
  content k := (w.db.blobs.lookup k).bind fun _ => w.fs.file? (B.blobFile k)
  staged b  := (w.db.stagedBlocks.lookup b).bind fun _ => w.fs.file? (B.stagedFile b)

/-- The process does what the operation says, and settles. -/
structure Refines {α : Type} (p : Store α) (op : Shelf.Op α) (w : World) : Prop where
  answer : (p.run w).1 = (op (B.shelf w)).1
  shelf : B.shelf (p.run w).2 = (op (B.shelf w)).2
  settled : Settled B (p.run w).2

variable {B} {w w' : World}

/-! ### Places of the files -/

lemma filePos_blobFile (k : BlobKey) : ∃ rel, FilePos rel ∧ B.blobFile k = B.root ++ rel :=
  ⟨_, .inl ⟨rfl, rfl⟩, List.append_assoc _ _ _⟩

lemma filePos_stagedFile (b : StagedBlockKey) :
    ∃ rel, FilePos rel ∧ B.stagedFile b = B.root ++ rel :=
  ⟨_, .inl ⟨rfl, rfl⟩, List.append_assoc _ _ _⟩

lemma filePos_tmpFile (account : String) (amb : Ambient) :
    ∃ rel, FilePos rel ∧ B.tmpFile account amb = B.root ++ rel := ⟨_, .inr ⟨rfl, rfl⟩, rfl⟩

/-! ### States with the same rows -/

lemma shelf_of_scratch {a : String} {amb : Ambient}
    (h : Scratch B.root (B.tmpFile a amb) w w') : B.shelf w' = B.shelf w := by
  ext1
  · exact h.db
  · funext k
    simp only [FsBackend.shelf, h.db, h.file _ (B.tmpFile_ne_blobFile a amb k).symm]
  · funext b
    simp only [FsBackend.shelf, h.db, h.file _ (B.tmpFile_ne_stagedFile a amb b).symm]

lemma Settled.of_scratch {a : String} {amb : Ambient} (hw : Settled B w)
    (h : Scratch B.root (B.tmpFile a amb) w w') : Settled B w' where
  tidy := h.tidy
  owned := h.db ▸ hw.owned
  staged b hb := by
    rw [h.file _ (B.tmpFile_ne_stagedFile a amb b).symm]
    exact hw.staged b (h.db ▸ hb)

lemma shelf_of_replaced_blob {a : String} {amb : Ambient} {k : BlobKey} {bytes : Bytes}
    (h : Replaced B.root (B.tmpFile a amb) (B.blobFile k) bytes w w') :
    B.shelf w' = (B.shelf w).overwrite k (some bytes) := by
  ext1
  · exact h.db
  · funext k'
    simp only [FsBackend.shelf, Shelf.overwrite, h.db,
      h.file _ (B.tmpFile_ne_blobFile a amb k').symm]
    by_cases hk : k' = k
    · subst hk
      simp
    · rw [if_neg hk, if_neg fun h' => hk (B.blobFile_injective h')]
  · funext b
    simp only [FsBackend.shelf, Shelf.overwrite, h.db,
      h.file _ (B.tmpFile_ne_stagedFile a amb b).symm,
      if_neg (B.blobFile_ne_stagedFile k b).symm]

lemma Settled.of_replaced_blob {a : String} {amb : Ambient} {k : BlobKey} {bytes : Bytes}
    (hw : Settled B w) (h : Replaced B.root (B.tmpFile a amb) (B.blobFile k) bytes w w') :
    Settled B w' where
  tidy := h.tidy
  owned := h.db ▸ hw.owned
  staged b hb := by
    rw [h.file _ (B.tmpFile_ne_stagedFile a amb b).symm,
      if_neg (B.blobFile_ne_stagedFile k b).symm]
    exact hw.staged b (h.db ▸ hb)

lemma shelf_of_replaced_staged {a : String} {amb : Ambient} {b : StagedBlockKey} {bytes : Bytes}
    (h : Replaced B.root (B.tmpFile a amb) (B.stagedFile b) bytes w w') :
    B.shelf w' = (B.shelf w).restage b bytes := by
  ext1
  · exact h.db
  · funext k
    simp only [FsBackend.shelf, Shelf.restage, h.db,
      h.file _ (B.tmpFile_ne_blobFile a amb k).symm, if_neg (B.blobFile_ne_stagedFile k b)]
  · funext b'
    simp only [FsBackend.shelf, Shelf.restage, h.db,
      h.file _ (B.tmpFile_ne_stagedFile a amb b').symm]
    by_cases hb : b' = b
    · subst hb
      cases hr : w.db.stagedBlocks.lookup b' <;> simp
    · rw [if_neg hb, if_neg fun h' => hb (B.stagedFile_injective h')]

lemma Settled.of_replaced_staged {a : String} {amb : Ambient} {b : StagedBlockKey} {bytes : Bytes}
    (hw : Settled B w) (h : Replaced B.root (B.tmpFile a amb) (B.stagedFile b) bytes w w') :
    Settled B w' where
  tidy := h.tidy
  owned := h.db ▸ hw.owned
  staged b' hb' := by
    rw [h.file _ (B.tmpFile_ne_stagedFile a amb b').symm]
    split_ifs
    · rfl
    · exact hw.staged b' (h.db ▸ hb')

/-! ### Changes of the tables -/

/-- A change of the tables that adds and deletes no row of a blob or block, and no container. -/
structure SameRows (db db' : MetadataDb) : Prop where
  blob : ∀ k, (db'.blobs.lookup k).isSome = (db.blobs.lookup k).isSome
  staged : ∀ b, (db'.stagedBlocks.lookup b).isSome = (db.stagedBlocks.lookup b).isSome
  committed : ∀ k, (db'.committedBlocks.lookup k).isSome = (db.committedBlocks.lookup k).isSome
  container : ∀ c, (db.containers.lookup c).isSome → (db'.containers.lookup c).isSome

lemma SameRows.refl (db : MetadataDb) : SameRows db db :=
  ⟨fun _ => rfl, fun _ => rfl, fun _ => rfl, fun _ h => h⟩

lemma SameRows.guarded {α : Type} {stmt : MetadataDb → Except SqlError α × MetadataDb}
    {db : MetadataDb} (h : SameRows db (stmt db).2) (fault : Option String) :
    SameRows db (MetadataDb.guarded fault stmt db).2 := by
  cases fault with
  | none => exact h
  | some message => exact .refl db

lemma SameRows.modify_container (db : MetadataDb) (c : ContainerKey)
    (f : ContainerRecord → ContainerRecord) :
    SameRows db { db with containers := Table.modify c f db.containers } :=
  ⟨fun _ => rfl, fun _ => rfl, fun _ => rfl,
    fun c' h => (Table.isSome_lookup_modify c c' f db.containers).trans h⟩

lemma SameRows.modify_blob (db : MetadataDb) (k : BlobKey) (f : BlobRow → BlobRow) :
    SameRows db { db with blobs := Table.modify k f db.blobs } :=
  ⟨fun k' => Table.isSome_lookup_modify k k' f db.blobs, fun _ => rfl, fun _ => rfl, fun _ h => h⟩

lemma SameRows.insertContainer (db : MetadataDb) (c : ContainerKey) (r : ContainerRecord) :
    SameRows db (MetadataDb.insertContainer c r db).2 := by
  unfold MetadataDb.insertContainer
  split_ifs
  · exact .refl db
  · exact .refl db
  · refine ⟨fun _ => rfl, fun _ => rfl, fun _ => rfl, fun c' h => ?_⟩
    dsimp only
    rw [Table.lookup_insert_eq]
    split_ifs
    · rfl
    · exact h

/-- What is behind a row depends on whether there is a row, not on its columns. -/
lemma bind_const_congr {α β : Type} {o o' : Option α} (h : o.isSome = o'.isSome) (x : Option β) :
    (o.bind fun _ => x) = o'.bind fun _ => x := by
  cases o <;> cases o' <;> simp_all

lemma SameRows.shelf {db : MetadataDb} (h : SameRows w.db db) :
    B.shelf { w with db := db } = { B.shelf w with db := db } := by
  ext1
  · rfl
  · funext k
    exact bind_const_congr (h.blob k) _
  · funext b
    exact bind_const_congr (h.staged b) _

lemma SameRows.settled {db : MetadataDb} (h : SameRows w.db db) (hw : Settled B w) :
    Settled B { w with db := db } where
  tidy := hw.tidy
  owned :=
    { blob := fun k hk => h.container _ (hw.owned.blob k (h.blob k ▸ hk))
      staged := fun b hb => h.container _ (hw.owned.staged b (h.staged b ▸ hb))
      committed := fun k hk => h.container _ (hw.owned.committed k (h.committed k ▸ hk)) }
  staged b hb := hw.staged b (h.staged b ▸ hb)

/-! ### Lookups -/

@[simp] lemma run_requireContainer (a c : String) (w : World) :
    run Action.exec (requireContainer a c) w = (Shelf.container ⟨a, c⟩ w.db, w) := by
  unfold requireContainer Shelf.container
  rw [run_perform_bind]
  simp only [Action.exec]
  cases w.db.getContainer ⟨a, c⟩ <;> rfl

@[simp] lemma run_requireBlob (a c b : String) (w : World) :
    run Action.exec (requireBlob a c b) w = (Shelf.blob ⟨a, c, b⟩ w.db, w) := by
  unfold requireBlob Shelf.blob
  rw [run_perform_bind]
  simp only [Action.exec]
  cases w.db.getBlob ⟨a, c, b⟩ <;> rfl

lemma Refines.map {α β : Type} {p : Store α} {op : Shelf.Op α} (h : Refines B p op w)
    (f : α → β) : Refines B (do return f (← p)) (Shelf.replying f op) w := by
  have hrun : run Action.exec (do return f (← p)) w = ((p.run w).1.map f, (p.run w).2) :=
    run_bind_pure _ rfl f
  refine ⟨?_, ?_, ?_⟩
  · rw [Store.run, hrun, h.answer]
    rfl
  · rw [Store.run, hrun, h.shelf]
    rfl
  · rw [Store.run, hrun]
    exact h.settled

/-- One way through a process and through its operation. -/
lemma Refines.of_run {α : Type} {p : Store α} {op : Shelf.Op α} {r : Except AzureError α}
    {v : World} (hrun : run Action.exec p w = (r, v)) (hop : op (B.shelf w) = (r, B.shelf v))
    (hv : Settled B v) : Refines B p op w := by
  refine ⟨?_, ?_, ?_⟩
  · rw [Store.run, hrun, hop]
  · rw [Store.run, hrun, hop]
  · rw [Store.run, hrun]
    exact hv

/-- A process that only looks. -/
lemma Refines.look {p : Store Reply} {f : Shelf → Except AzureError Reply} (hw : Settled B w)
    (hrun : p.run w = (f (B.shelf w), w)) : Refines B p (Shelf.look f) w := by
  refine ⟨?_, ?_, ?_⟩ <;> rw [hrun]
  · rfl
  · rfl
  · exact hw

/-! ### Calls on rows -/

lemma dirPos_containerDir (c : ContainerKey) :
    DirPos ["accounts", c.account, "containers", c.container] := by
  intro r hr hfile
  have hlen : r.length ≤ 4 := hr.length_le
  rcases hfile with ⟨h8, -⟩ | ⟨h4, h2⟩
  · omega
  · rw [getElem?_of_initial hr (by omega)] at h2
    exact absurd h2 (by simp)

/-- The directory of a new container can always be made. -/
lemma run_createContainerDir (hw : Settled B w) (amb : Ambient) {a c : String}
    (ha : IsComponent a) (hc : IsComponent c) :
    ∃ w', run Action.exec ((FsIo.createDirAll (UnixPath.resolve
        (PathLayout.containerRoot B.storageRoot a c))).mapErr ioError) w = (.ok (), w') ∧
      B.shelf w' = B.shelf w ∧ Settled B w' := by
  rw [B.resolve_containerRoot ha hc, FsBackend.containerDir]
  obtain ⟨w', hrun, hs, -⟩ := run_createDirAll hw.tidy (dirPos_containerDir ⟨a, c⟩)
    (B.tmpFile a amb)
  refine ⟨w', ?_, shelf_of_scratch hs, hw.of_scratch hs⟩
  rw [run_mapErr, hrun]

lemma createContainer_refines (hw : Settled B w) (amb : Ambient) {a c : String}
    (ha : IsComponent a) (hc : IsComponent c) (pa : PublicAccessLevel) (m : Metadata) :
    Refines B (B.createContainer amb a c pa m) (Shelf.createContainer amb ⟨a, c⟩ pa m) w := by
  set stmt := MetadataDb.guarded amb.dbFault (MetadataDb.insertContainer ⟨a, c⟩
    ⟨pa.asDbStr, m, amb.etag, amb.lastModified⟩) with hstmt
  have hatomic : MetadataDb.Atomic stmt := (MetadataDb.atomic_insertContainer _ _).guarded _
  have hrows : SameRows w.db (stmt w.db).2 := (SameRows.insertContainer w.db _ _).guarded _
  have hdb : (B.shelf w).db = w.db := rfl
  have hrun : ∀ f : Except SqlError Unit → Store ContainerProps, run Action.exec
      (perform (Action.insertContainer amb.dbFault ⟨a, c⟩
        ⟨pa.asDbStr, m, amb.etag, amb.lastModified⟩) >>= f) w =
      run Action.exec (f (stmt w.db).1) { w with db := (stmt w.db).2 } := fun f => rfl
  unfold FsBackend.createContainer
  rcases hg : stmt w.db with ⟨r, db⟩
  rw [hg] at hrows hrun
  cases r with
  | error e =>
    obtain rfl := hatomic _ _ _ hg
    cases e <;> refine .of_run (hrun _) ?_ hw <;>
      simp only [Shelf.createContainer, hdb, ← hstmt, hg]
  | ok _ =>
    obtain ⟨w', hdir, hshelf, hsettled⟩ :=
      run_createContainerDir (hrows.settled hw) amb ha hc
    refine .of_run ((hrun _).trans (run_bind_ok _ hdir _)) ?_ hsettled
    simp only [Shelf.createContainer, hdb, ← hstmt, hg, hshelf, hrows.shelf]

/-- A run of one of the four calls that change columns of one row. -/
lemma run_update {ρ β : Type} {amb : Ambient} {look : Store ρ}
    {row : MetadataDb → Except AzureError ρ} {st : Store (Except SqlError Unit)}
    {db : MetadataDb} (stmt : MetadataDb → Except SqlError Unit × MetadataDb)
    (hlook : ∀ w, run Action.exec look w = (row w.db, w))
    (hst : run Action.exec st w = (.ok (MetadataDb.guarded amb.dbFault stmt w.db).1,
      { w with db := (MetadataDb.guarded amb.dbFault stmt w.db).2 }))
    (hstmt : stmt w.db = (.ok (), db)) (f : ρ → β) :
    run Action.exec (do
      let _ ← look
      let res ← st
      orInternal res
      let r ← look
      pure (f r)) w =
    match row w.db, amb.dbFault with
    | .error e, _          => (.error e, w)
    | .ok _, some message  => (.error (sqlError (.other message)), w)
    | .ok _, none          => ((row db).map f, { w with db := db }) := by
  cases hrow : row w.db with
  | error e => exact run_bind_error _ ((hlook w).trans (by rw [hrow])) _
  | ok r =>
    have hlook' : run Action.exec look w = (.ok r, w) := (hlook w).trans (by rw [hrow])
    cases hfault : amb.dbFault with
    | some message =>
      rw [hfault] at hst
      rw [run_bind_ok _ hlook', run_bind_ok _ hst]
      rfl
    | none =>
      rw [hfault, MetadataDb.guarded, hstmt] at hst
      rw [run_bind_ok _ hlook', run_bind_ok _ hst]
      change run Action.exec (look >>= fun r => pure (f r)) { w with db := db } = _
      rw [run_bind, hlook]
      cases row db <;> rfl

lemma update_refines {ρ β : Type} (hw : Settled B w) {amb : Ambient} {look : Store ρ}
    {row : MetadataDb → Except AzureError ρ} {st : Store (Except SqlError Unit)}
    {db : MetadataDb} (stmt : MetadataDb → Except SqlError Unit × MetadataDb)
    (hlook : ∀ w, run Action.exec look w = (row w.db, w))
    (hst : run Action.exec st w = (.ok (MetadataDb.guarded amb.dbFault stmt w.db).1,
      { w with db := (MetadataDb.guarded amb.dbFault stmt w.db).2 }))
    (hstmt : stmt w.db = (.ok (), db)) (hrows : SameRows w.db db) (f : ρ → β) :
    Refines B (do
      let _ ← look
      let res ← st
      orInternal res
      let r ← look
      pure (f r)) (Shelf.replying f (Shelf.update amb row stmt)) w := by
  have hdb : (B.shelf w).db = w.db := rfl
  have hrun := run_update stmt hlook hst hstmt f
  cases hrow : row w.db with
  | error e =>
    rw [hrow] at hrun
    refine .of_run hrun ?_ hw
    simp only [Shelf.replying, Shelf.update, hdb, hrow]
    rfl
  | ok r =>
    cases hfault : amb.dbFault with
    | some message =>
      rw [hrow, hfault] at hrun
      refine .of_run hrun ?_ hw
      simp only [Shelf.replying, Shelf.update, hdb, hrow, hfault, MetadataDb.guarded]
      rfl
    | none =>
      rw [hrow, hfault] at hrun
      refine .of_run hrun ?_ (hrows.settled hw)
      simp only [Shelf.replying, Shelf.update, hdb, hrow, hfault, MetadataDb.guarded, hstmt,
        hrows.shelf]

/-! ### Removing what no row points at -/

lemma Removed.shelf {gone : Path → Prop} (h : Removed B.root gone w w')
    (hblob : ∀ k, (w.db.blobs.lookup k).isSome → ¬ gone (B.blobFile k))
    (hstaged : ∀ b, (w.db.stagedBlocks.lookup b).isSome → ¬ gone (B.stagedFile b)) :
    B.shelf w' = B.shelf w := by
  ext1
  · exact h.db
  · funext k
    simp only [FsBackend.shelf, h.db]
    cases hk : w.db.blobs.lookup k with
    | none => rfl
    | some row => exact h.keep (hblob k (by rw [hk]; rfl))
  · funext b
    simp only [FsBackend.shelf, h.db]
    cases hb : w.db.stagedBlocks.lookup b with
    | none => rfl
    | some r => exact h.keep (hstaged b (by rw [hb]; rfl))

lemma Removed.settled {gone : Path → Prop} (h : Removed B.root gone w w') (hw : Settled B w)
    (hstaged : ∀ b, (w.db.stagedBlocks.lookup b).isSome → ¬ gone (B.stagedFile b)) :
    Settled B w' where
  tidy := h.tidy
  owned := h.db ▸ hw.owned
  staged b hb := by
    rw [h.db] at hb
    rw [h.keep (hstaged b hb)]
    exact hw.staged b hb

end BlobStore
