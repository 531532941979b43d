import BlobStore.Lib.Resumption.Interleaving
import BlobStore.Storage.Concurrent.Protocol

/-!
# Whose bytes and whose row

At every point of a run the row of a slot was written by somebody, the owner, and the file of the
slot was put in place by somebody, the holder; both can be read off the trace, by going through its
events in order. The second half says what one step does to files, rows and phases.
-/

namespace BlobStore

open Codec FileTree UnixPath Resumption Proc

/-! ### Reading a trace -/

/-- Where the row or the file of a slot comes from: it is as it was at the start, it has been
removed, or it comes from a write. -/
inductive Source (ι : Type) where
  | start
  | gone
  | write (i : ι)
  deriving DecidableEq

/-- What an event does to the row or to the file of a slot. -/
inductive Effect where
  | none
  | put
  | drop
  deriving DecidableEq

def Source.after {ι : Type} (s : Source ι) (i : ι) : Effect → Source ι
  | .none => s
  | .put  => .write i
  | .drop => .gone

def rowEffect (x : Slot) : Event Action Action.Response → Effect
  | ⟨.upsertBlob _ k _, .ok _⟩        => if x = .blob k then .put else .none
  | ⟨.commitBlockList _ k _ _, .ok _⟩ =>
    match x with
    | .blob k' => if k' = k then .put else .none
    | .block b => if b.blob = k then .drop else .none
  | ⟨.stageBlock _ b _, .ok _⟩        => if x = .block b then .put else .none
  | ⟨.deleteBlobRow _ k, .ok _⟩       => if x = .blob k then .drop else .none
  | ⟨.deleteStagedBlocks k, _⟩        =>
    match x with
    | .blob _  => .none
    | .block b => if b.blob = k then .drop else .none
  | ⟨.deleteContainer _ c, .ok _⟩     => if x.container = c then .drop else .none
  | _                                 => .none

def fileEffect (B : FsBackend) (x : Slot) : Event Action Action.Response → Effect
  | ⟨.rename _ dst, .ok _⟩        => if dst = B.slotFile x then .put else .none
  | ⟨.removeFile false p, _⟩      => if p = B.slotFile x then .drop else .none
  | ⟨.removeDirAll keep p, .ok _⟩ =>
    if p <+: B.slotFile x ∧ keep (B.slotFile x) = false then .drop else .none
  | _                             => .none

section Reading

variable {ι : Type} (B : FsBackend) (x : Slot) (tr : Trace ι Action Action.Response)

/-- Whose row is in the slot. -/
def owner : Source ι := tr.foldl (fun s e => s.after e.1 (rowEffect x e.2)) .start

/-- Whose file is in the slot. -/
def holder : Source ι := tr.foldl (fun s e => s.after e.1 (fileEffect B x e.2)) .start

/-- The row an upsert keeps columns of, given the one at the start: rows that are deleted leave
nothing behind. -/
def base (k : BlobKey) (row : Option BlobRow) : Option BlobRow :=
  if ∃ e ∈ tr, rowEffect (.blob k) e.2 = .drop then none else row

@[simp] lemma owner_nil : owner x ([] : Trace ι Action Action.Response) = .start := rfl

@[simp] lemma holder_nil : holder B x ([] : Trace ι Action Action.Response) = .start := rfl

@[simp] lemma owner_snoc (e : ι × Event Action Action.Response) :
    owner x (tr ++ [e]) = (owner x tr).after e.1 (rowEffect x e.2) := by simp [owner]

@[simp] lemma holder_snoc (e : ι × Event Action Action.Response) :
    holder B x (tr ++ [e]) = (holder B x tr).after e.1 (fileEffect B x e.2) := by simp [holder]

end Reading

/-- The bytes an event has read from a file. -/
def openedBytes : Event Action Action.Response → Bytes
  | ⟨.openFile _, .ok bytes⟩ => bytes
  | _                        => []

/-- The bytes a process has read from files. -/
def opened (h : List (Event Action Action.Response)) : Bytes := h.flatMap openedBytes

lemma opened_snoc (h : List (Event Action Action.Response)) (ev : Event Action Action.Response) :
    opened (h ++ [ev]) = opened h ++ openedBytes ev := by simp [opened]

/-! ### What one step does -/

variable {B : FsBackend} {req : Request} {call : Call} {w : World} {φ φ' : Phase} {e : Action}

/-- A value after an effect that puts nothing. -/
def Frame {α : Type} (effect : Effect) (old new : Option α) : Prop :=
  effect = .none ∧ new = old ∨ effect = .drop ∧ new = none

lemma Frame.same {α : Type} {effect : Effect} {old : Option α} (h : effect = .none) :
    Frame effect old old := .inl ⟨h, rfl⟩

lemma Frame.ite {α : Type} {old new : Option α} {p q : Prop} [Decidable p] [Decidable q]
    (hpq : p ↔ q) (h : new = if q then none else old) :
    Frame (if p then .drop else .none) old new := by
  by_cases hq : q
  · exact .inr ⟨if_pos (hpq.mpr hq), h.trans (if_pos hq)⟩
  · exact .inl ⟨if_neg fun hp => hq (hpq.mp hp), h.trans (if_neg hq)⟩

/-- Calm actions only remove files, and none that is temporary. -/
lemma Action.Calm.file (he : e.Calm B call) (w : World) (x : Slot) :
    Frame (fileEffect B x ⟨e, (e.exec w).1⟩) (w.fs.file? (B.slotFile x))
      ((e.exec w).2.fs.file? (B.slotFile x)) := by
  cases e with
  | removeFile fails p =>
    cases fails with
    | true => exact .same rfl
    | false => exact .ite eq_comm (FsTree.file?_removeFile p _ w.fs)
  | removeDirAll keep p =>
    have hfile : (Action.exec (.removeDirAll keep p) w).2.fs.file? (B.slotFile x) = _ :=
      FsTree.file?_removeDirAll keep p (B.slotFile x) w.fs
    by_cases hdir : w.fs.isDir p = true
    · have hres : (Action.exec (.removeDirAll keep p) w).1 = .ok () := by
        simp [Action.exec, Action.onFs, FsTree.removeDirAll, hdir]
      rw [hres, hfile]
      exact .ite Iff.rfl (by simp [hdir])
    · have hres : (Action.exec (.removeDirAll keep p) w).1 = .error .notFound := by
        simp [Action.exec, Action.onFs, FsTree.removeDirAll, hdir]
      rw [hres, hfile, if_neg fun h => hdir h.1]
      exact .same rfl
  | createDirAll p => exact .inl ⟨rfl, FsTree.file?_createDirAll p _ w.fs⟩
  | upsertBlob | setBlobProperties | setBlobMetadata | stageBlock | commitBlockList
  | createFile | writeAll | rename | openFile => cases he
  | _ => exact .same rfl

lemma Action.Calm.tmp (he : e.Calm B call) (w : World) (a : String) (amb : Ambient) :
    (e.exec w).2.fs.file? (B.tmpFile a amb) = w.fs.file? (B.tmpFile a amb) := by
  cases e with
  | removeFile fails p =>
    obtain ⟨x, rfl, -⟩ := he
    cases fails with
    | true => rfl
    | false =>
      exact (FsTree.file?_removeFile _ _ w.fs).trans (if_neg (B.tmpFile_ne_slotFile a amb x))
  | removeDirAll keep p =>
    obtain ⟨c, rfl, -⟩ := he
    refine (FsTree.file?_removeDirAll keep _ _ w.fs).trans (if_neg fun h => ?_)
    exact B.tmpFile_ne_of_containerDir a amb h.2.1 rfl
  | createDirAll p => exact FsTree.file?_createDirAll p _ w.fs
  | upsertBlob | setBlobProperties | setBlobMetadata | stageBlock | commitBlockList
  | createFile | writeAll | rename | openFile => cases he
  | _ => rfl

/-- The statements that change containers alone. -/
def Action.OnContainers : Action → Prop
  | .insertContainer _ _ _ | .setContainerMetadata _ _ _ _ _ | .setContainerAcl _ _ _ _ _ => True
  | _ => False

lemma Action.OnContainers.exec (he : e.OnContainers) (w : World) :
    ∃ t, (e.exec w).2.db = { w.db with containers := t } := by
  cases e <;> try cases he
  case insertContainer fault c r =>
    cases fault with
    | some message => exact ⟨_, rfl⟩
    | none =>
      simp only [Action.exec, Action.onDb, MetadataDb.guarded, MetadataDb.insertContainer]
      split_ifs <;> exact ⟨_, rfl⟩
  case setContainerMetadata fault c m e l => cases fault <;> exact ⟨_, rfl⟩
  case setContainerAcl fault c pa e l => cases fault <;> exact ⟨_, rfl⟩

lemma Frame.of_eq {α : Type} {effect : Effect} {old new : Option α} (h : effect = .none)
    (hnew : new = old) : Frame effect old new := .inl ⟨h, hnew⟩

/-- Calm actions only delete rows of blobs. -/
lemma Action.Calm.blob (he : e.Calm B call) (w : World) (k : BlobKey) :
    Frame (rowEffect (.blob k) ⟨e, (e.exec w).1⟩) (w.db.blobs.lookup k)
      ((e.exec w).2.db.blobs.lookup k) := by
  have hsame : ∀ a : Action, a.OnContainers →
      (a.exec w).2.db.blobs.lookup k = w.db.blobs.lookup k := by
    intro a ha
    obtain ⟨t, ht⟩ := ha.exec w
    rw [ht]
  cases e with
  | deleteBlobRow fault k' =>
    cases fault with
    | some message => exact .same rfl
    | none => exact .ite (by simp) (Table.lookup_erase_eq k' k w.db.blobs)
  | deleteContainer fault c =>
    cases fault with
    | some message => exact .same rfl
    | none => exact .ite (by simp [Slot.container]) (Table.lookup_deleteWhere _ _ _)
  | insertContainer fault c r => exact .of_eq rfl (hsame (.insertContainer fault c r) trivial)
  | setContainerMetadata fault c m e l =>
    exact .of_eq rfl (hsame (.setContainerMetadata fault c m e l) trivial)
  | setContainerAcl fault c pa e l =>
    exact .of_eq rfl (hsame (.setContainerAcl fault c pa e l) trivial)
  | removeFile fails p =>
    rw [Action.IsFs.exec_db (a := .removeFile fails p) trivial]
    exact .same rfl
  | upsertBlob | setBlobProperties | setBlobMetadata | stageBlock | commitBlockList
  | createFile | writeAll | rename | openFile => cases he
  | _ => exact .same rfl

/-- Calm actions only delete rows of staged blocks. -/
lemma Action.Calm.block (he : e.Calm B call) (w : World) (b : StagedBlockKey) :
    Frame (rowEffect (.block b) ⟨e, (e.exec w).1⟩) (w.db.stagedBlocks.lookup b)
      ((e.exec w).2.db.stagedBlocks.lookup b) := by
  have hsame : ∀ a : Action, a.OnContainers →
      (a.exec w).2.db.stagedBlocks.lookup b = w.db.stagedBlocks.lookup b := by
    intro a ha
    obtain ⟨t, ht⟩ := ha.exec w
    rw [ht]
  cases e with
  | deleteBlobRow fault k => cases fault <;> exact .same rfl
  | deleteStagedBlocks k => exact .ite (by simp) (Table.lookup_deleteWhere _ _ _)
  | deleteContainer fault c =>
    cases fault with
    | some message => exact .same rfl
    | none => exact .ite (by simp [Slot.container]) (Table.lookup_deleteWhere _ _ _)
  | insertContainer fault c r => exact .of_eq rfl (hsame (.insertContainer fault c r) trivial)
  | setContainerMetadata fault c m e l =>
    exact .of_eq rfl (hsame (.setContainerMetadata fault c m e l) trivial)
  | setContainerAcl fault c pa e l =>
    exact .of_eq rfl (hsame (.setContainerAcl fault c pa e l) trivial)
  | removeFile fails p =>
    rw [Action.IsFs.exec_db (a := .removeFile fails p) trivial]
    exact .same rfl
  | upsertBlob | setBlobProperties | setBlobMetadata | stageBlock | commitBlockList
  | createFile | writeAll | rename | openFile => cases he
  | _ => exact .same rfl

/-- A rename moves the temporary file onto a slot, or does nothing. -/
lemma exec_rename (req : Request) (x : Slot) (w : World) :
    (∃ er, (Action.exec (.rename (req.tmp B) (B.slotFile x)) w).1 = .error er ∧
      (Action.exec (.rename (req.tmp B) (B.slotFile x)) w).2 = w) ∨
    ((Action.exec (.rename (req.tmp B) (B.slotFile x)) w).1 = .ok () ∧
      (Action.exec (.rename (req.tmp B) (B.slotFile x)) w).2.db = w.db ∧
      ∀ q, (Action.exec (.rename (req.tmp B) (B.slotFile x)) w).2.fs.file? q =
        if q = B.slotFile x then w.fs.file? (req.tmp B)
        else if q = req.tmp B then none else w.fs.file? q) := by
  cases hres : (FsTree.rename (req.tmp B) (B.slotFile x) w.fs).1 with
  | error er =>
    refine .inl ⟨er, hres, ?_⟩
    simp only [Action.exec, Action.onFs, FsTree.rename_of_error hres]
  | ok u => exact .inr ⟨hres, rfl, FsTree.file?_rename_of_ok hres⟩

/-- A step leaves the file of a slot, removes it, or moves the temporary file there. -/
lemma Step.file (h : Step B req φ ⟨e, (e.exec w).1⟩ φ')
    (htmp : ∀ o c, φ = .filling o c → w.fs.file? (req.tmp B) = some c) (x : Slot) :
    Frame (fileEffect B x ⟨e, (e.exec w).1⟩) (w.fs.file? (B.slotFile x))
        ((e.exec w).2.fs.file? (B.slotFile x)) ∨
      (fileEffect B x ⟨e, (e.exec w).1⟩ = .put ∧ req.call.slot = some x ∧
        ∃ o c, φ = .filling o c ∧ req.call.bytes o = some c ∧ φ' = .renamed c ∧
          (e.exec w).2.fs.file? (B.slotFile x) = some c) := by
  have hne : B.slotFile x ≠ req.tmp B := (req.tmp_ne_slotFile B x).symm
  cases h with
  | calm he => exact .inl (he.file w x)
  | look hreq => exact .inl (.same rfl)
  | read => exact .inl (.same rfl)
  | create =>
    refine .inl (.of_eq rfl ?_)
    cases hres : (FsTree.createFile (req.tmp B) w.fs).1 with
    | error er => exact congrArg (·.file? (B.slotFile x)) (FsTree.createFile_of_error hres)
    | ok u => exact (FsTree.file?_createFile_of_ok hres _).trans (if_neg hne)
  | write => exact .inl (.of_eq rfl (FsTree.file?_write_ne hne _ w.fs))
  | @rename o c y r hy hc =>
    rcases exec_rename (B := B) req y w with ⟨er, hres, hw⟩ | ⟨hres, -, hfile⟩
    · rw [hres, hw]
      exact .inl (.same rfl)
    · rw [hres, hfile]
      by_cases hxy : x = y
      · subst hxy
        refine .inr ⟨if_pos rfl, hy, o, c, rfl, hc, rfl, ?_⟩
        rw [if_pos rfl, htmp o c rfl]
      · have hfne : B.slotFile x ≠ B.slotFile y := fun h => hxy (B.slotFile_injective h)
        rw [if_neg hfne, if_neg hne]
        exact .inl (.same (if_neg hfne.symm))
  | @reject c fails y r hy =>
    cases fails with
    | true => exact .inl (.same rfl)
    | false => exact .inl (.ite eq_comm (FsTree.file?_removeFile _ _ w.fs))
  | upsert hu => exact .inl (.same rfl)
  | commit hu hd => exact .inl (.same rfl)
  | stage hs => exact .inl (.same rfl)

/-- Temporary files of other requests are left alone. -/
lemma Step.tmp_ne (h : Step B req φ ⟨e, (e.exec w).1⟩ φ') {req' : Request}
    (hne : req'.tmp B ≠ req.tmp B) :
    (e.exec w).2.fs.file? (req'.tmp B) = w.fs.file? (req'.tmp B) := by
  cases h with
  | calm he => exact he.tmp w _ _
  | create =>
    cases hres : (FsTree.createFile (req.tmp B) w.fs).1 with
    | error er => exact congrArg (·.file? (req'.tmp B)) (FsTree.createFile_of_error hres)
    | ok u => exact (FsTree.file?_createFile_of_ok hres _).trans (if_neg hne)
  | write => exact FsTree.file?_write_ne hne _ w.fs
  | @rename o c y r hy hc =>
    rcases exec_rename (B := B) req y w with ⟨er, -, hw⟩ | ⟨-, -, hfile⟩
    · rw [hw]
    · rw [hfile, if_neg (req'.tmp_ne_slotFile B y), if_neg hne]
  | @reject c fails y r hy =>
    cases fails with
    | true => rfl
    | false => exact (FsTree.file?_removeFile _ _ w.fs).trans (if_neg (req'.tmp_ne_slotFile B y))
  | _ => rfl

/-- A request that fills its temporary file finds there what it wrote. -/
lemma Step.tmp_self (h : Step B req φ ⟨e, (e.exec w).1⟩ φ')
    (htmp : ∀ o c, φ = .filling o c → w.fs.file? (req.tmp B) = some c) {o c : Bytes}
    (hφ' : φ' = .filling o c) : (e.exec w).2.fs.file? (req.tmp B) = some c := by
  cases h with
  | calm he =>
    rw [← htmp o c hφ']
    exact he.tmp w _ _
  | look hreq => exact htmp o c hφ'
  | @read o' c' p r =>
    refine htmp o' c (?_ : Phase.filling o' c' = _)
    revert hφ'
    cases (Action.exec (.openFile p) w).1 <;> rintro ⟨⟩ <;> rfl
  | create =>
    cases hres : (FsTree.createFile (req.tmp B) w.fs).1 with
    | error er =>
      have hres' : (Action.exec (.createFile (req.tmp B)) w).1 = .error er := hres
      rw [hres'] at hφ'
      cases hφ'
    | ok u =>
      have hres' : (Action.exec (.createFile (req.tmp B)) w).1 = .ok u := hres
      rw [hres'] at hφ'
      cases hφ'
      exact (FsTree.file?_createFile_of_ok hres _).trans (if_pos rfl)
  | @write o' c' b r =>
    cases hφ'
    exact (FsTree.file?_write (htmp _ _ rfl) b _).trans (if_pos rfl)
  | @rename o' c' y r hy hc =>
    rcases exec_rename (B := B) req y w with ⟨er, hres, hw⟩ | ⟨hres, -, -⟩
    · rw [hres] at hφ'
      cases hφ'
      rw [hw]
      exact htmp _ _ rfl
    · rw [hres] at hφ'
      cases hφ'
  | reject hx => cases hφ'
  | @upsert c' f k u r hu =>
    cases hres : (Action.exec (.upsertBlob f k u) w).1 <;> rw [hres] at hφ' <;> cases hφ'
  | @commit c' f k u resolved r hu hd =>
    cases hres : (Action.exec (.commitBlockList f k resolved u) w).1 <;> rw [hres] at hφ' <;>
      cases hφ'
  | @stage c' f b s r hs =>
    cases hres : (Action.exec (.stageBlock f b s) w).1 <;> rw [hres] at hφ' <;> cases hφ'

/-- An upsert fails without a trace, or leaves its row. -/
lemma upsertBlob_cases (k : BlobKey) (u : BlobUpsert) (db : MetadataDb) :
    (∃ er, MetadataDb.upsertBlob k u db = (.error er, db)) ∨
      MetadataDb.upsertBlob k u db = (.ok (), { db with
        blobs := db.blobs.insert k (MetadataDb.upsertedRow k u (db.blobs.lookup k)) }) := by
  unfold MetadataDb.upsertBlob
  split_ifs
  · exact .inl ⟨_, rfl⟩
  · exact .inr rfl

lemma exec_upsertBlob (f : Option String) (k : BlobKey) (u : BlobUpsert) (w : World) :
    (∃ er, Action.exec (.upsertBlob f k u) w = (.error er, w)) ∨
      Action.exec (.upsertBlob f k u) w = (.ok (), { w with db := { w.db with
        blobs := w.db.blobs.insert k (MetadataDb.upsertedRow k u (w.db.blobs.lookup k)) } }) := by
  cases f with
  | some message => exact .inl ⟨_, rfl⟩
  | none =>
    simp only [Action.exec, Action.onDb, MetadataDb.guarded]
    rcases upsertBlob_cases k u w.db with ⟨er, h⟩ | h <;> rw [h]
    · exact .inl ⟨er, rfl⟩
    · exact .inr rfl

lemma exec_commitBlockList (f : Option String) (k : BlobKey) (resolved : List CommittedBlock)
    (u : BlobUpsert) (w : World) :
    (∃ er, Action.exec (.commitBlockList f k resolved u) w = (.error er, w)) ∨
      Action.exec (.commitBlockList f k resolved u) w = (.ok (), { w with db := { w.db with
        blobs := w.db.blobs.insert k (MetadataDb.upsertedRow k u (w.db.blobs.lookup k))
        committedBlocks := w.db.committedBlocks.insert k resolved
        stagedBlocks := w.db.stagedBlocks.deleteWhere fun s => s.blob = k } }) := by
  cases f with
  | some message => exact .inl ⟨_, rfl⟩
  | none =>
    simp only [Action.exec, Action.onDb, MetadataDb.guarded, MetadataDb.commitBlockList]
    rcases upsertBlob_cases k u w.db with ⟨er, h⟩ | h <;> rw [h]
    · exact .inl ⟨er, rfl⟩
    · exact .inr rfl

/-- A step leaves the row of a blob, deletes it, or records what has been renamed. -/
lemma Step.blob (h : Step B req φ ⟨e, (e.exec w).1⟩ φ') (k : BlobKey) :
    Frame (rowEffect (.blob k) ⟨e, (e.exec w).1⟩) (w.db.blobs.lookup k)
        ((e.exec w).2.db.blobs.lookup k) ∨
      (rowEffect (.blob k) ⟨e, (e.exec w).1⟩ = .put ∧
        ∃ c u, φ = .renamed c ∧ φ' = .recorded c ∧ req.blobRow B c = some (k, u) ∧
          (e.exec w).2.db.blobs.lookup k =
            some (MetadataDb.upsertedRow k u (w.db.blobs.lookup k))) := by
  cases h with
  | calm he => exact .inl (he.blob w k)
  | @upsert c f k' u r hu =>
    rcases exec_upsertBlob f k' u w with ⟨er, hres⟩ | hres <;> rw [hres]
    · exact .inl (.same rfl)
    · by_cases hk : k = k'
      · subst hk
        exact .inr ⟨if_pos rfl, c, u, rfl, rfl, hu, AList.lookup_insert _⟩
      · exact .inl (.of_eq (if_neg fun h => hk (Slot.blob.inj h)) (AList.lookup_insert_ne hk))
  | @commit c f k' u resolved r hu hd =>
    rcases exec_commitBlockList f k' resolved u w with ⟨er, hres⟩ | hres <;> rw [hres]
    · exact .inl (.same rfl)
    · by_cases hk : k = k'
      · subst hk
        exact .inr ⟨if_pos rfl, c, u, rfl, rfl, hu, AList.lookup_insert _⟩
      · exact .inl (.of_eq (if_neg hk) (AList.lookup_insert_ne hk))
  | @stage c f b s r hs => cases f <;> exact .inl (.same rfl)
  | @rename o c y r hy hc =>
    rcases exec_rename (B := B) req y w with ⟨er, hres, hw⟩ | ⟨hres, hdb, -⟩
    · rw [hres, hw]
      exact .inl (.same rfl)
    · rw [hres, hdb]
      exact .inl (.same rfl)
  | @reject c fails y r hy =>
    rw [Action.IsFs.exec_db (a := .removeFile fails (B.slotFile y)) trivial]
    exact .inl (.same rfl)
  | _ => exact .inl (.same rfl)

/-- The same for the row of a staged block. -/
lemma Step.block (h : Step B req φ ⟨e, (e.exec w).1⟩ φ') (b : StagedBlockKey) :
    Frame (rowEffect (.block b) ⟨e, (e.exec w).1⟩) (w.db.stagedBlocks.lookup b)
        ((e.exec w).2.db.stagedBlocks.lookup b) ∨
      (rowEffect (.block b) ⟨e, (e.exec w).1⟩ = .put ∧
        ∃ c s, φ = .renamed c ∧ φ' = .recorded c ∧ req.blockRow B c = some (b, s) ∧
          (e.exec w).2.db.stagedBlocks.lookup b = some s) := by
  cases h with
  | calm he => exact .inl (he.block w b)
  | @upsert c f k u r hu =>
    rcases exec_upsertBlob f k u w with ⟨er, hres⟩ | hres <;> rw [hres]
    · exact .inl (.same rfl)
    · exact .inl (.of_eq (by simp [rowEffect]) rfl)
  | @commit c f k u resolved r hu hd =>
    rcases exec_commitBlockList f k resolved u w with ⟨er, hres⟩ | hres <;> rw [hres]
    · exact .inl (.same rfl)
    · exact .inl (.ite (by simp) (Table.lookup_deleteWhere _ _ _))
  | @stage c f b' s r hs =>
    cases f with
    | some message => exact .inl (.same rfl)
    | none =>
      by_cases hb : b = b'
      · subst hb
        exact .inr ⟨if_pos rfl, c, s, rfl, rfl, hs, AList.lookup_insert _⟩
      · exact .inl (.of_eq (if_neg fun h => hb (Slot.block.inj h)) (AList.lookup_insert_ne hb))
  | @rename o c y r hy hc =>
    rcases exec_rename (B := B) req y w with ⟨er, hres, hw⟩ | ⟨hres, hdb, -⟩
    · rw [hres, hw]
      exact .inl (.same rfl)
    · rw [hres, hdb]
      exact .inl (.same rfl)
  | @reject c fails y r hy =>
    rw [Action.IsFs.exec_db (a := .removeFile fails (B.slotFile y)) trivial]
    exact .inl (.same rfl)
  | _ => exact .inl (.same rfl)

/-! ### Tidiness -/

lemma Action.Calm.tidy (he : e.Calm B call) (ht : Tidy B.root w.fs) :
    Tidy B.root (e.exec w).2.fs := by
  cases e with
  | createDirAll p =>
    obtain ⟨rel, hrel, rfl⟩ := he
    exact (ht.createDirAll hrel).2
  | removeFile fails p =>
    obtain ⟨x, rfl, -⟩ := he
    obtain ⟨rel, hrel, hx⟩ := B.filePos_slotFile x
    rw [hx]
    cases fails with
    | true => exact ht
    | false => exact ht.removeFile hrel
  | removeDirAll keep p => exact ht.removeDirAll keep p
  | upsertBlob | setBlobProperties | setBlobMetadata | stageBlock | commitBlockList
  | createFile | writeAll | rename | openFile => cases he
  | _ => exact ht

/-- Every step keeps files and directories apart. -/
lemma Step.tidy (h : Step B req φ ⟨e, (e.exec w).1⟩ φ') (ht : Tidy B.root w.fs) :
    Tidy B.root (e.exec w).2.fs := by
  obtain ⟨tmp, htmp, heq⟩ := filePos_tmpFile (B := B) req.call.account req.amb
  rw [← Request.tmp] at heq
  cases h with
  | calm he => exact he.tidy ht
  | create =>
    rw [heq]
    exact ht.createFile htmp
  | write =>
    rw [heq]
    exact ht.write htmp _
  | @rename o c y r hy hc =>
    obtain ⟨rel, hrel, hy⟩ := B.filePos_slotFile y
    rw [heq, hy]
    exact ht.rename htmp hrel
  | @reject c fails y r hy =>
    obtain ⟨rel, hrel, hy⟩ := B.filePos_slotFile y
    rw [hy]
    cases fails with
    | true => exact ht
    | false => exact ht.removeFile hrel
  | _ => exact ht

/-! ### Phases along a step -/

lemma slot_of_blobRow {c : Bytes} {k : BlobKey} {u : BlobUpsert}
    (h : req.blobRow B c = some (k, u)) : req.call.slot = some (.blob k) := by
  unfold Request.blobRow at h
  unfold Call.slot
  split at h <;> cases h
  all_goals rename_i hcall; rw [hcall]

lemma slot_of_blockRow {c : Bytes} {b : StagedBlockKey} {s : StagedBlockRecord}
    (h : req.blockRow B c = some (b, s)) : req.call.slot = some (.block b) := by
  unfold Request.blockRow at h
  unfold Call.slot
  split at h <;> cases h
  rename_i hcall
  rw [hcall]

lemma blockSize_of_blockRow {c : Bytes} {b : StagedBlockKey} {s : StagedBlockRecord}
    (h : req.blockRow B c = some (b, s)) : s.blockSize = c.length := by
  unfold Request.blockRow at h
  split at h <;> cases h
  rfl

lemma Action.Calm.openedBytes (he : e.Calm B call) (r : e.Response) : openedBytes ⟨e, r⟩ = [] := by
  cases e <;> first | rfl | cases he

namespace Phase

/-- The content a write has put in place. -/
def content? : Phase → Option Bytes
  | renamed c | rejected c | recorded c => some c
  | _                                   => none

/-- The write has put its file in place. -/
def published (φ : Phase) : Bool := φ.content?.isSome

/-- The bytes read so far, while more can be read. -/
def opened? : Phase → Option Bytes
  | start       => some []
  | filling o _ => some o
  | _           => none

end Phase

/-- Once a write has put its file in place it reads no more. -/
lemma Step.published (h : Step B req φ ⟨e, (e.exec w).1⟩ φ') (hφ : φ.published = true) :
    φ'.published = true ∧ (req.call.slot.isSome → openedBytes ⟨e, (e.exec w).1⟩ = []) := by
  cases h with
  | calm he => exact ⟨hφ, fun _ => he.openedBytes _⟩
  | look hreq => exact ⟨hφ, fun h => by simp [hreq] at h⟩
  | reject hx => exact ⟨rfl, fun _ => rfl⟩
  | @upsert c f k u r hu =>
    cases (Action.exec (.upsertBlob f k u) w).1 <;> exact ⟨rfl, fun _ => rfl⟩
  | @commit c f k u resolved r hu hd =>
    cases (Action.exec (.commitBlockList f k resolved u) w).1 <;> exact ⟨rfl, fun _ => rfl⟩
  | @stage c f b s r hs =>
    cases (Action.exec (.stageBlock f b s) w).1 <;> exact ⟨rfl, fun _ => rfl⟩
  | _ => cases hφ

/-- Before that, the phase remembers what has been read. -/
lemma Step.opened (h : Step B req φ ⟨e, (e.exec w).1⟩ φ') (hreq : req.call.slot.isSome)
    {o' : Bytes} (ho' : φ'.opened? = some o') :
    ∃ o, φ.opened? = some o ∧ o' = o ++ openedBytes ⟨e, (e.exec w).1⟩ := by
  cases h with
  | calm he => exact ⟨o', ho', by rw [he.openedBytes, List.append_nil]⟩
  | look h => simp [h] at hreq
  | reject hx => cases ho'
  | @read o c p r =>
    refine ⟨o, rfl, ?_⟩
    revert ho'
    cases (Action.exec (.openFile p) w).1 <;> rintro ⟨⟩ <;> simp [openedBytes]
  | create =>
    revert ho'
    cases (Action.exec (.createFile (req.tmp B)) w).1 <;> rintro ⟨⟩ <;> exact ⟨[], rfl, rfl⟩
  | write => exact ⟨o', ho', (List.append_nil _).symm⟩
  | @rename o c y r hy hc =>
    revert ho'
    cases (Action.exec (.rename (req.tmp B) (B.slotFile y)) w).1 <;> rintro ⟨⟩
    exact ⟨_, rfl, (List.append_nil _).symm⟩
  | @upsert c f k u r hu =>
    revert ho'
    cases (Action.exec (.upsertBlob f k u) w).1 <;> rintro ⟨⟩
  | @commit c f k u resolved r hu hd =>
    revert ho'
    cases (Action.exec (.commitBlockList f k resolved u) w).1 <;> rintro ⟨⟩
  | @stage c f b s r hs =>
    revert ho'
    cases (Action.exec (.stageBlock f b s) w).1 <;> rintro ⟨⟩

/-- The content a write has put in place is the one it was to write. -/
lemma Step.content (h : Step B req φ ⟨e, (e.exec w).1⟩ φ') {c : Bytes}
    (hφ' : φ'.content? = some c) :
    φ.content? = some c ∨ ∃ o, φ = .filling o c ∧ req.call.bytes o = some c ∧
      openedBytes ⟨e, (e.exec w).1⟩ = [] := by
  cases h with
  | calm he => exact .inl hφ'
  | look hreq => exact .inl hφ'
  | reject hx => exact .inl hφ'
  | @read o c' p r =>
    revert hφ'
    cases (Action.exec (.openFile p) w).1 <;> rintro ⟨⟩
  | create =>
    revert hφ'
    cases (Action.exec (.createFile (req.tmp B)) w).1 <;> rintro ⟨⟩
  | write => cases hφ'
  | @rename o c' y r hy hc =>
    revert hφ'
    cases (Action.exec (.rename (req.tmp B) (B.slotFile y)) w).1 <;> rintro ⟨⟩
    exact .inr ⟨o, rfl, hc, rfl⟩
  | @upsert c' f k u r hu =>
    revert hφ'
    cases (Action.exec (.upsertBlob f k u) w).1 <;> exact .inl
  | @commit c' f k u resolved r hu hd =>
    revert hφ'
    cases (Action.exec (.commitBlockList f k resolved u) w).1 <;> exact .inl
  | @stage c' f b s r hs =>
    revert hφ'
    cases (Action.exec (.stageBlock f b s) w).1 <;> exact .inl

/-- A write is recorded by an effect on its row. -/
lemma Step.noted (h : Step B req φ ⟨e, (e.exec w).1⟩ φ') {c : Bytes} (hφ' : φ' = .recorded c) :
    φ = .recorded c ∨ φ = .renamed c ∧ ∀ x, req.call.slot = some x →
      rowEffect x ⟨e, (e.exec w).1⟩ = .put ∧ fileEffect B x ⟨e, (e.exec w).1⟩ = .none := by
  cases h with
  | calm he => exact .inl hφ'
  | look hreq => exact .inl hφ'
  | reject hx => cases hφ'
  | @upsert c' f k u r hu =>
    revert hφ'
    cases (Action.exec (.upsertBlob f k u) w).1 <;> rintro ⟨⟩
    refine .inr ⟨rfl, fun x hx => ?_⟩
    rw [slot_of_blobRow hu] at hx
    cases hx
    exact ⟨if_pos rfl, rfl⟩
  | @commit c' f k u resolved r hu hd =>
    revert hφ'
    cases (Action.exec (.commitBlockList f k resolved u) w).1 <;> rintro ⟨⟩
    refine .inr ⟨rfl, fun x hx => ?_⟩
    rw [slot_of_blobRow hu] at hx
    cases hx
    exact ⟨if_pos rfl, rfl⟩
  | @stage c' f b s r hs =>
    revert hφ'
    cases (Action.exec (.stageBlock f b s) w).1 <;> rintro ⟨⟩
    refine .inr ⟨rfl, fun x hx => ?_⟩
    rw [slot_of_blockRow hs] at hx
    cases hx
    exact ⟨if_pos rfl, rfl⟩
  | @read o c' p r =>
    revert hφ'
    cases (Action.exec (.openFile p) w).1 <;> rintro ⟨⟩
  | create =>
    revert hφ'
    cases (Action.exec (.createFile (req.tmp B)) w).1 <;> rintro ⟨⟩
  | write => cases hφ'
  | @rename o c' y r hy hc =>
    revert hφ'
    cases (Action.exec (.rename (req.tmp B) (B.slotFile y)) w).1 <;> rintro ⟨⟩

/-- Only two kinds of statement drop rows of blobs. -/
lemma rowEffect_drop {k : BlobKey} {ev : Event Action Action.Response}
    (h : rowEffect (.blob k) ev = .drop) :
    (∃ f k', ev.1 = .deleteBlobRow f k') ∨ ∃ f c, ev.1 = .deleteContainer f c := by
  unfold rowEffect at h
  split at h
  case h_4 => exact .inl ⟨_, _, rfl⟩
  case h_6 => exact .inr ⟨_, _, rfl⟩
  case h_1 | h_2 =>
    simp only [Slot.blob.injEq] at h
    split_ifs at h
  all_goals simp at h

/-- Only calls that delete drop rows of blobs. -/
lemma Step.deletes (h : Step B req φ ⟨e, (e.exec w).1⟩ φ') {k : BlobKey}
    (hdrop : rowEffect (.blob k) ⟨e, (e.exec w).1⟩ = .drop) : req.call.deletes = true := by
  rcases rowEffect_drop hdrop with ⟨f, k', rfl⟩ | ⟨f, c, rfl⟩ <;> cases h with
  | calm he => exact he.1

/-- A write that has put its file in place has left an effect on it. -/
lemma Step.placed (h : Step B req φ ⟨e, (e.exec w).1⟩ φ') (hφ' : φ'.published = true) :
    φ.published = true ∨ ∀ x, req.call.slot = some x →
      fileEffect B x ⟨e, (e.exec w).1⟩ = .put := by
  cases h with
  | calm he => exact .inl hφ'
  | look hreq => exact .inl hφ'
  | reject hx => exact .inl rfl
  | @read o c p r =>
    revert hφ'
    cases (Action.exec (.openFile p) w).1 <;> rintro ⟨⟩
  | create =>
    revert hφ'
    cases (Action.exec (.createFile (req.tmp B)) w).1 <;> rintro ⟨⟩
  | write => cases hφ'
  | @rename o c y r hy hc =>
    revert hφ'
    cases (Action.exec (.rename (req.tmp B) (B.slotFile y)) w).1 <;> rintro ⟨⟩
    refine .inr fun x hx => ?_
    rw [hy] at hx
    cases hx
    exact if_pos rfl
  | upsert hu => exact .inl rfl
  | commit hu hd => exact .inl rfl
  | stage hs => exact .inl rfl

/-- A write that is recorded stays so. -/
lemma Step.recorded {ev : Event Action Action.Response} (h : Step B req φ ev φ') {c : Bytes}
    (hφ : φ = .recorded c) : φ' = .recorded c := by
  cases h with
  | calm he => exact hφ
  | look hreq => exact hφ
  | _ => cases hφ

/-- A row that is put is the one of a write that is now recorded. -/
lemma Step.put (h : Step B req φ ⟨e, (e.exec w).1⟩ φ') {x : Slot}
    (hput : rowEffect x ⟨e, (e.exec w).1⟩ = .put) : ∃ c, φ' = .recorded c := by
  cases x with
  | blob k =>
    rcases h.blob k with hframe | ⟨-, c, u, -, hφ', -⟩
    · rcases hframe with ⟨hnone, -⟩ | ⟨hdrop, -⟩
      · cases hput.symm.trans hnone
      · cases hput.symm.trans hdrop
    · exact ⟨c, hφ'⟩
  | block b =>
    rcases h.block b with hframe | ⟨-, c, s, -, hφ', -⟩
    · rcases hframe with ⟨hnone, -⟩ | ⟨hdrop, -⟩
      · cases hput.symm.trans hnone
      · cases hput.symm.trans hdrop
    · exact ⟨c, hφ'⟩

/-! ### Slots that are left alone -/

/-- The event changes neither the row nor the file of a slot. -/
def Idle (B : FsBackend) (x : Slot) (ev : Event Action Action.Response) : Prop :=
  rowEffect x ev = .none ∧ fileEffect B x ev = .none

lemma Action.Calm.idle (he : e.Calm B call) {x : Slot} (hx : ¬ call.disturbs x) (r : e.Response) :
    Idle B x ⟨e, r⟩ := by
  have hne : ∀ y, call.disturbs y → x ≠ y := fun y hy h => hx (h ▸ hy)
  cases e with
  | removeFile fails p =>
    obtain ⟨y, rfl, hy⟩ := he
    refine ⟨rfl, ?_⟩
    cases fails with
    | true => rfl
    | false => exact if_neg fun h => hne y hy (B.slotFile_injective h).symm
  | removeDirAll keep p =>
    obtain ⟨c, rfl, hc⟩ := he
    refine ⟨rfl, ?_⟩
    cases r with
    | error er => rfl
    | ok u => exact if_neg fun h => hx (hc x (FsBackend.containerDir_slotFile.mp h.1))
  | deleteBlobRow f k =>
    refine ⟨?_, rfl⟩
    cases r with
    | error er => rfl
    | ok u => exact if_neg (hne _ he.2)
  | deleteStagedBlocks k =>
    refine ⟨?_, rfl⟩
    cases x with
    | blob k' => rfl
    | block b =>
      refine if_neg fun h => hx ?_
      rw [← h] at he
      exact he.2 b.blockId
  | deleteContainer f c =>
    refine ⟨?_, rfl⟩
    cases r with
    | error er => rfl
    | ok u => exact if_neg fun h => hx (he.2 x h)
  | upsertBlob | setBlobProperties | setBlobMetadata | stageBlock | commitBlockList
  | createFile | writeAll | rename | openFile => cases he
  | _ => exact ⟨rfl, rfl⟩

/-- A step leaves a slot alone that the call does not disturb, unless it is the slot the call writes
to and the write is not yet over. -/
lemma Step.idle {ev : Event Action Action.Response} (h : Step B req φ ev φ') {x : Slot}
    (hx : ¬ req.call.disturbs x) (hslot : req.call.slot = some x → ∃ c, φ = .recorded c) :
    Idle B x ev := by
  have hne : ∀ y, req.call.slot = some y → (∀ c, φ ≠ .recorded c) → x ≠ y := by
    rintro y hy hφ rfl
    obtain ⟨c, hc⟩ := hslot hy
    exact hφ c hc
  cases h with
  | calm he => exact he.idle hx _
  | look hreq => exact ⟨rfl, rfl⟩
  | read => exact ⟨rfl, rfl⟩
  | create => exact ⟨rfl, rfl⟩
  | write => exact ⟨rfl, rfl⟩
  | @rename o c y r hy hc =>
    refine ⟨rfl, ?_⟩
    cases r with
    | error er => rfl
    | ok u => exact if_neg fun h => hne y hy nofun (B.slotFile_injective h).symm
  | @reject c fails y r hy =>
    refine ⟨rfl, ?_⟩
    cases fails with
    | true => rfl
    | false => exact if_neg fun h => hne y hy nofun (B.slotFile_injective h).symm
  | @upsert c f k u r hu =>
    refine ⟨?_, rfl⟩
    cases r with
    | error er => rfl
    | ok u => exact if_neg (hne _ (slot_of_blobRow hu) nofun)
  | @commit c f k u resolved r hu hd =>
    refine ⟨?_, rfl⟩
    cases r with
    | error er => rfl
    | ok u =>
      cases x with
      | blob k' => exact if_neg fun h => hne _ (slot_of_blobRow hu) nofun (congrArg Slot.blob h)
      | block b =>
        refine if_neg fun h => hx ?_
        rw [← h] at hd
        exact hd b.blockId
  | @stage c f b s r hs =>
    refine ⟨?_, rfl⟩
    cases r with
    | error er => rfl
    | ok u => exact if_neg (hne _ (slot_of_blockRow hs) nofun)

/-- How a write has come to have its file in place and nothing more. -/
lemma Step.renamed (h : Step B req φ ⟨e, (e.exec w).1⟩ φ') {c : Bytes} (hφ' : φ' = .renamed c)
    {x : Slot} (hx : req.call.slot = some x) :
    φ = .renamed c ∧ fileEffect B x ⟨e, (e.exec w).1⟩ = .none ∨
      fileEffect B x ⟨e, (e.exec w).1⟩ = .put := by
  cases h with
  | calm he => exact .inl ⟨hφ', (he.idle (Call.not_disturbs_of_slot hx) _).2⟩
  | look hreq => cases hreq.symm.trans hx
  | reject hx => cases hφ'
  | @read o c' p r =>
    revert hφ'
    cases (Action.exec (.openFile p) w).1 <;> rintro ⟨⟩
  | create =>
    revert hφ'
    cases (Action.exec (.createFile (req.tmp B)) w).1 <;> rintro ⟨⟩
  | write => cases hφ'
  | @rename o c' y r hy hc =>
    revert hφ'
    cases (Action.exec (.rename (req.tmp B) (B.slotFile y)) w).1 <;> rintro ⟨⟩
    cases hy.symm.trans hx
    exact .inr (if_pos rfl)
  | @upsert c' f k u r hu =>
    revert hφ'
    cases (Action.exec (.upsertBlob f k u) w).1 <;> rintro ⟨⟩
    exact .inl ⟨rfl, rfl⟩
  | @commit c' f k u resolved r hu hd =>
    revert hφ'
    cases (Action.exec (.commitBlockList f k resolved u) w).1 <;> rintro ⟨⟩
    exact .inl ⟨rfl, rfl⟩
  | @stage c' f b s r hs =>
    revert hφ'
    cases (Action.exec (.stageBlock f b s) w).1 <;> rintro ⟨⟩
    exact .inl ⟨rfl, rfl⟩

end BlobStore
