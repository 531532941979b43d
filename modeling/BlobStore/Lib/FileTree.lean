import Mathlib.Data.List.Infix

/-!
# File trees

Directories and regular files under resolved paths, with the calls a program makes on them: each
one answers with a result and leaves a tree. Only what a program can see through file contents is
recorded; a file that is open is represented by its path while it is written and by its content
once it is opened for reading.

`file?` is the view most proofs need: the contents of the regular files, forgetting directories.
-/

namespace FileTree

abbrev Path := List String

inductive Node (β : Type) where
  | dir
  | file (content : List β)
  deriving DecidableEq

/-- The entries of a file tree; the root is always a directory. -/
structure FsTree (β : Type) where
  node : Path → Option (Node β)

inductive IoError where
  | notFound
  | notADirectory
  | isADirectory
  | other (message : String)
  deriving DecidableEq, Repr

namespace FsTree

variable {β : Type}

def isDir (t : FsTree β) (p : Path) : Bool :=
  match p, t.node p with
  | [], _        => true
  | _, some .dir => true
  | _, _         => false

/-- The content of the regular file at a path. -/
def file? (t : FsTree β) (p : Path) : Option (List β) :=
  match t.node p with
  | some (.file c) => some c
  | _              => none

def set (t : FsTree β) (p : Path) (n : Option (Node β)) : FsTree β where
  node q := if q = p then n else t.node q

/-- All missing directories down to `p`; nothing happens if a regular file is in the way. -/
def createDirAll (p : Path) (t : FsTree β) : Except IoError Unit × FsTree β :=
  if p.inits.any fun q => (t.file? q).isSome then (.error .notADirectory, t)
  else (.ok (), ⟨fun q => if q <+: p then some .dir else t.node q⟩)

/-- Create a file, or empty the one that is there. -/
def createFile (p : Path) (t : FsTree β) : Except IoError Unit × FsTree β :=
  if !t.isDir p.dropLast then (.error .notFound, t)
  else if t.isDir p then (.error .isADirectory, t)
  else (.ok (), t.set p (some (.file [])))

/-- Append to a file opened for writing; once it is unlinked nobody sees the bytes. -/
def write (p : Path) (b : List β) (t : FsTree β) : FsTree β :=
  match t.file? p with
  | some c => t.set p (some (.file (c ++ b)))
  | none   => t

/-- Move a file onto `dst`, replacing what is there in one step. -/
def rename (src dst : Path) (t : FsTree β) : Except IoError Unit × FsTree β :=
  match t.file? src with
  | none   => (.error .notFound, t)
  | some c =>
    if !t.isDir dst.dropLast then (.error .notFound, t)
    else if t.isDir dst then (.error .isADirectory, t)
    else (.ok (), (t.set src none).set dst (some (.file c)))

/-- Open a file for reading: later changes of the tree do not reach the reader. -/
def openFile (p : Path) (t : FsTree β) : Except IoError (List β) :=
  match t.file? p with
  | some c => .ok c
  | none   => if t.isDir p then .error .isADirectory else .error .notFound

def removeFile (p : Path) (t : FsTree β) : Except IoError Unit × FsTree β :=
  match t.file? p with
  | some _ => (.ok (), t.set p none)
  | none   => if t.isDir p then (.error .isADirectory, t) else (.error .notFound, t)

/-- Remove a directory with all below it, except for what `keep` says resists removal. -/
def removeDirAll (keep : Path → Bool) (p : Path) (t : FsTree β) : Except IoError Unit × FsTree β :=
  if !t.isDir p then (.error .notFound, t)
  else (.ok (), ⟨fun q => if p <+: q ∧ keep q = false then none else t.node q⟩)

/-! ### File contents -/

@[simp] lemma file?_set_file (t : FsTree β) (p q : Path) (c : List β) :
    (t.set p (some (.file c))).file? q = if q = p then some c else t.file? q := by
  by_cases h : q = p <;> simp [file?, set, h]

@[simp] lemma file?_set_none (t : FsTree β) (p q : Path) :
    (t.set p none).file? q = if q = p then none else t.file? q := by
  by_cases h : q = p <;> simp [file?, set, h]

/-- Directories appear only where there is no file. -/
@[simp] lemma file?_createDirAll (p q : Path) (t : FsTree β) :
    (createDirAll p t).2.file? q = t.file? q := by
  unfold createDirAll
  split_ifs with h
  · rfl
  · by_cases hq : q <+: p
    · have hnone : t.file? q = none := by
        simp only [List.any_eq_true, List.mem_inits, not_exists, not_and] at h
        simpa using h q hq
      rw [hnone]
      simp [file?, hq]
    · simp [file?, hq]

lemma file?_createFile_of_ok {p : Path} {t : FsTree β} (h : (createFile p t).1 = .ok ()) (q : Path) :
    (createFile p t).2.file? q = if q = p then some [] else t.file? q := by
  unfold createFile at h ⊢
  split_ifs at h ⊢ <;> simp_all

lemma createFile_of_error {p : Path} {t : FsTree β} {e : IoError} (h : (createFile p t).1 = .error e) :
    (createFile p t).2 = t := by
  unfold createFile at h ⊢
  split_ifs at h ⊢ <;> simp_all

lemma file?_write {p : Path} {t : FsTree β} {c : List β} (h : t.file? p = some c) (b : List β)
    (q : Path) : (write p b t).file? q = if q = p then some (c ++ b) else t.file? q := by
  simp [write, h]

lemma file?_write_ne {p q : Path} (h : q ≠ p) (b : List β) (t : FsTree β) :
    (write p b t).file? q = t.file? q := by
  unfold write
  split <;> simp [h]

lemma rename_of_error {src dst : Path} {t : FsTree β} {e : IoError}
    (h : (rename src dst t).1 = .error e) : (rename src dst t).2 = t := by
  unfold rename at h ⊢
  split at h
  · rfl
  · split_ifs at h ⊢ <;> simp_all

lemma file?_rename_of_ok {src dst : Path} {t : FsTree β} (h : (rename src dst t).1 = .ok ())
    (q : Path) : (rename src dst t).2.file? q =
      if q = dst then t.file? src else if q = src then none else t.file? q := by
  unfold rename at h ⊢
  cases hsrc : t.file? src with
  | none => simp [hsrc] at h
  | some c =>
    simp only [hsrc] at h ⊢
    split_ifs at h ⊢ <;> simp_all

@[simp] lemma file?_removeFile (p q : Path) (t : FsTree β) :
    (removeFile p t).2.file? q = if q = p then none else t.file? q := by
  unfold removeFile
  cases h : t.file? p with
  | some c => simp
  | none =>
    by_cases hq : q = p
    · subst hq
      simp only [if_true]
      split_ifs <;> exact h
    · simp only [hq, if_false]
      split_ifs <;> rfl

lemma file?_removeDirAll (keep : Path → Bool) (p q : Path) (t : FsTree β) :
    (removeDirAll keep p t).2.file? q =
      if t.isDir p = true ∧ p <+: q ∧ keep q = false then none else t.file? q := by
  unfold removeDirAll
  by_cases hp : t.isDir p
  · by_cases hq : p <+: q ∧ keep q = false <;> simp [hp, hq, file?]
  · simp [hp]

lemma openFile_eq_ok {p : Path} {t : FsTree β} {c : List β} :
    openFile p t = .ok c ↔ t.file? p = some c := by
  unfold openFile
  cases h : t.file? p with
  | some c' => simp
  | none => split_ifs <;> simp

/-! ### When the calls succeed -/

lemma createDirAll_of_clear {p : Path} {t : FsTree β} (h : ∀ q, q <+: p → t.file? q = none) :
    (createDirAll p t).1 = .ok () := by
  unfold createDirAll
  rw [if_neg]
  simp only [List.any_eq_true, List.mem_inits, not_exists, not_and]
  intro q hq
  simp [h q hq]

lemma createFile_of_isDir {p : Path} {t : FsTree β} (hparent : t.isDir p.dropLast = true)
    (hp : t.isDir p = false) : (createFile p t).1 = .ok () := by
  simp [createFile, hparent, hp]

lemma rename_of_isDir {src dst : Path} {t : FsTree β} {c : List β} (hsrc : t.file? src = some c)
    (hparent : t.isDir dst.dropLast = true) (hdst : t.isDir dst = false) :
    (rename src dst t).1 = .ok () := by
  simp [rename, hsrc, hparent, hdst]

lemma isDir_eq_node {t : FsTree β} {p : Path} (hp : p ≠ []) :
    t.isDir p = true ↔ t.node p = some .dir := by
  cases p with
  | nil => exact absurd rfl hp
  | cons x xs =>
    unfold isDir
    split <;> simp_all

lemma isDir_set_of_ne_dir {t : FsTree β} {p : Path} {n : Option (Node β)} (hn : n ≠ some .dir)
    (hp : t.isDir p = false) (q : Path) : (t.set p n).isDir q = t.isDir q := by
  cases q with
  | nil => simp [isDir]
  | cons x xs =>
    rw [Bool.eq_iff_iff, isDir_eq_node (by simp), isDir_eq_node (by simp)]
    by_cases hq : x :: xs = p
    · subst hq
      have hnode : t.node (x :: xs) ≠ some .dir := by
        intro h
        rw [(isDir_eq_node (by simp)).mpr h] at hp
        cases hp
      simp [set, hn, hnode]
    · simp [set, hq]

lemma isDir_of_file? {t : FsTree β} {p : Path} {c : List β} (h : t.file? p = some c) (hp : p ≠ []) :
    t.isDir p = false := by
  rw [Bool.eq_false_iff, Ne, isDir_eq_node hp]
  intro hdir
  simp [file?, hdir] at h

lemma isDir_createDirAll_of_ok {p : Path} {t : FsTree β} (h : (createDirAll p t).1 = .ok ())
    (q : Path) : (createDirAll p t).2.isDir q = true ↔ q <+: p ∨ t.isDir q = true := by
  unfold createDirAll at h ⊢
  split_ifs at h ⊢ with hfile
  cases q with
  | nil => simp [isDir]
  | cons x xs =>
    rw [isDir_eq_node (by simp), isDir_eq_node (by simp)]
    by_cases hq : x :: xs <+: p <;> simp [hq]

lemma isDir_createFile (p q : Path) (t : FsTree β) : (createFile p t).2.isDir q = t.isDir q := by
  unfold createFile
  split_ifs with hparent hp
  · rfl
  · rfl
  · exact isDir_set_of_ne_dir (by simp) (by simpa using hp) q

lemma isDir_write {p : Path} (hp : p ≠ []) (b : List β) (q : Path) (t : FsTree β) :
    (write p b t).isDir q = t.isDir q := by
  unfold write
  split
  · next c hc => exact isDir_set_of_ne_dir (by simp) (isDir_of_file? hc hp) q
  · rfl

lemma isDir_rename {src : Path} (hsrc : src ≠ []) (dst q : Path) (t : FsTree β) :
    (rename src dst t).2.isDir q = t.isDir q := by
  unfold rename
  cases hc : t.file? src with
  | none => rfl
  | some c =>
    have hset := isDir_set_of_ne_dir (n := none) (by simp) (isDir_of_file? hc hsrc)
    split_ifs with hparent hdst
    · rfl
    · rfl
    · rw [isDir_set_of_ne_dir (by simp) (by rw [hset]; simpa using hdst), hset]

lemma isDir_removeFile {p : Path} (hp : p ≠ []) (q : Path) (t : FsTree β) :
    (removeFile p t).2.isDir q = t.isDir q := by
  unfold removeFile
  cases hc : t.file? p with
  | none => split_ifs <;> rfl
  | some c => exact isDir_set_of_ne_dir (by simp) (isDir_of_file? hc hp) q

lemma isDir_of_isDir_removeDirAll {keep : Path → Bool} {p q : Path} {t : FsTree β}
    (h : (removeDirAll keep p t).2.isDir q = true) : t.isDir q = true := by
  unfold removeDirAll at h
  split_ifs at h with hp
  · exact h
  · cases q with
    | nil => simp [isDir]
    | cons x xs =>
      rw [isDir_eq_node (by simp)] at h ⊢
      dsimp only at h
      split_ifs at h with hq
      exact h

lemma isDir_removeDirAll_of_not {keep : Path → Bool} {p q : Path} (hq : ¬ p <+: q) (t : FsTree β) :
    (removeDirAll keep p t).2.isDir q = t.isDir q := by
  unfold removeDirAll
  split_ifs
  · rfl
  · simp [isDir, hq]

/-- Where there is a file, a change does not reach directories. -/
lemma isDir_set_of_file {t : FsTree β} {p q : Path} {c : List β} (hp : t.file? p = some c)
    (hq : t.isDir q = true) (n : Option (Node β)) : (t.set p n).isDir q = true := by
  cases q with
  | nil => rfl
  | cons x xs =>
    have hne : x :: xs ≠ p := by
      rintro rfl
      rw [isDir_of_file? hp (by simp)] at hq
      cases hq
    rw [isDir_eq_node (by simp)] at hq ⊢
    simpa [set, hne] using hq

/-! ### Trees that only grow -/

/-- New files are in `S`, and all directories are still there. -/
structure Grows (S : Path → Prop) (t t' : FsTree β) : Prop where
  file : ∀ q, (t'.file? q).isSome = true → S q ∨ (t.file? q).isSome = true
  dir : ∀ q, t.isDir q = true → t'.isDir q = true

namespace Grows

variable {S : Path → Prop} {t t' t'' : FsTree β}

lemma refl (S : Path → Prop) (t : FsTree β) : Grows S t t := ⟨fun _ h => .inr h, fun _ h => h⟩

lemma trans (h : Grows S t t') (h' : Grows S t' t'') : Grows S t t'' where
  file q hq := (h'.file q hq).elim .inl (h.file q)
  dir q hq := h'.dir q (h.dir q hq)

lemma createDirAll (p : Path) (t : FsTree β) : Grows S t (createDirAll p t).2 where
  file q hq := .inr (by simpa using hq)
  dir q hq := by
    cases hres : (FsTree.createDirAll p t).1 with
    | ok u => exact (isDir_createDirAll_of_ok hres q).mpr (.inr hq)
    | error e =>
      unfold FsTree.createDirAll at hres ⊢
      split_ifs at hres ⊢
      exact hq

lemma createFile {p : Path} (hp : S p) (t : FsTree β) : Grows S t (createFile p t).2 where
  file q hq := by
    cases hres : (FsTree.createFile p t).1 with
    | error e =>
      rw [createFile_of_error hres] at hq
      exact .inr hq
    | ok u =>
      rw [file?_createFile_of_ok hres] at hq
      split_ifs at hq with h
      · exact .inl (h ▸ hp)
      · exact .inr hq
  dir q hq := (isDir_createFile p q t).trans hq

lemma write (p : Path) (b : List β) (t : FsTree β) : Grows S t (write p b t) := by
  unfold FsTree.write
  cases hc : t.file? p with
  | none => exact refl S t
  | some c =>
    refine ⟨fun q hq => .inr ?_, fun q hq => isDir_set_of_file hc hq _⟩
    rw [file?_set_file] at hq
    split_ifs at hq with h
    · rw [h, hc]
      rfl
    · exact hq

lemma rename (src : Path) {dst : Path} (hdst : S dst) (t : FsTree β) :
    Grows S t (rename src dst t).2 := by
  unfold FsTree.rename
  cases hc : t.file? src with
  | none => exact refl S t
  | some c =>
    dsimp only
    split_ifs with hparent hdir
    · exact refl S t
    · exact refl S t
    · refine ⟨fun q hq => ?_, fun q hq => ?_⟩
      · rw [file?_set_file, file?_set_none] at hq
        split_ifs at hq with h h'
        · exact .inl (h ▸ hdst)
        · cases hq
        · exact .inr hq
      · have hsrc := isDir_set_of_file hc hq none
        by_cases hne : q = dst
        · rw [hne] at hq
          exact absurd hq hdir
        · cases q with
          | nil => rfl
          | cons x xs =>
            rw [isDir_eq_node (by simp)] at hsrc ⊢
            exact (if_neg hne).trans hsrc

lemma removeFile (p : Path) (t : FsTree β) : Grows S t (removeFile p t).2 where
  file q hq := by
    rw [file?_removeFile] at hq
    split_ifs at hq with h
    · cases hq
    · exact .inr hq
  dir q hq := by
    unfold FsTree.removeFile
    cases hc : t.file? p with
    | none => split_ifs <;> exact hq
    | some c => exact isDir_set_of_file hc hq none

end Grows

end FsTree
end FileTree
