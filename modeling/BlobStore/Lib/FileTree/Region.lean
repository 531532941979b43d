import BlobStore.Lib.FileTree

/-!
# Regions of a file tree

A call on a path depends on little of the tree: on the entry at the path, and sometimes on its
parent. Two trees that agree on a region answer a call within it alike and agree on it afterwards; a
call outside of the region leaves it as it is.
-/

namespace FileTree
namespace FsTree

variable {β : Type}

/-- Two trees have the same entries in a region. -/
def Agree (V : Path → Prop) (t t' : FsTree β) : Prop := ∀ p, V p → t.node p = t'.node p

variable {V : Path → Prop} {t t' t'' : FsTree β} {p : Path}

lemma Agree.refl (V : Path → Prop) (t : FsTree β) : Agree V t t := fun _ _ => rfl

lemma Agree.symm (h : Agree V t t') : Agree V t' t := fun p hp => (h p hp).symm

lemma Agree.trans (h : Agree V t t') (h' : Agree V t' t'') : Agree V t t'' := fun p hp =>
  (h p hp).trans (h' p hp)

lemma Agree.file? (h : Agree V t t') (hp : V p) : t.file? p = t'.file? p := by
  unfold FsTree.file?
  rw [h p hp]

lemma Agree.isDir (h : Agree V t t') (hp : V p) : t.isDir p = t'.isDir p := by
  unfold FsTree.isDir
  rw [h p hp]

/-! ### Within the region -/

lemma Agree.set (h : Agree V t t') (p : Path) (n : Option (Node β)) :
    Agree V (t.set p n) (t'.set p n) := by
  intro q hq
  unfold FsTree.set
  dsimp only
  rw [h q hq]

lemma Agree.openFile (h : Agree V t t') (hp : V p) : openFile p t = openFile p t' := by
  unfold FsTree.openFile
  rw [h.file? hp, h.isDir hp]

lemma Agree.write (h : Agree V t t') (hp : V p) (b : List β) :
    Agree V (write p b t) (write p b t') := by
  unfold FsTree.write
  rw [h.file? hp]
  cases t'.file? p with
  | none => exact h
  | some c => exact h.set p _

lemma Agree.removeFile (h : Agree V t t') (hp : V p) :
    (removeFile p t).1 = (removeFile p t').1 ∧ Agree V (removeFile p t).2 (removeFile p t').2 := by
  unfold FsTree.removeFile
  rw [h.file? hp, h.isDir hp]
  cases t'.file? p with
  | none => split_ifs <;> exact ⟨rfl, h⟩
  | some c => exact ⟨rfl, h.set p none⟩

lemma Agree.rename {src dst : Path} (h : Agree V t t') (hsrc : V src) (hdst : V dst)
    (hparent : V dst.dropLast) :
    (rename src dst t).1 = (rename src dst t').1 ∧
      Agree V (rename src dst t).2 (rename src dst t').2 := by
  unfold FsTree.rename
  rw [h.file? hsrc, h.isDir hdst, h.isDir hparent]
  cases t'.file? src with
  | none => exact ⟨rfl, h⟩
  | some c =>
    dsimp only
    split_ifs
    · exact ⟨rfl, h⟩
    · exact ⟨rfl, h⟩
    · exact ⟨rfl, (h.set src none).set dst _⟩

lemma Agree.removeDirAll (h : Agree V t t') (keep : Path → Bool) (hp : V p) :
    (removeDirAll keep p t).1 = (removeDirAll keep p t').1 ∧
      Agree V (removeDirAll keep p t).2 (removeDirAll keep p t').2 := by
  unfold FsTree.removeDirAll
  rw [h.isDir hp]
  split_ifs
  · exact ⟨rfl, h⟩
  · refine ⟨rfl, fun q hq => ?_⟩
    dsimp only
    rw [h q hq]

/-- Directories that can be made on both sides. -/
lemma Agree.createDirAll (h : Agree V t t') (ht : (createDirAll p t).1 = .ok ())
    (ht' : (createDirAll p t').1 = .ok ()) :
    Agree V (createDirAll p t).2 (createDirAll p t').2 := by
  unfold FsTree.createDirAll at ht ht' ⊢
  split_ifs at ht ht' ⊢
  intro q hq
  dsimp only
  rw [h q hq]

/-- A file whose directory is there on both sides. -/
lemma Agree.createFile (h : Agree V t t') (hp : V p) (ht : t.isDir p.dropLast = true)
    (ht' : t'.isDir p.dropLast = true) :
    (createFile p t).1 = (createFile p t').1 ∧ Agree V (createFile p t).2 (createFile p t').2 := by
  unfold FsTree.createFile
  rw [ht, ht', h.isDir hp]
  cases t'.isDir p with
  | true => exact ⟨rfl, h⟩
  | false => exact ⟨rfl, h.set p _⟩

/-! ### Outside of the region -/

lemma agree_set (hp : ¬ V p) (n : Option (Node β)) (t : FsTree β) : Agree V (t.set p n) t := by
  intro q hq
  have hne : q ≠ p := by
    rintro rfl
    exact hp hq
  exact if_neg hne

lemma agree_write (hp : ¬ V p) (b : List β) (t : FsTree β) : Agree V (write p b t) t := by
  unfold write
  cases t.file? p with
  | none => exact Agree.refl V t
  | some c => exact agree_set hp _ t

lemma agree_createFile (hp : ¬ V p) (t : FsTree β) : Agree V (createFile p t).2 t := by
  unfold createFile
  split_ifs
  · exact Agree.refl V t
  · exact Agree.refl V t
  · exact agree_set hp _ t

lemma agree_removeFile (hp : ¬ V p) (t : FsTree β) : Agree V (removeFile p t).2 t := by
  unfold removeFile
  cases t.file? p with
  | none => split_ifs <;> exact Agree.refl V t
  | some c => exact agree_set hp none t

lemma agree_rename {src dst : Path} (hsrc : ¬ V src) (hdst : ¬ V dst) (t : FsTree β) :
    Agree V (rename src dst t).2 t := by
  unfold rename
  cases t.file? src with
  | none => exact Agree.refl V t
  | some c =>
    dsimp only
    split_ifs
    · exact Agree.refl V t
    · exact Agree.refl V t
    · exact (agree_set hdst _ _).trans (agree_set hsrc none t)

lemma agree_createDirAll (hp : ∀ q, q <+: p → ¬ V q) (t : FsTree β) :
    Agree V (createDirAll p t).2 t := by
  unfold createDirAll
  split_ifs
  · exact Agree.refl V t
  · exact fun q hq => if_neg fun hpre => hp q hpre hq

lemma agree_removeDirAll (keep : Path → Bool) (hp : ∀ q, p <+: q → ¬ V q) (t : FsTree β) :
    Agree V (removeDirAll keep p t).2 t := by
  unfold removeDirAll
  split_ifs
  · exact Agree.refl V t
  · exact fun q hq => if_neg fun hpre => hp q hpre.1 hq

end FsTree
end FileTree
