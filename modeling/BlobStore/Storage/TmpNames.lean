import BlobStore.Lib.Fields
import BlobStore.Lib.Resumption.Guarantee
import BlobStore.Storage.Layout

/-!
# Names of temporary files

The name is a clock reading in hexadecimal digits, a dash and the number of a thread. The letters
of the thread's debug text are dropped from the whole name, and `a`, `d` and `e` are digits too: two
clock readings that differ in such digits only have one name.
-/

namespace BlobStore

open Codec FileTree UnixPath Resumption Proc

/-- The hexadecimal digits of a number that are not letters of `ThreadId`. -/
def keptDigits (n : ℕ) : List Char := (Nat.toDigits 16 n).filter fun c => c ∉ ['a', 'd', 'e']

lemma toDigits_injective : Function.Injective (Nat.toDigits 10) := by
  intro m n h
  have hread := congrArg (Nat.ofDigitChars 10 · 0) h
  simpa using hread

lemma dash_not_mem_keptDigits (n : ℕ) : '-' ∉ keptDigits n := by
  have hall : ∀ c ∈ Nat.toDigits 16 n, c ≠ '-' :=
    Text.forall_mem_toDigits (by decide) (by omega) n
  exact fun h => hall '-' (List.mem_of_mem_filter h) rfl

lemma uuidLike_eq (nanos tid : ℕ) :
    uuidLike nanos tid = String.ofList (keptDigits nanos ++ '-' :: Nat.toDigits 10 tid) := by
  have hnanos : ∀ c ∈ Nat.toDigits 16 nanos,
      (! ['(', ')', 'T', 'h', 'r', 'e', 'a', 'd', 'I', 'd'].contains c) =
        decide (c ∉ ['a', 'd', 'e']) :=
    Text.forall_mem_toDigits (by decide) (by omega) nanos
  have htid : ∀ c ∈ Nat.toDigits 10 tid,
      (! ['(', ')', 'T', 'h', 'r', 'e', 'a', 'd', 'I', 'd'].contains c) = true :=
    Text.forall_mem_toDigits (by decide) (by omega) tid
  have hthread : "-ThreadId(".toList.filter
      (fun c => ! ['(', ')', 'T', 'h', 'r', 'e', 'a', 'd', 'I', 'd'].contains c) = ['-'] := by decide
  unfold uuidLike
  dsimp only
  rw [List.filter_append, List.filter_append, List.filter_append, hthread,
    List.filter_congr hnanos, List.filter_eq_self.mpr htid]
  simp [keptDigits]

/-- When two names differ. -/
lemma uuidLike_ne_iff {nanos nanos' tid tid' : ℕ} :
    uuidLike nanos tid ≠ uuidLike nanos' tid' ↔
      tid ≠ tid' ∨ keptDigits nanos ≠ keptDigits nanos' := by
  rw [← not_and_or, not_iff_not, uuidLike_eq, uuidLike_eq]
  constructor
  · intro h
    obtain ⟨hnanos, htid⟩ := Text.append_cons_inj (dash_not_mem_keptDigits nanos)
      (dash_not_mem_keptDigits nanos') (String.ofList_injective h)
    exact ⟨toDigits_injective htid, hnanos⟩
  · rintro ⟨htid, hnanos⟩
    rw [htid, hnanos]

/-! ### The calls that use them -/

/-- A call of `write_stream_atomic` or `concatenate_files_atomic`. -/
inductive AtomicWrite where
  | stream (finalPath : String) (body : ByteStream)
  | concatenate (finalPath : String) (parts : List Path)

namespace AtomicWrite

variable (md5 : Bytes → Bytes) (amb : Ambient) (tmpDir : String)

def proc : AtomicWrite → Io (ℕ × String)
  | stream finalPath body       => FsIo.writeStreamAtomic md5 amb tmpDir finalPath body
  | concatenate finalPath parts => FsIo.concatenateFilesAtomic md5 amb tmpDir finalPath parts

end AtomicWrite

/-- The file that an action creates, truncates, fills or renames. -/
def Action.handled : Action → Option Path
  | .createFile p => some p
  | .writeAll p _ => some p
  | .rename src _ => some src
  | _             => none

/-- Some run of a process creates, truncates, fills or renames a file. -/
def Handles {α : Type} (p : Path) (proc : Io α) : Prop :=
  ¬ Issues (fun e : Action => e.handled ≠ some p) proc

namespace FsIo

variable {md5 : Bytes → Bytes} {amb : Ambient} {tmpDir : String} {p : Path}

/-- The only file that an action handles, if it handles one. -/
abbrev HandlesOnly (p : Path) (e : Action) : Prop := ∀ q ∈ e.handled, q = p

lemma issues_handlesOnly_writeChunks (body : ByteStream) (total : ℕ) (hashed : Bytes) :
    Issues (HandlesOnly p) (writeChunks p body total hashed) := by
  induction body generalizing total hashed with
  | nil => exact issues_pure
  | cons x body ih =>
    cases x with
    | error e => exact issues_fail
    | ok chunk => exact Issues.perform_bind (by simp [HandlesOnly, Action.handled]) fun _ => ih _ _

lemma issues_handlesOnly_publish (final : Path) : Issues (HandlesOnly p) (publish p final) := by
  refine Issues.perform_bind (by simp [HandlesOnly, Action.handled]) fun _ => ?_
  refine Issues.perform_bind (by simp [HandlesOnly, Action.handled]) fun r => ?_
  refine Issues.bind issues_ofExcept fun _ => ?_
  exact issues_perform.mpr (by simp [HandlesOnly, Action.handled])

lemma issues_handlesOnly_copyParts (parts : List Path) (total : ℕ) (hashed : Bytes) :
    Issues (HandlesOnly p) (copyParts amb p parts total hashed) := by
  induction parts generalizing total hashed with
  | nil => exact issues_pure
  | cons part parts ih =>
    refine Issues.perform_bind (by simp [HandlesOnly, Action.handled]) fun r => ?_
    refine Issues.bind issues_ofExcept fun content => ?_
    exact (issues_handlesOnly_writeChunks _ _ _).bind fun _ => ih _ _

lemma issues_handlesOnly_createDirAll (dir : Path) :
    Issues (HandlesOnly p) (createDirAll dir) :=
  Issues.perform_bind (by simp [HandlesOnly, Action.handled]) fun _ => issues_ofExcept

variable (md5 amb tmpDir)

lemma issues_handlesOnly_writeStreamAtomic (finalPath : String) (body : ByteStream) :
    Issues (HandlesOnly (uniqueTmpPath amb tmpDir))
      (writeStreamAtomic md5 amb tmpDir finalPath body) := by
  refine (issues_handlesOnly_createDirAll _).bind fun _ => ?_
  refine (issues_handlesOnly_createDirAll _).bind fun _ => ?_
  refine Issues.perform_bind (by simp [HandlesOnly, Action.handled]) fun r => ?_
  refine Issues.bind issues_ofExcept fun _ => ?_
  refine (issues_handlesOnly_writeChunks _ _ _).bind fun _ => ?_
  exact (issues_handlesOnly_publish _).bind fun _ => issues_pure

lemma issues_handlesOnly_concatenateFilesAtomic (finalPath : String) (parts : List Path) :
    Issues (HandlesOnly (uniqueTmpPath amb tmpDir))
      (concatenateFilesAtomic md5 amb tmpDir finalPath parts) := by
  refine (issues_handlesOnly_createDirAll _).bind fun _ => ?_
  refine (issues_handlesOnly_createDirAll _).bind fun _ => ?_
  refine Issues.perform_bind (by simp [HandlesOnly, Action.handled]) fun r => ?_
  refine Issues.bind issues_ofExcept fun _ => ?_
  refine (issues_handlesOnly_copyParts _ _ _).bind fun _ => ?_
  exact (issues_handlesOnly_publish _).bind fun _ => issues_pure

end FsIo

variable {md5 : Bytes → Bytes} {amb amb' : Ambient} {tmpDir : String} {p : Path}

/-- A call handles its temporary file, and no other. -/
lemma handles_proc_iff {job : AtomicWrite} :
    Handles p (job.proc md5 amb tmpDir) ↔ p = FsIo.uniqueTmpPath amb tmpDir := by
  constructor
  · intro h
    by_contra hne
    refine h ?_
    have honly : Issues (FsIo.HandlesOnly (FsIo.uniqueTmpPath amb tmpDir))
        (job.proc md5 amb tmpDir) := by
      cases job with
      | stream finalPath body => exact FsIo.issues_handlesOnly_writeStreamAtomic _ _ _ _ _
      | concatenate finalPath parts =>
        exact FsIo.issues_handlesOnly_concatenateFilesAtomic _ _ _ _ _
    exact honly.mono fun e he hp => hne (he p hp)
  · rintro rfl h
    -- both directories are there: the next request creates the file
    cases job with
    | stream finalPath body => exact ((h.2 (.ok ())).2 (.ok ())).1 rfl
    | concatenate finalPath parts => exact ((h.2 (.ok ())).2 (.ok ())).1 rfl

lemma uniqueTmpPath_eq_iff (tmpDir : String) :
    FsIo.uniqueTmpPath amb tmpDir = FsIo.uniqueTmpPath amb' tmpDir ↔
      uuidLike amb.nanos amb.tid = uuidLike amb'.nanos amb'.tid := by
  have hpath : ∀ amb : Ambient, FsIo.uniqueTmpPath amb tmpDir =
      descend [] tmpDir ++ [uuidLike amb.nanos amb.tid ++ ".tmp"] :=
    fun amb => descend_join_component (isComponent_uuidLike amb.nanos amb.tid) [] tmpDir
  rw [hpath, hpath]
  constructor
  · intro h
    obtain ⟨-, h⟩ := List.append_inj' h rfl
    exact FsBackend.ext_injective (List.singleton_inj.mp h)
  · intro h
    rw [h]

/-- Two names differ, and two calls have no temporary file in common, exactly if the threads differ
or the clock readings differ in a digit that is kept. -/
theorem tmp_names_apart_iff (md5 : Bytes → Bytes) (amb amb' : Ambient) :
    (uuidLike amb.nanos amb.tid ≠ uuidLike amb'.nanos amb'.tid ↔
      amb.tid ≠ amb'.tid ∨ keptDigits amb.nanos ≠ keptDigits amb'.nanos) ∧
    ∀ (tmpDir : String) (job job' : AtomicWrite),
      (∀ p, ¬ (Handles p (job.proc md5 amb tmpDir) ∧ Handles p (job'.proc md5 amb' tmpDir))) ↔
        amb.tid ≠ amb'.tid ∨ keptDigits amb.nanos ≠ keptDigits amb'.nanos := by
  refine ⟨uuidLike_ne_iff, fun tmpDir job job' => ?_⟩
  rw [← uuidLike_ne_iff, ne_eq, ← uniqueTmpPath_eq_iff tmpDir]
  simp only [handles_proc_iff]
  constructor
  · intro h heq
    exact h _ ⟨rfl, heq⟩
  · rintro hne p ⟨rfl, heq⟩
    exact hne heq

/-- Two clock readings 3 ms apart. -/
theorem tmp_names_clash :
    (0x18d7000000a00000, 7) ≠ ((0x18d7000000d00000, 7) : ℕ × ℕ) ∧
      uuidLike 0x18d7000000a00000 7 = uuidLike 0x18d7000000d00000 7 := by
  decide +kernel

end BlobStore
