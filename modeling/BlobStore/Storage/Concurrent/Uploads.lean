import BlobStore.Storage.Concurrent.Crash
import BlobStore.Storage.Ledger
import BlobStore.Storage.Written

/-!
# Blocks uploaded in parallel

Blocks of one blob that are staged at the same time under different ids do not meet: each has its
own temporary file, its own file and its own row. When all of them are staged, in whatever order
their steps came, a block list assembles them.
-/

namespace BlobStore

open Codec FileTree Resumption Proc

/-! ### A list of staged blocks -/

section Shelf

variable {B : FsBackend} {amb : Ambient} {s : Shelf} {k : BlobKey} {refs : List BlockRef}

end Shelf

/-! ### Uploads -/

variable {B : FsBackend} {ι : Type} [DecidableEq ι] {k : BlobKey} {amb : ι → Ambient}
  {id : ι → String} {body : ι → ByteStream} {w : World}

/-- One `put_block` per index. -/
def uploads (k : BlobKey) (amb : ι → Ambient) (id : ι → String) (body : ι → ByteStream) (i : ι) :
    Request :=
  ⟨amb i, .putBlock k.account k.container k.blob (id i) (body i)⟩

/-- Actions that change no table but the one of staged blocks. -/
def Action.OnStaged : Action → Prop
  | .getContainer _ | .stageBlock _ _ _ => True
  | a                                   => a.IsFs

lemma Action.OnStaged.exec {a : Action} (ha : a.OnStaged) (w : World) :
    ∃ t, (a.exec w).2.db = { w.db with stagedBlocks := t } := by
  cases a with
  | stageBlock f s r => cases f <;> exact ⟨_, rfl⟩
  | removeFile fails p => exact ⟨_, Action.IsFs.exec_db (a := .removeFile fails p) trivial w⟩
  | _ => first | exact ⟨_, rfl⟩ | cases ha

lemma issues_onStaged_putBlock (amb : Ambient) (a c b id : String) (body : ByteStream) :
    Issues Action.OnStaged (B.call amb (.putBlock a c b id body)) := by
  have hfs : ∀ e : Action, e.IsFs → e.OnStaged := by
    intro e he
    cases e <;> first | exact he | trivial
  refine Issues.bind ?_ fun _ => issues_pure
  unfold FsBackend.putBlock
  refine Issues.bind (Issues.perform_bind trivial fun row => ?_) fun _ => ?_
  · cases row <;> trivial
  · refine (issues_mapErr.mpr ((FsIo.issues_writeStreamAtomic _ _ _ _ _).mono
      fun e he => hfs e he.isFs)).bind fun _ => ?_
    refine Issues.perform_bind trivial fun r => ?_
    exact Issues.bind issues_ofExcept fun _ => issues_pure

/-- A list of blocks under the ids of the indices `order`. -/
def listed (id : ι → String) (kind : ι → BlockRefKind) (order : List ι) : List BlockRef :=
  order.map fun i => ⟨id i, kind i⟩

end BlobStore
