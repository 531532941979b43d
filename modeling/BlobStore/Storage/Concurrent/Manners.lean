import BlobStore.Storage.Confinement
import BlobStore.Storage.Portion

/-!
# What the calls on a container keep to

A call on a container looks at and changes the rows of this container only, makes directories for
its temporary file or in the directory of the container, and makes the temporary file after its
directory. This holds for all calls with ordinary names, those that patch columns included.
-/

namespace BlobStore

open Codec FileTree UnixPath Resumption Proc

variable {B : FsBackend} {c : ContainerKey} {tmp : Path} {amb : Ambient} {call : Call}
  {req : Request} {a n : String}

/-- Statements about the rows of a container, and what makes neither directories nor files. -/
def Action.Plain (c : ContainerKey) : Action → Prop
  | .createDirAll _ | .createFile _ | .accountKeys _ | .listContainers _ _ _ _ => False
  | e => e.rows = none ∨ e.rows = some c

/-- The phase tells whether the directory of the temporary file has been made. -/
def Preparing (B : FsBackend) (c : ContainerKey) (tmp : Path) :
    Bool → Event Action Action.Response → Bool → Prop
  | made, ⟨.createDirAll p, r⟩, made' =>
    (∃ rel, DirPos rel ∧ p = B.root ++ rel) ∧ (p = tmp.dropLast ∨ B.containerDir c <+: p) ∧
      (made' = true → made = true ∨ p = tmp.dropLast ∧ r = .ok ())
  | made, ⟨.createFile _, _⟩, made' => made = true ∧ made' = made
  | made, ⟨e, _⟩, made' => e.Plain c ∧ made' = made

/-! ### Plain parts -/

lemma issues_plain_requireContainer :
    Issues (Action.Plain ⟨a, n⟩) (requireContainer a n) := by
  refine Issues.perform_bind (.inr rfl) fun row => ?_
  cases row <;> trivial

lemma issues_plain_requireBlob (b : String) :
    Issues (Action.Plain ⟨a, n⟩) (requireBlob a n b) := by
  refine Issues.perform_bind (.inr rfl) fun row => ?_
  cases row <;> trivial

lemma issues_plain_update {α β : Type} {look : Store α} {stmt : Store (Except SqlError Unit)}
    {f : α → β} (hlook : Issues (Action.Plain c) look) (hstmt : Issues (Action.Plain c) stmt) :
    Issues (Action.Plain c) (do
      let _ ← look
      let res ← stmt
      orInternal res
      let row ← look
      pure (f row)) :=
  hlook.bind fun _ => hstmt.bind fun _ => Issues.bind issues_ofExcept fun _ =>
    hlook.bind fun _ => issues_pure

namespace FsIo

variable (amb : Ambient) (tmp final : Path)

lemma issues_plain_writeChunks (body : ByteStream) (total : ℕ) (hashed : Bytes) :
    Issues (Action.Plain c) (writeChunks tmp body total hashed) := by
  induction body generalizing total hashed with
  | nil => trivial
  | cons x body ih =>
    cases x with
    | error e => trivial
    | ok chunk => exact Issues.perform_bind (.inl rfl) fun _ => ih _ _

lemma issues_plain_publish : Issues (Action.Plain c) (publish tmp final) := by
  refine Issues.perform_bind (.inl rfl) fun _ => Issues.perform_bind (.inl rfl) fun r => ?_
  exact Issues.bind issues_ofExcept fun _ => issues_perform.mpr (.inl rfl)

lemma issues_plain_copyParts (parts : List Path) (total : ℕ) (hashed : Bytes) :
    Issues (Action.Plain c) (copyParts amb tmp parts total hashed) := by
  induction parts generalizing total hashed with
  | nil => trivial
  | cons part parts ih =>
    refine Issues.perform_bind (.inl rfl) fun r => Issues.bind issues_ofExcept fun content => ?_
    exact Issues.bind (issues_plain_writeChunks _ _ _ _) fun _ => ih _ _

lemma issues_plain_removeFileIfExists (p : Path) :
    Issues (Action.Plain c) (removeFileIfExists amb p) := by
  refine Issues.perform_bind (.inl rfl) fun r => ?_
  rcases r with (_ | _ | _ | _) | _ <;> trivial

end FsIo

lemma issues_plain_removeAll (amb : Ambient) (paths : List Path) :
    Issues (Action.Plain c) (FsBackend.removeAll amb paths) := by
  induction paths with
  | nil => trivial
  | cons p paths ih =>
    exact Issues.bind (issues_ignore.mpr (FsIo.issues_plain_removeFileIfExists amb p)) fun _ => ih

lemma issues_plain_checkMd5 (amb : Ambient) (p : Path) (h md5 : Option String) :
    Issues (Action.Plain c) (FsBackend.checkMd5 amb p h md5) := by
  unfold FsBackend.checkMd5
  split_ifs
  · exact Issues.bind (issues_ignore.mpr (FsIo.issues_plain_removeFileIfExists amb p))
      fun _ => issues_fail
  · exact issues_pure

lemma issues_plain_resolveRefs (b : String) (committed : List CommittedBlock)
    (refs : List BlockRef) :
    Issues (Action.Plain ⟨a, n⟩) (B.resolveRefs ⟨a, n, b⟩ committed refs) := by
  induction refs with
  | nil => trivial
  | cons ref refs ih =>
    refine Issues.perform_bind (.inr rfl) fun staged => ?_
    exact Issues.bind issues_ofExcept fun _ => ih.bind fun _ => issues_pure

/-! ### Writing -/

/-- What is plain leaves the phase as it is. -/
lemma follows_plain {ε α : Type} {p : Proc Action Action.Response ε α}
    (hp : Issues (Action.Plain c) p) (made : Bool) :
    Follows (Plausible B) (Preparing B c tmp) (fun made' _ => made' = made) made p := by
  refine hp.follows (fun e r he => ?_) fun _ => rfl
  cases e <;> first | exact ⟨he, rfl⟩ | cases he

lemma follows_plain_true {ε α : Type} {p : Proc Action Action.Response ε α}
    (hp : Issues (Action.Plain c) p) (made : Bool) :
    Follows (Plausible B) (Preparing B c tmp) (fun _ _ => True) made p :=
  (follows_plain hp made).mono fun _ _ _ => trivial

lemma follows_plain_bind {ε α β : Type} {p : Proc Action Action.Response ε α}
    {f : α → Proc Action Action.Response ε β} {made : Bool} (hp : Issues (Action.Plain c) p)
    (hf : ∀ x, Follows (Plausible B) (Preparing B c tmp) (fun _ _ => True) made (f x)) :
    Follows (Plausible B) (Preparing B c tmp) (fun _ _ => True) made (p >>= f) := by
  refine (follows_plain hp made).bind ?_ fun _ _ _ => trivial
  rintro _ x rfl
  exact hf x

/-- Something after which the phase does not matter any more. -/
lemma follows_bind_plain {ε α β : Type} {p : Proc Action Action.Response ε α}
    {f : α → Proc Action Action.Response ε β} {made : Bool}
    (hp : Follows (Plausible B) (Preparing B c tmp) (fun _ _ => True) made p)
    (hf : ∀ x, Issues (Action.Plain c) (f x)) :
    Follows (Plausible B) (Preparing B c tmp) (fun _ _ => True) made (p >>= f) :=
  hp.bind (fun made' x _ => follows_plain_true (hf x) made') fun _ _ _ => trivial

namespace FsIo

/-- Both directories, and then the temporary file. -/
lemma follows_preparing_openTmp {β : Type} {f : Unit → Io β} {d' : Path}
    (hd : ∃ rel, DirPos rel ∧ tmp.dropLast = B.root ++ rel)
    (hd' : ∃ rel, DirPos rel ∧ d' = B.root ++ rel) (hin : B.containerDir c <+: d')
    (hf : Issues (Action.Plain c) (f ())) :
    Follows (Plausible B) (Preparing B c tmp) (fun _ _ => True) false (do
      createDirAll tmp.dropLast
      createDirAll d'
      let r : Except IoError Unit ← perform (Action.createFile tmp)
      ofExcept r >>= f) := by
  refine follows_perform_bind.mpr fun r _ => ⟨decide (r = .ok ()), ?_, ?_⟩
  · exact ⟨hd, .inl rfl, fun hr => .inr ⟨rfl, of_decide_eq_true hr⟩⟩
  rcases r with e | ⟨⟩
  · trivial
  refine follows_perform_bind.mpr fun r _ => ⟨true, ⟨hd', .inr hin, fun _ => .inl rfl⟩, ?_⟩
  rcases r with e | ⟨⟩
  · trivial
  refine follows_perform_bind.mpr fun r _ => ⟨true, ⟨rfl, rfl⟩, ?_⟩
  rcases r with e | ⟨⟩
  · trivial
  · exact follows_plain_true hf true

variable {md5 : Bytes → Bytes} {tmpDir finalPath : String} {x : Slot}

section

variable (htmp : uniqueTmpPath req.amb tmpDir = req.tmp B)
  (hdir : resolve tmpDir = (req.tmp B).dropLast) (hfinal : resolve finalPath = B.slotFile x)
  (hin : B.containerDir c <+: (B.slotFile x).dropLast)

include htmp hdir hfinal hin

lemma follows_preparing_writeStreamAtomic (body : ByteStream) :
    Follows (Plausible B) (Preparing B c (req.tmp B)) (fun _ _ => True) false
      (writeStreamAtomic md5 req.amb tmpDir finalPath body) := by
  unfold writeStreamAtomic
  rw [hfinal, htmp, hdir]
  refine follows_preparing_openTmp (req.dirPos_tmp B) (B.dirPos_slotFile x) hin ?_
  refine Issues.bind (issues_plain_writeChunks _ _ _ _) fun _ => ?_
  exact Issues.bind (issues_plain_publish _ _) fun _ => issues_pure

lemma follows_preparing_concatenateFilesAtomic (parts : List Path) :
    Follows (Plausible B) (Preparing B c (req.tmp B)) (fun _ _ => True) false
      (concatenateFilesAtomic md5 req.amb tmpDir finalPath parts) := by
  unfold concatenateFilesAtomic
  rw [hfinal, htmp, hdir]
  refine follows_preparing_openTmp (req.dirPos_tmp B) (B.dirPos_slotFile x) hin ?_
  refine Issues.bind (issues_plain_copyParts _ _ _ _ _) fun _ => ?_
  exact Issues.bind (issues_plain_publish _ _) fun _ => issues_pure

end

end FsIo

/-- The directory of a file is in the directory of its container. -/
lemma FsBackend.containerDir_dropLast_slotFile (B : FsBackend) (x : Slot) :
    B.containerDir x.container <+: (B.slotFile x).dropLast := by
  cases x with
  | blob k =>
    refine ⟨["blobs", slice (B.hash.hashHex k.blob) 0 2, slice (B.hash.hashHex k.blob) 2 4], ?_⟩
    rw [slotFile, blobFile, List.dropLast_append_of_ne_nil (by simp)]
    rfl
  | block b =>
    refine ⟨[".staging", "blocks", B.hash.hashHex b.blob.blob], ?_⟩
    rw [slotFile, stagedFile, List.dropLast_append_of_ne_nil (by simp)]
    rfl

/-! ### The calls -/

section Calls

variable (hord : (ContainerKey.mk a n).Ordinary)

include hord

lemma follows_preparing_putBlob (amb : Ambient) (b : String) (body : ByteStream)
    (ct h : Option String) (m : Metadata) :
    Follows (Plausible B) (Preparing B ⟨a, n⟩ (Request.tmp B ⟨amb, .putBlob a n b body ct h m⟩))
      (fun _ _ => True) false (B.putBlob amb a n b body ct h m) := by
  unfold FsBackend.putBlob
  refine follows_plain_bind issues_plain_requireContainer fun _ => follows_bind_plain ?_ fun _ => ?_
  · refine follows_mapErr.mpr (FsIo.follows_preparing_writeStreamAtomic (x := .blob ⟨a, n, b⟩)
      (uniqueTmpPath_of_target rfl hord.account) (resolve_tmpDir_of_target rfl hord.account)
      (B.resolve_blobPaths hord.account hord.container) ?_ body)
    exact B.containerDir_dropLast_slotFile (.blob ⟨a, n, b⟩)
  · refine (issues_plain_checkMd5 amb _ h _).bind fun _ => Issues.bind ?_ fun _ => issues_pure
    refine issues_plain_requireContainer.bind fun _ => Issues.perform_bind (.inr rfl) fun _ => ?_
    exact Issues.bind issues_ofExcept fun _ => issues_plain_requireBlob b

lemma follows_preparing_putBlock (amb : Ambient) (b id : String) (body : ByteStream) :
    Follows (Plausible B) (Preparing B ⟨a, n⟩ (Request.tmp B ⟨amb, .putBlock a n b id body⟩))
      (fun _ _ => True) false (B.putBlock amb a n b id body) := by
  unfold FsBackend.putBlock
  refine follows_plain_bind issues_plain_requireContainer fun _ => follows_bind_plain ?_ fun _ => ?_
  · refine follows_mapErr.mpr (FsIo.follows_preparing_writeStreamAtomic
      (x := .block ⟨⟨a, n, b⟩, id⟩) (uniqueTmpPath_of_target rfl hord.account)
      (resolve_tmpDir_of_target rfl hord.account)
      (B.resolve_stagedBlockPath hord.account hord.container id) ?_ body)
    exact B.containerDir_dropLast_slotFile (.block ⟨⟨a, n, b⟩, id⟩)
  · refine Issues.perform_bind (.inr rfl) fun _ => ?_
    exact Issues.bind issues_ofExcept fun _ => issues_pure

lemma follows_preparing_putBlockList (amb : Ambient) (b : String) (refs : List BlockRef)
    (ct : Option String) (m : Metadata) :
    Follows (Plausible B) (Preparing B ⟨a, n⟩ (Request.tmp B ⟨amb, .putBlockList a n b refs ct m⟩))
      (fun _ _ => True) false (B.putBlockList amb a n b refs ct m) := by
  unfold FsBackend.putBlockList
  refine follows_plain_bind issues_plain_requireContainer fun _ => ?_
  refine follows_plain_bind (issues_perform.mpr (.inr rfl)) fun committed => ?_
  refine follows_plain_bind (issues_plain_resolveRefs b committed refs) fun resolved => ?_
  refine follows_plain_bind issues_ofExcept fun paths => follows_bind_plain ?_ fun _ => ?_
  · refine follows_mapErr.mpr (FsIo.follows_preparing_concatenateFilesAtomic
      (x := .blob ⟨a, n, b⟩) (uniqueTmpPath_of_target rfl hord.account)
      (resolve_tmpDir_of_target rfl hord.account)
      (B.resolve_blobPaths hord.account hord.container) ?_ paths)
    exact B.containerDir_dropLast_slotFile (.blob ⟨a, n, b⟩)
  · refine Issues.bind ?_ fun _ => (issues_plain_removeAll amb paths).bind fun _ => issues_pure
    refine issues_plain_requireContainer.bind fun _ => Issues.perform_bind (.inr rfl) fun _ => ?_
    exact Issues.bind issues_ofExcept fun _ => issues_plain_requireBlob b

lemma follows_preparing_createContainer (amb : Ambient) (pa : PublicAccessLevel) (m : Metadata)
    (tmp : Path) :
    Follows (Plausible B) (Preparing B ⟨a, n⟩ tmp) (fun _ _ => True) false
      (B.createContainer amb a n pa m) := by
  have hdir : resolve (PathLayout.containerRoot B.storageRoot a n) = B.containerDir ⟨a, n⟩ :=
    B.resolve_containerRoot hord.account hord.container
  unfold FsBackend.createContainer
  refine follows_plain_bind (issues_perform.mpr (.inr rfl)) fun r => ?_
  rcases r with (_ | _ | _) | _
  · trivial
  · trivial
  · trivial
  refine follows_bind_plain (follows_mapErr.mpr ?_) fun _ => issues_pure
  refine follows_perform_bind.mpr fun r _ => ⟨false, ⟨?_, .inr ?_, nofun⟩, by cases r <;> trivial⟩
  · exact ⟨_, dirPos_containerDir ⟨a, n⟩, hdir⟩
  · rw [hdir]

end Calls

/-- The calls that make no directory. -/
lemma issues_plain_deleteContainer (amb : Ambient) :
    Issues (Action.Plain ⟨a, n⟩) (B.deleteContainer amb a n) := by
  unfold FsBackend.deleteContainer
  refine issues_plain_requireContainer.bind fun _ => Issues.perform_bind (.inr rfl) fun _ => ?_
  refine Issues.bind issues_ofExcept fun paths => ?_
  refine (issues_plain_removeAll amb _).bind fun _ => ?_
  exact Issues.perform_bind (.inl rfl) fun _ => issues_pure

lemma issues_plain_deleteBlob (amb : Ambient) (b : String) :
    Issues (Action.Plain ⟨a, n⟩) (B.deleteBlob amb a n b) := by
  unfold FsBackend.deleteBlob
  refine (issues_plain_requireBlob b).bind fun row => Issues.perform_bind (.inr rfl) fun _ => ?_
  refine Issues.bind issues_ofExcept fun _ => Issues.perform_bind (.inr rfl) fun _ => ?_
  refine Issues.perform_bind (.inr rfl) fun _ => ?_
  exact issues_ignore.mpr (FsIo.issues_plain_removeFileIfExists amb _)

lemma issues_plain_listBlobs (np d mk : Option String) (k : UInt32) :
    Issues (Action.Plain ⟨a, n⟩) (FsBackend.listBlobs a n np d mk k) := by
  unfold FsBackend.listBlobs
  refine issues_plain_requireContainer.bind fun _ => ?_
  exact Issues.perform_bind (.inr rfl) fun _ => issues_pure

lemma issues_plain_getBlockList (b : String) :
    Issues (Action.Plain ⟨a, n⟩) (FsBackend.getBlockList a n b) := by
  unfold FsBackend.getBlockList
  exact Issues.perform_bind (.inr rfl) fun _ => Issues.perform_bind (.inr rfl) fun _ => issues_pure

/-- Every call on a container whose names are ordinary keeps to its rows and directories. -/
theorem follows_preparing (hord : c.Ordinary) (htarget : call.target = some c) :
    Follows (Plausible B) (Preparing B c (Request.tmp B ⟨amb, call⟩)) (fun _ _ => True) false
      (B.call amb call) := by
  cases call with
  | createContainer a n pa m =>
    cases htarget
    exact follows_bind_plain (follows_preparing_createContainer hord amb pa m _)
      fun _ => issues_pure
  | deleteContainer a n =>
    cases htarget
    exact follows_plain_true ((issues_plain_deleteContainer amb).bind fun _ => issues_pure) false
  | getContainerProperties a n =>
    cases htarget
    exact follows_plain_true ((issues_plain_requireContainer.bind fun _ => issues_pure).bind
      fun _ => issues_pure) false
  | setContainerMetadata a n m =>
    cases htarget
    exact follows_plain_true ((issues_plain_update issues_plain_requireContainer
      (issues_perform.mpr (.inr rfl))).bind fun _ => issues_pure) false
  | setContainerAcl a n pa =>
    cases htarget
    exact follows_plain_true ((issues_plain_update issues_plain_requireContainer
      (issues_perform.mpr (.inr rfl))).bind fun _ => issues_pure) false
  | listContainers a np mk k => cases htarget
  | listBlobs a n np d mk k =>
    cases htarget
    exact follows_plain_true ((issues_plain_listBlobs np d mk k).bind fun _ => issues_pure) false
  | putBlob a n b body ct h m =>
    cases htarget
    exact follows_bind_plain (follows_preparing_putBlob hord amb b body ct h m)
      fun _ => issues_pure
  | getBlob a n b range =>
    cases htarget
    refine follows_plain_true (Issues.bind ((issues_plain_requireBlob b).bind fun row => ?_)
      fun _ => issues_pure) false
    refine Issues.bind issues_ofExcept fun _ => Issues.perform_bind (.inl rfl) fun _ => ?_
    exact Issues.bind issues_ofExcept fun _ => issues_pure
  | getBlobProperties a n b =>
    cases htarget
    exact follows_plain_true (((issues_plain_requireBlob b).bind fun _ => issues_pure).bind
      fun _ => issues_pure) false
  | setBlobProperties a n b patch =>
    cases htarget
    exact follows_plain_true ((issues_plain_update (issues_plain_requireBlob b)
      (issues_perform.mpr (.inr rfl))).bind fun _ => issues_pure) false
  | setBlobMetadata a n b m =>
    cases htarget
    exact follows_plain_true ((issues_plain_update (issues_plain_requireBlob b)
      (issues_perform.mpr (.inr rfl))).bind fun _ => issues_pure) false
  | deleteBlob a n b =>
    cases htarget
    exact follows_plain_true ((issues_plain_deleteBlob amb b).bind fun _ => issues_pure) false
  | putBlock a n b id body =>
    cases htarget
    exact follows_bind_plain (follows_preparing_putBlock hord amb b id body) fun _ => issues_pure
  | putBlockList a n b refs ct m =>
    cases htarget
    exact follows_bind_plain (follows_preparing_putBlockList hord amb b refs ct m)
      fun _ => issues_pure
  | getBlockList a n b =>
    cases htarget
    exact follows_plain_true ((issues_plain_getBlockList b).bind fun _ => issues_pure) false

end BlobStore
