import BlobStore.Storage.Refinement.Call

/-!
# The phases of a write

A call that writes content goes through phases: it fills a temporary file, renames it onto the file
of its slot, and records it in a row. The phases remember the bytes. All other calls stay in the
first phase; what they do to files and rows is to read, to create containers and to delete.

`follows_call` says so for every call but those that patch the columns of a blob, whatever other
calls do in between.
-/

namespace BlobStore

open Codec FileTree UnixPath Resumption Proc

/-! ### Slots -/

/-- A place for bytes: a blob or a staged block. -/
inductive Slot where
  | blob (k : BlobKey)
  | block (b : StagedBlockKey)
  deriving DecidableEq

def Slot.container : Slot → ContainerKey
  | blob k  => k.containerKey
  | block b => b.blob.containerKey

namespace FsBackend

/-- The file of a slot. -/
def slotFile (B : FsBackend) : Slot → Path
  | .blob k  => B.blobFile k
  | .block b => B.stagedFile b

variable {B : FsBackend}

lemma slotFile_injective {x y : Slot} (h : B.slotFile x = B.slotFile y) : x = y := by
  cases x with
  | blob k =>
    cases y with
    | blob k' => exact congrArg _ (blobFile_injective h)
    | block b' => exact absurd h (blobFile_ne_stagedFile k b')
  | block b =>
    cases y with
    | blob k' => exact absurd h.symm (blobFile_ne_stagedFile k' b)
    | block b' => exact congrArg _ (stagedFile_injective h)

lemma containerDir_slotFile {c : ContainerKey} {x : Slot} :
    B.containerDir c <+: B.slotFile x ↔ x.container = c := by
  cases x with
  | blob k => exact containerDir_blobFile
  | block b => exact containerDir_stagedFile

lemma filePos_slotFile (x : Slot) : ∃ rel, FilePos rel ∧ B.slotFile x = B.root ++ rel := by
  cases x with
  | blob k => exact filePos_blobFile k
  | block b => exact filePos_stagedFile b

/-- The directory of a file may be made. -/
lemma dirPos_of_filePos {p : Path} (h : ∃ rel, FilePos rel ∧ p = B.root ++ rel) :
    ∃ rel, DirPos rel ∧ p.dropLast = B.root ++ rel := by
  obtain ⟨rel, hrel, rfl⟩ := h
  exact ⟨_, hrel.dirPos_dropLast, List.dropLast_append_of_ne_nil hrel.ne_nil⟩

variable (B) in
lemma dirPos_slotFile (x : Slot) : ∃ rel, DirPos rel ∧ (B.slotFile x).dropLast = B.root ++ rel :=
  dirPos_of_filePos (filePos_slotFile x)

lemma tmpFile_ne_slotFile (a : String) (amb : Ambient) (x : Slot) :
    B.tmpFile a amb ≠ B.slotFile x :=
  tmpFile_ne_of_containerDir a amb (containerDir_slotFile.mpr rfl)

end FsBackend

/-! ### What a call writes -/

/-- The slot a call writes to. -/
def Call.slot : Call → Option Slot
  | .putBlob a c b _ _ _ _      => some (.blob ⟨a, c, b⟩)
  | .putBlockList a c b _ _ _   => some (.blob ⟨a, c, b⟩)
  | .putBlock a c b id _        => some (.block ⟨⟨a, c, b⟩, id⟩)
  | _                           => none

/-- The account whose directory holds the temporary file of a call. -/
def Call.account (call : Call) : String :=
  match call.target with
  | some c => c.account
  | none   => ""

/-- The bytes a call writes, given those it has read from files; none if its body breaks off. -/
def Call.bytes (call : Call) (opened : Bytes) : Option Bytes :=
  match call with
  | .putBlob _ _ _ body _ _ _ => (ByteStream.collect body).toOption
  | .putBlock _ _ _ _ body    => (ByteStream.collect body).toOption
  | _                         => some opened

/-- A call that deletes blobs. -/
def Call.deletes : Call → Bool
  | .deleteBlob _ _ _    => true
  | .deleteContainer _ _ => true
  | _                    => false

/-- The slots whose rows or files a call may remove, apart from the one it writes to. -/
def Call.disturbs : Call → Slot → Prop
  | .deleteBlob a c b, x           => x = .blob ⟨a, c, b⟩ ∨ ∃ id, x = .block ⟨⟨a, c, b⟩, id⟩
  | .deleteContainer a c, x        => x.container = ⟨a, c⟩
  | .putBlockList a c b _ _ _, x   => ∃ id, x = .block ⟨⟨a, c, b⟩, id⟩
  | _, _                           => False

/-- A call that changes columns of a blob without writing it. -/
def Call.patches : Call → Bool
  | .setBlobProperties _ _ _ _ => true
  | .setBlobMetadata _ _ _ _   => true
  | _                          => false

lemma Call.target_of_slot {call : Call} {x : Slot} (h : call.slot = some x) :
    call.target = some x.container := by
  cases call <;> cases h <;> rfl

lemma Call.deletes_of_slot {call : Call} {x : Slot} (h : call.slot = some x) :
    call.deletes = false := by
  cases call <;> cases h <;> rfl

/-- A call leaves the slot alone that it writes to. -/
lemma Call.not_disturbs_of_slot {call : Call} {x : Slot} (h : call.slot = some x) :
    ¬ call.disturbs x := by
  cases call with
  | putBlockList a c b refs ct m =>
    cases h
    rintro ⟨id, hid⟩
    cases hid
  | _ => cases h <;> exact id

namespace Request

variable (B : FsBackend) (req : Request)

/-- The temporary file of a request. -/
def tmp : Path := B.tmpFile req.call.account req.amb

lemma dirPos_tmp : ∃ rel, DirPos rel ∧ (req.tmp B).dropLast = B.root ++ rel :=
  FsBackend.dirPos_of_filePos (filePos_tmpFile _ _)

lemma tmp_ne_slotFile (x : Slot) : req.tmp B ≠ B.slotFile x := B.tmpFile_ne_slotFile _ _ x

/-- The row of a blob that records the bytes `content`. -/
def blobRow (content : Bytes) : Option (BlobKey × BlobUpsert) :=
  match req.call with
  | .putBlob a c b _ ct _ m =>
    some (⟨a, c, b⟩, Shelf.upsertFor B req.amb ⟨a, c, b⟩ content ct (Shelf.digest B content) m)
  | .putBlockList a c b _ ct m =>
    some (⟨a, c, b⟩, Shelf.upsertFor B req.amb ⟨a, c, b⟩ content ct
      (some ((Shelf.digest B content).getD "")) m)
  | _ => none

/-- The row of a staged block that records the bytes `content`. -/
def blockRow (content : Bytes) : Option (StagedBlockKey × StagedBlockRecord) :=
  match req.call with
  | .putBlock a c b id _ =>
    some (⟨⟨a, c, b⟩, id⟩, ⟨content.length, Shelf.digest B content,
      (B.stagedBlockPath a c b id).2, req.amb.nowIso⟩)
  | _ => none

end Request

/-! ### Phases -/

inductive Phase where
  | start
  | filling (opened content : Bytes)
  | renamed (content : Bytes)
  | rejected (content : Bytes)
  | recorded (content : Bytes)

namespace Phase

/-- A file has been opened for reading. -/
def read (opened content : Bytes) : Except IoError Bytes → Phase
  | .ok bytes => filling (opened ++ bytes) content
  | .error _  => filling opened content

/-- The temporary file has been created. -/
def created : Except IoError Unit → Phase
  | .ok ()   => filling [] []
  | .error _ => start

/-- The temporary file has been renamed. -/
def moved (opened content : Bytes) : Except IoError Unit → Phase
  | .ok ()   => renamed content
  | .error _ => filling opened content

/-- The row has been written. -/
def noted (content : Bytes) : Except SqlError Unit → Phase
  | .ok ()   => recorded content
  | .error _ => renamed content

end Phase

/-- Actions that put no bytes anywhere and write no row of a blob or block. Directories are made
where there may be directories; what is removed belongs to slots that the call disturbs. -/
def Action.Calm (B : FsBackend) (call : Call) : Action → Prop
  | .upsertBlob _ _ _ | .setBlobProperties _ _ _ _ _ | .setBlobMetadata _ _ _ _ _
  | .stageBlock _ _ _ | .commitBlockList _ _ _ _ | .createFile _ | .writeAll _ _ | .rename _ _
  | .openFile _           => False
  | .createDirAll p       => ∃ rel, DirPos rel ∧ p = B.root ++ rel
  | .removeFile _ p       => ∃ x, p = B.slotFile x ∧ call.disturbs x
  | .removeDirAll _ p     => ∃ c, p = B.containerDir c ∧ ∀ x, x.container = c → call.disturbs x
  | .deleteBlobRow _ k    => call.deletes = true ∧ call.disturbs (.blob k)
  | .deleteStagedBlocks k => call.deletes = true ∧ ∀ id, call.disturbs (.block ⟨k, id⟩)
  | .deleteContainer _ c  => call.deletes = true ∧ ∀ x, x.container = c → call.disturbs x
  | _                     => True

/-- The moves between the phases of a request. -/
inductive Step (B : FsBackend) (req : Request) :
    Phase → Event Action Action.Response → Phase → Prop where
  | calm {φ : Phase} {e : Action} {r : e.Response} (he : e.Calm B req.call) : Step B req φ ⟨e, r⟩ φ
  | look {φ : Phase} {p : Path} {r : Except IoError Bytes} (hreq : req.call.slot = none) :
      Step B req φ ⟨.openFile p, r⟩ φ
  | read {o c : Bytes} {p : Path} {r : Except IoError Bytes} :
      Step B req (.filling o c) ⟨.openFile p, r⟩ (.read o c r)
  | create {r : Except IoError Unit} :
      Step B req .start ⟨.createFile (req.tmp B), r⟩ (.created r)
  | write {o c b : Bytes} {r : Unit} :
      Step B req (.filling o c) ⟨.writeAll (req.tmp B) b, r⟩ (.filling o (c ++ b))
  | rename {o c : Bytes} {x : Slot} {r : Except IoError Unit} (hx : req.call.slot = some x)
      (hc : req.call.bytes o = some c) :
      Step B req (.filling o c) ⟨.rename (req.tmp B) (B.slotFile x), r⟩ (.moved o c r)
  | reject {c : Bytes} {fails : Bool} {x : Slot} {r : Except IoError Unit}
      (hx : req.call.slot = some x) :
      Step B req (.renamed c) ⟨.removeFile fails (B.slotFile x), r⟩ (.rejected c)
  | upsert {c : Bytes} {f : Option String} {k : BlobKey} {u : BlobUpsert}
      {r : Except SqlError Unit} (hu : req.blobRow B c = some (k, u)) :
      Step B req (.renamed c) ⟨.upsertBlob f k u, r⟩ (.noted c r)
  | commit {c : Bytes} {f : Option String} {k : BlobKey} {u : BlobUpsert}
      {resolved : List CommittedBlock} {r : Except SqlError Unit}
      (hu : req.blobRow B c = some (k, u)) (hd : ∀ id, req.call.disturbs (.block ⟨k, id⟩)) :
      Step B req (.renamed c) ⟨.commitBlockList f k resolved u, r⟩ (.noted c r)
  | stage {c : Bytes} {f : Option String} {b : StagedBlockKey} {s : StagedBlockRecord}
      {r : Except SqlError Unit} (hs : req.blockRow B c = some (b, s)) :
      Step B req (.renamed c) ⟨.stageBlock f b s, r⟩ (.noted c r)

/-! ### Plausible answers -/

/-- Rows that an answer hands out record the paths of their keys. -/
def Plausible (B : FsBackend) : Event Action Action.Response → Prop
  | ⟨.getBlob k, r⟩ => ∀ row, r = some row →
      row.storagePath = (B.blobPaths k.account k.container k.blob).2
  | ⟨.getStagedBlock s, r⟩ => ∀ rec, r = some rec → rec.storagePath =
      (B.stagedBlockPath s.blob.account s.blob.container s.blob.blob s.blockId).2
  | ⟨.deleteContainer _ c, r⟩ => ∀ paths, r = .ok paths → ∀ p ∈ paths,
      ∃ b, p = (B.blobPaths c.account c.container b).2
  | _ => True

lemma Located.plausible {B : FsBackend} {w : World} (h : Located B w.db) (e : Action) :
    Plausible B ⟨e, (e.exec w).1⟩ := by
  cases e with
  | getBlob k => exact fun row hrow => h.blob k row hrow
  | getStagedBlock s => exact fun rec hrec => h.staged s rec hrec
  | deleteContainer fault c =>
    intro paths hpaths p hp
    cases fault with
    | some message => cases hpaths
    | none =>
      cases hpaths
      obtain ⟨⟨k, row⟩, hmem, rfl⟩ := List.mem_map.mp hp
      obtain ⟨hk, hrow⟩ := Table.mem_selectWhere.mp hmem
      refine ⟨k.blob, ?_⟩
      rw [h.blob k row hrow, ← of_decide_eq_true hk]
      rfl
  | _ => trivial

/-! ### Following the phases -/

variable {B : FsBackend} {req : Request} {call : Call}

/-- What is left open about an error. -/
def OnOk {α : Type} (Q : Phase → α → Prop) (φ : Phase) : Except IoError α → Prop
  | .ok a    => Q φ a
  | .error _ => True

/-- Steps that do not concern the phases. -/
lemma follows_calm {ε α : Type} {p : Proc Action Action.Response ε α}
    {Q : Phase → Except ε α → Prop} {φ : Phase} (hp : Issues (Action.Calm B req.call) p)
    (hQ : ∀ r, Q φ r) : Follows (Plausible B) (Step B req) Q φ p :=
  hp.follows (fun _ _ he => .calm he) hQ

namespace FsIo

variable (amb : Ambient) (md5 : Bytes → Bytes)

lemma issues_calm_createDirAll {p : Path} (hp : ∃ rel, DirPos rel ∧ p = B.root ++ rel) :
    Issues (Action.Calm B call) (createDirAll p) :=
  Issues.perform_bind hp fun _ => issues_ofExcept

lemma follows_writeChunks (opened content : Bytes) (body : ByteStream) (total : ℕ)
    (hashed : Bytes) :
    Follows (Plausible B) (Step B req)
      (OnOk fun φ r => ∃ bytes, body.collect = .ok bytes ∧ φ = .filling opened (content ++ bytes) ∧
        r = (total + bytes.length, hashed ++ bytes))
      (.filling opened content) (writeChunks (req.tmp B) body total hashed) := by
  induction body generalizing content total hashed with
  | nil => exact ⟨[], rfl, by simp, by simp⟩
  | cons x body ih =>
    cases x with
    | error e => trivial
    | ok chunk =>
      refine follows_perform_bind.mpr fun r _ => ⟨_, .write, ?_⟩
      refine (ih (content ++ chunk) (total + chunk.length) (hashed ++ chunk)).mono ?_
      rintro φ (e | r) h
      · trivial
      · obtain ⟨bytes, hbytes, hφ, hr⟩ := h
        refine ⟨chunk ++ bytes, by simp [ByteStream.collect, hbytes], by simp [hφ], ?_⟩
        simp [hr, Nat.add_assoc]

lemma follows_publish {opened content : Bytes} {x : Slot} (hx : req.call.slot = some x)
    (hc : req.call.bytes opened = some content) :
    Follows (Plausible B) (Step B req) (OnOk fun φ _ => φ = .renamed content)
      (.filling opened content) (publish (req.tmp B) (B.slotFile x)) := by
  refine follows_perform_bind.mpr fun _ _ => ⟨_, .calm trivial, ?_⟩
  refine follows_perform_bind.mpr fun r _ => ⟨_, .rename hx hc, ?_⟩
  rcases r with e | ⟨⟩
  · trivial
  · exact fun _ _ => ⟨_, .calm trivial, rfl⟩

/-- Both directories, and the temporary file. -/
lemma follows_openTmp {β : Type} {Q : Phase → Except IoError β → Prop} {f : Unit → Io β}
    {d d' : Path} (hd : ∃ rel, DirPos rel ∧ d = B.root ++ rel)
    (hd' : ∃ rel, DirPos rel ∧ d' = B.root ++ rel) (hQ : ∀ φ e, Q φ (.error e))
    (hf : Follows (Plausible B) (Step B req) Q (.filling [] []) (f ())) :
    Follows (Plausible B) (Step B req) Q .start (do
      createDirAll d
      createDirAll d'
      let r : Except IoError Unit ← perform (Action.createFile (req.tmp B))
      ofExcept r >>= f) := by
  have hdir : ∀ {p}, (∃ rel, DirPos rel ∧ p = B.root ++ rel) →
      Follows (Plausible B) (Step B req) (fun φ _ => φ = .start) .start (createDirAll p) :=
    fun hp => follows_calm (issues_calm_createDirAll hp) fun _ => rfl
  refine (hdir hd).bind ?_ fun _ _ _ => hQ _ _
  rintro φ - rfl
  refine (hdir hd').bind ?_ fun _ _ _ => hQ _ _
  rintro φ - rfl
  refine follows_perform_bind.mpr fun r _ => ⟨_, .create, ?_⟩
  rcases r with e | ⟨⟩
  · exact hQ _ _
  · exact hf

lemma follows_writeStreamAtomic {tmpDir finalPath : String} {x : Slot} {body : ByteStream}
    (htmp : uniqueTmpPath amb tmpDir = req.tmp B) (hdir : resolve tmpDir = (req.tmp B).dropLast)
    (hfinal : resolve finalPath = B.slotFile x)
    (hx : req.call.slot = some x) (hbody : ∀ bytes, body.collect = .ok bytes →
      ∀ opened, req.call.bytes opened = some bytes) :
    Follows (Plausible B) (Step B req)
      (OnOk fun φ r => ∃ bytes, body.collect = .ok bytes ∧ φ = .renamed bytes ∧
        r = (bytes.length, hexEncode (md5 bytes)))
      .start (writeStreamAtomic md5 amb tmpDir finalPath body) := by
  unfold writeStreamAtomic
  rw [hfinal, htmp, hdir]
  refine follows_openTmp (req.dirPos_tmp B) (B.dirPos_slotFile x) (fun _ _ => trivial) ?_
  refine (follows_writeChunks [] [] body 0 []).bind ?_ fun _ _ _ => trivial
  rintro φ r ⟨bytes, hbytes, rfl, rfl⟩
  refine (follows_publish hx ?_).bind ?_ fun _ _ _ => trivial
  · rw [hbody bytes hbytes, List.nil_append]
  · rintro φ - rfl
    exact ⟨bytes, hbytes, by simp, by simp⟩

lemma follows_copyParts (opened content : Bytes) (parts : List Path) (total : ℕ)
    (hashed : Bytes) :
    Follows (Plausible B) (Step B req)
      (OnOk fun φ r => ∃ bytes, φ = .filling (opened ++ bytes) (content ++ bytes) ∧
        r = (total + bytes.length, hashed ++ bytes))
      (.filling opened content) (copyParts amb (req.tmp B) parts total hashed) := by
  induction parts generalizing opened content total hashed with
  | nil => exact ⟨[], by simp, by simp⟩
  | cons part parts ih =>
    refine follows_perform_bind.mpr fun r _ => ⟨_, .read, ?_⟩
    rcases r with e | bytes
    · trivial
    · refine (follows_writeChunks _ _ _ total hashed).bind ?_ fun _ _ _ => trivial
      rintro φ r ⟨bytes', hbytes, rfl, rfl⟩
      rw [collect_map_ok, flatten_readPieces _ _ _ le_rfl] at hbytes
      cases hbytes
      refine (ih (opened ++ bytes) (content ++ bytes) _ _).mono ?_
      rintro φ (e | r) h
      · trivial
      · obtain ⟨rest, rfl, rfl⟩ := h
        exact ⟨bytes ++ rest, by simp, by simp [Nat.add_assoc]⟩

lemma follows_concatenateFilesAtomic {tmpDir finalPath : String} {x : Slot} (parts : List Path)
    (htmp : uniqueTmpPath amb tmpDir = req.tmp B) (hdir : resolve tmpDir = (req.tmp B).dropLast)
    (hfinal : resolve finalPath = B.slotFile x)
    (hx : req.call.slot = some x) (hbytes : ∀ opened, req.call.bytes opened = some opened) :
    Follows (Plausible B) (Step B req)
      (OnOk fun φ r => ∃ bytes, φ = .renamed bytes ∧ r = (bytes.length, hexEncode (md5 bytes)))
      .start (concatenateFilesAtomic md5 amb tmpDir finalPath parts) := by
  unfold concatenateFilesAtomic
  rw [hfinal, htmp, hdir]
  refine follows_openTmp (req.dirPos_tmp B) (B.dirPos_slotFile x) (fun _ _ => trivial) ?_
  refine (follows_copyParts amb [] [] parts 0 []).bind ?_ fun _ _ _ => trivial
  rintro φ r ⟨bytes, rfl, rfl⟩
  refine (follows_publish hx ?_).bind ?_ fun _ _ _ => trivial
  · rw [hbytes]
  · rintro φ - rfl
    exact ⟨bytes, by simp, by simp⟩

lemma issues_calm_removeFileIfExists {p : Path} (hp : ∃ x, p = B.slotFile x ∧ call.disturbs x) :
    Issues (Action.Calm B call) (removeFileIfExists amb p) := by
  refine Issues.perform_bind hp fun r => ?_
  rcases r with (_ | _ | _ | _) | _ <;> trivial

end FsIo

/-! ### The calls -/

/-- A write that succeeds has been recorded. -/
def Noted {α : Type} (φ : Phase) (r : Except AzureError α) : Prop :=
  (∃ a, r = .ok a) → ∃ content, φ = .recorded content

lemma noted_error {α : Type} (φ : Phase) (e : AzureError) : Noted (α := α) φ (.error e) := by
  rintro ⟨a, ha⟩
  cases ha

lemma follows_calm_bind {ε α β : Type} {p : Proc Action Action.Response ε α}
    {f : α → Proc Action Action.Response ε β} {Q : Phase → Except ε β → Prop} {φ : Phase}
    (hp : Issues (Action.Calm B req.call) p) (hQ : ∀ x, Q φ (.error x))
    (hf : ∀ a, Follows (Plausible B) (Step B req) Q φ (f a)) :
    Follows (Plausible B) (Step B req) Q φ (p >>= f) := by
  refine (follows_calm (Q := fun φ' _ => φ' = φ) hp fun _ => rfl).bind ?_ ?_
  · rintro φ' a rfl
    exact hf a
  · rintro φ' x rfl
    exact hQ x

lemma issues_calm_requireContainer (a c : String) :
    Issues (Action.Calm B call) (requireContainer a c) := by
  refine Issues.perform_bind trivial fun row => ?_
  cases row <;> trivial

lemma issues_calm_requireBlob (a c b : String) : Issues (Action.Calm B call) (requireBlob a c b) := by
  refine Issues.perform_bind trivial fun row => ?_
  cases row <;> trivial

/-- What comes after the statement that records a write. -/
lemma follows_noted {α : Type} {content : Bytes} (r : Except SqlError Unit) {p : Store α}
    (hp : Issues (Action.Calm B req.call) p) :
    Follows (Plausible B) (Step B req) Noted (.noted content r) (orInternal r >>= fun _ => p) := by
  rcases r with e | ⟨⟩
  · exact noted_error _ _
  · exact follows_calm hp fun _ _ => ⟨content, rfl⟩

lemma follows_upsertBlobSingleShot {amb : Ambient} {a c b path : String} {content : Bytes}
    {ct md5 : Option String} {m : Metadata}
    (hu : req.blobRow B content = some (⟨a, c, b⟩,
      ⟨content.length, ct, md5, m, amb.etag, amb.lastModified, path⟩)) :
    Follows (Plausible B) (Step B req) Noted (.renamed content)
      (FsBackend.upsertBlobSingleShot amb a c b path content.length ct md5 m) := by
  refine follows_calm_bind (issues_calm_requireContainer a c) (noted_error _) fun _ => ?_
  refine follows_perform_bind.mpr fun r _ => ⟨_, .upsert hu, ?_⟩
  exact follows_noted r (issues_calm_requireBlob a c b)

lemma follows_commitBlockList {amb : Ambient} {a c b path md5 : String} {content : Bytes}
    {ct : Option String} {m : Metadata} (resolved : List CommittedBlock)
    (hu : req.blobRow B content = some (⟨a, c, b⟩,
      ⟨content.length, ct, some md5, m, amb.etag, amb.lastModified, path⟩))
    (hd : ∀ id, req.call.disturbs (.block ⟨⟨a, c, b⟩, id⟩)) :
    Follows (Plausible B) (Step B req) Noted (.renamed content)
      (FsBackend.commitBlockList amb a c b resolved path content.length md5 ct m) := by
  refine follows_calm_bind (issues_calm_requireContainer a c) (noted_error _) fun _ => ?_
  refine follows_perform_bind.mpr fun r _ => ⟨_, .commit hu hd, ?_⟩
  exact follows_noted r (issues_calm_requireBlob a c b)

/-- Recording goes on with something calm. -/
lemma Noted.bind {α β : Type} {φ : Phase} {p : Store α} {f : α → Store β}
    (hp : Follows (Plausible B) (Step B req) Noted φ p) (hf : ∀ a, Issues (Action.Calm B req.call) (f a)) :
    Follows (Plausible B) (Step B req) Noted φ (p >>= f) := by
  refine hp.bind ?_ fun _ _ _ => noted_error _ _
  intro φ' a h
  exact follows_calm (hf a) fun _ _ => h ⟨a, rfl⟩

/-- The temporary file of a request, for an ordinary account. -/
lemma uniqueTmpPath_of_target {a c : String} (htarget : req.call.target = some ⟨a, c⟩)
    (ha : OrdinaryName a) : FsIo.uniqueTmpPath req.amb (B.tmpDir a) = req.tmp B := by
  have haccount : req.call.account = a := by simp [Call.account, htarget]
  rw [B.uniqueTmpPath_tmpDir ha, Request.tmp, haccount]

lemma resolve_tmpDir_of_target {a c : String} (htarget : req.call.target = some ⟨a, c⟩)
    (ha : OrdinaryName a) : resolve (B.tmpDir a) = (req.tmp B).dropLast := by
  have haccount : req.call.account = a := by simp [Call.account, htarget]
  rw [resolve_tmpDir_eq_dropLast ha req.amb, Request.tmp, haccount]

/-- The body of a write ends up in the file of its slot. -/
lemma follows_body (req : Request) {a c finalPath : String} {x : Slot} (body : ByteStream)
    (htarget : req.call.target = some ⟨a, c⟩) (ha : OrdinaryName a)
    (hfinal : resolve finalPath = B.slotFile x) (hx : req.call.slot = some x)
    (hbody : ∀ opened, req.call.bytes opened = (ByteStream.collect body).toOption) :
    Follows (Plausible B) (Step B req)
      (fun φ r => ∀ s, r = .ok s → ∃ bytes, φ = .renamed bytes ∧
        s = (bytes.length, hexEncode (B.md5 bytes)))
      .start ((FsIo.writeStreamAtomic B.md5 req.amb (B.tmpDir a) finalPath body).mapErr
        ioError) := by
  have hwhole : ∀ bytes, body.collect = .ok bytes → ∀ opened, req.call.bytes opened = some bytes :=
    fun bytes hbytes opened => by simp [hbody, hbytes, Except.toOption]
  have hwrite := FsIo.follows_writeStreamAtomic req.amb B.md5
    (uniqueTmpPath_of_target htarget ha) (resolve_tmpDir_of_target htarget ha) hfinal hx hwhole
  refine follows_mapErr.mpr (hwrite.mono ?_)
  rintro φ (e | r) hr s hs
  · cases hs
  · cases hs
    obtain ⟨bytes, -, hφ, hs⟩ := hr
    exact ⟨bytes, hφ, hs⟩

lemma follows_checkMd5 {amb : Ambient} {k : BlobKey} {p : Path} {content : Bytes}
    (hslot : req.call.slot = some (.blob k)) (hp : p = B.blobFile k) (h md5 : Option String) :
    Follows (Plausible B) (Step B req) (fun φ r => r = .ok () → φ = .renamed content)
      (.renamed content) (FsBackend.checkMd5 amb p h md5) := by
  subst hp
  unfold FsBackend.checkMd5
  split_ifs
  · have hremove : Follows (Plausible B) (Step B req) (fun _ _ => True) (.renamed content)
        (FsIo.removeFileIfExists amb (B.blobFile k)) := by
      refine follows_perform_bind.mpr fun r _ => ⟨_, .reject hslot, ?_⟩
      rcases r with (_ | _ | _ | _) | _ <;> trivial
    have hignore : Follows (Plausible B) (Step B req) (fun _ _ => True) (.renamed content)
        ((FsIo.removeFileIfExists amb (B.blobFile k)).ignore : Store Unit) :=
      follows_ignore.mpr hremove
    exact hignore.bind (fun _ _ _ => follows_fail.mpr nofun) fun _ _ _ h => nomatch h
  · exact follows_pure.mpr fun _ => rfl

lemma follows_putBlob {amb : Ambient} {a c b : String} {body : ByteStream}
    {ct h : Option String} {m : Metadata} (hord : (ContainerKey.mk a c).Ordinary) :
    Follows (Plausible B) (Step B ⟨amb, .putBlob a c b body ct h m⟩) Noted .start
      (B.putBlob amb a c b body ct h m) := by
  have hpath : resolve (B.blobPaths a c b).1 = B.blobFile ⟨a, c, b⟩ :=
    B.resolve_blobPaths hord.account hord.container
  have hbody := follows_body (B := B) ⟨amb, .putBlob a c b body ct h m⟩ body rfl hord.account
    (x := .blob ⟨a, c, b⟩) hpath rfl fun _ => rfl
  refine follows_calm_bind (issues_calm_requireContainer a c) (noted_error _) fun _ => ?_
  refine hbody.bind ?_ fun _ _ _ => noted_error _ _
  intro φ s hs
  obtain ⟨bytes, rfl, rfl⟩ := hs s rfl
  refine (follows_checkMd5 rfl hpath h _).bind ?_ fun _ _ _ => noted_error _ _
  intro φ _ hφ
  rw [hφ rfl]
  exact Noted.bind (follows_upsertBlobSingleShot rfl) fun _ => issues_pure

lemma follows_putBlock {amb : Ambient} {a c b id : String} {body : ByteStream}
    (hord : (ContainerKey.mk a c).Ordinary) :
    Follows (Plausible B) (Step B ⟨amb, .putBlock a c b id body⟩) Noted .start
      (B.putBlock amb a c b id body) := by
  have hbody := follows_body (B := B) ⟨amb, .putBlock a c b id body⟩ body rfl hord.account
    (x := .block ⟨⟨a, c, b⟩, id⟩) (B.resolve_stagedBlockPath hord.account hord.container id) rfl
    fun _ => rfl
  refine follows_calm_bind (issues_calm_requireContainer a c) (noted_error _) fun _ => ?_
  refine hbody.bind ?_ fun _ _ _ => noted_error _ _
  intro φ s hs
  obtain ⟨bytes, rfl, rfl⟩ := hs s rfl
  refine follows_perform_bind.mpr fun r _ => ⟨_, .stage rfl, ?_⟩
  exact follows_noted r issues_pure

/-- A reference with a file has been resolved by a row. -/
lemma resolveRef_eq_some {committed : List CommittedBlock} {staged : Option StagedBlockRecord}
    {ref : BlockRef} {size : ℕ} {p : Path} (h : B.resolveRef committed staged ref = .ok (size, some p)) :
    ∃ rec, staged = some rec ∧ p = B.stored rec.storagePath ∧ (size = rec.blockSize ∨
      ref.kind = .committed ∧ FsBackend.committedSize committed ref.blockId = some size) := by
  unfold FsBackend.resolveRef at h
  split at h <;> cases h
  · exact ⟨_, rfl, rfl, .inl rfl⟩
  · next s hkind hsize => exact ⟨_, rfl, rfl, .inr ⟨hkind, hsize⟩⟩
  · exact ⟨_, rfl, rfl, .inl rfl⟩

/-- The file of a reference is the one of its staged block. -/
lemma slot_of_resolveRef {k : BlobKey} (hk : k.containerKey.Ordinary)
    {committed : List CommittedBlock} {staged : Option StagedBlockRecord} {ref : BlockRef}
    {size : ℕ} {p : Path} (hstaged : ∀ rec, staged = some rec → rec.storagePath =
      (B.stagedBlockPath k.account k.container k.blob ref.blockId).2)
    (h : B.resolveRef committed staged ref = .ok (size, some p)) :
    ∃ id, p = B.slotFile (.block ⟨k, id⟩) := by
  obtain ⟨rec, hrec, rfl, -⟩ := resolveRef_eq_some h
  refine ⟨ref.blockId, ?_⟩
  rw [hstaged rec hrec]
  exact B.stored_stagedBlockPath hk.account hk.container ref.blockId

lemma follows_resolveRefs {k : BlobKey} (hk : k.containerKey.Ordinary)
    (committed : List CommittedBlock) (refs : List BlockRef) :
    Follows (Plausible B) (Step B req)
      (fun φ r => φ = .start ∧ ∀ l, r = .ok l → ∀ e ∈ l, ∀ p, e.2 = some p →
        ∃ id, p = B.slotFile (.block ⟨k, id⟩))
      .start (B.resolveRefs k committed refs) := by
  induction refs with
  | nil =>
    refine ⟨rfl, fun l hl => ?_⟩
    cases hl
    simp
  | cons ref refs ih =>
    refine follows_perform_bind.mpr fun staged hstaged => ⟨_, .calm trivial, ?_⟩
    cases href : B.resolveRef committed staged ref with
    | error e => exact ⟨rfl, fun l hl => by cases hl⟩
    | ok res =>
      refine ih.bind ?_ fun φ e h => ⟨h.1, fun l hl => by cases hl⟩
      rintro φ rest ⟨rfl, hrest⟩
      refine ⟨rfl, fun l hl e he p hp => ?_⟩
      cases hl
      rcases List.mem_cons.mp he with rfl | he
      · obtain ⟨size, path⟩ := res
        cases hp
        exact slot_of_resolveRef hk hstaged href
      · exact hrest rest rfl e he p hp

lemma issues_calm_removeAll (amb : Ambient) {paths : List Path}
    (hpaths : ∀ p ∈ paths, ∃ x, p = B.slotFile x ∧ call.disturbs x) :
    Issues (Action.Calm B call) (FsBackend.removeAll amb paths) := by
  induction paths with
  | nil => trivial
  | cons p paths ih =>
    refine Issues.bind (issues_ignore.mpr ?_) fun _ => ?_
    · exact FsIo.issues_calm_removeFileIfExists amb (hpaths p List.mem_cons_self)
    · exact ih fun q hq => hpaths q (List.mem_cons_of_mem _ hq)

/-- The paths of resolved references. -/
lemma mem_of_mapM_snd {l : List (CommittedBlock × Option Path)} {paths : List Path}
    (h : l.mapM Prod.snd = some paths) {p : Path} (hp : p ∈ paths) :
    ∃ e ∈ l, e.2 = some p := by
  induction l generalizing paths with
  | nil =>
    cases h
    cases hp
  | cons e l ih =>
    rw [List.mapM_cons] at h
    obtain ⟨q, hq, h⟩ := Option.bind_eq_some_iff.mp h
    obtain ⟨rest, hrest, h⟩ := Option.bind_eq_some_iff.mp h
    cases h
    rcases List.mem_cons.mp hp with rfl | hp
    · exact ⟨e, List.mem_cons_self, hq⟩
    · obtain ⟨e', he', hpe⟩ := ih hrest hp
      exact ⟨e', List.mem_cons_of_mem _ he', hpe⟩

/-- The parts of a block list end up in the file of its blob. -/
lemma follows_parts (req : Request) {a c finalPath : String} {x : Slot} (parts : List Path)
    (htarget : req.call.target = some ⟨a, c⟩) (ha : OrdinaryName a)
    (hfinal : resolve finalPath = B.slotFile x) (hx : req.call.slot = some x)
    (hbytes : ∀ opened, req.call.bytes opened = some opened) :
    Follows (Plausible B) (Step B req)
      (fun φ r => ∀ s, r = .ok s → ∃ bytes, φ = .renamed bytes ∧
        s = (bytes.length, hexEncode (B.md5 bytes)))
      .start ((FsIo.concatenateFilesAtomic B.md5 req.amb (B.tmpDir a) finalPath parts).mapErr
        ioError) := by
  have hconcat := FsIo.follows_concatenateFilesAtomic req.amb B.md5 parts
    (uniqueTmpPath_of_target htarget ha) (resolve_tmpDir_of_target htarget ha) hfinal hx hbytes
  refine follows_mapErr.mpr (hconcat.mono ?_)
  rintro φ (e | r) hr s hs
  · cases hs
  · cases hs
    exact hr

lemma follows_putBlockList {amb : Ambient} {a c b : String} {refs : List BlockRef}
    {ct : Option String} {m : Metadata} (hord : (ContainerKey.mk a c).Ordinary) :
    Follows (Plausible B) (Step B ⟨amb, .putBlockList a c b refs ct m⟩) Noted .start
      (B.putBlockList amb a c b refs ct m) := by
  refine follows_calm_bind (issues_calm_requireContainer a c) (noted_error _) fun _ => ?_
  refine follows_perform_bind.mpr fun committed _ => ⟨_, .calm trivial, ?_⟩
  refine (follows_resolveRefs (k := ⟨a, c, b⟩) hord committed refs).bind ?_
    fun _ _ _ => noted_error _ _
  rintro φ resolved ⟨rfl, hresolved⟩
  dsimp only
  cases hpaths : resolved.mapM Prod.snd with
  | none => exact noted_error _ _
  | some paths =>
    have hslots : ∀ p ∈ paths, ∃ x, p = B.slotFile x ∧
        (Call.putBlockList a c b refs ct m).disturbs x := by
      intro p hp
      obtain ⟨e, he, hpe⟩ := mem_of_mapM_snd hpaths hp
      obtain ⟨id, rfl⟩ := hresolved resolved rfl e he p hpe
      exact ⟨_, rfl, id, rfl⟩
    have hparts := follows_parts (B := B) ⟨amb, .putBlockList a c b refs ct m⟩ paths rfl
      hord.account (x := .blob ⟨a, c, b⟩) (B.resolve_blobPaths hord.account hord.container) rfl
      fun _ => rfl
    refine hparts.bind ?_ fun _ _ _ => noted_error _ _
    intro φ s hs
    obtain ⟨bytes, rfl, rfl⟩ := hs s rfl
    refine Noted.bind (follows_commitBlockList _ rfl fun id => ⟨id, rfl⟩) fun _ => ?_
    exact (issues_calm_removeAll amb hslots).bind fun _ => issues_pure

/-! ### Deletions -/

lemma follows_deleteBlob {amb : Ambient} {a c b : String} (hord : (ContainerKey.mk a c).Ordinary)
    {Q : Phase → Except AzureError Unit → Prop} (hQ : ∀ r, Q .start r) :
    Follows (Plausible B) (Step B ⟨amb, .deleteBlob a c b⟩) Q .start (B.deleteBlob amb a c b) := by
  refine follows_perform_bind.mpr fun row hrow => ⟨_, .calm trivial, ?_⟩
  cases row with
  | none => exact hQ _
  | some row =>
    have hpath : B.stored row.storagePath = B.slotFile (.blob ⟨a, c, b⟩) := by
      rw [hrow row rfl]
      exact B.stored_blobPaths hord.account hord.container
    refine follows_calm (Issues.perform_bind ⟨rfl, .inl rfl⟩ fun r => ?_) hQ
    refine Issues.bind issues_ofExcept fun _ => ?_
    refine Issues.perform_bind trivial fun _ =>
      Issues.perform_bind ⟨rfl, fun id => .inr ⟨id, rfl⟩⟩ fun _ => ?_
    exact issues_ignore.mpr (FsIo.issues_calm_removeFileIfExists amb ⟨_, hpath, .inl rfl⟩)

lemma follows_deleteContainer {amb : Ambient} {a c : String}
    (hord : (ContainerKey.mk a c).Ordinary)
    {Q : Phase → Except AzureError Unit → Prop} (hQ : ∀ r, Q .start r) :
    Follows (Plausible B) (Step B ⟨amb, .deleteContainer a c⟩) Q .start
      (B.deleteContainer amb a c) := by
  refine follows_calm_bind (issues_calm_requireContainer a c) (fun _ => hQ _) fun _ => ?_
  refine follows_perform_bind.mpr fun res hres => ⟨_, .calm ⟨rfl, fun _ hx => hx⟩, ?_⟩
  cases res with
  | error e => exact hQ _
  | ok paths =>
    have hslots : ∀ p ∈ paths.map B.stored, ∃ x, p = B.slotFile x ∧
        (Call.deleteContainer a c).disturbs x := by
      intro p hp
      obtain ⟨path, hpath, rfl⟩ := List.mem_map.mp hp
      obtain ⟨b, rfl⟩ := hres paths rfl path hpath
      exact ⟨.blob ⟨a, c, b⟩, B.stored_blobPaths hord.account hord.container, rfl⟩
    have hok : orInternal (.ok paths) = ofExcept (.ok paths) := rfl
    rw [hok, ofExcept_ok_bind]
    refine follows_calm (Issues.bind (issues_calm_removeAll amb hslots) fun _ => ?_) hQ
    refine Issues.perform_bind ?_ fun _ => issues_pure
    exact ⟨⟨a, c⟩, B.resolve_containerRoot hord.account hord.container, fun _ hx => hx⟩

/-! ### Every call -/

/-- An outcome that fits the last phase: a write that succeeds has been recorded. -/
def Outcome (req : Request) (φ : Phase) (r : Except AzureError Reply) : Prop :=
  req.call.slot.isSome → Noted φ r

lemma issues_calm_update {α β : Type} {look : Store α} {stmt : Store (Except SqlError Unit)}
    {f : α → β} (hlook : Issues (Action.Calm B call) look) (hstmt : Issues (Action.Calm B call) stmt) :
    Issues (Action.Calm B call) (do
      let _ ← look
      let res ← stmt
      orInternal res
      let row ← look
      pure (f row)) :=
  hlook.bind fun _ => hstmt.bind fun _ => Issues.bind issues_ofExcept fun _ =>
    hlook.bind fun _ => issues_pure

/-- A call that writes nothing may end as it likes. -/
lemma follows_reading {amb : Ambient} (hslot : call.slot = none) {p : Store Reply}
    (hp : Issues (Action.Calm B call) p) :
    Follows (Plausible B) (Step B ⟨amb, call⟩) (Outcome ⟨amb, call⟩) .start p :=
  follows_calm hp fun _ h => by simp [hslot] at h

lemma follows_getBlob {amb : Ambient} (a c b : String) (range : Option (ℕ × ℕ)) :
    Follows (Plausible B) (Step B ⟨amb, .getBlob a c b range⟩) (fun φ _ => φ = .start) .start
      (B.getBlob a c b range) := by
  refine follows_calm_bind (issues_calm_requireBlob a c b) (fun _ => rfl) fun row => ?_
  refine follows_calm_bind issues_ofExcept (fun _ => rfl) fun rr => ?_
  refine follows_perform_bind.mpr fun file _ => ⟨_, .look rfl, ?_⟩
  exact follows_calm (Issues.bind issues_ofExcept fun _ => issues_pure) fun _ => rfl

/-- Every call that is not a patch follows the phases. -/
theorem follows_call {req : Request} (hord : req.call.Ordinary) (hpatch : req.call.patches = false) :
    Follows (Plausible B) (Step B req) (Outcome req) .start (B.call req.amb req.call) := by
  obtain ⟨amb, call⟩ := req
  cases call with
  | createContainer a c pa m =>
    refine follows_reading rfl ?_
    refine Issues.bind (Issues.perform_bind trivial fun r => ?_) fun _ => issues_pure
    rcases r with (_ | _ | _) | _
    · exact issues_fail
    · exact issues_fail
    · exact issues_fail
    · refine (issues_mapErr.mpr (FsIo.issues_calm_createDirAll ?_)).bind fun _ => issues_pure
      exact ⟨_, dirPos_containerDir ⟨a, c⟩,
        B.resolve_containerRoot (hord _ rfl).account (hord _ rfl).container⟩
  | deleteContainer a c =>
    refine (follows_deleteContainer (hord _ rfl) (Q := fun φ _ => φ = .start) fun _ => rfl).bind
      ?_ fun _ _ _ h => nomatch h
    exact fun _ _ _ h => nomatch h
  | getContainerProperties a c =>
    exact follows_reading rfl (((issues_calm_requireContainer a c).bind
      fun _ => issues_pure).bind fun _ => issues_pure)
  | setContainerMetadata a c m =>
    exact follows_reading rfl ((issues_calm_update (issues_calm_requireContainer a c)
      (issues_perform.mpr trivial)).bind fun _ => issues_pure)
  | setContainerAcl a c pa =>
    exact follows_reading rfl ((issues_calm_update (issues_calm_requireContainer a c)
      (issues_perform.mpr trivial)).bind fun _ => issues_pure)
  | listContainers a np mk n =>
    exact follows_reading rfl (Issues.bind (Issues.perform_bind trivial fun _ => issues_pure)
      fun _ => issues_pure)
  | listBlobs a c np d mk n =>
    exact follows_reading rfl (Issues.bind ((issues_calm_requireContainer a c).bind fun _ =>
      Issues.perform_bind trivial fun _ => issues_pure) fun _ => issues_pure)
  | putBlob a c b body ct h m =>
    exact (Noted.bind (follows_putBlob (hord _ rfl)) fun _ => issues_pure).mono fun _ _ h _ => h
  | getBlob a c b range =>
    exact (follows_getBlob a c b range).bind (fun _ _ _ h => nomatch h) fun _ _ _ h => nomatch h
  | getBlobProperties a c b =>
    exact follows_reading rfl (((issues_calm_requireBlob a c b).bind fun _ => issues_pure).bind
      fun _ => issues_pure)
  | setBlobProperties a c b patch => cases hpatch
  | setBlobMetadata a c b m => cases hpatch
  | deleteBlob a c b =>
    refine (follows_deleteBlob (hord _ rfl) (Q := fun φ _ => φ = .start) fun _ => rfl).bind
      ?_ fun _ _ _ h => nomatch h
    exact fun _ _ _ h => nomatch h
  | putBlock a c b id body =>
    exact (Noted.bind (follows_putBlock (hord _ rfl)) fun _ => issues_pure).mono fun _ _ h _ => h
  | putBlockList a c b refs ct m =>
    exact (Noted.bind (follows_putBlockList (hord _ rfl)) fun _ => issues_pure).mono
      fun _ _ h _ => h
  | getBlockList a c b =>
    exact follows_reading rfl (Issues.bind (Issues.perform_bind trivial fun _ =>
      Issues.perform_bind trivial fun _ => issues_pure) fun _ => issues_pure)

end BlobStore
