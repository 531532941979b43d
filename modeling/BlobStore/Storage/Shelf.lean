import BlobStore.Storage.Layout

/-!
# The store without its file tree

What the backend is for, said without paths: tables, and behind each row of a blob or of a staged
block the bytes of its file. Every call is one step from a shelf to a shelf with an answer.

Nothing here mentions temporary files, directories, renames or the order of the two stores;
`Storage.Refinement` proves that calls which run one after another do exactly this.
-/

namespace BlobStore

open Codec FileTree

/-- The tables, and the bytes behind the rows; `none` where there is no row or no file. -/
@[ext] structure Shelf where
  db : MetadataDb
  content : BlobKey → Option Bytes
  staged : StagedBlockKey → Option Bytes

namespace Shelf

/-- A call of the abstract store. -/
abbrev Op (α : Type) := Shelf → Except AzureError α × Shelf

/-- A call that only looks. -/
def look {α : Type} (f : Shelf → Except AzureError α) : Op α := fun s => (f s, s)

def container (c : ContainerKey) (db : MetadataDb) : Except AzureError ContainerRow :=
  match db.getContainer c with
  | some row => .ok row
  | none     => .error (.new .containerNotFound)

def blob (k : BlobKey) (db : MetadataDb) : Except AzureError BlobRow :=
  match db.getBlob k with
  | some row => .ok row
  | none     => .error (.new .blobNotFound)

variable (B : FsBackend) (amb : Ambient)

/-! ### Rows only -/

def createContainer (c : ContainerKey) (publicAccess : PublicAccessLevel) (metadata : Metadata) :
    Op ContainerProps := fun s =>
  match MetadataDb.guarded amb.dbFault (MetadataDb.insertContainer c
    ⟨publicAccess.asDbStr, metadata, amb.etag, amb.lastModified⟩) s.db with
  | (.error .uniqueViolation, _) => (.error (.new .containerAlreadyExists), s)
  | (.error e, _)                => (.error (sqlError e), s)
  | (.ok (), db)                 =>
    (.ok (containerRowToProps
      ⟨c.container, publicAccess, metadata, amb.etag, amb.lastModified⟩), { s with db := db })

/-- A statement on a row that must be there; the answer is the row afterwards. -/
def update {ρ : Type} (row : MetadataDb → Except AzureError ρ)
    (stmt : MetadataDb → Except SqlError Unit × MetadataDb) : Op ρ := fun s =>
  match row s.db with
  | .error e => (.error e, s)
  | .ok _    =>
    match MetadataDb.guarded amb.dbFault stmt s.db with
    | (.error e, _)  => (.error (sqlError e), s)
    | (.ok (), db)   => (row db, { s with db := db })

/-! ### Bytes -/

/-- Replace what is behind the row of a blob, if there is one. -/
def overwrite (k : BlobKey) (bytes : Option Bytes) (s : Shelf) : Shelf :=
  { s with content := fun k' =>
      if k' = k then (s.db.blobs.lookup k).bind fun _ => bytes else s.content k' }

/-- Replace what is behind the row of a staged block, if there is one. -/
def restage (b : StagedBlockKey) (bytes : Bytes) (s : Shelf) : Shelf :=
  { s with staged := fun b' =>
      if b' = b then (s.db.stagedBlocks.lookup b).map fun _ => bytes else s.staged b' }

/-- The columns of a row for newly written bytes. -/
def upsertFor (k : BlobKey) (bytes : Bytes) (contentType contentMd5 : Option String)
    (metadata : Metadata) : BlobUpsert where
  contentLength := bytes.length
  contentType   := contentType
  contentMd5    := contentMd5
  metadata      := metadata
  etag          := amb.etag
  lastModified  := amb.lastModified
  storagePath   := (B.blobPaths k.account k.container k.blob).2

/-- The digest of the bytes as it is recorded. -/
def digest (bytes : Bytes) : Option String := md5HexToBase64 (hexEncode (B.md5 bytes))

/-- The bytes are in place; what is left is the statement that records them. -/
def record (k : BlobKey) (bytes : Bytes)
    (stmt : MetadataDb → Except SqlError Unit × MetadataDb) : Op BlobProps := fun s =>
  match MetadataDb.guarded amb.dbFault stmt s.db with
  | (.error e, _) => (.error (sqlError e), s.overwrite k (some bytes))
  | (.ok (), db)  =>
    ((blob k db).map blobRowToProps,
      { db      := db
        content := Function.update s.content k (some bytes)
        staged  := fun b => if (db.stagedBlocks.lookup b).isSome then s.staged b else none })

def putBlob (k : BlobKey) (body : ByteStream) (contentType contentMd5Header : Option String)
    (metadata : Metadata) : Op BlobProps := fun s =>
  match container k.containerKey s.db, body.collect with
  | .error e, _          => (.error e, s)
  | .ok _, .error (e, _) => (.error (ioError e), s)
  | .ok _, .ok bytes     =>
    if contentMd5Header.isSome ∧ contentMd5Header ≠ digest B bytes then
      -- the file in place is the new one, and is removed
      (.error (.new .md5Mismatch),
        s.overwrite k (if amb.removeFails (B.blobFile k) then some bytes else none))
    else
      record amb k bytes (MetadataDb.upsertBlob k
        (upsertFor B amb k bytes contentType (digest B bytes) metadata)) s

def getBlob (k : BlobKey) (range : Option (ℕ × ℕ)) (s : Shelf) : Except AzureError BlobPayload :=
  match blob k s.db with
  | .error e => .error e
  | .ok row  =>
    match FsBackend.resolveRange row.contentLength range, s.content k with
    | .error e, _             => .error e
    | .ok _, none             => .error (ioError .notFound)
    | .ok resolved, some bytes =>
      .ok ⟨blobRowToProps row, row.contentLength, resolved,
        FsBackend.readRange bytes row.contentLength resolved⟩

def deleteBlob (k : BlobKey) : Op Unit := fun s =>
  match blob k s.db with
  | .error e => (.error e, s)
  | .ok _    =>
    match MetadataDb.guarded amb.dbFault (MetadataDb.deleteBlobRow k) s.db with
    | (.error e, _) => (.error (sqlError e), s)
    | (.ok (), db)  =>
      (.ok (),
        { db      := (db.deleteCommittedBlocks k).deleteStagedBlocks k
          content := fun k' => if k' = k then none else s.content k'
          staged  := fun b => if b.blob = k then none else s.staged b })

def deleteContainer (c : ContainerKey) : Op Unit := fun s =>
  match container c s.db with
  | .error e => (.error e, s)
  | .ok _    =>
    match MetadataDb.guarded amb.dbFault (MetadataDb.deleteContainer c) s.db with
    | (.error e, _) => (.error (sqlError e), s)
    | (.ok _, db)   =>
      (.ok (),
        { db      := db
          content := fun k => if k.containerKey = c then none else s.content k
          staged  := fun b => if b.blob.containerKey = c then none else s.staged b })

/-! ### Blocks -/

def putBlock (b : StagedBlockKey) (body : ByteStream) : Op String := fun s =>
  match container b.blob.containerKey s.db, body.collect with
  | .error e, _          => (.error e, s)
  | .ok _, .error (e, _) => (.error (ioError e), s)
  | .ok _, .ok bytes     =>
    let path := B.stagedBlockPath b.blob.account b.blob.container b.blob.blob b.blockId
    match MetadataDb.guarded amb.dbFault (MetadataDb.stageBlock b
      ⟨bytes.length, digest B bytes, path.2, amb.nowIso⟩) s.db with
    | (.error e, _) => (.error (sqlError e), s.restage b bytes)
    | (.ok (), db)  =>
      (.ok ((digest B bytes).getD ""),
        { s with db := db, staged := Function.update s.staged b (some bytes) })

/-- What a reference of a block list stands for: the block must be staged. -/
def resolveRef (k : BlobKey) (db : MetadataDb) (ref : BlockRef) : Option CommittedBlock :=
  (db.getStagedBlock ⟨k, ref.blockId⟩).bind fun r =>
    match ref.kind with
    | .committed =>
      (FsBackend.committedSize (db.getCommittedBlocks k) ref.blockId).map (⟨ref.blockId, ·⟩)
    | _          => some ⟨ref.blockId, r.blockSize⟩

/-- The bytes of a block list: those behind its references, in order. -/
def assemble (k : BlobKey) (refs : List BlockRef) (s : Shelf) : Bytes :=
  (refs.map fun ref => (s.staged ⟨k, ref.blockId⟩).getD []).flatten

def putBlockList (k : BlobKey) (refs : List BlockRef) (contentType : Option String)
    (metadata : Metadata) : Op BlobProps := fun s =>
  match container k.containerKey s.db, refs.mapM (resolveRef k s.db) with
  | .error e, _          => (.error e, s)
  | .ok _, none          => (.error (.new .invalidBlockList), s)
  | .ok _, some resolved =>
    let bytes := s.assemble k refs
    record amb k bytes (MetadataDb.commitBlockList k resolved
      (upsertFor B amb k bytes contentType (some ((digest B bytes).getD "")) metadata)) s

def getBlockList (k : BlobKey) (s : Shelf) : BlockListResult :=
  ⟨s.db.getCommittedBlocks k, s.db.getUncommittedBlocks k⟩

/-! ### Calls -/

/-- Answer with a function of the answer. -/
def replying {α β : Type} (f : α → β) (op : Op α) : Op β := fun s => ((op s).1.map f, (op s).2)

/-- The step of a call. -/
def call : Call → Op Reply
  | .createContainer a c pa m => replying .container (createContainer amb ⟨a, c⟩ pa m)
  | .deleteContainer a c => replying (fun _ => .done) (deleteContainer amb ⟨a, c⟩)
  | .getContainerProperties a c =>
    look fun s => (container ⟨a, c⟩ s.db).map fun row => .container (containerRowToProps row)
  | .setContainerMetadata a c m =>
    replying .container (replying containerRowToProps (update amb (container ⟨a, c⟩)
      (MetadataDb.setContainerMetadata ⟨a, c⟩ m amb.etag amb.lastModified)))
  | .setContainerAcl a c pa =>
    replying .container (replying containerRowToProps (update amb (container ⟨a, c⟩)
      (MetadataDb.setContainerAcl ⟨a, c⟩ pa amb.etag amb.lastModified)))
  | .listContainers a np marker n =>
    look fun s =>
      let res := s.db.listContainers a np marker n
      .ok (.containers ⟨res.1.map containerRowToProps, res.2⟩)
  | .listBlobs a c np d marker n =>
    look fun s => (container ⟨a, c⟩ s.db).map fun _ =>
      let res := s.db.listBlobs ⟨a, c⟩ np marker n
      .blobs ((FsBackend.groupRows (np.getD "") d res.1 [] []).map fun g => ⟨g.1, g.2, res.2⟩)
  | .putBlob a c b body ct h m => replying .blob (putBlob B amb ⟨a, c, b⟩ body ct h m)
  | .getBlob a c b range => look fun s => (getBlob ⟨a, c, b⟩ range s).map .payload
  | .getBlobProperties a c b =>
    look fun s => (blob ⟨a, c, b⟩ s.db).map fun row => .blob (blobRowToProps row)
  | .setBlobProperties a c b patch =>
    replying .blob (replying blobRowToProps (update amb (blob ⟨a, c, b⟩)
      (MetadataDb.setBlobProperties ⟨a, c, b⟩ patch amb.etag amb.lastModified)))
  | .setBlobMetadata a c b m =>
    replying .blob (replying blobRowToProps (update amb (blob ⟨a, c, b⟩)
      (MetadataDb.setBlobMetadata ⟨a, c, b⟩ m amb.etag amb.lastModified)))
  | .deleteBlob a c b => replying (fun _ => .done) (deleteBlob amb ⟨a, c, b⟩)
  | .putBlock a c b id body => replying .md5 (putBlock B amb ⟨⟨a, c, b⟩, id⟩ body)
  | .putBlockList a c b refs ct m => replying .blob (putBlockList B amb ⟨a, c, b⟩ refs ct m)
  | .getBlockList a c b => look fun s => .ok (.blockList (getBlockList ⟨a, c, b⟩ s))

end Shelf
end BlobStore
