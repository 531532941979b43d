import BlobStore.Storage.FsIo

/-!
# The backend

`FsBackend` over the file tree and the metadata database: blob bytes on disk, metadata in the
database. Every operation is a process over the atomic actions of `World`, in the order of the
source.
-/

namespace BlobStore

open Codec FileTree UnixPath Resumption Proc

/-- A backend: where its files are, and the two digests it uses. `md5` is the digest of the whole
byte sequence fed to the hasher. -/
structure FsBackend where
  storageRoot : String
  hash : NameHash
  md5 : Bytes → Bytes

def IoError.toString : IoError → String
  | .notFound      => "No such file or directory (os error 2)"
  | .notADirectory => "Not a directory (os error 20)"
  | .isADirectory  => "Is a directory (os error 21)"
  | .other message => message

def ioError (e : IoError) : AzureError := .withMessage .internalError (IoError.toString e)

def sqlError (e : SqlError) : AzureError := .withMessage .internalError e.toString

/-- Go on with the result of a statement, or report its error as internal. -/
def orInternal {α : Type} (r : Except SqlError α) : Store α := ofExcept (r.mapError sqlError)

def containerRowToProps (row : ContainerRow) : ContainerProps where
  name         := row.name
  publicAccess := row.publicAccessLevel
  metadata     := row.metadata
  etag         := row.etag
  lastModified := row.lastModified

def blobRowToProps (row : BlobRow) : BlobProps where
  name               := row.name
  blobType           := (BlobType.parse row.blobType).getD .blockBlob
  contentLength      := row.contentLength
  contentType        := row.contentType
  contentMd5         := row.contentMd5
  contentEncoding    := row.contentEncoding
  contentLanguage    := row.contentLanguage
  cacheControl       := row.cacheControl
  contentDisposition := row.contentDisposition
  metadata           := row.metadata
  etag               := row.etag
  lastModified       := row.lastModified

def md5HexToBase64 (hexStr : String) : Option String := (hexDecode hexStr).map base64Encode

/-! ### Statements with their error paths -/

def requireContainer (account container : String) : Store ContainerRow := do
  let row : Option ContainerRow ← perform (Action.getContainer ⟨account, container⟩)
  match row with
  | some row => pure row
  | none     => fail (.new .containerNotFound)

def requireBlob (account container blob : String) : Store BlobRow := do
  let row : Option BlobRow ← perform (Action.getBlob ⟨account, container, blob⟩)
  match row with
  | some row => pure row
  | none     => fail (.new .blobNotFound)

namespace FsBackend

variable (B : FsBackend) (amb : Ambient)

/-! ### Paths -/

def blobRel (account container blob : String) : String :=
  join (join (join (join "accounts" account) "containers") container)
    (PathLayout.blobRelPath B.hash blob)

def stagedBlockRel (account container blob blockId : String) : String :=
  join (join (join (join "accounts" account) "containers") container)
    (PathLayout.stagedBlockRelPath B.hash blob blockId)

/-- The path a blob is written to, and the text recorded for it. -/
def blobPaths (account container blob : String) : String × String :=
  (join B.storageRoot (B.blobRel account container blob),
    storedText (B.blobRel account container blob))

def stagedBlockPath (account container blob blockId : String) : String × String :=
  (join B.storageRoot (B.stagedBlockRel account container blob blockId),
    storedText (B.stagedBlockRel account container blob blockId))

def tmpDir (account : String) : String :=
  join (join (join B.storageRoot "accounts") account) "tmp"

/-- What a recorded path names. -/
def stored (storagePath : String) : Path := resolve (join B.storageRoot storagePath)

/-! ### Containers -/

def createContainer (account container : String) (publicAccess : PublicAccessLevel)
    (metadata : Metadata) : Store ContainerProps := do
  let record : ContainerRecord :=
    ⟨publicAccess.asDbStr, metadata, amb.etag, amb.lastModified⟩
  let res : Except SqlError Unit ←
    perform (Action.insertContainer amb.dbFault ⟨account, container⟩ record)
  match res with
  | .error .uniqueViolation => fail (.new .containerAlreadyExists)
  | .error e                => fail (sqlError e)
  | .ok ()                  => do
    let dir := resolve (PathLayout.containerRoot B.storageRoot account container)
    (FsIo.createDirAll dir).mapErr ioError
    pure (containerRowToProps ⟨container, publicAccess, metadata, amb.etag, amb.lastModified⟩)

/-- The best-effort removals of `delete_container`, file by file. -/
def removeAll : List Path → Store Unit
  | []      => pure ()
  | p :: ps => do
    (FsIo.removeFileIfExists amb p).ignore
    removeAll ps

def deleteContainer (account container : String) : Store Unit := do
  let _ ← requireContainer account container
  let res : Except SqlError (List String) ←
    perform (Action.deleteContainer amb.dbFault ⟨account, container⟩)
  let blobRelPaths ← orInternal res
  removeAll amb (blobRelPaths.map B.stored)
  let dir := resolve (PathLayout.containerRoot B.storageRoot account container)
  let _ ← perform (Action.removeDirAll amb.removeFails dir)
  pure ()

def getContainerProperties (account container : String) : Store ContainerProps := do
  let row ← requireContainer account container
  pure (containerRowToProps row)

def setContainerMetadata (account container : String) (metadata : Metadata) :
    Store ContainerProps := do
  let _ ← requireContainer account container
  let res : Except SqlError Unit ← perform
    (Action.setContainerMetadata amb.dbFault ⟨account, container⟩ metadata amb.etag
      amb.lastModified)
  orInternal res
  let row ← requireContainer account container
  pure (containerRowToProps row)

def setContainerAcl (account container : String) (publicAccess : PublicAccessLevel) :
    Store ContainerProps := do
  let _ ← requireContainer account container
  let res : Except SqlError Unit ← perform
    (Action.setContainerAcl amb.dbFault ⟨account, container⟩ publicAccess amb.etag
      amb.lastModified)
  orInternal res
  let row ← requireContainer account container
  pure (containerRowToProps row)

def listContainers (account : String) (namePrefix marker : Option String) (maxResults : UInt32) :
    Store ContainerListPage := do
  let res : List ContainerRow × Option String ←
    perform (Action.listContainers account namePrefix marker maxResults)
  pure ⟨res.1.map containerRowToProps, res.2⟩

/-! ### Listing blobs -/

/-- `&s[n..]`; `none` where the slice is not on a character boundary and the task panics. -/
def dropBytes : ℕ → List Char → Option (List Char)
  | 0, cs           => some cs
  | _ + 1, []       => none
  | n + 1, c :: cs =>
    if c.utf8Size ≤ n + 1 then dropBytes (n + 1 - c.utf8Size) cs else none

/-- The text before the first occurrence of a pattern. -/
def beforeFirst (pat : List Char) : List Char → Option (List Char)
  | []      => if pat = [] then some [] else none
  | c :: cs =>
    if pat <+: c :: cs then some [] else (beforeFirst pat cs).map (c :: ·)

/-- The virtual directory a name falls into, if the delimiter occurs after the prefix. -/
def groupPrefix (namePrefix delim name : String) : Option (Option String) :=
  (dropBytes (min namePrefix.utf8ByteSize name.utf8ByteSize) name.toList).map fun rest =>
    (beforeFirst delim.toList rest).map fun before =>
      namePrefix ++ String.ofList before ++ delim

/-- The loop of `list_blobs`: each row becomes a blob entry or joins a virtual directory. -/
def groupRows (namePrefix : String) (delimiter : Option String) :
    List BlobRow → List BlobProps → List String → Option (List BlobProps × List String)
  | [], blobs, prefixes          => some (blobs, prefixes)
  | row :: rows, blobs, prefixes =>
    match delimiter.map fun delim => groupPrefix namePrefix delim row.name with
    | some none            => none
    | some (some (some g)) =>
      groupRows namePrefix delimiter rows blobs
        (if prefixes.contains g then prefixes else prefixes ++ [g])
    | _ => groupRows namePrefix delimiter rows (blobs ++ [blobRowToProps row]) prefixes

/-- `list_blobs`; the page is `none` where the task panics. -/
def listBlobs (account container : String) (namePrefix delimiter marker : Option String)
    (maxResults : UInt32) : Store (Option BlobListPage) := do
  let _ ← requireContainer account container
  let res : List BlobRow × Option String ←
    perform (Action.listBlobs ⟨account, container⟩ namePrefix marker maxResults)
  pure ((groupRows (namePrefix.getD "") delimiter res.1 [] []).map fun g => ⟨g.1, g.2, res.2⟩)

/-! ### Blobs -/

/-- `upsert_blob_single_shot`. -/
def upsertBlobSingleShot (account container blob storagePath : String) (contentLength : ℕ)
    (contentType contentMd5 : Option String) (metadata : Metadata) : Store BlobRow := do
  let _ ← requireContainer account container
  let res : Except SqlError Unit ← perform
    (Action.upsertBlob amb.dbFault ⟨account, container, blob⟩
      ⟨contentLength, contentType, contentMd5, metadata, amb.etag, amb.lastModified, storagePath⟩)
  orInternal res
  requireBlob account container blob

/-- Compare the `Content-MD5` header, if any, with the digest of what was written. -/
def checkMd5 (absPath : Path) (contentMd5Header md5B64 : Option String) : Store Unit :=
  if contentMd5Header.isSome ∧ contentMd5Header ≠ md5B64 then do
    (FsIo.removeFileIfExists amb absPath).ignore
    fail (.new .md5Mismatch)
  else pure ()

def putBlob (account container blob : String) (body : ByteStream)
    (contentType contentMd5Header : Option String) (metadata : Metadata) : Store BlobProps := do
  let _ ← requireContainer account container
  let (absPath, relPath) := B.blobPaths account container blob
  let (size, md5Hex) ←
    (FsIo.writeStreamAtomic B.md5 amb (B.tmpDir account) absPath body).mapErr ioError
  let md5B64 := md5HexToBase64 md5Hex
  checkMd5 amb (resolve absPath) contentMd5Header md5B64
  let row ← upsertBlobSingleShot amb account container blob relPath size contentType md5B64 metadata
  pure (blobRowToProps row)

/-- Clamp a requested range against the length of the blob. -/
def resolveRange (totalLen : ℕ) : Option (ℕ × ℕ) → Except AzureError (Option ByteRange)
  | none              => .ok none
  | some (start, stop) =>
    let stop := min stop (totalLen - 1)
    if stop < start ∨ totalLen ≤ start then .error (.new .invalidRange)
    else .ok (some ⟨start, stop⟩)

/-- The bytes the reader yields: seek and take for a range, take the whole length otherwise. -/
def readRange (content : Bytes) (totalLen : ℕ) : Option ByteRange → Bytes
  | some r => (content.drop r.start).take (r.stop - r.start + 1)
  | none   => content.take totalLen

def getBlob (account container blob : String) (range : Option (ℕ × ℕ)) : Store BlobPayload := do
  let row ← requireBlob account container blob
  let totalLen := row.contentLength
  let resolvedRange ← ofExcept (resolveRange totalLen range)
  let file : Except IoError Bytes ← perform (Action.openFile (B.stored row.storagePath))
  let content ← ofExcept (file.mapError ioError)
  pure ⟨blobRowToProps row, totalLen, resolvedRange, readRange content totalLen resolvedRange⟩

def getBlobProperties (account container blob : String) : Store BlobProps := do
  let row ← requireBlob account container blob
  pure (blobRowToProps row)

def setBlobProperties (account container blob : String) (patch : BlobPropertiesPatch) :
    Store BlobProps := do
  let _ ← requireBlob account container blob
  let res : Except SqlError Unit ← perform
    (Action.setBlobProperties amb.dbFault ⟨account, container, blob⟩ patch amb.etag
      amb.lastModified)
  orInternal res
  let row ← requireBlob account container blob
  pure (blobRowToProps row)

def setBlobMetadata (account container blob : String) (metadata : Metadata) :
    Store BlobProps := do
  let _ ← requireBlob account container blob
  let res : Except SqlError Unit ← perform
    (Action.setBlobMetadata amb.dbFault ⟨account, container, blob⟩ metadata amb.etag
      amb.lastModified)
  orInternal res
  let row ← requireBlob account container blob
  pure (blobRowToProps row)

def deleteBlob (account container blob : String) : Store Unit := do
  let row ← requireBlob account container blob
  let k : BlobKey := ⟨account, container, blob⟩
  let res : Except SqlError Unit ← perform (Action.deleteBlobRow amb.dbFault k)
  orInternal res
  perform (Action.deleteCommittedBlocks k)
  perform (Action.deleteStagedBlocks k)
  (FsIo.removeFileIfExists amb (B.stored row.storagePath)).ignore

/-! ### Blocks -/

def putBlock (account container blob blockId : String) (body : ByteStream) : Store String := do
  let _ ← requireContainer account container
  let (absPath, relPath) := B.stagedBlockPath account container blob blockId
  let (size, md5Hex) ←
    (FsIo.writeStreamAtomic B.md5 amb (B.tmpDir account) absPath body).mapErr ioError
  let md5B64 := md5HexToBase64 md5Hex
  let res : Except SqlError Unit ← perform
    (Action.stageBlock amb.dbFault ⟨⟨account, container, blob⟩, blockId⟩
      ⟨size, md5B64, relPath, amb.nowIso⟩)
  orInternal res
  pure (md5B64.getD "")

/-- The size recorded for a committed id; of several entries the last one counts. -/
def committedSize (committed : List CommittedBlock) (blockId : String) : Option ℕ :=
  (committed.reverse.find? fun b => b.blockId = blockId).map CommittedBlock.size

/-- The size and the file of one reference; no file where only a committed block has the id. -/
def resolveRef (committed : List CommittedBlock) (staged : Option StagedBlockRecord)
    (ref : BlockRef) : Except AzureError (ℕ × Option Path) :=
  match ref.kind, staged, committedSize committed ref.blockId with
  | .uncommitted, some s, _         => .ok (s.blockSize, some (B.stored s.storagePath))
  | .uncommitted, none, _           => .error (.new .invalidBlockList)
  | .committed, some s, some size   => .ok (size, some (B.stored s.storagePath))
  | .committed, none, some _        => .error (.new .invalidBlockList)
  | .committed, _, none             => .error (.new .invalidBlockList)
  | .latest, some s, _              => .ok (s.blockSize, some (B.stored s.storagePath))
  | .latest, none, some size        => .ok (size, none)
  | .latest, none, none             => .error (.new .invalidBlockList)

/-- The loop of `put_block_list` over the references. -/
def resolveRefs (k : BlobKey) (committed : List CommittedBlock) :
    List BlockRef → Store (List (CommittedBlock × Option Path))
  | []          => pure []
  | ref :: refs => do
    let staged : Option StagedBlockRecord ←
      perform (Action.getStagedBlock ⟨k, ref.blockId⟩)
    let (size, path) ← ofExcept (B.resolveRef committed staged ref)
    let rest ← resolveRefs k committed refs
    pure ((⟨ref.blockId, size⟩, path) :: rest)

/-- `commit_block_list`. -/
def commitBlockList (account container blob : String) (resolved : List CommittedBlock)
    (storagePath : String) (totalSize : ℕ) (contentMd5 : String) (contentType : Option String)
    (metadata : Metadata) : Store BlobRow := do
  let _ ← requireContainer account container
  let res : Except SqlError Unit ← perform
    (Action.commitBlockList amb.dbFault ⟨account, container, blob⟩ resolved
      ⟨totalSize, contentType, some contentMd5, metadata, amb.etag, amb.lastModified, storagePath⟩)
  orInternal res
  requireBlob account container blob

def putBlockList (account container blob : String) (blocks : List BlockRef)
    (contentType : Option String) (metadata : Metadata) : Store BlobProps := do
  let _ ← requireContainer account container
  let k : BlobKey := ⟨account, container, blob⟩
  let committed : List CommittedBlock ← perform (Action.getCommittedBlocks k)
  let resolved ← B.resolveRefs k committed blocks
  let (absFinal, relFinal) := B.blobPaths account container blob
  -- a reference without a file: the block is part of the blob but no longer staged
  let partPaths ← ofExcept (match resolved.mapM Prod.snd with
    | some paths => .ok paths
    | none       => .error (AzureError.new .invalidBlockList))
  let (totalSize, md5Hex) ←
    (FsIo.concatenateFilesAtomic B.md5 amb (B.tmpDir account) absFinal partPaths).mapErr ioError
  let md5B64 := (md5HexToBase64 md5Hex).getD ""
  let row ← commitBlockList amb account container blob (resolved.map Prod.fst) relFinal totalSize
    md5B64 contentType metadata
  removeAll amb partPaths
  pure (blobRowToProps row)

def getBlockList (account container blob : String) : Store BlockListResult := do
  let k : BlobKey := ⟨account, container, blob⟩
  let committed : List CommittedBlock ← perform (Action.getCommittedBlocks k)
  let uncommitted : List CommittedBlock ← perform (Action.getUncommittedBlocks k)
  pure ⟨committed, uncommitted⟩

end FsBackend

/-! ### Calls -/

/-- A call of the `StorageBackend` trait. -/
inductive Call where
  | createContainer (account container : String) (publicAccess : PublicAccessLevel)
      (metadata : Metadata)
  | deleteContainer (account container : String)
  | getContainerProperties (account container : String)
  | setContainerMetadata (account container : String) (metadata : Metadata)
  | setContainerAcl (account container : String) (publicAccess : PublicAccessLevel)
  | listContainers (account : String) (namePrefix marker : Option String) (maxResults : UInt32)
  | listBlobs (account container : String) (namePrefix delimiter marker : Option String)
      (maxResults : UInt32)
  | putBlob (account container blob : String) (body : ByteStream)
      (contentType contentMd5Header : Option String) (metadata : Metadata)
  | getBlob (account container blob : String) (range : Option (ℕ × ℕ))
  | getBlobProperties (account container blob : String)
  | setBlobProperties (account container blob : String) (patch : BlobPropertiesPatch)
  | setBlobMetadata (account container blob : String) (metadata : Metadata)
  | deleteBlob (account container blob : String)
  | putBlock (account container blob blockId : String) (body : ByteStream)
  | putBlockList (account container blob : String) (blocks : List BlockRef)
      (contentType : Option String) (metadata : Metadata)
  | getBlockList (account container blob : String)

/-- What a call answers when it succeeds. -/
inductive Reply where
  | done
  | container (props : ContainerProps)
  | containers (page : ContainerListPage)
  | blobs (page : Option BlobListPage)
  | blob (props : BlobProps)
  | payload (payload : BlobPayload)
  | md5 (value : String)
  | blockList (result : BlockListResult)
  deriving DecidableEq

/-- The process of a call. -/
def FsBackend.call (B : FsBackend) (amb : Ambient) : Call → Store Reply
  | .createContainer a c pa m       => return .container (← B.createContainer amb a c pa m)
  | .deleteContainer a c            => do B.deleteContainer amb a c; return .done
  | .getContainerProperties a c     => return .container (← getContainerProperties a c)
  | .setContainerMetadata a c m     => return .container (← setContainerMetadata amb a c m)
  | .setContainerAcl a c pa         => return .container (← setContainerAcl amb a c pa)
  | .listContainers a np marker n   => return .containers (← listContainers a np marker n)
  | .listBlobs a c np d marker n    => return .blobs (← listBlobs a c np d marker n)
  | .putBlob a c b body ct h m      => return .blob (← B.putBlob amb a c b body ct h m)
  | .getBlob a c b range            => return .payload (← B.getBlob a c b range)
  | .getBlobProperties a c b        => return .blob (← getBlobProperties a c b)
  | .setBlobProperties a c b patch  => return .blob (← setBlobProperties amb a c b patch)
  | .setBlobMetadata a c b m        => return .blob (← setBlobMetadata amb a c b m)
  | .deleteBlob a c b               => do B.deleteBlob amb a c b; return .done
  | .putBlock a c b id body         => return .md5 (← B.putBlock amb a c b id body)
  | .putBlockList a c b refs ct m   => return .blob (← B.putBlockList amb a c b refs ct m)
  | .getBlockList a c b             => return .blockList (← getBlockList a c b)

end BlobStore
