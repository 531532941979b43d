import BlobStore.Lib.Resumption.Basic
import BlobStore.Storage.MetadataDb

/-!
# The shared state and its atomic actions

What several requests share is the metadata database and the file tree. An `Action` is one atomic
access: one SQL statement or transaction, or one file-system call. `Action.exec` is the only place
where the shared state changes.

Two kinds of failure come from outside and are part of the action: `fault` makes a statement
fail, `fails` and `keep` let the removal of files fail.
-/

namespace BlobStore

open Codec FileTree Resumption

structure World where
  db : MetadataDb
  fs : FsTree UInt8

inductive Action where
  -- metadata database
  | accountKeys (account : String)
  | getContainer (c : ContainerKey)
  | insertContainer (fault : Option String) (c : ContainerKey) (r : ContainerRecord)
  | deleteContainer (fault : Option String) (c : ContainerKey)
  | setContainerMetadata (fault : Option String) (c : ContainerKey) (metadata : Metadata)
      (etag lastModified : String)
  | setContainerAcl (fault : Option String) (c : ContainerKey) (publicAccess : PublicAccessLevel)
      (etag lastModified : String)
  | listContainers (account : String) (namePrefix marker : Option String) (maxResults : UInt32)
  | listBlobs (c : ContainerKey) (namePrefix marker : Option String) (maxResults : UInt32)
  | getBlob (k : BlobKey)
  | upsertBlob (fault : Option String) (k : BlobKey) (u : BlobUpsert)
  | setBlobProperties (fault : Option String) (k : BlobKey) (patch : BlobPropertiesPatch)
      (etag lastModified : String)
  | setBlobMetadata (fault : Option String) (k : BlobKey) (metadata : Metadata)
      (etag lastModified : String)
  | deleteBlobRow (fault : Option String) (k : BlobKey)
  | deleteCommittedBlocks (k : BlobKey)
  | deleteStagedBlocks (k : BlobKey)
  | stageBlock (fault : Option String) (s : StagedBlockKey) (r : StagedBlockRecord)
  | getStagedBlock (s : StagedBlockKey)
  | getCommittedBlocks (k : BlobKey)
  | getUncommittedBlocks (k : BlobKey)
  | commitBlockList (fault : Option String) (k : BlobKey) (resolved : List CommittedBlock)
      (u : BlobUpsert)
  -- file system
  | createDirAll (p : Path)
  | createFile (p : Path)
  | writeAll (p : Path) (b : Bytes)
  | syncAll (p : Path)
  | rename (src dst : Path)
  | fsyncDir (p : Path)
  | openFile (p : Path)
  | removeFile (fails : Bool) (p : Path)
  | removeDirAll (keep : Path → Bool) (p : Path)

namespace Action

/-- What an action answers. -/
@[reducible] def Response : Action → Type
  | accountKeys _                  => Option (String × Option String)
  | getContainer _                 => Option ContainerRow
  | insertContainer _ _ _          => Except SqlError Unit
  | deleteContainer _ _            => Except SqlError (List String)
  | setContainerMetadata _ _ _ _ _ => Except SqlError Unit
  | setContainerAcl _ _ _ _ _      => Except SqlError Unit
  | listContainers _ _ _ _         => List ContainerRow × Option String
  | listBlobs _ _ _ _              => List BlobRow × Option String
  | getBlob _                      => Option BlobRow
  | upsertBlob _ _ _               => Except SqlError Unit
  | setBlobProperties _ _ _ _ _    => Except SqlError Unit
  | setBlobMetadata _ _ _ _ _      => Except SqlError Unit
  | deleteBlobRow _ _              => Except SqlError Unit
  | deleteCommittedBlocks _        => Unit
  | deleteStagedBlocks _           => Unit
  | stageBlock _ _ _               => Except SqlError Unit
  | getStagedBlock _               => Option StagedBlockRecord
  | getCommittedBlocks _           => List CommittedBlock
  | getUncommittedBlocks _         => List CommittedBlock
  | commitBlockList _ _ _ _        => Except SqlError Unit
  | createDirAll _                 => Except IoError Unit
  | createFile _                   => Except IoError Unit
  | writeAll _ _                   => Unit
  | syncAll _                      => Unit
  | rename _ _                     => Except IoError Unit
  | fsyncDir _                     => Unit
  | openFile _                     => Except IoError Bytes
  | removeFile _ _                 => Except IoError Unit
  | removeDirAll _ _               => Except IoError Unit

/-- A statement that changes the database. -/
def onDb {α : Type} (stmt : MetadataDb → α × MetadataDb) (w : World) : α × World :=
  ((stmt w.db).1, { w with db := (stmt w.db).2 })

/-- A call that changes the file tree. -/
def onFs {α : Type} (call : FsTree UInt8 → α × FsTree UInt8) (w : World) : α × World :=
  ((call w.fs).1, { w with fs := (call w.fs).2 })

def exec : (a : Action) → World → a.Response × World
  | accountKeys account, w => (w.db.accountKeys account, w)
  | getContainer c, w => (w.db.getContainer c, w)
  | insertContainer fault c r, w =>
    onDb (MetadataDb.guarded fault (MetadataDb.insertContainer c r)) w
  | deleteContainer fault c, w => onDb (MetadataDb.guarded fault (MetadataDb.deleteContainer c)) w
  | setContainerMetadata fault c m e l, w =>
    onDb (MetadataDb.guarded fault (MetadataDb.setContainerMetadata c m e l)) w
  | setContainerAcl fault c pa e l, w =>
    onDb (MetadataDb.guarded fault (MetadataDb.setContainerAcl c pa e l)) w
  | listContainers account np mk n, w => (w.db.listContainers account np mk n, w)
  | listBlobs c np mk n, w => (w.db.listBlobs c np mk n, w)
  | getBlob k, w => (w.db.getBlob k, w)
  | upsertBlob fault k u, w => onDb (MetadataDb.guarded fault (MetadataDb.upsertBlob k u)) w
  | setBlobProperties fault k patch e l, w =>
    onDb (MetadataDb.guarded fault (MetadataDb.setBlobProperties k patch e l)) w
  | setBlobMetadata fault k m e l, w =>
    onDb (MetadataDb.guarded fault (MetadataDb.setBlobMetadata k m e l)) w
  | deleteBlobRow fault k, w => onDb (MetadataDb.guarded fault (MetadataDb.deleteBlobRow k)) w
  | deleteCommittedBlocks k, w => ((), { w with db := w.db.deleteCommittedBlocks k })
  | deleteStagedBlocks k, w => ((), { w with db := w.db.deleteStagedBlocks k })
  | stageBlock fault s r, w => onDb (MetadataDb.guarded fault (MetadataDb.stageBlock s r)) w
  | getStagedBlock s, w => (w.db.getStagedBlock s, w)
  | getCommittedBlocks k, w => (w.db.getCommittedBlocks k, w)
  | getUncommittedBlocks k, w => (w.db.getUncommittedBlocks k, w)
  | commitBlockList fault k resolved u, w =>
    onDb (MetadataDb.guarded fault (MetadataDb.commitBlockList k resolved u)) w
  | createDirAll p, w => onFs (FsTree.createDirAll p) w
  | createFile p, w => onFs (FsTree.createFile p) w
  | writeAll p b, w => ((), { w with fs := w.fs.write p b })
  | syncAll _, w => ((), w)
  | rename src dst, w => onFs (FsTree.rename src dst) w
  | fsyncDir _, w => ((), w)
  | openFile p, w => (w.fs.openFile p, w)
  | removeFile true _, w => (.error (.other "Operation not permitted (os error 1)"), w)
  | removeFile false p, w => onFs (FsTree.removeFile p) w
  | removeDirAll keep p, w => onFs (FsTree.removeDirAll keep p) w

/-- The paths of regular files, or of trees of them, that an action reads, writes or removes. -/
def filePaths : Action → List Path
  | createFile p     => [p]
  | writeAll p _     => [p]
  | rename src dst   => [src, dst]
  | openFile p       => [p]
  | removeFile _ p   => [p]
  | removeDirAll _ p => [p]
  | _                => []

end Action

/-- File-system code: processes that fail with an I/O error. -/
abbrev Io := Proc Action Action.Response IoError

/-- Storage code: processes that fail with an `AzureError`. -/
abbrev Store := Proc Action Action.Response AzureError

/-- Run storage code alone. -/
abbrev Store.run {α : Type} (p : Store α) (w : World) : Except AzureError α × World :=
  Proc.run Action.exec p w

end BlobStore
