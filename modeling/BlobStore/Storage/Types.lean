import BlobStore.Core.Error
import BlobStore.Core.Model
import BlobStore.Lib.Codec
import BlobStore.Lib.FileTree
import BlobStore.Lib.Table

/-!
# Types of the storage layer

The values that cross the `StorageBackend` boundary, and the keys of the metadata tables.
-/

namespace BlobStore

open Codec FileTree

/-- User metadata of a container or blob: a map from names to values. -/
abbrev Metadata := Table String String

/-- A request body: its chunks in order, one of which may be a read error. -/
abbrev ByteStream := List (Except IoError Bytes)

/-- The bytes of a body, or its first error together with the bytes before it. -/
def ByteStream.collect : ByteStream → Except (IoError × Bytes) Bytes
  | []                => .ok []
  | .error e :: _     => .error (e, [])
  | .ok chunk :: rest =>
    match ByteStream.collect rest with
    | .ok bs         => .ok (chunk ++ bs)
    | .error (e, bs) => .error (e, chunk ++ bs)

/-- Primary key of `containers`. -/
structure ContainerKey where
  account : String
  container : String
  deriving DecidableEq, Repr

/-- Primary key of `blobs`, and the blob part of the block tables. -/
structure BlobKey where
  account : String
  container : String
  blob : String
  deriving DecidableEq, Repr

def BlobKey.containerKey (k : BlobKey) : ContainerKey := ⟨k.account, k.container⟩

@[simp] lemma BlobKey.containerKey_mk (a c b : String) :
    (BlobKey.mk a c b).containerKey = ⟨a, c⟩ := rfl

structure ContainerProps where
  name : String
  publicAccess : PublicAccessLevel
  metadata : Metadata
  etag : String
  lastModified : String
  deriving DecidableEq

structure BlobProps where
  name : String
  blobType : BlobType
  contentLength : ℕ
  contentType : Option String
  contentMd5 : Option String
  contentEncoding : Option String
  contentLanguage : Option String
  cacheControl : Option String
  contentDisposition : Option String
  metadata : Metadata
  etag : String
  lastModified : String
  deriving DecidableEq

/-- Patch for Set Blob Properties. -/
structure BlobPropertiesPatch where
  contentType : Option String
  contentMd5 : Option String
  contentEncoding : Option String
  contentLanguage : Option String
  cacheControl : Option String
  contentDisposition : Option String
  deriving DecidableEq

structure ContainerListPage where
  containers : List ContainerProps
  nextMarker : Option String
  deriving DecidableEq

structure BlobListPage where
  blobs : List BlobProps
  blobPrefixes : List String
  nextMarker : Option String
  deriving DecidableEq

inductive BlockRefKind where
  | committed
  | uncommitted
  | latest
  deriving DecidableEq, Repr

/-- One entry in a `<BlockList>` commit request body. -/
structure BlockRef where
  blockId : String
  kind : BlockRefKind
  deriving DecidableEq, Repr

structure CommittedBlock where
  blockId : String
  size : ℕ
  deriving DecidableEq, Repr

structure BlockListResult where
  committed : List CommittedBlock
  uncommitted : List CommittedBlock
  deriving DecidableEq

/-- An inclusive byte range, resolved against the size of the resource. -/
structure ByteRange where
  start : ℕ
  stop : ℕ
  deriving DecidableEq, Repr

/-- What `get_blob` hands out; the reader is represented by the bytes it yields. -/
structure BlobPayload where
  props : BlobProps
  totalLen : ℕ
  range : Option ByteRange
  bytes : Bytes
  deriving DecidableEq

end BlobStore
