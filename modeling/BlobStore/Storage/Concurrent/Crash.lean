import BlobStore.Storage.Concurrent.Deletion
import BlobStore.Storage.Written

/-!
# Crashes

A crash stops a call between two of its steps; what remains are the files and the rows. The rename
of a new version onto the file of a blob and the statement that records it are two of these steps,
and a crash between them leaves the file of one version under the row of the other.
-/

namespace BlobStore

open Codec FileTree Resumption Proc

variable {B : FsBackend} {w w' : World} {k : BlobKey} {req : Unit → Request}

/-- The blob is the version with these bytes and this row. -/
structure Stored (B : FsBackend) (k : BlobKey) (bytes : Bytes) (row : BlobRow) (w : World) :
    Prop where
  lookup : w.db.blobs.lookup k = some row
  file : w.fs.file? (B.blobFile k) = some bytes
  contentLength : row.contentLength = bytes.length
  contentMd5 : row.contentMd5 = Shelf.digest B bytes
  reads : B.readBlob k none w = .ok ⟨blobRowToProps row, bytes.length, none, bytes⟩

lemma Request.Wrote.contentMd5 {old : Option BlobRow} {req : Request} {bytes : Bytes}
    {row : BlobRow} (h : req.Wrote B old bytes row) : row.contentMd5 = Shelf.digest B bytes := by
  obtain ⟨k, u, hu, rfl⟩ := h
  have hmd5 : u.contentMd5 = Shelf.digest B bytes := by
    obtain ⟨md5, hmd5⟩ := Option.isSome_iff_exists.mp (digest_isSome B bytes)
    unfold Request.blobRow at hu
    split at hu <;> cases hu
    · rfl
    · simp [Shelf.upsertFor, hmd5]
  rw [← hmd5]
  cases old <;> rfl

lemma Request.Wrote.stored {old : Option BlobRow} {req : Request} {bytes : Bytes} {row : BlobRow}
    (h : req.Wrote B old bytes row) (hw : Located B w.db) (hk : k.containerKey.Ordinary)
    (hrow : w.db.blobs.lookup k = some row) (hfile : w.fs.file? (B.blobFile k) = some bytes) :
    Stored B k bytes row w where
  lookup := hrow
  file := hfile
  contentLength := h.contentLength
  contentMd5 := h.contentMd5
  reads := readBlob_of_whole_file hw hk hrow hfile h.contentLength

end BlobStore
