import BlobStore.Storage.World
import BlobStore.Storage.PathLayout

/-!
# Durable file-system primitives

Write to a temporary file, sync it, rename it onto the final path, sync the directory. Texts of
paths are resolved at each call.
-/

namespace BlobStore

open Codec FileTree UnixPath Resumption Proc

/-- What the surroundings hand to one call: the texts of `generate_etag`, `now_rfc1123` and
`now_iso`, the clock reading and thread that name its temporary file, the lengths its reads
return, and the failures it meets. -/
structure Ambient where
  etag : String
  lastModified : String
  nowIso : String
  nanos : ℕ
  tid : ℕ
  readLen : ℕ → ℕ
  removeFails : Path → Bool
  dbFault : Option String

/-- The name of a temporary file: a timestamp and the debug text of a thread id, from which some
characters are dropped. -/
def uuidLike (nanos tid : ℕ) : String :=
  let text := Nat.toDigits 16 nanos ++ "-ThreadId(".toList ++ Nat.toDigits 10 tid ++ [')']
  let dropped := ['(', ')', 'T', 'h', 'r', 'e', 'a', 'd', 'I', 'd']
  String.ofList (text.filter fun c => !dropped.contains c)

namespace FsIo

variable (md5 : Bytes → Bytes) (amb : Ambient)

def uniqueTmpPath (tmpDir : String) : Path :=
  resolve (join tmpDir (uuidLike amb.nanos amb.tid ++ ".tmp"))

def createDirAll (p : Path) : Io Unit := do
  ofExcept (← perform (Action.createDirAll p))

/-- Write the chunks of a body, counting and hashing them; a read error stops the loop. -/
def writeChunks (tmp : Path) : ByteStream → ℕ → Bytes → Io (ℕ × Bytes)
  | [], total, hashed                => pure (total, hashed)
  | .error e :: _, _, _              => fail e
  | .ok chunk :: rest, total, hashed => do
    perform (Action.writeAll tmp chunk)
    writeChunks tmp rest (total + chunk.length) (hashed ++ chunk)

/-- Sync the temporary file and move it onto its final path. -/
def publish (tmp final : Path) : Io Unit := do
  perform (Action.syncAll tmp)
  ofExcept (← perform (Action.rename tmp final))
  perform (Action.fsyncDir final.dropLast)

/-- `write_stream_atomic`. -/
def writeStreamAtomic (tmpDir finalPath : String) (body : ByteStream) : Io (ℕ × String) := do
  createDirAll (resolve tmpDir)
  createDirAll (resolve finalPath).dropLast
  let tmp := uniqueTmpPath amb tmpDir
  ofExcept (← perform (Action.createFile tmp))
  let (total, hashed) ← writeChunks tmp body 0 []
  publish tmp (resolve finalPath)
  pure (total, hexEncode (md5 hashed))

/-- The pieces in which a file comes through a buffer of 256 KiB; each read returns at least one
byte before the end. -/
def readPieces (readLen : ℕ → ℕ) : ℕ → Bytes → List Bytes
  | 0, _             => []
  | _ + 1, []        => []
  | fuel + 1, b :: bs =>
    let n := max 1 (min (readLen (b :: bs).length) (256 * 1024))
    (b :: bs).take n :: readPieces readLen fuel ((b :: bs).drop n)

/-- Append the files at `parts`, in order, to the temporary file. -/
def copyParts (tmp : Path) : List Path → ℕ → Bytes → Io (ℕ × Bytes)
  | [], total, hashed            => pure (total, hashed)
  | part :: parts, total, hashed => do
    let content ← ofExcept (← perform (Action.openFile part))
    -- a read is told from the others by what was read before it
    let pieces := readPieces (fun left => amb.readLen (total + (content.length - left)))
      content.length content
    let (total, hashed) ← writeChunks tmp (pieces.map .ok) total hashed
    copyParts tmp parts total hashed

/-- `concatenate_files_atomic`. -/
def concatenateFilesAtomic (tmpDir finalPath : String) (parts : List Path) :
    Io (ℕ × String) := do
  createDirAll (resolve tmpDir)
  createDirAll (resolve finalPath).dropLast
  let tmp := uniqueTmpPath amb tmpDir
  ofExcept (← perform (Action.createFile tmp))
  let (total, hashed) ← copyParts amb tmp parts 0 []
  publish tmp (resolve finalPath)
  pure (total, hexEncode (md5 hashed))

/-- `remove_file_if_exists`; a missing file is not an error. -/
def removeFileIfExists (p : Path) : Io Unit := do
  let r : Except IoError Unit ← perform (Action.removeFile (amb.removeFails p) p)
  match r with
  | .ok ()           => pure ()
  | .error .notFound => pure ()
  | .error e         => fail e

end FsIo
end BlobStore
