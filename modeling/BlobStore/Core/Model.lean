import Mathlib.Tactic.Common

/-!
# Shared value types

`PublicAccessLevel` with the texts it has in headers and in the database, and `BlobType`.
-/

namespace BlobStore

/-- Container-level public access. -/
inductive PublicAccessLevel where
  | off
  | blob
  | container
  deriving DecidableEq, Repr

namespace PublicAccessLevel

def asHeaderValue : PublicAccessLevel → Option String
  | off       => none
  | blob      => some "blob"
  | container => some "container"

def fromHeaderValue (v : Option String) : PublicAccessLevel :=
  if v = some "blob" then blob
  else if v = some "container" then container
  else off

def asDbStr : PublicAccessLevel → String
  | off       => "off"
  | blob      => "blob"
  | container => "container"

def fromDbStr (s : String) : PublicAccessLevel :=
  if s = "blob" then blob
  else if s = "container" then container
  else off

/-- The level survives the trip through its text column. -/
@[simp] lemma fromDbStr_asDbStr (l : PublicAccessLevel) : fromDbStr l.asDbStr = l := by
  cases l <;> decide

/-- Anonymous reading of a blob is allowed. -/
def allowsBlobRead : PublicAccessLevel → Bool
  | blob | container => true
  | off              => false

/-- Anonymous listing of the container is allowed. -/
def allowsContainerListing : PublicAccessLevel → Bool
  | container  => true
  | off | blob => false

end PublicAccessLevel

inductive BlobType where
  | blockBlob
  | appendBlob
  | pageBlob
  deriving DecidableEq, Repr

namespace BlobType

def asStr : BlobType → String
  | blockBlob  => "BlockBlob"
  | appendBlob => "AppendBlob"
  | pageBlob   => "PageBlob"

def parse (s : String) : Option BlobType :=
  if s = "BlockBlob" then some blockBlob
  else if s = "AppendBlob" then some appendBlob
  else if s = "PageBlob" then some pageBlob
  else none

end BlobType
end BlobStore
