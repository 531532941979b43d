import BlobStore.Auth.Types
import BlobStore.Lib.Fields
import Mathlib.Data.List.Dedup
import Mathlib.Data.List.Sort
import Mathlib.Data.String.Basic

/-!
# Shared Key

Canonicalization and verification of requests that are signed with an account key.
-/

namespace BlobStore

open Codec

/-- ASCII letters in lower case. -/
def asciiLower (s : String) : String := String.ofList ((Text.chars s).map Char.toLower)

/-- Lower case as Unicode defines it, known by how it treats ASCII. -/
structure Lowercase where
  lower : String → String
  ascii : ∀ s, (∀ c ∈ s.toList, c.toNat < 128) → lower s = asciiLower s
  cased : ∀ s t, asciiLower s = asciiLower t → lower s = lower t

/-- Unicode white space. -/
def isWhitespace (c : Char) : Bool :=
  let n := c.toNat
  (9 ≤ n && n ≤ 13) || n == 32 || n == 133 || n == 160 || n == 5760 || (8192 ≤ n && n ≤ 8202) ||
    n == 8232 || n == 8233 || n == 8239 || n == 8287 || n == 12288

def trim (s : String) : String :=
  String.ofList ((((Text.chars s).dropWhile isWhitespace).reverse.dropWhile isWhitespace).reverse)

/-- The part of a request that is signed; absent headers are empty texts. -/
structure SharedKeyRequest where
  verb : String
  contentEncoding : String
  contentLanguage : String
  contentLength : String
  contentMd5 : String
  contentType : String
  date : String
  ifModifiedSince : String
  ifMatch : String
  ifNoneMatch : String
  ifUnmodifiedSince : String
  range : String
  xMsHeaders : List (String × String)
  canonicalPath : String
  queryParams : List (String × String)

namespace SharedKey

variable (low : Lowercase)

/-- The lines of the `x-ms-` headers. -/
def headerLines (xMsHeaders : List (String × String)) : List String :=
  let headers := xMsHeaders.map fun h => (low.lower h.1, trim h.2)
  (headers.insertionSort fun a b => a.1 ≤ b.1).map fun h => h.1 ++ ":" ++ h.2

def canonicalizedHeaders (xMsHeaders : List (String × String)) : String :=
  String.join ((headerLines low xMsHeaders).map (· ++ "\n"))

/-- Values by lower-cased name, in the order of the names. -/
def grouped (queryParams : List (String × String)) : List (String × List String) :=
  ((queryParams.map fun p => low.lower p.1).dedup.insertionSort (· ≤ ·)).map fun k =>
    (k, (queryParams.filter fun p => low.lower p.1 = k).map Prod.snd)

/-- The lines of the query parameters. -/
def queryLines (queryParams : List (String × String)) : List String :=
  (grouped low queryParams).map fun g =>
    g.1 ++ ":" ++ ",".intercalate (g.2.insertionSort (· ≤ ·))

def canonicalizedResource (account canonicalPath : String)
    (queryParams : List (String × String)) : String :=
  "/" ++ account ++ canonicalPath ++ String.join ((queryLines low queryParams).map ("\n" ++ ·))

/-- The fields before the headers; a length of zero is left out. -/
def headFields (req : SharedKeyRequest) : List String :=
  [req.verb, req.contentEncoding, req.contentLanguage,
    if req.contentLength = "0" then "" else req.contentLength, req.contentMd5, req.contentType,
    req.date, req.ifModifiedSince, req.ifMatch, req.ifNoneMatch, req.ifUnmodifiedSince, req.range]

def stringToSign (account : String) (req : SharedKeyRequest) : String :=
  "\n".intercalate (headFields req) ++ "\n" ++ canonicalizedHeaders low req.xMsHeaders ++
    canonicalizedResource low account req.canonicalPath req.queryParams

/-- Compares texts of one length without stopping at a difference. -/
def constantTimeEq (a b : String) : Bool :=
  let a := Text.bytes a
  let b := Text.bytes b
  if a.length ≠ b.length then false
  else ((a.zip b).foldl (fun diff xy => diff ||| (xy.1 ^^^ xy.2)) 0 : UInt8) == 0

def verify (lib : AuthLib) (account : String) (req : SharedKeyRequest) (providedSignature : String)
    (key1 : String) (key2 : Option String) : Except AuthError Unit :=
  let sts := stringToSign low account req
  let accepts (key : String) : Bool :=
    match lib.hmacSign key sts with
    | .ok sig  => constantTimeEq sig providedSignature
    | .error _ => false
  if accepts key1 then .ok ()
  else if key2.any accepts then .ok ()
  else .error .signatureMismatch

end SharedKey
end BlobStore
