import BlobStore.Auth.Sas
import BlobStore.Auth.SharedKey
import BlobStore.Lib.Percent
import BlobStore.Storage.Types

/-!
# Requests, as the HTTP library hands them over

A request has been parsed already: its path and query are raw texts, its header names are in lower
case, and of a header value only the text counts (`none` if it is not visible ASCII).
-/

namespace BlobStore

open Codec

inductive Method where
  | get
  | head
  | put
  | delete
  | post
  | options
  | patch
  | trace
  | connect
  | extension (name : String)
  deriving DecidableEq, Repr

def Method.asStr : Method → String
  | get            => "GET"
  | head           => "HEAD"
  | put            => "PUT"
  | delete         => "DELETE"
  | post           => "POST"
  | options        => "OPTIONS"
  | patch          => "PATCH"
  | trace          => "TRACE"
  | connect        => "CONNECT"
  | extension name => name

/-- Header names with the texts of their values. -/
abbrev HeaderMap := List (String × Option String)

structure HttpRequest where
  method : Method
  path : String
  query : Option String
  uriHost : Option String
  headers : HeaderMap
  body : ByteStream
  /-- The path as received, if an account was put before it. -/
  signedPath : Option String

namespace HeaderMap

/-- The text of the first value under a name. -/
def text? (headers : HeaderMap) (name : String) : Option String :=
  (headers.find? fun h => h.1 = name).bind Prod.snd

def containsKey (headers : HeaderMap) (name : String) : Bool := headers.any fun h => h.1 = name

end HeaderMap

def headerStr (headers : HeaderMap) (name : String) : String := (headers.text? name).getD ""

def headerOpt (headers : HeaderMap) (name : String) : Option String := headers.text? name

/-- What the HTTP library guarantees: tokens in lower case as header names, and no line break in
the method, the path or a header. -/
structure HttpRequest.Parsed (req : HttpRequest) : Prop where
  method : '\n' ∉ req.method.asStr.toList
  path : '\n' ∉ req.path.toList
  signedPath : ∀ p ∈ req.signedPath, '\n' ∉ p.toList
  names : ∀ h ∈ req.headers, asciiLower h.1 = h.1 ∧ ∀ c ∈ h.1.toList, 32 < c.toNat ∧ c.toNat < 127
  values : ∀ h ∈ req.headers, ∀ v ∈ h.2, '\n' ∉ v.toList

namespace Query

/-- A part of the query string, decoded; left as it is if its bytes are no text. -/
def decodeOr (s : String) : String := (Percent.decode s).getD s

/-- The decoded `(name, value)` pairs of a raw query string. -/
def parseQuery (raw : String) : List (String × String) :=
  ((((Text.chars raw).splitOn '&').map String.ofList).filter (· ≠ "")).map fun pair =>
    (decodeOr (Text.cut '=' pair).1, decodeOr ((Text.cut '=' pair).2.getD ""))

def get (params : List (String × String)) (name : String) : Option String :=
  (params.find? fun p => eqIgnoreAsciiCase p.1 name).map Prod.snd

end Query

/-- The parameters of a request. -/
def HttpRequest.params (req : HttpRequest) : List (String × String) :=
  Query.parseQuery (req.query.getD "")

def HttpRequest.comp (req : HttpRequest) : Option String := Query.get req.params "comp"

end BlobStore
