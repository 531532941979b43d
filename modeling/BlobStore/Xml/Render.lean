import BlobStore.Storage.Types

/-!
# The XML of responses

Bodies are put together by hand, so that the order and the case of their elements is that of the
service they imitate.
-/

namespace BlobStore

open Codec

namespace Xml

/-- What a character is written as. -/
def escapeChar (c : Char) : String :=
  if c = '&' then "&amp;"
  else if c = '<' then "&lt;"
  else if c = '>' then "&gt;"
  else if c = '"' then "&quot;"
  else if c = '\'' then "&apos;"
  else String.singleton c

def xmlEscape (s : String) : String := String.join ((Text.chars s).map escapeChar)

def declaration : String := "<?xml version=\"1.0\" encoding=\"utf-8\"?>\n"

/-- An element with a text in it, written as it is. -/
def element (name text : String) : String := "<" ++ name ++ ">" ++ text ++ "</" ++ name ++ ">"

/-- An element for a value that may be missing. -/
def optional (name : String) : Option String → String
  | some v => element name (xmlEscape v)
  | none   => ""

def metadataElements (m : Metadata) : String :=
  String.join (m.entries.map fun e => element (xmlEscape e.1) (xmlEscape e.2))

def lease : String :=
  "<LeaseStatus>unlocked</LeaseStatus><LeaseState>available</LeaseState>"

def blobElement (p : BlobProps) : String :=
  "<Blob>" ++ element "Name" (xmlEscape p.name) ++ "<Properties>" ++
    element "Last-Modified" p.lastModified ++ element "Etag" p.etag ++
    element "Content-Length" (toString p.contentLength) ++
    optional "Content-Type" p.contentType ++ optional "Content-MD5" p.contentMd5 ++
    optional "Content-Encoding" p.contentEncoding ++
    optional "Content-Language" p.contentLanguage ++ optional "Cache-Control" p.cacheControl ++
    optional "Content-Disposition" p.contentDisposition ++
    element "BlobType" (p.blobType.asStr) ++ lease ++ "</Properties>" ++ "<Metadata>" ++
    metadataElements p.metadata ++ "</Metadata>" ++ "</Blob>"

/-- The body of List Blobs. -/
def renderListBlobs (serviceEndpoint container : String) (namePrefix delimiter marker : Option String)
    (maxResults : UInt32) (page : BlobListPage) : String :=
  declaration ++ "<EnumerationResults ServiceEndpoint=\"" ++ xmlEscape serviceEndpoint ++
    "\" ContainerName=\"" ++ xmlEscape container ++ "\">" ++
    element "Prefix" (xmlEscape (namePrefix.getD "")) ++ optional "Delimiter" delimiter ++
    element "Marker" (xmlEscape (marker.getD "")) ++
    element "MaxResults" (toString maxResults) ++ "<Blobs>" ++
    String.join (page.blobs.map blobElement) ++
    String.join (page.blobPrefixes.map fun p =>
      "<BlobPrefix>" ++ element "Name" (xmlEscape p) ++ "</BlobPrefix>") ++ "</Blobs>" ++
    element "NextMarker" (xmlEscape (page.nextMarker.getD "")) ++ "</EnumerationResults>"

def containerElement (c : ContainerProps) : String :=
  "<Container>" ++ element "Name" (xmlEscape c.name) ++ "<Properties>" ++
    element "Last-Modified" c.lastModified ++ element "Etag" c.etag ++ lease ++
    (c.publicAccess.asHeaderValue.map (element "PublicAccess")).getD "" ++
    "</Properties>" ++ "<Metadata>" ++ metadataElements c.metadata ++ "</Metadata>" ++
    "</Container>"

/-- The body of List Containers. -/
def renderListContainers (serviceEndpoint : String) (namePrefix marker : Option String)
    (maxResults : UInt32) (page : ContainerListPage) : String :=
  declaration ++ "<EnumerationResults ServiceEndpoint=\"" ++ xmlEscape serviceEndpoint ++ "\">" ++
    element "Prefix" (xmlEscape (namePrefix.getD "")) ++
    element "Marker" (xmlEscape (marker.getD "")) ++
    element "MaxResults" (toString maxResults) ++ "<Containers>" ++
    String.join (page.containers.map containerElement) ++ "</Containers>" ++
    element "NextMarker" (xmlEscape (page.nextMarker.getD "")) ++ "</EnumerationResults>"

def blockElement (b : CommittedBlock) : String :=
  "<Block>" ++ element "Name" (xmlEscape b.blockId) ++ element "Size" (toString b.size) ++
    "</Block>"

/-- The body of Get Block List. -/
def renderBlockListResponse (result : BlockListResult) : String :=
  declaration ++ "<BlockList>" ++ "<CommittedBlocks>" ++
    String.join (result.committed.map blockElement) ++ "</CommittedBlocks>" ++
    "<UncommittedBlocks>" ++ String.join (result.uncommitted.map blockElement) ++
    "</UncommittedBlocks>" ++ "</BlockList>"

def renderError (err : AzureError) (requestId time : String) : String :=
  declaration ++ "<Error>" ++ element "Code" err.code.codeStr ++ "<Message>" ++ xmlEscape err.message ++
    "\nRequestId:" ++ requestId ++ "\nTime:" ++ time ++ "</Message></Error>"

/-! ### Block lists in requests -/

/-- What the streaming reader reports: the start of an element by its local name, a text that may
fail to be unescaped, or anything else. -/
inductive Event where
  | start (localName : String)
  | text (unescaped : Except String String)
  | other

def refKind (localName : String) : Option BlockRefKind :=
  if localName = "Committed" then some .committed
  else if localName = "Uncommitted" then some .uncommitted
  else if localName = "Latest" then some .latest
  else none

/-- The references of a block list, up to the end of the document or the first error. -/
def readRefs : Option BlockRefKind → List (Except String Event) → Except AzureError (List BlockRef)
  | _, []                        => .ok []
  | _, .error e :: _             => .error (.withMessage .invalidXmlDocument e)
  | _, .ok (.start name) :: rest => readRefs (refKind name) rest
  | kind, .ok .other :: rest     => readRefs kind rest
  | none, .ok (.text _) :: rest  => readRefs none rest
  | some kind, .ok (.text t) :: rest =>
    match t with
    | .error e => .error (.withMessage .invalidXmlDocument e)
    | .ok text => (readRefs none rest).map fun refs => ⟨text, kind⟩ :: refs

/-- Parses the events of a Put Block List body. -/
def parseBlockListRequest (events : List (Except String Event)) :
    Except AzureError (List BlockRef) :=
  match readRefs none events with
  | .error e => .error e
  | .ok []   => .error (.new .invalidBlockList)
  | .ok refs => .ok refs

end Xml
end BlobStore
