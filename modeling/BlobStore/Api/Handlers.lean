import BlobStore.Api.Auth

/-!
# Handlers

Every handler refuses the request, or makes exactly one call on the backend and writes a response
from its answer. `Plan` is that decision; `Plan.run` carries it out.
-/

namespace BlobStore

open Codec Xml

structure Response where
  status : ℕ
  headers : List (String × String)
  body : Bytes
  deriving DecidableEq

/-- What a response takes from the moment it is made: ids, dates and the surroundings of calls. -/
structure Moment where
  amb : Ambient
  /-- The clock, for the validity of tokens. -/
  now : ℤ
  requestId : String
  /-- The id that an error of a handler gets. -/
  errorId : String
  httpDate : String
  isoTime : String

/-! ### Headers of responses -/

/-- Puts a header in place of one of that name. -/
def setHeader (name value : String) (headers : List (String × String)) : List (String × String) :=
  headers.filter (fun h => h.1 ≠ name) ++ [(name, value)]

/-- Texts that can be the value of a header. -/
def isHeaderValue (s : String) : Bool :=
  (Text.chars s).all fun c => (32 ≤ c.toNat && c.toNat < 127) || c = '\t'

/-- Sets a header if its value can be one. -/
def setHeaderIfValid (name value : String) (headers : List (String × String)) :
    List (String × String) :=
  if isHeaderValue value then setHeader name value headers else headers

def setOptional (name : String) (value : Option String) (headers : List (String × String)) :
    List (String × String) :=
  match value with
  | some v => setHeaderIfValid name v headers
  | none   => headers

def applyMetadataHeaders (metadata : Metadata) (headers : List (String × String)) :
    List (String × String) :=
  metadata.entries.foldl (fun hs e => setHeaderIfValid ("x-ms-meta-" ++ e.1) e.2 hs) headers

def applyBlobPropertyHeaders (props : BlobProps) (headers : List (String × String)) :
    List (String × String) :=
  applyMetadataHeaders props.metadata <|
    setHeader "x-ms-blob-type" props.blobType.asStr <|
    setOptional "content-disposition" props.contentDisposition <|
    setOptional "cache-control" props.cacheControl <|
    setOptional "content-language" props.contentLanguage <|
    setOptional "content-encoding" props.contentEncoding <|
    setOptional "content-md5" props.contentMd5 <|
    setOptional "content-type" props.contentType <|
    setHeader "content-length" (toString props.contentLength) <|
    setHeaderIfValid "last-modified" props.lastModified <|
    setHeaderIfValid "etag" props.etag headers

def setStamps (etag lastModified : String) (headers : List (String × String)) :
    List (String × String) :=
  setHeader "last-modified" lastModified (setHeader "etag" etag headers)

/-- A response whose body is an XML text. -/
def xmlResponse (body : String) : Response :=
  ⟨200, [("content-type", "application/xml")], Text.bytes body⟩

def azureErrorResponse (m : Moment) (err : AzureError) (requestId : String) : Response where
  status  := err.code.statusCode
  headers := [("x-ms-error-code", err.code.codeStr), ("x-ms-request-id", requestId),
    ("content-type", "application/xml")]
  body    := Text.bytes (renderError err requestId m.isoTime)

/-! ### What requests carry -/

/-- The `x-ms-meta-` headers, by the part after it; a later one replaces an earlier one. -/
def extractMetadata (low : Lowercase) (headers : HeaderMap) : Metadata :=
  headers.foldl (fun out h =>
    match stripStart "x-ms-meta-" (low.lower h.1), h.2 with
    | some key, some v => AList.insert key v out
    | _, _             => out) ∅

/-- A decimal numeral below `bound`, with an optional plus sign. -/
def parseUnsigned (bound : ℕ) (s : String) : Option ℕ :=
  let digits :=
    match Text.chars s with
    | '+' :: cs => cs
    | cs        => cs
  if digits ≠ [] ∧ digits.all (fun c => c.isDigit) then
    let n := digits.foldl (fun n c => n * 10 + (c.toNat - 48)) 0
    if n < bound then some n else none
  else none

/-- `bytes=start-end`; an end that is left out counts as the largest number. -/
def parseRange (value : String) : Option (ℕ × ℕ) := do
  let value ← stripStart "bytes=" value
  if (Text.chars value).contains ',' then none
  else
    let (start, stop?) := Text.cut '-' value
    let stop ← stop?
    if start = "" then none
    else
      let start ← parseUnsigned (2 ^ 64) start
      let stop ← if stop = "" then some (2 ^ 64 - 1) else parseUnsigned (2 ^ 64) stop
      some (start, stop)

/-- `maxresults`, or 5000 if it is missing or no numeral. -/
def maxResults (params : List (String × String)) : UInt32 :=
  UInt32.ofNat (((Query.get params "maxresults").bind (parseUnsigned (2 ^ 32))).getD 5000)

/-- The whole body, unless it breaks off or is longer than `limit`. -/
def toBytes (body : ByteStream) (limit : ℕ) : Option Bytes :=
  match body.collect with
  | .ok bytes => if bytes.length ≤ limit then some bytes else none
  | .error _  => none

/-! ### Plans -/

/-- An answer at once, or one call and the response to what it answers; `none` for a listing that
panics. -/
inductive Plan where
  | answer (resp : Response)
  | refuse (err : AzureError)
  | call (call : Call) (render : Reply → Option Response)

/-- Carries out a plan. -/
def Plan.run (app : AppState) (m : Moment) (plan : Plan) (w : World) : Option Response × World :=
  match plan with
  | .answer resp   => (some resp, w)
  | .refuse err    => (some (azureErrorResponse m err m.errorId), w)
  | .call c render =>
    match (app.backend.call m.amb c).run w with
    | (.ok reply, w')  => (render reply, w')
    | (.error err, w') => (some (azureErrorResponse m err m.errorId), w')

/-- A plan that is one call, by the answer of the call. -/
lemma Plan.run_call {app : AppState} {m : Moment} {w : World} {call : Call}
    {render : Reply → Option Response} :
    ((Plan.call call render).run app m w).1 =
      match ((app.backend.call m.amb call).run w).1 with
      | .ok reply  => render reply
      | .error err => some (azureErrorResponse m err m.errorId) := by
  simp only [Plan.run]
  rcases (app.backend.call m.amb call).run w with ⟨_ | _, _⟩ <;> rfl

variable (app : AppState)

/-- The etag and the time of a change, with a status. -/
def stamped (status : ℕ) : Reply → Option Response
  | .container props => some ⟨status, setStamps props.etag props.lastModified [], []⟩
  | .blob props      => some ⟨status, setStamps props.etag props.lastModified [], []⟩
  | _                => none

def accepted (_ : Reply) : Option Response := some ⟨202, [], []⟩

/-! ### Accounts -/

def listContainers (account : String) (req : HttpRequest) : Plan :=
  let params := req.params
  .call (.listContainers account (Query.get params "prefix") (Query.get params "marker")
    (maxResults params)) fun
    | .containers page =>
      some (xmlResponse (renderListContainers app.serviceEndpoint (Query.get params "prefix")
        (Query.get params "marker") (maxResults params) page))
    | _                => none

/-! ### Containers -/

def containerPut (account container : String) (req : HttpRequest) : Plan :=
  let access :=
    PublicAccessLevel.fromHeaderValue (headerOpt req.headers "x-ms-blob-public-access")
  let metadata := extractMetadata app.low req.headers
  if req.comp = some "metadata" then
    .call (.setContainerMetadata account container metadata) (stamped 200)
  else if req.comp = some "acl" then
    .call (.setContainerAcl account container access) (stamped 200)
  else .call (.createContainer account container access metadata) (stamped 201)

def containerDelete (account container : String) : Plan :=
  .call (.deleteContainer account container) accepted

def signedIdentifiers : String := declaration ++ "<SignedIdentifiers/>"

/-- The access level, if there is any. -/
def setPublicAccess (level : PublicAccessLevel) (headers : List (String × String)) :
    List (String × String) :=
  match level.asHeaderValue with
  | some v => setHeader "x-ms-blob-public-access" v headers
  | none   => headers

def containerGet (account container : String) (req : HttpRequest) : Plan :=
  let params := req.params
  if req.comp = some "list" then
    .call (.listBlobs account container (Query.get params "prefix") (Query.get params "delimiter")
      (Query.get params "marker") (maxResults params)) fun
      | .blobs (some page) =>
        some (xmlResponse (renderListBlobs app.serviceEndpoint container
          (Query.get params "prefix") (Query.get params "delimiter") (Query.get params "marker")
          (maxResults params) page))
      | _                  => none
  else if req.comp = some "acl" then
    .call (.getContainerProperties account container) fun
      | .container props =>
        some ⟨200, setHeader "content-type" "application/xml"
          (setStamps props.etag props.lastModified (setPublicAccess props.publicAccess [])),
          if req.method = .head then [] else Text.bytes signedIdentifiers⟩
      | _                => none
  else
    .call (.getContainerProperties account container) fun
      | .container props =>
        some ⟨200, applyMetadataHeaders props.metadata
          (setPublicAccess props.publicAccess (setStamps props.etag props.lastModified [])), []⟩
      | _                => none

/-! ### Blobs -/

def blobPut (account container blob : String) (req : HttpRequest) : Plan :=
  let params := req.params
  let header := headerOpt req.headers
  let metadata := extractMetadata app.low req.headers
  if req.comp = some "block" then
    .call (.putBlock account container blob ((Query.get params "blockid").getD "") req.body) fun
      | .md5 md5 => some ⟨201, if md5 = "" then [] else [("content-md5", md5)], []⟩
      | _        => none
  else if req.comp = some "blocklist" then
    match toBytes req.body (64 * 1024 * 1024) with
    | none       => .refuse (.new .invalidXmlDocument)
    | some bytes =>
      match parseBlockListRequest (app.xmlEvents bytes) with
      | .error e => .refuse e
      | .ok refs =>
        .call (.putBlockList account container blob refs (header "content-type") metadata)
          (stamped 201)
  else if req.comp = some "properties" then
    .call (.setBlobProperties account container blob
      { contentType        := header "x-ms-blob-content-type"
        contentMd5         := header "x-ms-blob-content-md5"
        contentEncoding    := header "x-ms-blob-content-encoding"
        contentLanguage    := header "x-ms-blob-content-language"
        cacheControl       := header "x-ms-blob-cache-control"
        contentDisposition := header "x-ms-blob-content-disposition" }) (stamped 200)
  else if req.comp = some "metadata" then
    .call (.setBlobMetadata account container blob metadata) (stamped 200)
  else
    let blobType := (header "x-ms-blob-type").getD ""
    if blobType ≠ "" ∧ blobType ≠ "BlockBlob" then .refuse (.new .featureNotSupported)
    else
      .call (.putBlob account container blob req.body (header "content-type") (header "content-md5")
        metadata) fun
        | .blob props =>
          let headers := setStamps props.etag props.lastModified []
          some ⟨201, match props.contentMd5 with
            | some md5 => setHeader "content-md5" md5 headers
            | none     => headers, []⟩
        | _           => none

/-- The first of the two range headers decides, also if it cannot be read. -/
def requestedRange (headers : HeaderMap) : Option (ℕ × ℕ) :=
  let value :=
    if headers.containsKey "x-ms-range" then headers.text? "x-ms-range" else headers.text? "range"
  value.bind parseRange

def blobGet (account container blob : String) (req : HttpRequest) : Plan :=
  if req.comp = some "metadata" then
    .call (.getBlobProperties account container blob) fun
      | .blob props =>
        some ⟨200, applyMetadataHeaders props.metadata
          (setStamps props.etag props.lastModified []), []⟩
      | _           => none
  else if req.comp = some "blocklist" then
    .call (.getBlockList account container blob) fun
      | .blockList result => some (xmlResponse (renderBlockListResponse result))
      | _                 => none
  else if req.method = .head then
    .call (.getBlobProperties account container blob) fun
      | .blob props => some ⟨200, applyBlobPropertyHeaders props [], []⟩
      | _           => none
  else
    .call (.getBlob account container blob (requestedRange req.headers)) fun
      | .payload payload =>
        let headers := applyBlobPropertyHeaders payload.props []
        match payload.range with
        | some r =>
          some ⟨206, setHeader "content-length" (toString (r.stop - r.start + 1))
            (setHeader "content-range" ("bytes " ++ toString r.start ++ "-" ++ toString r.stop ++
              "/" ++ toString payload.totalLen) headers), payload.bytes⟩
        | none   => some ⟨200, headers, payload.bytes⟩
      | _                => none

def blobDelete (account container blob : String) : Plan :=
  .call (.deleteBlob account container blob) accepted

end BlobStore
