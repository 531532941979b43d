import BlobStore.Api.Http
import BlobStore.Storage.FsBackend
import BlobStore.Xml.Render

/-!
# The authentication middleware

One middleware runs before every handler and decides, by one of four schemes, whether the request
may go on.
-/

namespace BlobStore

open Codec

/-- What the server is made of: the backend and its settings, and the libraries behind them. A
bearer token is checked by `oidc`, which gives its subject. -/
structure AppState where
  backend : FsBackend
  lib : AuthLib
  low : Lowercase
  oidc : Option (String → Except AuthError (Option String))
  serviceVersion : String
  serviceEndpoint : String
  defaultAccount : Option String
  /-- The path and the query of a URI that a text was parsed as. -/
  pathAndQuery : String → Option (String × Option String)
  /-- The events of an XML document. -/
  xmlEvents : Bytes → List (Except String Xml.Event)

/-- The text after `start`, if the text begins with it. -/
def stripStart (start s : String) : Option String :=
  if (Text.chars start).isPrefixOf (Text.chars s) then
    some (String.ofList ((Text.chars s).drop (Text.chars start).length))
  else none

/-- A text, unless it is empty. -/
def nonEmpty (s : String) : Option String := if s = "" then none else some s

/-- Splits `/account/container/blob/with/slashes` into account, container and blob. -/
def splitPath (path : String) : Option String × Option String × Option String :=
  let trimmed := String.ofList ((Text.chars path).dropWhile (· = '/'))
  if trimmed = "" then (none, none, none)
  else
    match Text.cut '/' trimmed with
    | (account, none)      => (some account, none, none)
    | (account, some rest) =>
      (some account, nonEmpty (Text.cut '/' rest).1, (Text.cut '/' rest).2.bind nonEmpty)

def requiredPermission (method : Method) (comp : Option String) : Permission :=
  if comp = some "list" then .list
  else
    match method with
    | .get | .head => .read
    | .delete      => .delete
    | _            => .write

def mapAuthError : AuthError → AzureError
  | .permissionDenied      => .new .authorizationPermissionMismatch
  | .resourceScopeMismatch => .new .authorizationResourceTypeMismatch
  | _                      => .new .authenticationFailed

variable (app : AppState)

/-- What is signed of a request. -/
def sharedKeyRequest (req : HttpRequest) (queryParams : List (String × String)) :
    SharedKeyRequest where
  verb              := req.method.asStr
  contentEncoding   := headerStr req.headers "content-encoding"
  contentLanguage   := headerStr req.headers "content-language"
  contentLength     := headerStr req.headers "content-length"
  contentMd5        := headerStr req.headers "content-md5"
  contentType       := headerStr req.headers "content-type"
  date              := if req.headers.containsKey "x-ms-date" then "" else headerStr req.headers "date"
  ifModifiedSince   := headerStr req.headers "if-modified-since"
  ifMatch           := headerStr req.headers "if-match"
  ifNoneMatch       := headerStr req.headers "if-none-match"
  ifUnmodifiedSince := headerStr req.headers "if-unmodified-since"
  range             := headerStr req.headers "range"
  xMsHeaders        :=
    (req.headers.filter fun h => (Text.chars "x-ms-").isPrefixOf (Text.chars (app.low.lower h.1))).map
      fun h => (h.1, h.2.getD "")
  canonicalPath     := req.signedPath.getD req.path
  queryParams       := queryParams

def verifySharedKey (account key1 : String) (key2 : Option String) (headerRest : String)
    (req : HttpRequest) (queryParams : List (String × String)) : Except AzureError AuthContext :=
  match Text.cut ':' headerRest with
  | (_, none)                   => .error (.new .invalidAuthenticationInfo)
  | (hdrAccount, some signature) =>
    if hdrAccount ≠ account then .error (.new .authenticationFailed)
    else
      match SharedKey.verify app.low app.lib account (sharedKeyRequest app req queryParams) signature
        key1 key2 with
      | .ok ()   => .ok ⟨account, .sharedKey⟩
      | .error e => .error (mapAuthError e)

def verifyBearer (account token : String) : Except AzureError AuthContext :=
  match app.oidc with
  | none          =>
    .error (.withMessage .authenticationFailed
      "Bearer authentication is not configured on this server.")
  | some validate =>
    match validate token with
    | .ok subject => .ok ⟨account, .bearer subject⟩
    | .error e    => .error (mapAuthError e)

def verifySas (now : ℤ) (account key1 : String) (key2 : Option String) (params : SasParams)
    (container blob : Option String) (isBlobScope : Bool) (permission : Permission) :
    Except AzureError AuthContext :=
  match container with
  | none           => .error (.new .authorizationFailure)
  | some container =>
    -- a container SAS is signed over the container only
    let signedBlob := if params.sr = "c" then none else blob
    match Sas.verifySignature app.lib account container signedBlob params key1 key2 with
    | .error e => .error (mapAuthError e)
    | .ok ()   =>
      match Sas.checkValidityWindow app.lib now params with
      | .error e => .error (mapAuthError e)
      | .ok ()   =>
        if Sas.resourceScopeMatches params isBlobScope = false then
          .error (.new .authorizationResourceTypeMismatch)
        else if Sas.hasPermission params permission.sasChar = false then
          .error (.new .authorizationPermissionMismatch)
        else .ok ⟨account, .sas⟩

/-- A container that is missing and one that is private are reported alike. -/
def verifyAnonymous (account : String) (container comp : Option String) (isBlobScope : Bool)
    (method : Method) (w : World) : Except AzureError AuthContext :=
  match container with
  | none           => .error (.new .authenticationFailed)
  | some container =>
    match ((FsBackend.getContainerProperties account container).run w).1 with
    | .error _  => .error (.new .containerNotFound)
    | .ok props =>
      let allowed :=
        if method ≠ .get ∧ method ≠ .head then false
        else if isBlobScope then props.publicAccess.allowsBlobRead
        else if comp = some "list" then props.publicAccess.allowsContainerListing
        else props.publicAccess.allowsContainerListing
      if allowed then .ok ⟨account, .anonymous⟩ else .error (.new .containerNotFound)

/-- The scheme that the request asks for, and what it says. -/
def authenticate (now : ℤ) (account key1 : String) (key2 : Option String)
    (container blob : Option String) (req : HttpRequest) (w : World) :
    Except AzureError AuthContext :=
  let authHeader := headerStr req.headers "authorization"
  match (stripStart "SharedKey " authHeader).or (stripStart "SharedKeyLite " authHeader) with
  | some rest => verifySharedKey app account key1 key2 rest req req.params
  | none      =>
    match stripStart "Bearer " authHeader with
    | some token => verifyBearer app account token
    | none       =>
      match Sas.parseSasQuery req.params with
      | some params =>
        verifySas app now account key1 key2 params container blob blob.isSome
          (requiredPermission req.method req.comp)
      | none        => verifyAnonymous account container req.comp blob.isSome req.method w

end BlobStore
