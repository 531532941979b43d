import BlobStore.Api.Handlers
import BlobStore.Lib.IpAddr

/-!
# From the request to the response

The account is resolved first, which may put an account before the path. Then the middleware
decides whether the request goes on to the router, which matches the raw path against the three
routes, decodes what it captured and picks the handler by the method.
-/

namespace BlobStore

open Codec

/-! ### Routes -/

/-- A route with what it captured. -/
inductive Route where
  | account (account : String)
  | container (account container : String)
  | blob (account container blob : String)
  deriving DecidableEq, Repr

/-- Matches `/:account`, `/:account/:container` and `/:account/:container/*blob`. A parameter that
ends the path is not empty; one before a slash may be. -/
def matchRoute (path : String) : Option Route :=
  match Text.chars path with
  | '/' :: cs =>
    match Text.cut '/' (String.ofList cs) with
    | (account, none)      => if account = "" then none else some (.account account)
    | (account, some rest) =>
      match Text.cut '/' rest with
      | (container, none)      => if container = "" then none else some (.container account container)
      | (container, some blob) => if blob = "" then none else some (.blob account container blob)
  | _ => none

/-- Percent-decodes what a route captured; the name of the parameter that is no text otherwise. -/
def Route.decode : Route → Except String Route
  | .account a =>
    match Percent.decode a with
    | some a => .ok (.account a)
    | none   => .error "account"
  | .container a c =>
    match Percent.decode a, Percent.decode c with
    | some a, some c => .ok (.container a c)
    | none, _        => .error "account"
    | _, none        => .error "container"
  | .blob a c b =>
    match Percent.decode a, Percent.decode c, Percent.decode b with
    | some a, some c, some b => .ok (.blob a c b)
    | none, _, _             => .error "account"
    | _, none, _             => .error "container"
    | _, _, none             => .error "blob"

def notFound : Response := ⟨404, [], []⟩

def methodNotAllowed (allow : String) : Response := ⟨405, [("allow", allow)], []⟩

def badParameter (name : String) : Response :=
  ⟨400, [("content-type", "text/plain; charset=utf-8")],
    Text.bytes ("Invalid URL: Invalid UTF-8 in `" ++ name ++ "`")⟩

/-- The handler of a method on a route. -/
def handler (app : AppState) (req : HttpRequest) (route : Route) : Option Plan :=
  match route, req.method with
  | .account a, .get | .account a, .head         => some (listContainers app a req)
  | .container a c, .put                         => some (containerPut app a c req)
  | .container a c, .delete                      => some (containerDelete a c)
  | .container a c, .get | .container a c, .head => some (containerGet app a c req)
  | .blob a c b, .put                            => some (blobPut app a c b req)
  | .blob a c b, .get | .blob a c b, .head       => some (blobGet a c b req)
  | .blob a c b, .delete                         => some (blobDelete a c b)
  | _, _                                         => none

/-- Methods of a route, as the `allow` header lists them. -/
def Route.allow : Route → String
  | .account _     => "GET,HEAD"
  | .container _ _ => "PUT,DELETE,GET,HEAD"
  | .blob _ _ _    => "PUT,GET,HEAD,DELETE"

/-- What the router does with a request. -/
def plan (app : AppState) (req : HttpRequest) : Plan :=
  match matchRoute req.path with
  | none       => .answer notFound
  | some route =>
    match handler app req route with
    | none   => .answer (methodNotAllowed route.allow)
    | some _ =>
      match route.decode with
      | .error name => .answer (badParameter name)
      | .ok route   => (handler app req route).getD (.answer notFound)

/-- A response to `HEAD` has no body. -/
def stripBody (req : HttpRequest) (resp : Response) : Response :=
  if req.method = .head then { resp with body := [] } else resp

def route (app : AppState) (m : Moment) (req : HttpRequest) (w : World) : Option Response × World :=
  let out := (plan app req).run app m w
  (out.1.map (stripBody req), out.2)

/-! ### The middleware around it -/

/-- Sets a header that is not there yet. -/
def setMissing (name value : String) (headers : List (String × String)) : List (String × String) :=
  if headers.any (fun h => h.1 = name) then headers else setHeaderIfValid name value headers

def finalizeResponse (app : AppState) (m : Moment) (resp : Response) : Response :=
  { resp with
    headers := setMissing "x-ms-request-id" m.requestId
      (setMissing "x-ms-version" app.serviceVersion (setMissing "date" m.httpDate resp.headers)) }

def authMiddleware (app : AppState) (m : Moment) (req : HttpRequest) (w : World) :
    Option Response × World :=
  match splitPath req.path with
  | (none, _, _) =>
    (some (azureErrorResponse m (.new .requestUrlFailedToParse) m.requestId), w)
  | (some account, container, blob) =>
    match w.db.accountKeys account with
    | none              => (some (azureErrorResponse m (.new .authenticationFailed) m.requestId), w)
    | some (key1, key2) =>
      match authenticate app m.now account key1 key2 container blob req w with
      | .ok _    =>
        let out := route app m req w
        (out.1.map (finalizeResponse app m), out.2)
      | .error e => (some (finalizeResponse app m (azureErrorResponse m e m.requestId)), w)

/-! ### Account resolution -/

def resolveAccount (hostLabel : Option String) (firstSegmentKnown hostLabelKnown : Bool)
    (defaultAccount : Option String) : Option String :=
  if firstSegmentKnown then none
  else if hostLabelKnown then hostLabel
  else defaultAccount

def firstSegment (path : String) : Option String :=
  nonEmpty (Text.cut '/' (String.ofList ((Text.chars path).dropWhile (· = '/')))).1

/-- A host without its port. -/
def withoutPort (host : String) : String :=
  match (Text.chars host).reverse.span (· ≠ ':') with
  | (port, _ :: h) =>
    if port.all fun c => '0' ≤ c ∧ c ≤ '9' then String.ofList h.reverse else host
  | _              => host

/-- The first label of a host that has a dot and is no IP address. -/
def hostLabel (host : String) : Option String :=
  let host := withoutPort host
  if IpAddr.isIpAddr host ∨ (Text.chars host).head? = some '[' then none
  else
    match Text.cut '.' host with
    | (label, some _) => nonEmpty label
    | (_, none)       => none

/-- Puts the account before the path if the client left it out. -/
def accountResolve (app : AppState) (db : MetadataDb) (req : HttpRequest) : HttpRequest :=
  let firstSegmentKnown := (firstSegment req.path).any fun seg => (db.accountKeys seg).isSome
  let label := ((headerOpt req.headers "host").or req.uriHost).bind hostLabel
  let hostLabelKnown :=
    firstSegmentKnown = false ∧ label.any fun l => (db.accountKeys l).isSome
  match resolveAccount label firstSegmentKnown hostLabelKnown app.defaultAccount with
  | none         => req
  | some account =>
    let rest := if req.path = "/" then "" else req.path
    let text := "/" ++ account ++ rest ++ (req.query.map ("?" ++ ·)).getD ""
    match app.pathAndQuery text with
    | some (path, query) => { req with path := path, query := query, signedPath := some req.path }
    | none               => req

/-! ### The server -/

def health (req : HttpRequest) : Response :=
  if req.method = .get ∨ req.method = .head then ⟨200, [], []⟩ else methodNotAllowed "GET,HEAD"

/-- The response to a request, and the state it leaves. -/
def serveHttp (app : AppState) (m : Moment) (req : HttpRequest) (w : World) :
    Option Response × World :=
  if req.path = "/healthz" ∨ req.path = "/readyz" then (some (health req), w)
  else authMiddleware app m (accountResolve app w.db req) w

end BlobStore
