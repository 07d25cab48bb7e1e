import Nexal.Lib.Url
import Nexal.Spec.AgentRegistry

/-! The reverse proxy of the gateway (`crates/nexal-gateway/src/proxy/server.rs`). A request under
`/p/{token}` goes to the upstream that is registered for the token, with the registered headers added. -/

namespace Nexal.ReverseProxy

open Gateway (ProxyRegistry ProxyEntry)
open Percent (percentDecode)

/-- The `http` crate has names in lower case. -/
abbrev HeaderName := String

abbrev HeaderValue := List UInt8

/-- A name may have several values, in the order they were appended. -/
abbrev HeaderMap := List (HeaderName × HeaderValue)

def values (headers : HeaderMap) (name : HeaderName) : List HeaderValue := (headers.filter (·.1 = name)).map (·.2)

structure Uri where
  path : String
  query : Option String

structure Request where
  method : String
  uri : Uri
  headers : HeaderMap
  /-- what `collect_body` reads -/
  body : Except String (List UInt8)

structure Response where
  status : ℕ
  headers : HeaderMap
  body : List UInt8

def textResponse (status : ℕ) (text : String) : Response :=
  ⟨status, [("content-type", Utf8.encode "text/plain; charset=utf-8")], Utf8.encode text⟩

/-! The HTTP client -/

structure Outgoing (α : Type) where
  method : String
  url : Url.Record α
  headers : HeaderMap
  body : List UInt8

/-- Which URLs, names and values `reqwest` takes, and what it adds of its own. -/
structure Client (α : Type) where
  url : Url.Flavour α
  badUrl : String → String
  /-- from the user in a URL -/
  basicAuth : α → Option HeaderValue
  headerName : String → Except String HeaderName
  headerValue : HeaderValue → Except String HeaderValue
  /-- added where a request has none of the name -/
  defaults : HeaderMap

/-- A builder that has failed keeps its error for `send`. -/
abbrev RequestBuilder (α : Type) := Except String (Outgoing α)

namespace Client

variable {α : Type}

def fromUrl (c : Client α) (authority : α) : HeaderMap := (c.basicAuth authority).toList.map (("authorization", ·))

def request (c : Client α) (method target : String) : RequestBuilder α :=
  match c.url.parse target.toList with
  | some url => .ok ⟨method, url, c.fromUrl url.authority, []⟩
  | none => .error (c.badUrl target)

def body (builder : RequestBuilder α) (bytes : List UInt8) :
    RequestBuilder α := builder.map fun r => { r with body := bytes }

/-- `RequestBuilder::header` appends. -/
def header (c : Client α) (builder : RequestBuilder α) (name : String) (value : HeaderValue) : RequestBuilder α :=
  match builder with
  | .error err => .error err
  | .ok r =>
    match c.headerName name, c.headerValue value with
    | .ok n, .ok v => .ok { r with headers := r.headers ++ [(n, v)] }
    | .error err, _ => .error err
    | .ok _, .error err => .error err

def addDefault (headers : HeaderMap) (h : HeaderName × HeaderValue) : HeaderMap :=
  if headers.any (·.1 = h.1) then headers else headers ++ [h]

/-- The request as `send` makes it. -/
def complete (c : Client α) (r : Outgoing α) : Outgoing α := { r with headers := c.defaults.foldl addDefault r.headers }

end Client

/-! The server -/

def hopByHop : List String :=
  ["connection", "keep-alive", "proxy-authenticate", "proxy-authorization", "te", "trailers", "transfer-encoding",
    "upgrade", "content-length"]

def isHopByHop (name : String) : Bool := hopByHop.contains (String.ofList (name.toList.map Char.toLower))

def buildUpstreamUrl (upstream rest : String) (uri : Uri) : Except String String :=
  let base := String.ofList (upstream.toList.rdropWhile (· = '/'))
  let path := if rest = "" then "" else if rest.toList.head? = some '/' then rest else "/" ++ rest
  let out := base ++ path
  .ok (match uri.query with
    | some q => out ++ "?" ++ q
    | none => out)

variable {α : Type}

/-- A header of the caller is carried over. -/
def carries (name : HeaderName) : Bool := !isHopByHop name && name ≠ "host"

/-- The request up to `send`. -/
def prepare (c : Client α) (entry : ProxyEntry) (method target : String) (body : List UInt8) (headers : HeaderMap) :
    RequestBuilder α :=
  let builder := Client.body (c.request method target) body
  let builder := headers.foldl (fun b h => if carries h.1 then c.header b h.1 h.2 else b) builder
  -- injected after the caller's headers
  entry.headers.foldl (fun b h => c.header b h.1 (Utf8.encode h.2)) builder

/-- What is sent upstream, and what the caller gets; `answer` is what comes of a request that is sent. -/
def forward (c : Client α) (registry : ProxyRegistry) (answer : Outgoing α → Except String Response)
    (token rest : String)
    (req : Request) : Option (Outgoing α) × Response :=
  match registry.lookup token with
  | none => (none, textResponse 404 "unknown proxy token")
  | some entry =>
    match buildUpstreamUrl entry.upstreamUrl rest req.uri with
    | .error err => (none, textResponse 400 s!"bad upstream url: {err}")
    | .ok target =>
      match req.body with
      | .error err => (none, textResponse 400 s!"body read: {err}")
      | .ok body =>
        match prepare c entry req.method target body req.headers with
        | .error err => (none, textResponse 502 s!"upstream: {err}")
        | .ok request =>
          let request := c.complete request
          (some request, match answer request with
            | .error err => textResponse 502 s!"upstream: {err}"
            | .ok resp => ⟨resp.status, resp.headers.filter (!isHopByHop ·.1), resp.body⟩)

/-- The routes `/p/:token` and `/p/:token/*rest`: the token, and what follows it in the path. -/
def route (path : List Char) : Option (List Char × List Char) :=
  match path with
  | '/' :: 'p' :: '/' :: tail =>
    let token := tail.takeWhile (· ≠ '/')
    let after := tail.dropWhile (· ≠ '/')
    if token = [] ∨ after = ['/'] then none else some (token, after)
  | _ => none

/-- Both handlers; a capture is percent-decoded, and has to be UTF-8 then. -/
def serve (c : Client α) (registry : ProxyRegistry) (answer : Outgoing α → Except String Response) (req : Request) :
    Option (Outgoing α) × Response :=
  match route req.uri.path.toList with
  | none => (none, ⟨404, [], []⟩)
  | some (token, after) =>
    match Utf8.fromUtf8 (percentDecode token) with
    | none => (none, textResponse 400 "Invalid URL: Invalid UTF-8 in `token`")
    | some token =>
      match after with
      | [] => forward c registry answer token "" req
      | _ :: rest =>
        match Utf8.fromUtf8 (percentDecode rest) with
        | none => (none, textResponse 400 "Invalid URL: Invalid UTF-8 in `rest`")
        | some rest => forward c registry answer token rest req

end Nexal.ReverseProxy
