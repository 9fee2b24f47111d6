import Eggfetch.Http.Url
import Eggfetch.Pipeline.Request
import Eggfetch.Proxy.Response
import Eggfetch.Text.Split

/-! Requests through an HTTP proxy: forwarded in absolute form, or sent inside a `CONNECT`
tunnel. Either Hyper writes them or the client does. -/
namespace Eggfetch.Proxy
open Text Http
open Pipeline (Version)

structure Field where
  name : Str
  value : Str
  deriving DecidableEq, Repr

/-- `http::HeaderMap` in the order of its iteration. -/
structure HeaderMap where
  iter : List Field
  names_valid : ∀ field ∈ iter, validateHeaderName field.name = true ∧ toAsciiLowercase field.name = field.name
  values_valid : ∀ field ∈ iter, validateHeaderValue field.value = true

namespace HeaderMap

def empty : HeaderMap := ⟨[], (by intro _ h; cases h), (by intro _ h; cases h)⟩

def contains (headers : HeaderMap) (name : Str) : Bool := headers.iter.any (·.name == name)

def get (headers : HeaderMap) (name : Str) : Option Str := (headers.iter.find? (·.name == name)).map Field.value

end HeaderMap

/-- What is read of `http::Uri`. -/
structure Uri where
  scheme : Str
  host : Str
  port : Option Nat

inductive RequestBody where
  | empty
  | bytes (data : Str)
  /-- The chunks of a stream, or the text of its error. -/
  | stream (length : Option Nat) (chunks : List (Except Str Str))

inductive ProxyAuth where
  | basic (username password : Str)

/-- A request that Hyper is given. -/
structure HyperRequest where
  method : Str
  uri : Uri
  version : Version
  fields : List Field
  body : RequestBody

/-- The libraries under the transports. `hyperAdds` are the fields that Hyper writes beside
the ones of the request: those it derives from the URI and from the length of the body. -/
structure Library where
  parseUrl : Str → Option Url
  asStr : Url → Str
  parseUri : Str → Except Str Uri
  base64 : Str → Str
  hyperAdds : HyperRequest → List Field

def proxyAuthorization : Str := utf8 "proxy-authorization"
def host : Str := utf8 "host"
def transferEncoding : Str := utf8 "transfer-encoding"

def ProxyAuth.headerValue (lib : Library) : ProxyAuth → Str
  | basic username password => utf8 "Basic " ++ lib.base64 (username ++ utf8 ":" ++ password)

/-- A request on its way to an HTTP proxy; `target` overrides the request target. -/
structure ProxyRequest where
  url : Url
  method : Str
  method_token : validateHeaderName method = true
  headers : HeaderMap
  body : RequestBody
  version : Version
  auth : Option ProxyAuth
  proxyHeaders : HeaderMap
  target : Option Str
  proxiedTarget : Option Pipeline.ResolvedTarget
  http2Only : Bool

section
variable (lib : Library)

def hasEncodedNul : Str → Bool
  | [] => false
  | b :: rest => (utf8 "%00").isPrefixOf (b :: rest) || hasEncodedNul rest

def validateTarget (target : Str) : Except Error Unit :=
  if target.isEmpty then .error (.requestBuild (utf8 "target extension must not be empty"))
  else if target.any (fun b => b < 0x20 || b == 0x7f) then
    .error (.requestBuild
      (utf8 "target extension contains forbidden characters (C0 controls/DEL; includes CR/LF/NUL)"))
  else if hasEncodedNul target then
    .error (.requestBuild (utf8 "target extension must not contain encoded NUL (%00)"))
  else if target.all (· == 0x20) then .error (.requestBuild (utf8 "target extension must not be whitespace-only"))
  else if target.head? = some 0x20 ∨ target.getLast? = some 0x20 then
    .error (.requestBuild (utf8 "target extension must not contain leading or trailing whitespace"))
  else .ok ()

def targetExtensionStr (target : Str) : Except Error Str :=
  if (Utf8.fromUtf8 target).isSome then .error (.invalidUrl (utf8 "target extension is not valid UTF-8"))
  else .ok target

def maxRequestHeaderBytes : Nat := 64 * 1024

def withPort (name : Str) : Option Nat → Str
  | some port => name ++ utf8 ":" ++ utf8 (toString port)
  | none => name

def hostText (parsed : Url) : Str := withPort (parsed.host.getD []) parsed.port

def pushHeaderLine (out : Str) (field : Field) : Str := out ++ field.name ++ utf8 ": " ++ field.value ++ crlf

def isProxyAuthorization (field : Field) : Bool := eqIgnoreAsciiCase field.name proxyAuthorization

def versionStr : Version → Str
  | .http10 => utf8 "HTTP/1.0"
  | _ => utf8 "HTTP/1.1"

def requestLine (method uri : Str) (version : Version) : Str :=
  method ++ utf8 " " ++ uri ++ utf8 " " ++ versionStr version

def pushHost (uri : Str) (headers : HeaderMap) (out : Str) : Str :=
  if headers.contains host then out
  else
    match lib.parseUrl uri with
    | some parsed => pushHeaderLine out ⟨utf8 "Host", hostText parsed⟩
    | none => out

def pushHeaders (headers : HeaderMap) (out : Str) : Str :=
  headers.iter.foldl (fun out field => if isProxyAuthorization field then out else pushHeaderLine out field) out

def pushProxyHeaders (headers proxyHeaders : HeaderMap) (out : Str) : Str :=
  proxyHeaders.iter.foldl (fun out field =>
    if isProxyAuthorization field then out
    else if headers.contains field.name then out
    else pushHeaderLine out field) out

def pushTransferEncoding (chunkedBody : Bool) (headers proxyHeaders : HeaderMap) (out : Str) : Except Error Str :=
  if chunkedBody then
    match (headers.get transferEncoding).or (proxyHeaders.get transferEncoding) with
    | some value =>
      if eqIgnoreAsciiCase value (utf8 "chunked") then .ok out
      else .error (.requestBuild (utf8 "unknown-length proxy request bodies require chunked transfer encoding"))
    | none => .ok (pushHeaderLine out ⟨utf8 "Transfer-Encoding", utf8 "chunked"⟩)
  else .ok out

def pushProxyAuth (proxyAuth : Option ProxyAuth) (out : Str) : Str :=
  match proxyAuth with
  | some auth => pushHeaderLine out ⟨utf8 "Proxy-Authorization", auth.headerValue lib⟩
  | none => out

def RequestBody.isChunked : RequestBody → Bool
  | stream none _ => true
  | _ => false

/-- `{:X}` -/
def upperHex (n : Nat) : Str := utf8 (String.ofList ((Nat.toDigits 16 n).map Char.toUpper))

def writeChunks (chunked : Bool) : List (Except Str Str) → Except Error Str
  | [] => .ok (if chunked then utf8 "0\r\n\r\n" else [])
  | .error e :: _ => .error (.body e)
  | .ok chunk :: rest =>
    if chunked then
      if chunk.isEmpty then writeChunks chunked rest
      else (writeChunks chunked rest).map (upperHex chunk.length ++ crlf ++ chunk ++ crlf ++ ·)
    else (writeChunks chunked rest).map (chunk ++ ·)

def writeProxyBody (body : RequestBody) (chunked : Bool) : Except Error Str :=
  match body with
  | .empty => .ok []
  | .bytes data => .ok data
  | .stream _ chunks => writeChunks chunked chunks

def writeProxyRequest (method uri : Str) (version : Version) (headers : HeaderMap) (proxyAuth : Option ProxyAuth)
    (proxyHeaders : HeaderMap) (body : RequestBody) : Except Error Str :=
  if body.isChunked = true ∧ version ≠ .http11 then
    .error (.requestBuild (utf8 "unknown-length proxy request bodies require HTTP/1.1"))
  else do
    let request := requestLine method uri version ++ crlf
    let request := pushHost lib uri headers request
    let request := pushHeaders headers request
    let request := pushProxyHeaders headers proxyHeaders request
    let request ← pushTransferEncoding body.isChunked headers proxyHeaders request
    let request := pushProxyAuth lib proxyAuth request ++ crlf
    if maxRequestHeaderBytes < request.length then
      .error (.requestBuild (utf8 "request headers exceed maximum size of " ++ utf8 (toString maxRequestHeaderBytes) ++
        utf8 " bytes"))
    else (writeProxyBody body body.isChunked).map (request ++ ·)

def absoluteUri (request : ProxyRequest) : Except Error Str :=
  match request.target with
  | some target => targetExtensionStr target
  | none => .ok (lib.asStr request.url)

def parseRequestUri (message uri : Str) : Except Error Uri :=
  match lib.parseUri uri with
  | .ok uri => .ok uri
  | .error e => .error (.requestBuild (message ++ e))

def sendHttpProxyRequestHyper (request : ProxyRequest) : Except Error HyperRequest := do
  let uri ← parseRequestUri lib (utf8 "invalid forward-proxy target: ") (← absoluteUri lib request)
  let auth := match request.auth with
    | some auth => [⟨proxyAuthorization, auth.headerValue lib⟩]
    | none => []
  let proxyHeaders := request.proxyHeaders.iter.filter fun field =>
    !(isProxyAuthorization field && request.auth.isSome)
  .ok ⟨request.method, uri, request.version, request.headers.iter ++ auth ++ proxyHeaders, request.body⟩

def validateForwardTarget : Option Str → Except Error Unit
  | none => .ok ()
  | some target => do
    validateTarget target
    let uri ← targetExtensionStr target
    if (utf8 "http://").isPrefixOf uri || (utf8 "https://").isPrefixOf uri then .ok ()
    else .error (.requestBuild (utf8
      "target extension must be absolute-form (http:// or https://) for forward-proxy requests"))

/-- What leaves the client: a request for Hyper, or bytes. -/
inductive Sent where
  | hyper (request : HyperRequest)
  | wire (bytes : Str)

def sendHttpProxyRequest (forwardClient : Bool) (request : ProxyRequest) : Except Error Sent :=
  if request.http2Only then
    .error (.unsupported (utf8 "HTTP/2-only policy is not supported through an HTTP forward proxy"))
  else do
    validateForwardTarget request.target
    if forwardClient then
      return .hyper (← sendHttpProxyRequestHyper lib request)
    else
      return .wire (← writeProxyRequest lib request.method (← absoluteUri lib request) request.version request.headers
        request.auth request.proxyHeaders request.body)

def originUri (request : ProxyRequest) : Except Error Str :=
  match request.target with
  | some target => do
    validateTarget target
    targetExtensionStr target
  | none =>
    .ok (match request.url.query with
      | some query => request.url.path ++ utf8 "?" ++ query
      | none => request.url.path)

def sendHttpsConnectRequestHyper (request : ProxyRequest) : Except Error HyperRequest := do
  let target ← originUri request
  let requestUri := if target.head? = some 0x2f then
      request.url.scheme ++ utf8 "://" ++ request.url.host.getD [] ++ target
    else lib.asStr request.url
  let uri ← parseRequestUri lib (utf8 "invalid CONNECT target: ") requestUri
  .ok ⟨request.method, uri, request.version, request.headers.iter, request.body⟩

/-- The request of `send_https_connect_request_once`, for each pinned address the same. -/
def sendHttpsConnectRequestOnce (request : ProxyRequest) : Except Error Str := do
  writeProxyRequest lib request.method (← originUri request) request.version request.headers none HeaderMap.empty
    request.body

def sendHttpsConnectRequest (connectClient : Bool) (request : ProxyRequest) : Except Error Sent :=
  if connectClient then return .hyper (← sendHttpsConnectRequestHyper lib request)
  else return .wire (← sendHttpsConnectRequestOnce lib request)

/-- The pooled client for tunnels takes no unusual target and at most one address. -/
def usesConnectClient (request : ProxyRequest) : Bool :=
  request.target.all (·.head? == some 0x2f) && request.proxiedTarget.all (·.addresses.length ≤ 1)

/-- `send_proxy_route` for a proxy that is not SOCKS. The forward client exists unless it is
compiled out. -/
def sendProxyRoute (forwardClient : Bool) (request : ProxyRequest) : Except Error Sent :=
  if request.headers.contains proxyAuthorization && request.auth.isSome then
    .error (.conflictingAuth (utf8
      "conflict: both request Proxy-Authorization header and proxy auth are configured; remove one"))
  else if request.url.scheme = utf8 "http" then sendHttpProxyRequest lib forwardClient request
  else if request.url.scheme = utf8 "https" then sendHttpsConnectRequest lib (usesConnectClient request) request
  else .error (.unsupported (utf8 "unsupported destination scheme '" ++ request.url.scheme ++ utf8 "' through proxy"))

end
end Eggfetch.Proxy
