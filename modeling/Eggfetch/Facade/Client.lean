import Eggfetch.Facade.Headers
import Eggfetch.Http.H2Headers
import Eggfetch.Pipeline.Redirect
import Eggfetch.Text.Split

/-! The HTTPX facade over the native client: `compat/httpx/_client.py`, `_request.py` and
the binding's `request_preparation.rs`. `Client` and `AsyncClient` share this code. The
standard library's cookie jar and URL functions, and the native jar, are parameters. -/
namespace Eggfetch.Facade
open Text Pipeline

/-- A URL as `urlsplit` reads it, with its text. -/
structure Url where
  text : Str
  scheme : Str
  host : Option Str
  port : Option Nat
  deriving DecidableEq

def Url.portOrDefault (url : Url) : Option Nat :=
  match url.port with
  | some port => some port
  | none =>
    if url.scheme = utf8 "https" then some 443
    else if url.scheme = utf8 "http" then some 80 else none

def Url.sameOrigin (url other : Url) : Bool :=
  url.scheme = other.scheme ∧ url.host = other.host ∧ url.portOrDefault = other.portOrDefault

def Url.isHttpsRedirect (url location : Url) : Bool :=
  url.host = location.host ∧ url.scheme = utf8 "http" ∧ url.portOrDefault = some 80 ∧
    location.scheme = utf8 "https" ∧ location.portOrDefault = some 443

/-- What `_classify_body` tells apart; `form` and `source` name a multipart form and a
one-shot stream. -/
inductive Body where
  | empty
  | buffered (content : Str)
  | byteStream (content : Str)
  | multipart (form : Nat) (reconstructable : Bool)
  | oneShot (source : Nat)
  deriving DecidableEq

/-- `PJ` are the cookie jars of the standard library. -/
structure Request (PJ : Type) where
  method : Str
  url : Url
  headers : Headers
  cookies : PJ
  body : Body := .empty
  /-- The `target`, `sni_hostname` and `trace` extensions. -/
  hints : TransportHints := {}
  /-- The `timeout` extension. -/
  timeout : Option Timeout := none

inductive Error where
  | native (e : Pipeline.Error)
  /-- Python's `ValueError`. -/
  | value (reason : Str)
  | invalidUrl (reason : Str)
  | tooManyRedirects
  | streamConsumed
  | unicodeDecode
  deriving DecidableEq

/-- The proxy of a URL: one that speaks SOCKS, or the credentials and the own headers of one that speaks HTTP. -/
inductive ProxyChoice where
  | socks (auth : Bool)
  | http (auth : Option Str) (headers : Http.Headers)

def ProxyChoice.hasAuth : ProxyChoice → Bool
  | socks auth => auth
  | http auth _ => auth.isSome

/-- What the facade calls outside the repository: the jar of `http.cookiejar` at a moment,
the resolution of a `Location`, the `url` crate, and the bodies that the binding encodes. -/
structure Env (PJ J O : Type) where
  cookieText : PJ → Url → (now : Nat) → Option Str
  extractCookies : PJ → Url → Response → (now : Nat) → PJ
  redirectUrl : Url → Str → Except Str Url
  parse : Str → Except Str Http.Url
  join : Join
  store : (now : Nat) → CookieStore J
  emptyJar : J
  multipart : Nat → Str × RequestBody
  iterator : Str → Nat
  options : O
  resolveProxy : Http.Url → Option ProxyChoice := fun _ => none
  /-- Whether a request gets to a connection. -/
  connects : (now : Nat) → Pipeline.Request O → Bool := fun _ _ => true

/-- The native client that the facade has built: its default headers and its own jar. -/
structure Native (J : Type) where
  defaultHeaders : Http.Headers
  timeout : Option Timeout
  redirect : RedirectPolicy
  jar : J

def Native.config {J : Type} (native : Native J) : ClientConfig where
  defaultHeaders := native.defaultHeaders
  timeout := native.timeout
  redirect := native.redirect
  auth := none

structure Client (PJ J : Type) where
  headers : Headers
  cookies : PJ
  timeout : Option Timeout := none
  followRedirects : Bool := false
  maxRedirects : Nat := 20
  http1 : Bool := true
  http2 : Bool := false
  native : Option (Native J) := none

/-- `HttpVersionPolicy::Http2Only` of the native client. -/
def Client.http2Only {PJ J : Type} (client : Client PJ J) : Bool := !client.http1 && client.http2

variable {PJ J O : Type} (env : Env PJ J O)

/-- `_ensure_client`: the native client is built once, with the headers of that moment. -/
def Client.ensureClient (client : Client PJ J) : Except Error (Native J) :=
  match client.native with
  | some native => .ok native
  | none =>
    match pythonHeadersToRust client.headers.multiItems with
    | .error e => .error (.native (.header e))
    | .ok defaultHeaders =>
      .ok
        { defaultHeaders := defaultHeaders
          timeout := client.timeout
          redirect := { follow := client.followRedirects, maxRedirects := client.maxRedirects }
          jar := env.emptyJar }

def cookieName : Name := ⟨cookie, by decide⟩

/-- What `str.strip` removes: white space and the information separators. -/
def pythonSpace : List Str := whitespace ++ [[0x1c], [0x1d], [0x1e], [0x1f]]

def strip (s : Str) : Str :=
  let left := dropChars pythonSpace s.length s
  (dropChars (pythonSpace.map List.reverse) left.length left.reverse).reverse

/-- `part.split("=", 1)[0].strip()`. -/
def cookiePartName (part : Str) : Str := strip (splitOnce 0x3d part).1

/-- The cookies of `generated` whose names `explicit` does not have, behind it. -/
def mergeCookies (explicit generated : Str) : Str :=
  let names := (explicit.splitOn 0x3b).map cookiePartName
  let additions := ((generated.splitOn 0x3b).filter fun part => cookiePartName part ∉ names).map strip
  if additions = [] then explicit else (utf8 "; ").intercalate (explicit :: additions)

/-- `add_cookie_header` of a jar whose cookies for the request make `text`. -/
def addCookieHeader (text : Option Str) (headers : Headers) : Headers :=
  match text with
  | some text => if headers.contains cookie then headers else headers.setItem cookieName text
  | none => headers

/-- `_prepare_cookie_header` on the headers. -/
def prepareCookies (text : Option Str) (headers : Headers) : Headers :=
  let generated := addCookieHeader text (headers.pop cookie)
  match headers.get cookie with
  | none | some [] => generated
  | some explicit =>
    generated.setItem cookieName <|
      match generated.get cookie with
      | none | some [] => explicit
      | some cookies => mergeCookies explicit cookies

def Request.prepareCookieHeader (request : Request PJ) (now : Nat) : Request PJ :=
  { request with
    headers := prepareCookies (env.cookieText request.cookies request.url now) request.headers }

def authorizationName : Name := ⟨authorization, by decide⟩

/-- The request that an auth flow yields; `auth` is the value of its `Authorization`. -/
def Request.authenticate (request : Request PJ) : (auth : Option Str) → Request PJ
  | none => request
  | some value => { request with headers := request.headers.setItem authorizationName value }

/-- `parse_url` of the native client, on a parsed URL. -/
def checkUrl (url : Http.Url) : Except Error Unit :=
  if url.username ≠ [] ∨ url.password.isSome then
    .error (.invalidUrl (utf8 "URL userinfo is not supported; configure authentication explicitly"))
  else if url.scheme = utf8 "http" ∨ url.scheme = utf8 "https" then .ok ()
  else
    .error (.native (.unsupported (utf8 "URL scheme '" ++ url.scheme ++
      utf8 "' is not supported; use http or https")))

/-- The body that the binding makes, with the content type of a multipart one. -/
def nativeBody : Body → Option Str × RequestBody
  | .empty => (none, .empty)
  | .buffered content => (none, .bytes content)
  | .byteStream content => (none, .stream (env.iterator content))
  | .multipart form _ => (some (env.multipart form).1, (env.multipart form).2)
  | .oneShot source => (none, .stream source)

def contentType : Str := utf8 "content-type"

/-- `prepare_request` gives a body's content type to headers without one. -/
def addContentType (headers : Http.Headers) : Option Str → Except Http.HeaderError Http.Headers
  | none => .ok headers
  | some value => if headers.contains contentType then .ok headers else headers.insert contentType value

/-- `_build_native_kwargs`, then `prepare_request` and `prepare_core_dispatch`. -/
def nativeRequest (native : Native J) (request : Request PJ) : Except Error (Pipeline.Request O) :=
  match env.parse request.url.text with
  | .error reason => .error (.value reason)
  | .ok url =>
    match pythonHeadersToRust request.headers.multiItems with
    | .error e => .error (.native (.header e))
    | .ok headers =>
      match addContentType headers (nativeBody env request.body).1 with
      | .error e => .error (.native (.header e))
      | .ok headers =>
        match checkUrl url with
        | .error e => .error e
        | .ok () =>
          .ok
            { method := request.method
              url := url
              headers := headers
              body := (nativeBody env request.body).2
              timeout := request.timeout
              redirect := some { native.redirect with follow := false }
              options := env.options
              transportHints := request.hints }

/-- A hop: the facade's request, the native jar before it, and what `build_hop_request` makes of them. -/
structure Hop (PJ J O : Type) where
  now : Nat
  request : Request PJ
  jar : J
  built : Pipeline.Request O

def proxyAuthorization : Str := utf8 "proxy-authorization"

/-- `send_http_proxy_request_hyper` adds what is for the proxy. -/
def forwardHeaders (auth : Option Str) (own headers : Http.Headers) : Http.Headers :=
  ⟨fun name => headers.getAll name ++
    if name = proxyAuthorization ∧ auth.isSome then auth.toList else own.getAll name⟩

/-- The headers that a hop goes out with behind `prepare_single_request` and its route, but for the
framing and negotiation fields that these set; `none` where it does not go out. -/
def Hop.sent (hop : Hop PJ J O) (http2Only : Bool) : Option Http.Headers :=
  let headers := if http2Only then Http.stripH2ForbiddenHeaders hop.built.headers else hop.built.headers
  if !env.connects hop.now hop.built then none
  else
    match env.resolveProxy hop.built.url with
    | none => some headers
    | some proxy =>
      if headers.contains proxyAuthorization && proxy.hasAuth then none
      else
        match proxy with
        | .socks _ => some headers
        | .http auth own =>
          if hop.built.url.scheme = utf8 "http" then
            if http2Only then none else some (forwardHeaders auth own headers)
          -- a target that is no path goes through the tunnel by `write_proxy_request`
          else if hop.built.transportHints.target.all ((utf8 "/").isPrefixOf ·) then some headers
          else some (headers.remove proxyAuthorization)

/-- What a dispatch leaves: its hop, if there was one, the response, if there is one, and
the client. -/
structure Sent (PJ J O : Type) where
  hop : Option (Hop PJ J O)
  result : Except Error (Option Response)
  client : Client PJ J

/-- `_send_single_request` behind `_prepare_cookie_header`. -/
def Client.dispatch (client : Client PJ J) (request : Request PJ) (now : Nat) (reply : Option Reply) :
    Sent PJ J O :=
  match client.ensureClient env with
  | .error e => ⟨none, .error e, client⟩
  | .ok native =>
    match nativeRequest env native request with
    | .error e => ⟨none, .error e, { client with native := some native }⟩
    | .ok nativeRequest =>
      let trace := sendWithRedirects (env.store now) env.join native.config native.jar nativeRequest 0
        reply.toList
      let hop := trace.hops.head?.map fun built => ⟨now, request, native.jar, built⟩
      let client := { client with native := some { native with jar := trace.jar } }
      match trace.outcome with
      | .waiting => ⟨hop, .ok none, client⟩
      | .error e => ⟨hop, .error (.native e), client⟩
      | .ok response _ =>
        ⟨hop, .ok (some response),
          { client with cookies := env.extractCookies client.cookies request.url response now }⟩

def Client.sendSingleRequest (client : Client PJ J) (request : Request PJ) (now : Nat)
    (reply : Option Reply) : Sent PJ J O :=
  client.dispatch env (request.prepareCookieHeader env now) now reply

def redirectMethod (method : Str) (status : Nat) : Str :=
  let method := if status = 303 ∧ method ≠ utf8 "HEAD" then utf8 "GET" else method
  let method := if status = 302 ∧ method ≠ utf8 "HEAD" then utf8 "GET" else method
  if status = 301 ∧ method = utf8 "POST" then utf8 "GET" else method

def redirectUrl (request : Request PJ) (response : Response) : Except Error Url :=
  let location := (utf8 ", ").intercalate (response.headers.getAll (utf8 "location"))
  if location = [] then .ok request.url
  else
    match env.redirectUrl request.url location with
    | .error reason => .error (.invalidUrl reason)
    | .ok url => .ok url

def hostName : Name := ⟨host, by decide⟩

def contentLength : Name := ⟨utf8 "content-length", by decide⟩

def transferEncoding : Str := utf8 "transfer-encoding"

def withPort (host : Str) (port : Nat) : Str := host ++ utf8 ":" ++ utf8 (toString port)

/-- The `Host` of a hop to another origin. -/
def redirectHost (url : Url) (host : Str) : Str :=
  match url.port with
  | some port => if port = 80 ∨ port = 443 then host else withPort host port
  | none => host

/-- A hop whose `Authorization` is stripped: to another origin, the upgrade of `http:80` to
`https:443` excepted. -/
def crosses (source target : Url) : Bool :=
  !target.sameOrigin source && !source.isHttpsRedirect target

/-- `raw_host.decode("ascii")` does not raise, or is not reached. -/
def hostDecodes (request : Request PJ) (url : Url) : Bool :=
  url.sameOrigin request.url || url.host.all fun host => host.all (· < 0x80)

/-- What `_redirect_headers` returns. -/
def redirectedHeaders (request : Request PJ) (url : Url) (method : Str) : Headers :=
  let headers := (request.headers.pop cookie).pop cookie
  let headers :=
    if url.sameOrigin request.url then headers
    else
      let headers := if request.url.isHttpsRedirect url then headers else headers.pop authorization
      match url.host with
      | some host => headers.setItem hostName (redirectHost url host)
      | none => headers
  if method ≠ request.method ∧ method = utf8 "GET" then
    (headers.pop contentLength.val).pop transferEncoding
  else headers

def redirectHeaders (request : Request PJ) (url : Url) (method : Str) : Except Error Headers :=
  if hostDecodes request url then .ok (redirectedHeaders request url method) else .error .unicodeDecode

/-- The `Host` of a new request. -/
def requestHost (url : Url) (host : Str) : Str :=
  match url.port with
  | some port =>
    if port ≠ 0 ∧ ((url.scheme = utf8 "http" ∧ port ≠ 80) ∨ (url.scheme = utf8 "https" ∧ port ≠ 443)) then
      withPort host port
    else host
  | none => host

/-- The headers that `Request` gives itself. -/
def autoHeaders (method : Str) (url : Url) (body : Body) (headers : Headers) : Headers :=
  let headers := match url.host, body with
    | _, .byteStream _ | none, _ => headers
    | some host, _ =>
      if headers.contains hostName.val then headers else headers.setItem hostName (requestHost url host)
  match body with
  | .buffered content =>
    if headers.contains contentLength.val then headers
    else headers.setItem contentLength (utf8 (toString content.length))
  | .empty | .multipart _ _ =>
    if method ∈ ["POST", "PUT", "PATCH"].map utf8 ∧ !headers.contains contentLength.val ∧
        !headers.contains transferEncoding then
      headers.setItem contentLength (utf8 "0")
    else headers
  | .byteStream _ | .oneShot _ => headers

def buildRedirectRequest (clientCookies : PJ) (request : Request PJ) (response : Response) :
    Except Error (Request PJ) :=
  match redirectUrl env request response with
  | .error e => .error e
  | .ok url =>
    let method := redirectMethod request.method response.status
    match redirectHeaders request url method with
    | .error e => .error e
    | .ok headers =>
      let build (body : Body) : Request PJ :=
        { method := method
          url := url
          headers := autoHeaders method url body headers
          cookies := clientCookies
          body := body
          timeout := request.timeout }
      if method ≠ request.method ∧ method = utf8 "GET" then .ok (build .empty)
      else
        match request.body with
        | .multipart _ false | .oneShot _ => .error .streamConsumed
        | body => .ok (build body)

/-- The hops of a call, how it ends, and the client after it. -/
structure Trace (PJ J O : Type) where
  hops : List (Hop PJ J O)
  result : Except Error (Option Response)
  client : Client PJ J

/-- `_send_handling_redirects` without event hooks; `history` counts the responses so far. -/
def Client.sendHandlingRedirects (client : Client PJ J) (request : Request PJ) (follow : Bool)
    (history now : Nat) : List Reply → Trace PJ J O
  | [] =>
    if client.maxRedirects < history then ⟨[], .error .tooManyRedirects, client⟩
    else
      let sent := client.sendSingleRequest env request now none
      ⟨sent.hop.toList, sent.result, sent.client⟩
  | reply :: replies =>
    if client.maxRedirects < history then ⟨[], .error .tooManyRedirects, client⟩
    else
      let sent := client.sendSingleRequest env request now (some reply)
      match sent.result with
      | .ok (some response) =>
        if !isRedirectStatus response.status then ⟨sent.hop.toList, sent.result, sent.client⟩
        else
          match buildRedirectRequest env sent.client.cookies (request.prepareCookieHeader env now)
              response with
          | .error e => ⟨sent.hop.toList, .error e, sent.client⟩
          | .ok next =>
            if !follow then ⟨sent.hop.toList, sent.result, sent.client⟩
            else
              let rest := sent.client.sendHandlingRedirects next follow (history + 1) reply.elapsed
                replies
              ⟨sent.hop.toList ++ rest.hops, rest.result, rest.client⟩
      | result => ⟨sent.hop.toList, result, sent.client⟩

end Eggfetch.Facade
