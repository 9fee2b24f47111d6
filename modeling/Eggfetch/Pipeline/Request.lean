import Eggfetch.Http.Headers
import Eggfetch.Http.Url

/-! Requests, responses and clients as the request pipeline sees them. -/
namespace Eggfetch.Pipeline
open Text Http

abbrev Duration := Nat

abbrev Method := Str

inductive Version where
  | http09
  | http10
  | http11
  | http2
  | http3
  deriving DecidableEq, Repr

/-- `source` names the one-shot stream. -/
inductive RequestBody where
  | empty
  | bytes (data : Str)
  | stream (source : Nat)
  deriving DecidableEq, Repr

structure Timeout where
  pool : Option Duration := none
  connect : Option Duration := none
  write : Option Duration := none
  read : Option Duration := none
  total : Option Duration := none
  deriving DecidableEq, Repr

def Timeout.merge (client : Timeout) : Option Timeout → Timeout
  | some req =>
    { pool := req.pool <|> client.pool
      connect := req.connect <|> client.connect
      write := req.write <|> client.write
      read := req.read <|> client.read
      total := req.total <|> client.total }
  | none => client

/-- Socket addresses. -/
structure ResolvedTarget where
  addresses : List Str
  nonempty : addresses ≠ []
  deriving DecidableEq

/-- `trace` names the observer. -/
structure TransportHints where
  target : Option Str := none
  sniHostname : Option Str := none
  resolvedTarget : Option ResolvedTarget := none
  trace : Option Nat := none
  deriving DecidableEq

/-- Basic or Bearer credentials, by the header value they produce. -/
structure AuthScheme where
  headerValue : Str
  valid : validateHeaderValue headerValue = true
  deriving DecidableEq

inductive RedirectDowngradePolicy where
  | allow
  | deny
  deriving DecidableEq, Repr

structure RedirectPolicy where
  follow : Bool := false
  maxRedirects : Nat := 20
  downgrade : RedirectDowngradePolicy := .allow
  deriving DecidableEq, Repr

inductive TimeoutPhase where
  | pool
  | connect
  | write
  | read
  | total
  deriving DecidableEq, Repr

inductive Error where
  | header (e : HeaderError)
  | conflictingAuth
  | timeout (phase : TimeoutPhase) (elapsed : Duration)
  | resolvedTargetRedirect
  | invalidRedirectLocation (reason : Str)
  | unsupported (reason : Str)
  | tooManyRedirects (followed max : Nat)
  | bodyNotReplayableForRedirect
  /-- A failure of the transport. -/
  | dispatch (reason : Str)
  deriving DecidableEq, Repr

/-- `O` is what a request passes through every hop unchanged: decompression, decoded-body
limits, the proxy override and the failure context. -/
structure Request (O : Type) where
  method : Method
  url : Url
  headers : Headers := .empty
  body : RequestBody := .empty
  version : Version := .http11
  timeout : Option Timeout := none
  redirect : Option RedirectPolicy := none
  auth : Option AuthScheme := none
  authDisabled : Bool := false
  options : O
  transportHints : TransportHints := {}
  proxiedTarget : Option ResolvedTarget := none

structure Response where
  status : Nat
  url : Url
  headers : Headers

/-- The two jar operations of the pipeline, over jars in `J`; reading expires lazily. -/
structure CookieStore (J : Type) where
  cookiesForUrl : J → Url → Option Str × J
  updateFromResponse : J → Url → List Str → J

/-- The client configuration the pipeline reads. -/
structure ClientConfig where
  defaultHeaders : Headers := .empty
  timeout : Option Timeout := none
  redirect : RedirectPolicy := {}
  auth : Option AuthScheme := none

end Eggfetch.Pipeline
