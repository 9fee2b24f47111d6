import Eggfetch.Proxy.Request
import Eggfetch.Routing.NoProxy
import Eggfetch.Routing.Tls

/-! The proxies of `proxy.rs`, the snapshot of the proxy environment, and the proxy that a
request takes. -/
namespace Eggfetch.Routing
open Text Http
open Eggfetch.Proxy (ProxyAuth HeaderMap)

inductive SocketAddr where
  | v4 (ip : BitVec 32) (port : Nat)
  | v6 (ip : BitVec 128) (port flowinfo scopeId : Nat)
  deriving DecidableEq

structure ResolvedTarget where
  addresses : List SocketAddr
  nonempty : addresses ≠ []
  deriving DecidableEq

inductive ProxyRule where
  | all
  | http
  | https
  deriving DecidableEq

structure ProxyConfig where
  uri : Url
  auth : Option ProxyAuth
  proxyHeaders : HeaderMap
  proxyTlsConfig : Option TlsConfig
  resolvedAddresses : Option ResolvedTarget

/-- `bypass` are the `NO_PROXY` rules. -/
structure Proxy where
  uri : Url
  auth : Option ProxyAuth := none
  rule : ProxyRule
  bypass : Option (List NoProxyRule) := none
  proxyHeaders : HeaderMap := .empty
  proxyTlsConfig : Option TlsConfig := none
  resolvedAddresses : Option ResolvedTarget := none

/-- `set_username("")` and `set_password(None)`. -/
def withoutUserinfo (url : Url) : Url := { url with username := [], password := none }

def isSocksScheme (scheme : Str) : Bool := scheme == utf8 "socks5" || scheme == utf8 "socks5h"

namespace ProxyConfig

def isSocks (config : ProxyConfig) : Bool := isSocksScheme config.uri.scheme

def port (config : ProxyConfig) : Except Error Nat :=
  match config.uri.portOrKnownDefault with
  | some port => .ok port
  | none =>
    if isSocksScheme config.uri.scheme then .ok 1080
    else .error (.invalidProxyUrl (utf8 "proxy scheme \"" ++ config.uri.scheme ++ utf8 "\" has no known default port"))

end ProxyConfig

namespace Proxy

def shouldUseForScheme (proxy : Proxy) (scheme : Str) : Bool :=
  match proxy.rule with
  | .all => true
  | .http => scheme == utf8 "http"
  | .https => scheme == utf8 "https"

section
variable (lib : Library)

/-- What `config` takes from the userinfo of a SOCKS URL. -/
def inlineAuth (uri : Url) : Option ProxyAuth :=
  let username := lib.percentDecode uri.username
  let password := lib.percentDecode (uri.password.getD [])
  if isSocksScheme uri.scheme && (!username.isEmpty || !password.isEmpty) then some (.basic username password) else none

def config (proxy : Proxy) : ProxyConfig where
  uri := withoutUserinfo proxy.uri
  auth := proxy.auth.or (inlineAuth lib proxy.uri)
  proxyHeaders := proxy.proxyHeaders
  proxyTlsConfig := proxy.proxyTlsConfig
  resolvedAddresses := proxy.resolvedAddresses

def parseError (message : Str) : Error := .invalidProxyUrl (utf8 "invalid proxy URL: " ++ message)

def lineBreak (s : Str) : Bool := s.contains Proxy.cr || s.contains Proxy.lf

/-- The check of the userinfo by `parse_proxy_url`. -/
def checkUserinfo (url : Url) : Except Error Unit :=
  let username := lib.percentDecode url.username
  let password := lib.percentDecode (url.password.getD [])
  if url.scheme ∈ ["http", "https"].map utf8 then
    if url.username ≠ [] ∨ url.password.isSome then
      .error (.invalidProxyUrl (utf8 "proxy URL must not contain credentials; use .auth() instead"))
    else .ok ()
  else if isSocksScheme url.scheme then
    if lineBreak username || lineBreak password || username.contains 0 || password.contains 0 then
      .error (.invalidProxyUrl (utf8 "proxy auth credentials must not contain CR/LF or NUL"))
    else .ok ()
  else
    .error (.invalidProxyUrl (utf8 "unsupported proxy scheme '" ++ url.scheme ++
      utf8 "'; supported: http, https, socks5, socks5h"))

def parseProxyUrl (urlStr : Str) : Except Error Url :=
  match lib.parseUrl urlStr with
  | .error e => .error (parseError e)
  | .ok url =>
    match checkUserinfo lib url with
    | .error e => .error e
    | .ok () =>
      if url.host.getD [] = [] then .error (.invalidProxyUrl (utf8 "proxy URL must have a host"))
      else if url.fragment.isSome then .error (.invalidProxyUrl (utf8 "proxy URL must not contain a fragment"))
      else if url.query.isSome then .error (.invalidProxyUrl (utf8 "proxy URL must not contain a query string"))
      else .ok url

/-- `Proxy::all`, `Proxy::http` and `Proxy::https`. -/
def new (rule : ProxyRule) (urlStr : Str) : Except Error Proxy := (parseProxyUrl lib urlStr).map ({ uri := ·, rule })

/-- `ProxyAuth::basic` -/
def basicAuth (username password : Str) : Except Error ProxyAuth :=
  if username.contains Proxy.colon then .error (.invalidProxyUrl (utf8 "proxy auth username must not contain ':'"))
  else if lineBreak username then .error (.invalidProxyUrl (utf8 "proxy auth username must not contain CR/LF"))
  else if lineBreak password then .error (.invalidProxyUrl (utf8 "proxy auth password must not contain CR/LF"))
  else if username.contains 0 || password.contains 0 then
    .error (.invalidProxyUrl (utf8 "proxy auth credentials must not contain NUL"))
  else .ok (.basic username password)

def allCompat (urlStr : Str) : Except Error Proxy :=
  match lib.parseUrl urlStr with
  | .error e => .error (parseError e)
  | .ok parsed =>
    match new lib .all (lib.asStr (withoutUserinfo parsed)) with
    | .error e => .error e
    | .ok proxy =>
      let username := lib.percentDecode parsed.username
      if username ≠ [] ∨ parsed.password.isSome then
        (basicAuth username (lib.percentDecode (parsed.password.getD []))).map fun auth => { proxy with auth := some auth }
      else .ok proxy

/-- `http_compat` and `https_compat` -/
def compat (rule : ProxyRule) (urlStr : Str) : Except Error Proxy :=
  (allCompat lib urlStr).map fun proxy => { proxy with rule }

end
end Proxy

structure ProxyEnvironment where
  httpProxy : Option Str := none
  httpsProxy : Option Str := none
  allProxy : Option Str := none
  noProxy : Option Str := none

namespace ProxyEnvironment

def lastValue (vars : List (Str × Str)) (key : Str) : Option Str :=
  vars.foldl (fun found var => if (trim var.2).isEmpty then found else if var.1 = key then some (trim var.2) else found) none

def preferLowercase (lower upper : Option Str) : Option Str := lower.or upper

def fromMap (vars : List (Str × Str)) : ProxyEnvironment where
  httpProxy := preferLowercase (lastValue vars (utf8 "http_proxy")) (lastValue vars (utf8 "HTTP_PROXY"))
  httpsProxy := preferLowercase (lastValue vars (utf8 "https_proxy")) (lastValue vars (utf8 "HTTPS_PROXY"))
  allProxy := preferLowercase (lastValue vars (utf8 "all_proxy")) (lastValue vars (utf8 "ALL_PROXY"))
  noProxy := preferLowercase (lastValue vars (utf8 "no_proxy")) (lastValue vars (utf8 "NO_PROXY"))

def normalizeProxyUrl (raw : Str) : Str :=
  if containsStr (utf8 "://") (trim raw) then trim raw else utf8 "http://" ++ trim raw

def selectProxy (scheme : Str) (proxyForHttp proxyForHttps allProxy : Option Str) : Option (Str × ProxyRule × Bool) :=
  if scheme = utf8 "https" then (proxyForHttps.or allProxy).map (·, .https, proxyForHttps.isNone)
  else if scheme = utf8 "http" then (proxyForHttp.or allProxy).map (·, .http, proxyForHttp.isNone)
  else none

section
variable (lib : Library)

def noProxyRules (env : ProxyEnvironment) : Except Error (Option (List NoProxyRule)) :=
  match env.noProxy with
  | none => .ok none
  | some raw => (parseRules lib raw false).map some

def proxyFrom (noProxy : Option (List NoProxyRule)) (rule : ProxyRule) (raw : Str) : Except Error Proxy :=
  (Proxy.compat lib rule (normalizeProxyUrl raw)).map fun proxy =>
    { proxy with bypass := noProxy.or proxy.bypass }

def selected (noProxy : Option (List NoProxyRule)) : Option (Str × ProxyRule × Bool) → Except Error (Option Proxy)
  | none => .ok none
  | some (raw, rule, fromAll) => (proxyFrom lib noProxy (if fromAll then .all else rule) raw).map some

def resolve (env : ProxyEnvironment) (url : Url) : Except Error (Option Proxy) :=
  match env.noProxyRules lib with
  | .error e => .error e
  | .ok noProxy =>
    if noProxy.any (shouldBypass lib · url) then .ok none
    else selected lib noProxy (selectProxy url.scheme env.httpProxy env.httpsProxy env.allProxy)

def clientProxies (env : ProxyEnvironment) : Except Error (List Proxy) := do
  let noProxy ← env.noProxyRules lib
  let http ← env.httpProxy.toList.mapM (proxyFrom lib noProxy .http)
  let https ← env.httpsProxy.toList.mapM (proxyFrom lib noProxy .https)
  let all ← env.allProxy.toList.mapM (proxyFrom lib noProxy .all)
  return http ++ https ++ all

end
end ProxyEnvironment

/-- The proxies of a client. -/
structure ClientProxies where
  proxy : Option Proxy := none
  environmentProxies : List Proxy := []

inductive ProxyOverride where
  | inherit
  | direct
  | override (config : ProxyConfig)

section
variable (lib : Library)

def resolveProxy (client : ClientProxies) (url : Url) : ProxyOverride → Option ProxyConfig
  | .override config => some config
  | .direct => none
  | .inherit =>
    (((client.proxy.toList ++ client.environmentProxies).filter (·.shouldUseForScheme url.scheme)).find?
      fun proxy => proxy.bypass.all fun rules => !shouldBypass lib rules url).map (Proxy.config lib)

inductive HttpScheme where
  | http
  | https
  deriving DecidableEq, Repr

def HttpScheme.asStr : HttpScheme → Str
  | http => utf8 "http"
  | https => utf8 "https"

def HttpScheme.defaultPort : HttpScheme → Nat
  | http => 80
  | https => 443

def httpScheme? (scheme : Str) : Option HttpScheme :=
  if eqIgnoreAsciiCase scheme (utf8 "http") then some .http
  else if eqIgnoreAsciiCase scheme (utf8 "https") then some .https
  else none

structure HttpOrigin where
  scheme : HttpScheme
  host : Str
  port : Nat
  deriving DecidableEq

/-- `http::Uri`: the parts of its authority as `Uri::host` and `Uri::port_u16` give them, and
whether a colon for a port follows the host. -/
structure Uri where
  scheme : Option Str
  authority : Option Str
  host : Str
  port : Option Nat

def missingAuthority : Error := .unsupported (utf8 "native request URI must use http or https and include an authority")

/-- Whether the authority has a colon where a port would begin; `none` without a closing bracket. -/
def hasExplicitPort (authority : Str) : Option Bool :=
  if authority.head? = some openBracket then
    (authority.idxOf? closeBracket).map fun close => (authority.drop (close + 1)).head? == some Proxy.colon
  else some (authority.contains Proxy.colon)

def originPort (scheme : HttpScheme) (authority : Str) (port : Option Nat) : Except Error Nat :=
  match hasExplicitPort authority with
  | none => .error (.invalidUrl (utf8 "native request URI has an invalid authority"))
  | some explicit =>
    match port with
    | some port => .ok port
    | none =>
      if explicit then .error (.invalidUrl (utf8 "native request URI has an invalid port"))
      else .ok scheme.defaultPort

namespace HttpOrigin

def fromUri (uri : Uri) : Except Error HttpOrigin :=
  match uri.scheme with
  | none => .error (.invalidUrl (utf8 "native request URI must be absolute with http or https scheme"))
  | some scheme =>
    match httpScheme? scheme with
    | none => .error missingAuthority
    | some scheme =>
      match uri.authority with
      | none => .error missingAuthority
      | some authority =>
        if authority.contains 0x40 then
          .error (.invalidUrl (utf8 "URL userinfo is not supported; configure authentication explicitly"))
        else
          let host := toAsciiLowercase (stripBrackets uri.host)
          if uri.host = [] ∨ host = [] then .error missingAuthority
          else (originPort scheme authority uri.port).map (⟨scheme, host, ·⟩)

def originString (origin : HttpOrigin) : Str :=
  origin.scheme.asStr ++ utf8 "://" ++ origin.host ++ Proxy.colon :: utf8 (toString origin.port)

end HttpOrigin

def nativeWouldUseProxy (client : ClientProxies) (origin : HttpOrigin) (explicitPort : Option Nat) : Bool :=
  ((client.proxy.toList ++ client.environmentProxies).filter (·.shouldUseForScheme origin.scheme.asStr)).any
    fun proxy => proxy.bypass.all fun rules =>
      !shouldBypassComponents lib rules origin.scheme.asStr origin.host explicitPort

end
end Eggfetch.Routing
