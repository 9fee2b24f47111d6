import Eggfetch.Proxy.Request
import Eggfetch.Routing.Proxies
import Eggfetch.Text.Ip

/-! The SOCKS5 client of `transport/socks.rs`: the method, the credentials and the `CONNECT` command,
over one connection to the proxy. -/
namespace Eggfetch.Proxy
open Text Http
open Routing (IpAddr SocketAddr)

/-- The errors of a handshake; every stage reports the same timeout. -/
inductive SocksError where
  | proxyConnect (message : Str)
  | malformedProxyResponse (message : Str)
  | connect (message : Str)
  | timeout
  deriving DecidableEq

/-- How a read ends that wants more than the proxy sends. -/
inductive ReadFailure where
  | eof
  | failed (text : Str)
  | timeout

def ReadFailure.error (phase : String) : ReadFailure → SocksError
  | eof => .malformedProxyResponse (utf8 phase ++ utf8 ": connection closed prematurely")
  | failed text => .proxyConnect (utf8 phase ++ utf8 " read failed: " ++ text)
  | timeout => .timeout

/-- A connection to the proxy: what it still sends, and what it was sent. -/
structure Socket where
  incoming : Str
  ending : ReadFailure
  sent : Str

abbrev Socks (ε : Type) := EStateM ε Socket

def writeAll {ε : Type} (data : Str) : Socks ε Unit := fun socket => .ok () { socket with sent := socket.sent ++ data }

def readExact (n : Nat) (phase : String) : Socks SocksError Str := fun socket =>
  if n ≤ socket.incoming.length then .ok (socket.incoming.take n) { socket with incoming := socket.incoming.drop n }
  else .error (socket.ending.error phase) { socket with incoming := [] }

def socks5Version : UInt8 := 0x05
def methodNoAuth : UInt8 := 0x00
def methodUsernamePassword : UInt8 := 0x02
def methodNoAcceptable : UInt8 := 0xff
def subnegVersion : UInt8 := 0x01
def cmdConnect : UInt8 := 0x01
def atypIpv4 : UInt8 := 0x01
def atypDomain : UInt8 := 0x03
def atypIpv6 : UInt8 := 0x04
def repSuccess : UInt8 := 0x00
def maxDomainLen : Nat := 255
def maxCredentialLen : Nat := 255

def expectedMethod (auth : Option ProxyAuth) : UInt8 := if auth.isSome then methodUsernamePassword else methodNoAuth

/-- `{}` of a byte. -/
def byteText (b : UInt8) : Str := utf8 (toString b.toNat)

def negotiateMethod (auth : Option ProxyAuth) : Socks SocksError UInt8 := do
  writeAll [socks5Version, 1, expectedMethod auth]
  let response ← readExact 2 "SOCKS5 method response"
  let version := response.headD 0
  let selected := response.getLastD 0
  if version ≠ socks5Version then
    throw (.proxyConnect (utf8 "SOCKS5 proxy returned invalid version: " ++ byteText version))
  else if selected = methodNoAcceptable then
    throw (.proxyConnect (utf8 "SOCKS5 proxy rejected all authentication methods"))
  else if selected = expectedMethod auth then return selected
  else
    throw (.proxyConnect (utf8 "SOCKS5 proxy selected method " ++ byteText selected ++ utf8 ", but the client offered " ++
      byteText (expectedMethod auth)))

def authRequest (username password : Str) : Str :=
  subnegVersion :: UInt8.ofNat username.length :: username ++ UInt8.ofNat password.length :: password

def authenticate : ProxyAuth → Socks SocksError Unit
  | .basic username password => do
    if maxCredentialLen < username.length then
      throw (.proxyConnect (utf8 "SOCKS5 username exceeds maximum length of " ++ utf8 (toString maxCredentialLen)))
    else if maxCredentialLen < password.length then
      throw (.proxyConnect (utf8 "SOCKS5 password exceeds maximum length of " ++ utf8 (toString maxCredentialLen)))
    else
      writeAll (authRequest username password)
      let response ← readExact 2 "SOCKS5 auth response"
      let version := response.headD 0
      let status := response.getLastD 0
      if version ≠ subnegVersion then
        throw (.proxyConnect (utf8 "SOCKS5 auth returned invalid subnegotiation version: " ++ byteText version))
      else if status ≠ 0 then
        throw (.proxyConnect (utf8 "SOCKS5 proxy rejected authentication credentials"))
      else return ()

/-- Phases 2 and 3 of `establish_socks_proxy_connection`. -/
def establish (auth : Option ProxyAuth) : Socks SocksError Unit := do
  let selected ← negotiateMethod auth
  if selected = methodUsernamePassword then
    match auth with
    | some auth => authenticate auth
    | none =>
      throw (.proxyConnect
        (utf8 "SOCKS5 proxy selected username/password but no credentials were configured"))
  else return ()

/-- A failed attempt at one destination address. -/
inductive TargetAttemptError where
  | retryable (error : SocksError)
  | terminal (error : SocksError)

def TargetAttemptError.intoError : TargetAttemptError → SocksError
  | retryable error => error
  | terminal error => error

def replyMessage (code : UInt8) : Option (Bool × String) :=
  if code = 0x01 then some (false, "general SOCKS server failure")
  else if code = 0x02 then some (false, "connection not allowed by ruleset")
  else if code = 0x03 then some (true, "network unreachable")
  else if code = 0x04 then some (true, "host unreachable")
  else if code = 0x05 then some (true, "connection refused")
  else if code = 0x06 then some (false, "TTL expired")
  else if code = 0x07 then some (false, "command not supported")
  else if code = 0x08 then some (false, "address type not supported")
  else none

def replyError (code : UInt8) : TargetAttemptError :=
  match replyMessage code with
  | none => .terminal (.proxyConnect (utf8 "SOCKS5 CONNECT failed with unknown reply code: " ++ byteText code))
  | some (true, message) => .retryable (.proxyConnect (utf8 "SOCKS5 CONNECT failed: " ++ utf8 message))
  | some (false, message) => .terminal (.proxyConnect (utf8 "SOCKS5 CONNECT failed: " ++ utf8 message))

/-- A read of the reply, whose failure is not the destination's. -/
def readReply (n : Nat) (phase : String) : Socks TargetAttemptError Str := (readExact n phase).adaptExcept .terminal

def readBoundAddress (atyp : UInt8) : Socks TargetAttemptError Unit := do
  if atyp = atypIpv4 then
    let _ ← readReply (4 + 2) "SOCKS5 bound IPv4 address"
  else if atyp = atypIpv6 then
    let _ ← readReply (16 + 2) "SOCKS5 bound IPv6 address"
  else if atyp = atypDomain then
    let domainLen ← readReply 1 "SOCKS5 bound domain length"
    let _ ← readReply ((domainLen.headD 0).toNat + 2) "SOCKS5 bound domain address"
  else throw (.terminal (.malformedProxyResponse (utf8 "SOCKS5 reply has unknown address type: " ++ byteText atyp)))

def parseConnectReplyForTarget : Socks TargetAttemptError Unit := do
  let header ← readReply 4 "SOCKS5 CONNECT reply"
  let version := header.headD 0
  let code := header.getD 1 0
  if version ≠ socks5Version then
    throw (.terminal (.proxyConnect (utf8 "SOCKS5 reply has invalid version: " ++ byteText version)))
  else if code ≠ repSuccess then throw (replyError code)
  else readBoundAddress (header.getD 3 0)

def parseConnectReply : Socks SocksError Unit := parseConnectReplyForTarget.adaptExcept TargetAttemptError.intoError

def command : Str := [socks5Version, cmdConnect, 0]

def addressBytes : IpAddr → Str
  | .v4 ip => atypIpv4 :: toBeBytes 4 ip.toNat
  | .v6 ip => atypIpv6 :: toBeBytes 16 ip.toNat

/-- A `CONNECT` command for an address. -/
def ipRequest (ip : IpAddr) (port : UInt16) : Str := command ++ addressBytes ip ++ toBeBytes 2 port.toNat

def sendConnectIp (ip : IpAddr) (port : UInt16) : Socks TargetAttemptError Unit := do
  writeAll (ipRequest ip port)
  parseConnectReplyForTarget

/-- What the resolver says of a name. -/
inductive Lookup where
  | found (addresses : List IpAddr)
  | failed (text : Str)
  | timeout

def bracketed (host : Str) : Option (BitVec 128) :=
  if host.head? = some Routing.openBracket ∧ host.getLast? = some Routing.closeBracket then
    parseIpv6Addr (host.tail.dropLast)
  else none

/-- `lookup_host` of `{host}:0`, which asks the resolver unless the text is a socket address. -/
def lookupHost (resolver : Str → Lookup) (host : Str) : Lookup :=
  match bracketed host with
  | some ip => .found [.v6 ip]
  | none => resolver host

def resolveDestIps (resolver : Str → Lookup) (host : Str) : Except SocksError (List IpAddr) :=
  match parseIpv4Addr host, parseIpv6Addr host with
  | some ip, _ => .ok [.v4 ip]
  | none, some ip => .ok [.v6 ip]
  | none, none =>
    match lookupHost resolver host with
    | .timeout => .error .timeout
    | .failed text =>
      .error (.connect (utf8 "DNS resolution failed for SOCKS destination " ++ host ++ utf8 ": " ++ text))
    | .found [] => .error (.connect (utf8 "DNS resolution failed for SOCKS destination " ++ host))
    | .found (ip :: more) => .ok (ip :: more)

def resolveDestIp (resolver : Str → Lookup) (host : Str) : Except SocksError IpAddr :=
  match resolveDestIps resolver host with
  | .error e => .error e
  | .ok [] => .error (.connect (utf8 "DNS resolution failed for SOCKS destination " ++ host))
  | .ok (ip :: _) => .ok ip

/-- `str::parse::<IpAddr>` -/
def parseIpAddr (host : Str) : Option IpAddr := ((parseIpv4Addr host).map .v4).or ((parseIpv6Addr host).map .v6)

def domainRequest (host : Str) (port : UInt16) : Str :=
  command ++ atypDomain :: UInt8.ofNat host.length :: host ++ toBeBytes 2 port.toNat

/-- The command of `send_connect`. -/
def connectRequest (resolver : Str → Lookup) (remoteDns : Bool) (host : Str) (port : UInt16) : Except SocksError Str :=
  match parseIpAddr host with
  | some ip => .ok (ipRequest ip port)
  | none =>
    if remoteDns then
      if maxDomainLen < host.length then
        .error (.proxyConnect (utf8 "SOCKS5 destination domain exceeds maximum length of " ++ utf8 (toString maxDomainLen)))
      else .ok (domainRequest host port)
    else (resolveDestIp resolver host).map (ipRequest · port)

def sendConnect (resolver : Str → Lookup) (remoteDns : Bool) (host : Str) (port : UInt16) : Socks SocksError Unit :=
  match connectRequest resolver remoteDns host port with
  | .error e => throw e
  | .ok request => do
    writeAll request
    parseConnectReply

/-- A tunnel to one destination, over a connection that is there. -/
def tunnel (resolver : Str → Lookup) (auth : Option ProxyAuth) (remoteDns : Bool) (host : Str) (port : UInt16) :
    Socks SocksError Unit := do
  establish auth
  sendConnect resolver remoteDns host port

end Eggfetch.Proxy
