import Eggfetch.Http.Url
import Eggfetch.Proxy.Response

/-! The `NO_PROXY` rules of `proxy/no_proxy.rs`: both parsers, and how a rule is matched with
the scheme, the host and the explicit port of a request. -/
namespace Eggfetch.Routing
open Text Http

inductive IpAddr where
  | v4 (bits : BitVec 32)
  | v6 (bits : BitVec 128)
  deriving DecidableEq

/-- The parsers and printers that routing rests on. -/
structure Library where
  parseUrl : Str → Except Str Url
  asStr : Url → Str
  parseIpv4 : Str → Option (BitVec 32)
  parseIpv6 : Str → Option (BitVec 128)
  ipv4ToString : BitVec 32 → Str
  ipv6ToString : BitVec 128 → Str
  /-- `percent_decode_str(..).decode_utf8_lossy()` -/
  percentDecode : Str → Str

def Library.parseIp (lib : Library) (s : Str) : Option IpAddr :=
  ((lib.parseIpv4 s).map .v4).or ((lib.parseIpv6 s).map .v6)

inductive Error where
  | invalidProxyUrl (message : Str)
  | invalidUrl (message : Str)
  | unsupported (message : Str)
  | tls (message : Str)
  | requestBuild (message : Str)
  | conflictingAuth (message : Str)
  | connect (message : Str)
  deriving DecidableEq, Repr

inductive NoProxyRule where
  | wildcard
  | host (host : Str)
  | hostExact (host : Str)
  | domainSuffix (suffix : Str)
  | hostPort (host : Str) (port : Nat)
  | hostPortExact (host : Str) (port : Nat)
  | hostPortHttpx (host : Str) (port : Nat)
  | ipNetwork (network : IpAddr) (width : Nat)
  | localhost
  | localhostExact
  | schemeHostPort (scheme host : Str) (port : Option Nat)
  deriving DecidableEq

def openBracket : UInt8 := 0x5b
def closeBracket : UInt8 := 0x5d
def dot : UInt8 := 0x2e

def defaultPortForScheme (scheme : Str) : Nat := if scheme = utf8 "https" then 443 else 80

/-- `trim_start_matches('[').trim_end_matches(']')` -/
def trimBrackets (host : Str) : Str := (host.dropWhile (· == openBracket)).rdropWhile (· == closeBracket)

/-- `host` is `.` and `suffix` after something. -/
def endsAtLabel (host suffix : Str) : Bool :=
  suffix.length < host.length && host[host.length - suffix.length - 1]? == some dot && suffix.isSuffixOf host

def matchesDomainSuffix (host suffix : Str) : Bool :=
  endsAtLabel (toAsciiLowercase host) (toAsciiLowercase (suffix.dropWhile (· == dot)))

def matchesHostRule (host rule : Str) : Bool :=
  let hostLower := toAsciiLowercase (trimBrackets host)
  let ruleLower := toAsciiLowercase (trimBrackets (rule.dropWhile (· == dot)))
  hostLower == ruleLower || endsAtLabel hostLower ruleLower

def matchesExactHost (host rule : Str) : Bool := eqIgnoreAsciiCase (trimBrackets host) (trimBrackets rule)

def ipInNetwork (candidate network : IpAddr) (width : Nat) : Bool :=
  match candidate, network with
  | .v4 candidate, .v4 network =>
    let mask := if width = 0 then 0 else BitVec.allOnes 32 <<< (32 - width)
    candidate &&& mask == network &&& mask
  | .v6 candidate, .v6 network =>
    let mask := if width = 0 then 0 else BitVec.allOnes 128 <<< (128 - width)
    candidate &&& mask == network &&& mask
  | _, _ => false

def stripBrackets (host : Str) : Str :=
  if host.head? = some openBracket ∧ host.getLast? = some closeBracket ∧ 2 ≤ host.length then host.tail.dropLast else host

def portMatches (scheme : Str) (port : Option Nat) (rulePort : Nat) : Bool :=
  match port with
  | some port => port == rulePort
  | none => defaultPortForScheme scheme == rulePort

section
variable (lib : Library)

def isLoopback (host : Str) : Bool :=
  lib.parseIp (stripBrackets host) == some (.v4 0x7f000001) || lib.parseIp (stripBrackets host) == some (.v6 1)

def NoProxyRule.isMatch (scheme host : Str) (port : Option Nat) : NoProxyRule → Bool
  | wildcard => true
  | localhost => eqIgnoreAsciiCase host (utf8 "localhost") || isLoopback lib host
  | localhostExact => eqIgnoreAsciiCase host (utf8 "localhost")
  | .host h => matchesHostRule host h
  | hostExact h => matchesExactHost host h
  | domainSuffix suffix => matchesDomainSuffix host suffix
  | hostPort h p =>
    portMatches scheme port p && if h.head? = some dot then matchesDomainSuffix host h else matchesHostRule host h
  | hostPortExact h p => portMatches scheme port p && matchesExactHost host h
  | hostPortHttpx h p => port == some p && matchesHostRule host h
  | ipNetwork network width => (lib.parseIp (trimBrackets host)).any (ipInNetwork · network width)
  | schemeHostPort ruleScheme ruleHost rulePort =>
    eqIgnoreAsciiCase scheme ruleScheme && eqIgnoreAsciiCase host ruleHost &&
      rulePort.all fun rulePort => port == some rulePort || (port.isNone && defaultPortForScheme scheme == rulePort)

def shouldBypassComponents (rules : List NoProxyRule) (scheme host : Str) (port : Option Nat) : Bool :=
  rules.any (·.isMatch lib scheme host port)

def shouldBypass (rules : List NoProxyRule) (url : Url) : Bool :=
  shouldBypassComponents lib rules url.scheme (url.host.getD []) url.port

def splitOnce? (byte : UInt8) (s : Str) : Option (Str × Str) :=
  (s.idxOf? byte).map fun i => (s.take i, s.drop (i + 1))

def containsStr (needle : Str) : Str → Bool
  | [] => needle.isEmpty
  | b :: rest => needle.isPrefixOf (b :: rest) || containsStr needle rest

def invalidIpv6Entry (entry : Str) : Error :=
  .invalidProxyUrl (utf8 "invalid IPv6 NO_PROXY entry: " ++ Proxy.takeChars 256 entry ++
    if 256 < Utf8.leads entry then utf8 "..." else [])

def invalidEntry (reason : String) (entry : Str) : Error := .invalidProxyUrl (utf8 reason ++ entry)

def colonCount (entry : Str) : Nat := entry.count Proxy.colon

def parseHttpxIpEntry (entry : Str) : Except Error (Option NoProxyRule) :=
  let address := (splitOnce? 0x2f entry).map Prod.fst
  if (address.bind lib.parseIpv4).isSome then .ok (address.map fun address => .hostExact (toAsciiLowercase address))
  else if (address.bind lib.parseIpv6).isSome then .error (invalidIpv6Entry entry)
  else if entry.head? = some openBracket then .error (invalidIpv6Entry entry)
  else
    match lib.parseIpv4 entry with
    | some address => .ok (some (.hostExact (lib.ipv4ToString address)))
    | none =>
      match lib.parseIpv6 entry with
      | some address => .ok (some (.host (lib.ipv6ToString address)))
      | none => if 1 < colonCount entry then .error (invalidIpv6Entry entry) else .ok none

def parsePattern (entry : Str) : Except Error NoProxyRule :=
  match lib.parseUrl entry with
  | .error _ => .error (invalidEntry "invalid URL in NO_PROXY entry: " entry)
  | .ok pattern =>
    match pattern.host with
    | none => .error (invalidEntry "NO_PROXY URL has no host: " entry)
    | some host => .ok (.schemeHostPort (toAsciiLowercase pattern.scheme) (toAsciiLowercase host) pattern.port)

def parseNetwork (entry network width : Str) : Except Error NoProxyRule :=
  match lib.parseIp network with
  | none => .error (invalidEntry "invalid IP network in NO_PROXY entry: " entry)
  | some network =>
    match parseUnsigned 255 width with
    | none => .error (invalidEntry "invalid CIDR prefix in NO_PROXY entry: " entry)
    | some width =>
      let maxWidth := match network with
        | .v4 _ => 32
        | .v6 _ => 128
      if maxWidth < width then .error (invalidEntry "CIDR prefix exceeds address width in NO_PROXY entry: " entry)
      else .ok (.ipNetwork network width)

def parsePort (entry port : Str) (rule : Nat → NoProxyRule) : Except Error NoProxyRule :=
  match parseUnsigned 65535 port with
  | none => .error (invalidEntry "invalid port in NO_PROXY entry: " entry)
  | some port => .ok (rule port)

/-- An address in brackets, with or without a port; `none` for any other entry. -/
def parseBracketed (entry : Str) (exactLocalhost : Bool) : Option (Except Error NoProxyRule) :=
  match entry with
  | [] => none
  | b :: rest =>
    if b = openBracket then
      match rest.idxOf? closeBracket with
      | none => none
      | some close =>
        let ipv6 := rest.take close
        match rest.drop (close + 1) with
        | [] => some (.ok (if exactLocalhost then .hostExact (toAsciiLowercase ipv6) else .host entry))
        | c :: port =>
          if c = Proxy.colon then
            let host := openBracket :: ipv6 ++ [closeBracket]
            some (parsePort entry port (if exactLocalhost then .hostPortExact host else .hostPort host))
          else none
    else none

def parseHost (entry : Str) (exactLocalhost : Bool) : Except Error NoProxyRule :=
  match rfind Proxy.colon entry with
  | some colonPos =>
    let host := entry.take colonPos
    if host.isEmpty || 1 < colonCount entry then .error (invalidEntry "invalid NO_PROXY host/port entry: " entry)
    else parsePort entry (entry.drop (colonPos + 1)) (if exactLocalhost then .hostPortHttpx host else .hostPort host)
  | none =>
    if entry.head? = some dot then
      if entry.tail.isEmpty then .error (.invalidProxyUrl (utf8 "NO_PROXY entry cannot be just a dot"))
      else .ok (.domainSuffix entry)
    else .ok (.host entry)

/-- What both parsers do with an entry that is neither `*` nor `localhost` nor a pattern. -/
def parsePlainEntry (entry : Str) (exactLocalhost : Bool) : Except Error NoProxyRule :=
  match lib.parseIpv6 entry with
  | some address => .ok (.host (lib.ipv6ToString address))
  | none =>
    match splitOnce? 0x2f entry with
    | some (network, width) => parseNetwork lib entry network width
    | none => (parseBracketed entry exactLocalhost).getD (parseHost entry exactLocalhost)

def parseEntry (entry : Str) (exactLocalhost : Bool) : Except Error NoProxyRule :=
  if entry = utf8 "*" then .ok .wildcard
  else if eqIgnoreAsciiCase entry (utf8 "localhost") then .ok (if exactLocalhost then .localhostExact else .localhost)
  else if exactLocalhost then
    if containsStr (utf8 "://") entry then parsePattern lib entry
    else
      match parseHttpxIpEntry lib entry with
      | .error e => .error e
      | .ok (some rule) => .ok rule
      | .ok none => parsePlainEntry lib entry true
  else parsePlainEntry lib entry false

/-- `NoProxy::parse`, and `NoProxy::parse_httpx` with `exactLocalhost`. -/
def parseRules (s : Str) (exactLocalhost : Bool) : Except Error (List NoProxyRule) :=
  (((s.splitOn 0x2c).map trim).filter (!·.isEmpty)).mapM (parseEntry lib · exactLocalhost)

end
end Eggfetch.Routing
