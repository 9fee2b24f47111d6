import Eggfetch.Routing.Identity
import Eggfetch.Text.Base64

/-! The caches of Hyper clients by route, over the runs of one client. -/
namespace Eggfetch.Routing
open Text Http Transition

inductive HttpVersionPolicy where
  | http1Only
  | http2Only
  | http3Only
  | auto (allowHttp3 : Bool)
  deriving DecidableEq, Repr

structure ResolvedRouteKey where
  origin : Str
  addresses : List SocketAddr
  sniHostname : Option Str
  deriving DecidableEq

structure SocksRouteKey where
  scheme : Str
  host : Str
  port : Nat
  auth : Option (Str × Str)
  proxyAddresses : Option (List SocketAddr)
  targetAddresses : Option (List SocketAddr)
  deriving DecidableEq

structure ForwardRouteKey where
  identity : Str
  origin : Str
  connectTimeout : Option Nat
  proxyTlsTimeout : Option Nat
  deriving DecidableEq

structure ConnectRouteKey where
  proxyIdentity : Str
  origin : Str
  target : Option SocketAddr
  originTlsIdentity : Nat
  sniHostname : Option Str
  httpVersionPolicy : HttpVersionPolicy
  connectTimeout : Option Nat
  proxyTlsTimeout : Option Nat
  deriving DecidableEq

def ResolvedRouteKey.fromOrigin (origin : HttpOrigin) (target : ResolvedTarget) (sniHostname : Option Str) :
    ResolvedRouteKey where
  origin := origin.originString
  addresses := target.addresses
  sniHostname := sniHostname

def ProxyAuth.pair : Proxy.ProxyAuth → Str × Str
  | .basic username password => (username, password)

def SocksRouteKey.fromProxy (proxy : ProxyConfig) (target : Option ResolvedTarget) : Except Error SocksRouteKey :=
  match proxy.uri.host with
  | none => .error (.connect (utf8 "SOCKS proxy URI has no host"))
  | some host => proxy.port.map fun port =>
    { scheme := proxy.uri.scheme
      host
      port
      auth := proxy.auth.map ProxyAuth.pair
      proxyAddresses := proxy.resolvedAddresses.map ResolvedTarget.addresses
      targetAddresses := target.map ResolvedTarget.addresses }

section
variable (lib : Proxy.Library) (hasher : UInt8 → Str → Nat) (bigEndian : Bool)

/-- `origin_origin`; a URL without a host or a port is its own origin. -/
def originOrigin (url : Url) : Str :=
  match url.host, url.portOrKnownDefault with
  | some host, some port => url.scheme ++ utf8 "://" ++ host ++ Proxy.colon :: decimal port
  | _, _ => lib.asStr url

def ForwardRouteKey.new (proxy : ProxyConfig) (origin : Url) (connectTimeout proxyTlsTimeout : Option Nat) : ForwardRouteKey where
  identity := connectionIdentity lib hasher bigEndian proxy
  origin := originOrigin lib origin
  connectTimeout := connectTimeout
  proxyTlsTimeout := proxyTlsTimeout

def ConnectRouteKey.new (proxy : ProxyConfig) (origin : Url) (target : Option SocketAddr) (originTlsConfig : Option TlsConfig)
    (sniHostname : Option Str) (httpVersionPolicy : HttpVersionPolicy) (connectTimeout proxyTlsTimeout : Option Nat) :
    ConnectRouteKey where
  proxyIdentity := connectionIdentity lib hasher bigEndian proxy
  origin := originOrigin lib origin
  target := target
  originTlsIdentity := policyToken originTlsConfig
  sniHostname := sniHostname
  httpVersionPolicy := httpVersionPolicy
  connectTimeout := connectTimeout
  proxyTlsTimeout := proxyTlsTimeout

end

inductive RouteKey where
  | resolved (key : ResolvedRouteKey)
  | socks (key : SocksRouteKey)
  | forward (key : ForwardRouteKey)
  | connect (key : ConnectRouteKey)
  deriving DecidableEq

inductive RouteCache where
  | resolvedClients
  | socksClients
  | forwardClients
  | connectClients
  deriving DecidableEq

def RouteKey.cache : RouteKey → RouteCache
  | resolved _ => .resolvedClients
  | socks _ => .socksClients
  | forward _ => .forwardClients
  | connect _ => .connectClients

def RouteCache.maxEntries : RouteCache → Nat
  | resolvedClients => 64
  | socksClients => 64
  | forwardClients => 64
  | connectClients => 64

/-- A request that asks a route cache for its client. -/
inductive RouteDispatch where
  | resolved (origin : HttpOrigin) (target : ResolvedTarget) (sniHostname : Option Str)
  | socks (proxy : ProxyConfig) (target : Option ResolvedTarget)
  | forward (proxy : ProxyConfig) (origin : Url) (connectTimeout : Option Nat)
  | connect (proxy : ProxyConfig) (origin : Url) (sniHostname : Option Str) (target : Option SocketAddr)
      (connectTimeout : Option Nat)

namespace RouteDispatch

def proxy : RouteDispatch → Option ProxyConfig
  | resolved .. => none
  | socks proxy _ => some proxy
  | forward proxy _ _ => some proxy
  | connect proxy _ _ _ _ => some proxy

def keyedPeers : RouteDispatch → List SocketAddr
  | forward proxy _ _ => proxy.peers
  | connect proxy _ _ _ _ => proxy.peers
  | _ => []

def originUrl : RouteDispatch → Option Url
  | forward _ origin _ => some origin
  | connect _ origin _ _ _ => some origin
  | _ => none

section
variable (lib : Proxy.Library) (hasher : UInt8 → Str → Nat) (bigEndian : Bool) (tlsConfig : Option TlsConfig)
  (httpVersionPolicy : HttpVersionPolicy)

def key : RouteDispatch → Except Error RouteKey
  | resolved origin target sniHostname => .ok (.resolved (.fromOrigin origin target sniHostname))
  | socks proxy target => (SocksRouteKey.fromProxy proxy target).map .socks
  | forward proxy origin connectTimeout => .ok (.forward (.new lib hasher bigEndian proxy origin connectTimeout connectTimeout))
  | connect proxy origin sniHostname target connectTimeout =>
    .ok (.connect (.new lib hasher bigEndian proxy origin target tlsConfig sniHostname httpVersionPolicy connectTimeout
      connectTimeout))

/-- Which proxies and URLs `send_proxy_route` takes to which cache. -/
def routed : RouteDispatch → Prop
  | resolved .. => True
  | socks proxy _ => proxy.isSocks = true
  | forward proxy origin _ => proxy.isSocks = false ∧ origin.scheme = utf8 "http"
  | connect proxy origin _ _ _ => proxy.isSocks = false ∧ origin.scheme = utf8 "https"

instance : DecidablePred routed
  | resolved .. => inferInstanceAs (Decidable True)
  | socks .. => inferInstanceAs (Decidable (_ = _))
  | forward .. => inferInstanceAs (Decidable (_ ∧ _))
  | connect .. => inferInstanceAs (Decidable (_ ∧ _))

end
end RouteDispatch

/-- What `SocksConnector` reads of its proxy: it sends no headers, and no TLS to the proxy. -/
structure SocksEndpoint where
  scheme : Str
  host : Option Str
  port : Except Error Nat
  credential : Option (Str × Str)
  peers : Option ResolvedTarget

/-- What the connectors of an HTTP proxy, and the requests on them, take from its configuration. -/
structure ProxyEndpoint where
  uri : Url
  credential : Option Str
  proxyHeaders : List Proxy.Field
  tlsPolicy : Option TlsConfig
  peers : Option ResolvedTarget

/-- The inputs that affect the connections of a cached client. The destination of a SOCKS client
comes with each connection, as its Hyper pool keeps origins apart. -/
inductive ConnectionInputs where
  | resolved (scheme : HttpScheme) (host : Str) (port : Nat) (destinations : List SocketAddr) (sniHostname : Option Str)
  | socks (endpoint : SocksEndpoint) (destinations : Option (List SocketAddr))
  | forward (endpoint : ProxyEndpoint) (scheme : Str) (host : Option Str) (port : Option Nat)
      (connectTimeout proxyTlsTimeout : Option Nat)
  | connect (endpoint : ProxyEndpoint) (scheme : Str) (host : Option Str) (port : Option Nat) (destination : Option SocketAddr)
    (originTls : Option TlsConfig) (sniHostname : Option Str) (httpVersionPolicy : HttpVersionPolicy)
    (connectTimeout proxyTlsTimeout : Option Nat)

def ProxyConfig.endpoint (lib : Proxy.Library) (config : ProxyConfig) : ProxyEndpoint where
  uri := config.uri
  credential := config.credential lib
  proxyHeaders := config.proxyHeaders.iter
  tlsPolicy := config.proxyTlsConfig
  peers := config.resolvedAddresses

def ProxyConfig.socksEndpoint (config : ProxyConfig) : SocksEndpoint where
  scheme := config.uri.scheme
  host := config.uri.host
  port := config.port
  credential := config.auth.map ProxyAuth.pair
  peers := config.resolvedAddresses

def RouteDispatch.inputs (lib : Proxy.Library) (tlsConfig : Option TlsConfig) (httpVersionPolicy : HttpVersionPolicy) :
    RouteDispatch → ConnectionInputs
  | resolved origin target sniHostname => .resolved origin.scheme origin.host origin.port target.addresses sniHostname
  | socks proxy target => .socks proxy.socksEndpoint (target.map ResolvedTarget.addresses)
  | forward proxy origin connectTimeout =>
    .forward (proxy.endpoint lib) origin.scheme origin.host origin.portOrKnownDefault connectTimeout connectTimeout
  | connect proxy origin sniHostname target connectTimeout =>
    .connect (proxy.endpoint lib) origin.scheme origin.host origin.portOrKnownDefault target tlsConfig sniHostname
    httpVersionPolicy
      connectTimeout connectTimeout

/-- The TLS policies of the process, the caches of a client, and which client each dispatch
was given, the last one first. -/
structure RouteClients where
  mint : Mint := {}
  clients : RouteCache → List (RouteKey × Nat) := fun _ => []
  nextClient : Nat := 0
  log : List (RouteDispatch × Nat) := []

inductive RouteAction where
  | mint (action : MintAction)
  /-- Whether a missing client can be built, and which entry is evicted for it. -/
  | dispatch (dispatch : RouteDispatch) (built : Bool) (victim : Nat)

/-- `BoundedClientCache::insert` -/
def insertClient (maxEntries victim : Nat) (entries : List (RouteKey × Nat)) (key : RouteKey) (client : Nat) :
    List (RouteKey × Nat) :=
  let kept :=
    if maxEntries ≤ entries.length ∧ entries.lookup key = none then entries.eraseIdx (victim % entries.length) else entries
  (key, client) :: kept.filter (·.1 ≠ key)

namespace RouteClients
section
variable (lib : Proxy.Library) (hasher : UInt8 → Str → Nat) (bigEndian : Bool) (tlsConfig : Option TlsConfig)
  (httpVersionPolicy : HttpVersionPolicy)

def Made (s : RouteClients) (d : RouteDispatch) : Prop :=
  (∀ config ∈ tlsConfig, config ∈ s.mint.configs) ∧ ∀ config ∈ d.proxy.bind ProxyConfig.proxyTlsConfig, config ∈ s.mint.configs

instance (s : RouteClients) (d : RouteDispatch) : Decidable (s.Made tlsConfig d) := inferInstanceAs (Decidable (_ ∧ _))

def obtain (s : RouteClients) (d : RouteDispatch) (built : Bool) (victim : Nat) (key : RouteKey) : RouteClients :=
  match (s.clients key.cache).lookup key with
  | some client => { s with log := (d, client) :: s.log }
  | none =>
    if built then
      { s with
        clients := Function.update s.clients key.cache
          (insertClient key.cache.maxEntries victim (s.clients key.cache) key s.nextClient)
        nextClient := s.nextClient + 1
        log := (d, s.nextClient) :: s.log }
    else s

def step (s : RouteClients) : RouteAction → Option RouteClients
  | .mint action => (s.mint.step action).map fun mint => { s with mint }
  | .dispatch d built victim =>
    if d.routed ∧ s.Made tlsConfig d then
      match d.key lib hasher bigEndian tlsConfig httpVersionPolicy with
      | .error _ => some s
      | .ok key => some (s.obtain d built victim key)
    else none

end
end RouteClients

namespace Mint

/-- As long as the counter has not come around, each policy has a token of its own. -/
structure Distinct (m : Mint) : Prop where
  next : m.next = m.configs.length + 1
  positive : ∀ config ∈ m.configs, 0 < config.policyToken
  below : ∀ config ∈ m.configs, config.policyToken < m.next
  unique : ∀ config ∈ m.configs, ∀ config' ∈ m.configs, config.policyToken = config'.policyToken → config = config'

theorem step_cases {m m' : Mint} {action : MintAction} (h : m.step action = some m') : ∃ builder, m' = m.add builder := by
  cases action with
  | build builder => exact ⟨builder, (Option.some.inj h).symm⟩
  | dangerAcceptInvalidCerts config accept =>
    rw [step] at h
    split at h
    · exact ⟨_, (Option.some.inj h).symm⟩
    · cases h

theorem Distinct.add {m : Mint} (h : m.Distinct) (builder : TlsConfigBuilder) (hfew : (m.add builder).configs.length < 2 ^ 32) :
    (m.add builder).Distinct := by
  have hlength : (m.add builder).configs.length = m.configs.length + 1 := List.length_cons
  have hnext := h.next
  have hminted : m.mintTlsPolicyToken = (m.next, m.next + 1) := by
    have hfits : (m.next + 1) % tokenMax = m.next + 1 := Nat.mod_eq_of_lt (by rw [tokenMax]; omega)
    rw [mintTlsPolicyToken, if_neg (by omega), hfits]
  have hadded : m.add builder = ⟨m.next + 1, ⟨builder, m.next⟩ :: m.configs⟩ := by rw [Mint.add, hminted]
  rw [hadded]
  constructor
  · rw [hnext]
    rfl
  · refine List.forall_mem_cons.mpr ⟨?_, h.positive⟩
    show 0 < m.next
    omega
  · refine List.forall_mem_cons.mpr ⟨Nat.lt_succ_self _, fun config hconfig => Nat.lt_succ_of_lt (h.below config hconfig)⟩
  · intro config hconfig config' hconfig' htoken
    rcases List.mem_cons.mp hconfig with rfl | hconfig
    · rcases List.mem_cons.mp hconfig' with rfl | hconfig'
      · rfl
      · exact absurd htoken (Nat.ne_of_gt (h.below config' hconfig'))
    · rcases List.mem_cons.mp hconfig' with rfl | hconfig'
      · exact absurd htoken (Nat.ne_of_lt (h.below config hconfig))
      · exact h.unique config hconfig config' hconfig' htoken

private theorem Distinct.policyToken_inj {m : Mint} (h : m.Distinct) {a b : Option TlsConfig}
    (ha : ∀ config ∈ a, config ∈ m.configs)
    (hb : ∀ config ∈ b, config ∈ m.configs) : policyToken a = policyToken b ↔ a = b := by
  refine ⟨fun htoken => ?_, fun heq => by rw [heq]⟩
  cases a with
  | none =>
    cases b with
    | none => rfl
    | some config' => exact absurd htoken (Nat.ne_of_lt (h.positive config' (hb config' rfl)))
  | some config =>
    cases b with
    | none => exact absurd htoken (Nat.ne_of_gt (h.positive config (ha config rfl)))
    | some config' => exact congrArg some (h.unique config (ha config rfl) config' (hb config' rfl) htoken)

theorem Distinct.policyToken_lt {m : Mint} (h : m.Distinct) (hfew : m.configs.length < 2 ^ 32) {a : Option TlsConfig}
    (ha : ∀ config ∈ a, config ∈ m.configs) : policyToken a < 2 ^ 32 := by
  cases a with
  | none => exact Nat.two_pow_pos 32
  | some config =>
    have hbelow := h.below config (ha config rfl)
    rw [h.next] at hbelow
    exact Nat.lt_of_lt_of_le hbelow hfew

end Mint

section
variable {lib : Proxy.Library} {hasher : UInt8 → Str → Nat} {bigEndian : Bool} {tlsConfig : Option TlsConfig}
  {httpVersionPolicy : HttpVersionPolicy} {s s' : RouteClients} {a : RouteAction}

/-- What holds of the log and the caches in every run. -/
structure RouteClients.Inv (lib : Proxy.Library) (hasher : UInt8 → Str → Nat) (bigEndian : Bool) (tlsConfig : Option TlsConfig)
    (httpVersionPolicy : HttpVersionPolicy) (s : RouteClients) : Prop where
  cached : ∀ cache, ∀ entry ∈ s.clients cache, ∃ d,
    (d, entry.2) ∈ s.log ∧ d.key lib hasher bigEndian tlsConfig httpVersionPolicy = .ok entry.1
  keyed : ∀ e ∈ s.log, e.2 < s.nextClient ∧ e.1.routed ∧ s.Made tlsConfig e.1 ∧
    ∃ key, e.1.key lib hasher bigEndian tlsConfig httpVersionPolicy = .ok key
  same : ∀ e ∈ s.log, ∀ e' ∈ s.log, e.2 = e'.2 →
    e.1.key lib hasher bigEndian tlsConfig httpVersionPolicy = e'.1.key lib hasher bigEndian tlsConfig httpVersionPolicy

private theorem mem_insertClient {maxEntries victim : Nat} {entries : List (RouteKey × Nat)} {key : RouteKey} {client : Nat}
    {entry : RouteKey × Nat} (h : entry ∈ insertClient maxEntries victim entries key client) :
    entry = (key, client) ∨ entry ∈ entries := by
  rw [insertClient] at h
  rcases List.mem_cons.mp h with h | h
  · exact .inl h
  · have hkept := (List.mem_filter.mp h).1
    split at hkept
    · exact .inr (List.mem_of_mem_eraseIdx hkept)
    · exact .inr hkept

private theorem mem_of_lookup {entries : List (RouteKey × Nat)} {key : RouteKey} {client : Nat}
    (h : entries.lookup key = some client) :
    (key, client) ∈ entries := by
  obtain ⟨before, after, rfl, -⟩ := List.lookup_eq_some_iff.mp h
  exact List.mem_append_right _ List.mem_cons_self

private theorem RouteClients.Inv.log (h : s.Inv lib hasher bigEndian tlsConfig httpVersionPolicy) {d : RouteDispatch}
    {key : RouteKey} {client : Nat}
    {clients : RouteCache → List (RouteKey × Nat)} {next : Nat} (hrouted : d.routed) (hmade : s.Made tlsConfig d)
    (hkey : d.key lib hasher bigEndian tlsConfig httpVersionPolicy = .ok key) (hclient : client < next)
    (hnext : s.nextClient ≤ next)
    (hclients : ∀ cache, ∀ entry ∈ clients cache, entry = (key, client) ∨ entry ∈ s.clients cache)
    (hsame : ∀ e ∈ s.log, e.2 = client → e.1.key lib hasher bigEndian tlsConfig httpVersionPolicy = .ok key) :
    RouteClients.Inv lib hasher bigEndian tlsConfig httpVersionPolicy
      { s with clients, nextClient := next, log := (d, client) :: s.log } := by
  constructor
  · intro cache entry hentry
    rcases hclients cache entry hentry with rfl | hentry
    · exact ⟨d, List.mem_cons_self, hkey⟩
    · obtain ⟨d', hmem, hkey'⟩ := h.cached cache entry hentry
      exact ⟨d', List.mem_cons_of_mem _ hmem, hkey'⟩
  · refine List.forall_mem_cons.mpr ⟨⟨hclient, hrouted, hmade, key, hkey⟩, fun e he => ?_⟩
    obtain ⟨hlt, hrest⟩ := h.keyed e he
    exact ⟨Nat.lt_of_lt_of_le hlt hnext, hrest⟩
  · intro e he e' he' hclient'
    rcases List.mem_cons.mp he with rfl | he
    · rcases List.mem_cons.mp he' with rfl | he'
      · rfl
      · exact hkey.trans (hsame e' he' hclient'.symm).symm
    · rcases List.mem_cons.mp he' with rfl | he'
      · exact (hsame e he hclient').trans hkey.symm
      · exact h.same e he e' he' hclient'

theorem RouteClients.Inv.obtain (h : s.Inv lib hasher bigEndian tlsConfig httpVersionPolicy) {d : RouteDispatch} {key : RouteKey}
    (hrouted : d.routed) (hmade : s.Made tlsConfig d) (hkey : d.key lib hasher bigEndian tlsConfig httpVersionPolicy = .ok key)
    (built : Bool) (victim : Nat) : (s.obtain d built victim key).Inv lib hasher bigEndian tlsConfig httpVersionPolicy := by
  rw [RouteClients.obtain]
  cases hlookup : (s.clients key.cache).lookup key with
  | some client =>
    obtain ⟨d', hmem, hkey'⟩ := h.cached _ _ (mem_of_lookup hlookup)
    refine h.log hrouted hmade hkey (h.keyed _ hmem).1 (Nat.le_refl _) (fun _ _ hentry => .inr hentry) fun e he hclient => ?_
    exact (h.same e he _ hmem hclient).trans hkey'
  | none =>
    cases built with
    | false => exact h
    | true =>
      refine h.log hrouted hmade hkey (Nat.lt_succ_self _) (Nat.le_succ _) (fun cache entry hentry => ?_) fun e he hclient => ?_
      · by_cases hcache : cache = key.cache
        · rw [hcache, Function.update_self] at hentry
          rw [hcache]
          exact mem_insertClient hentry
        · rw [Function.update_of_ne hcache] at hentry
          exact .inr hentry
      · exact absurd hclient (Nat.ne_of_lt (h.keyed e he).1)

theorem RouteClients.Inv.step (h : s.Inv lib hasher bigEndian tlsConfig httpVersionPolicy)
    (hs : s.step lib hasher bigEndian tlsConfig httpVersionPolicy a = some s') :
    s'.Inv lib hasher bigEndian tlsConfig httpVersionPolicy := by
  cases a with
  | mint action =>
    obtain ⟨mint, hmint, rfl⟩ := Option.map_eq_some_iff.mp hs
    obtain ⟨builder, rfl⟩ := Mint.step_cases hmint
    refine ⟨h.cached, fun e he => ?_, h.same⟩
    obtain ⟨hlt, hrouted, hmade, hkey⟩ := h.keyed e he
    exact ⟨hlt, hrouted, ⟨fun config hconfig => List.mem_cons_of_mem _ (hmade.1 config hconfig),
      fun config hconfig => List.mem_cons_of_mem _ (hmade.2 config hconfig)⟩, hkey⟩
  | dispatch d built victim =>
    rw [RouteClients.step] at hs
    split at hs
    · rename_i hready
      cases hkey : d.key lib hasher bigEndian tlsConfig httpVersionPolicy with
      | error e =>
        rw [hkey] at hs
        exact Option.some.inj hs ▸ h
      | ok key =>
        rw [hkey] at hs
        exact Option.some.inj hs ▸ h.obtain hready.1 hready.2 hkey built victim
    · cases hs

theorem inv_reachable (h : Reachable (RouteClients.step lib hasher bigEndian tlsConfig httpVersionPolicy) {} s) :
    s.Inv lib hasher bigEndian tlsConfig httpVersionPolicy := by
  refine h.invariant ?_ fun _ hinv _ hs => hinv.step hs
  exact ⟨fun _ _ hentry => absurd hentry List.not_mem_nil, fun _ he => absurd he List.not_mem_nil, fun _ he =>
    absurd he List.not_mem_nil⟩

private theorem step_mint (hs : s.step lib hasher bigEndian tlsConfig httpVersionPolicy a = some s') :
    s'.mint = s.mint ∨ ∃ builder, s'.mint = s.mint.add builder := by
  cases a with
  | mint action =>
    obtain ⟨mint, hmint, rfl⟩ := Option.map_eq_some_iff.mp hs
    exact .inr (Mint.step_cases hmint)
  | dispatch d built victim =>
    rw [RouteClients.step] at hs
    split at hs
    · split at hs
      · exact .inl (Option.some.inj hs ▸ rfl)
      · rename_i key _
        refine .inl (Option.some.inj hs ▸ ?_)
        rw [RouteClients.obtain]
        cases (s.clients key.cache).lookup key with
        | some client => rfl
        | none =>
          cases built with
          | false => rfl
          | true => rfl
    · cases hs

/-- The policies have tokens of their own as long as they are few. -/
def RouteClients.TokensApart (s : RouteClients) : Prop := s.mint.configs.length < 2 ^ 32 → s.mint.Distinct

private theorem tokensApart_step (h : s.TokensApart) (hs : s.step lib hasher bigEndian tlsConfig httpVersionPolicy a = some s') :
    s'.TokensApart := by
  intro hfew
  rcases step_mint hs with hsame | ⟨builder, hadded⟩
  · rw [hsame] at hfew ⊢
    exact h hfew
  · rw [hadded] at hfew ⊢
    exact (h (Nat.lt_of_succ_lt hfew)).add builder hfew

theorem tokensApart_reachable (h : Reachable (RouteClients.step lib hasher bigEndian tlsConfig httpVersionPolicy) {} s) :
    s.TokensApart := by
  refine h.invariant (fun _ => ?_) fun _ ih _ hs => tokensApart_step ih hs
  exact ⟨rfl, fun _ hc => absurd hc List.not_mem_nil, fun _ hc => absurd hc List.not_mem_nil, fun _ hc =>
    absurd hc List.not_mem_nil⟩

theorem originOrigin_inj {a b : Url} (hscheme : a.scheme = b.scheme) (hport : a.portOrKnownDefault.isSome)
    (hport' : b.portOrKnownDefault.isSome)
    (hhost : a.host.isSome) (hhost' : b.host.isSome) :
    originOrigin lib a = originOrigin lib b ↔ a.host = b.host ∧ a.portOrKnownDefault = b.portOrKnownDefault := by
  obtain ⟨port, hp⟩ := Option.isSome_iff_exists.mp hport
  obtain ⟨port', hp'⟩ := Option.isSome_iff_exists.mp hport'
  obtain ⟨host, hh⟩ := Option.isSome_iff_exists.mp hhost
  obtain ⟨host', hh'⟩ := Option.isSome_iff_exists.mp hhost'
  have hdigits {n : Nat} : Proxy.colon ∉ decimal n := not_mem_of_bytes rfl isHexByte_decimal
  rw [originOrigin, originOrigin, hp, hp', hh, hh', hscheme]
  dsimp only
  rw [append_last_sep_inj hdigits hdigits, List.append_cancel_left_eq, decimal_inj, Option.some_inj, Option.some_inj]

theorem originString_inj {a b : HttpOrigin} : a.originString = b.originString ↔ a = b := by
  have hdigits {n : Nat} : Proxy.colon ∉ decimal n := not_mem_of_bytes rfl isHexByte_decimal
  have hscheme (scheme : HttpScheme) : Proxy.colon ∉ scheme.asStr := by cases scheme <;> decide
  have hschemes {scheme scheme' : HttpScheme} (h : scheme.asStr = scheme'.asStr) : scheme = scheme' := by
    revert h
    cases scheme <;> cases scheme' <;> decide
  have hseparator : utf8 "://" = Proxy.colon :: utf8 "//" := by decide
  refine ⟨fun h => ?_, fun h => h ▸ rfl⟩
  obtain ⟨hfront, hport⟩ := (append_last_sep_inj hdigits hdigits).mp h
  rw [hseparator, List.append_assoc, List.append_assoc] at hfront
  obtain ⟨hs, hrest⟩ := (append_sep_inj (hscheme a.scheme) (hscheme b.scheme)).mp hfront
  cases a
  cases b
  exact HttpOrigin.mk.injEq .. ▸ ⟨hschemes hs, List.append_cancel_left hrest, decimal_inj.mp hport⟩

/-- A dispatch as the URL parser and the checks before it leave it. -/
structure Parsed (lib : Proxy.Library) (d : RouteDispatch) : Prop where
  proxyUri : ∀ proxy ∈ d.proxy, Serialised lib proxy.uri
  host : ∀ url ∈ d.originUrl, url.host.isSome

def RouteDispatch.credential (lib : Proxy.Library) (d : RouteDispatch) : Option Str := d.proxy.bind (·.credential lib)

private theorem peers_of_flowinfos {xs ys : List SocketAddr}
    (h : xs.map SocketAddr.withoutFlowinfo = ys.map SocketAddr.withoutFlowinfo) :
    xs = ys ↔ xs.map SocketAddr.flowinfo = ys.map SocketAddr.flowinfo := by
  induction xs generalizing ys with
  | nil =>
    rw [List.map_eq_nil_iff.mp h.symm]
    exact iff_of_true rfl rfl
  | cons x xs ih =>
    cases ys with
    | nil => cases h
    | cons y ys =>
      obtain ⟨hxy, hrest⟩ := List.cons.inj h
      rw [List.map_cons, List.map_cons, List.cons.injEq, List.cons.injEq, ih hrest, SocketAddr.eq_iff, hxy, and_iff_right rfl]

private theorem endpoint_iff {c c' : ProxyConfig} (h : SameProxy lib c c') (htls : c.proxyTlsConfig = c'.proxyTlsConfig) :
    c.endpoint lib = c'.endpoint lib ↔ c.peers.map SocketAddr.flowinfo = c'.peers.map SocketAddr.flowinfo := by
  rw [ProxyConfig.endpoint, ProxyConfig.endpoint, ProxyEndpoint.mk.injEq, ← peers_eq, peers_of_flowinfos h.peers]
  exact ⟨fun heq => heq.2.2.2.2, fun heq => ⟨h.uri, h.credential, h.headers, htls, heq⟩⟩

theorem port_isSome {url : Url} (h : url.scheme = utf8 "http" ∨ url.scheme = utf8 "https") : url.portOrKnownDefault.isSome := by
  rw [Url.portOrKnownDefault]
  cases url.port with
  | some port => rfl
  | none =>
    rcases h with h | h
    · rw [if_pos (.inl h)]
      rfl
    · have hhttp : ¬ (url.scheme = utf8 "http" ∨ url.scheme = utf8 "ws") := by rw [h]; decide
      rw [if_neg hhttp, if_pos (.inl h)]
      rfl

private theorem fromProxy_spec {proxy : ProxyConfig} {target : Option ResolvedTarget} {key : SocksRouteKey}
    (h : SocksRouteKey.fromProxy proxy target = .ok key) :
    proxy.socksEndpoint.scheme = key.scheme ∧ proxy.socksEndpoint.host = some key.host ∧ proxy.socksEndpoint.port = .ok key.port ∧
      proxy.socksEndpoint.credential = key.auth ∧ proxy.resolvedAddresses.map ResolvedTarget.addresses = key.proxyAddresses ∧
      target.map ResolvedTarget.addresses = key.targetAddresses := by
  rw [SocksRouteKey.fromProxy] at h
  cases hhost : proxy.uri.host with
  | none => rw [hhost] at h; cases h
  | some host =>
    cases hport : proxy.port with
    | error e => rw [hhost, hport] at h; cases h
    | ok port =>
      rw [hhost, hport] at h
      obtain rfl := Except.ok.inj h
      exact ⟨rfl, hhost, hport, rfl, rfl, rfl⟩

theorem addresses_eq {a b : Option ResolvedTarget}
    (h : a.map ResolvedTarget.addresses = b.map ResolvedTarget.addresses) : a = b := by
  have hinjective : Function.Injective ResolvedTarget.addresses := by
    rintro ⟨xs, hxs⟩ ⟨ys, hys⟩ rfl
    rfl
  exact Option.map_injective hinjective h

section
variable {d d' : RouteDispatch} {m : Mint}

theorem key_resolved {key : ResolvedRouteKey} (h : d.key lib hasher bigEndian tlsConfig httpVersionPolicy = .ok (.resolved key)) :
    ∃ origin target sniHostname, d = .resolved origin target sniHostname ∧ key = .fromOrigin origin target sniHostname := by
  cases d with
  | resolved origin target sniHostname => exact ⟨origin, target, sniHostname, rfl, (RouteKey.resolved.inj (Except.ok.inj h)).symm⟩
  | socks proxy target =>
    rw [RouteDispatch.key] at h
    cases hkey : SocksRouteKey.fromProxy proxy target <;> rw [hkey] at h <;> cases h
  | forward proxy origin connectTimeout => cases h
  | connect proxy origin sniHostname target connectTimeout => cases h

theorem key_socks {key : SocksRouteKey} (h : d.key lib hasher bigEndian tlsConfig httpVersionPolicy = .ok (.socks key)) :
    ∃ proxy target, d = .socks proxy target ∧ SocksRouteKey.fromProxy proxy target = .ok key := by
  cases d with
  | resolved origin target sniHostname => cases h
  | socks proxy target =>
    rw [RouteDispatch.key] at h
    cases hkey : SocksRouteKey.fromProxy proxy target with
    | error e => rw [hkey] at h; cases h
    | ok key' =>
      rw [hkey] at h
      exact ⟨proxy, target, rfl, hkey.trans (congrArg _ (RouteKey.socks.inj (Except.ok.inj h)))⟩
  | forward proxy origin connectTimeout => cases h
  | connect proxy origin sniHostname target connectTimeout => cases h

theorem key_forward {key : ForwardRouteKey} (h : d.key lib hasher bigEndian tlsConfig httpVersionPolicy = .ok (.forward key)) :
    ∃ proxy origin connectTimeout, d = .forward proxy origin connectTimeout ∧
      key = .new lib hasher bigEndian proxy origin connectTimeout connectTimeout := by
  cases d with
  | resolved origin target sniHostname => cases h
  | socks proxy target =>
    rw [RouteDispatch.key] at h
    cases hkey : SocksRouteKey.fromProxy proxy target <;> rw [hkey] at h <;> cases h
  | forward proxy origin connectTimeout =>
      exact ⟨proxy, origin, connectTimeout, rfl, (RouteKey.forward.inj (Except.ok.inj h)).symm⟩
  | connect proxy origin sniHostname target connectTimeout => cases h

theorem key_connect {key : ConnectRouteKey} (h : d.key lib hasher bigEndian tlsConfig httpVersionPolicy = .ok (.connect key)) :
    ∃ proxy origin sniHostname target connectTimeout, d = .connect proxy origin sniHostname target connectTimeout ∧
      key = .new lib hasher bigEndian proxy origin target tlsConfig sniHostname httpVersionPolicy connectTimeout
      connectTimeout := by
  cases d with
  | resolved origin target sniHostname => cases h
  | socks proxy target =>
    rw [RouteDispatch.key] at h
    cases hkey : SocksRouteKey.fromProxy proxy target <;> rw [hkey] at h <;> cases h
  | forward proxy origin connectTimeout => cases h
  | connect proxy origin sniHostname target connectTimeout =>
    exact ⟨proxy, origin, sniHostname, target, connectTimeout, rfl, (RouteKey.connect.inj (Except.ok.inj h)).symm⟩

private theorem resolved_inputs {key : ResolvedRouteKey}
    (h : d.key lib hasher bigEndian tlsConfig httpVersionPolicy = .ok (.resolved key))
    (h' : d'.key lib hasher bigEndian tlsConfig httpVersionPolicy = .ok (.resolved key)) :
    d.inputs lib tlsConfig httpVersionPolicy = d'.inputs lib tlsConfig httpVersionPolicy := by
  obtain ⟨origin, target, sniHostname, rfl, rfl⟩ := key_resolved h
  obtain ⟨origin', target', sniHostname', rfl, hkey⟩ := key_resolved h'
  obtain ⟨horigin, haddresses, rfl⟩ := ResolvedRouteKey.mk.inj hkey
  obtain rfl := originString_inj.mp horigin
  rw [RouteDispatch.inputs, RouteDispatch.inputs, haddresses]

private theorem socks_inputs {key : SocksRouteKey} (h : d.key lib hasher bigEndian tlsConfig httpVersionPolicy = .ok (.socks key))
    (h' : d'.key lib hasher bigEndian tlsConfig httpVersionPolicy = .ok (.socks key)) :
    d.inputs lib tlsConfig httpVersionPolicy = d'.inputs lib tlsConfig httpVersionPolicy := by
  obtain ⟨proxy, target, rfl, hkey⟩ := key_socks h
  obtain ⟨proxy', target', rfl, hkey'⟩ := key_socks h'
  obtain ⟨hscheme, hhost, hport, hcredential, hpeers, hdestinations⟩ := fromProxy_spec hkey
  obtain ⟨hscheme', hhost', hport', hcredential', hpeers', hdestinations'⟩ := fromProxy_spec hkey'
  have hendpoint : proxy.socksEndpoint = proxy'.socksEndpoint := by
    have hpeers : proxy.resolvedAddresses = proxy'.resolvedAddresses := addresses_eq (hpeers.trans hpeers'.symm)
    exact SocksEndpoint.mk.injEq .. ▸ ⟨hscheme.trans hscheme'.symm, hhost.trans hhost'.symm, hport.trans hport'.symm,
      hcredential.trans hcredential'.symm, hpeers⟩
  rw [RouteDispatch.inputs, RouteDispatch.inputs, hendpoint, hdestinations, hdestinations']

variable (hparsed : Parsed lib d) (hparsed' : Parsed lib d') (hhashes : HashesApart hasher (d.credential lib) (d'.credential lib))
  (hdistinct : m.Distinct) (hfew : m.configs.length < 2 ^ 32)
  (hmade : ∀ config ∈ d.proxy.bind ProxyConfig.proxyTlsConfig, config ∈ m.configs)
  (hmade' : ∀ config ∈ d'.proxy.bind ProxyConfig.proxyTlsConfig, config ∈ m.configs)
include hparsed hparsed' hhashes hdistinct hfew hmade hmade'

private theorem endpoint_of_identity {c c' : ProxyConfig} (hc : d.proxy = some c) (hc' : d'.proxy = some c')
    (h : connectionIdentity lib hasher bigEndian c = connectionIdentity lib hasher bigEndian c') :
    c.endpoint lib = c'.endpoint lib ↔ c.peers.map SocketAddr.flowinfo = c'.peers.map SocketAddr.flowinfo := by
  rw [RouteDispatch.credential, RouteDispatch.credential, hc, hc'] at hhashes
  rw [hc] at hmade
  rw [hc'] at hmade'
  have hsame := (connectionIdentity_iff (hparsed.proxyUri c hc) (hparsed'.proxyUri c' hc') hhashes
    (hdistinct.policyToken_lt hfew hmade) (hdistinct.policyToken_lt hfew hmade')).mp h
  exact endpoint_iff hsame ((hdistinct.policyToken_inj hmade hmade').mp hsame.token)

/-- Two dispatches with one key have the same inputs up to the flow information of the peers that
the key has as text. -/
theorem inputs_iff {key : RouteKey} (hd : d.routed) (hd' : d'.routed)
    (hkey : d.key lib hasher bigEndian tlsConfig httpVersionPolicy = .ok key)
    (hkey' : d'.key lib hasher bigEndian tlsConfig httpVersionPolicy = .ok key) :
    d.inputs lib tlsConfig httpVersionPolicy = d'.inputs lib tlsConfig httpVersionPolicy ↔
      d.keyedPeers.map SocketAddr.flowinfo = d'.keyedPeers.map SocketAddr.flowinfo := by
  cases key with
  | resolved key =>
    have hinputs := resolved_inputs hkey hkey'
    obtain ⟨origin, target, sniHostname, rfl, -⟩ := key_resolved hkey
    obtain ⟨origin', target', sniHostname', rfl, -⟩ := key_resolved hkey'
    exact iff_of_true hinputs rfl
  | socks key =>
    have hinputs := socks_inputs hkey hkey'
    obtain ⟨proxy, target, rfl, -⟩ := key_socks hkey
    obtain ⟨proxy', target', rfl, -⟩ := key_socks hkey'
    exact iff_of_true hinputs rfl
  | forward key =>
    obtain ⟨proxy, origin, connectTimeout, rfl, rfl⟩ := key_forward hkey
    obtain ⟨proxy', origin', connectTimeout', rfl, hsame⟩ := key_forward hkey'
    obtain ⟨hidentity, horigin, rfl, -⟩ := ForwardRouteKey.mk.inj hsame
    have hscheme : origin.scheme = origin'.scheme := hd.2.trans hd'.2.symm
    have horigin := (originOrigin_inj hscheme (port_isSome (.inl hd.2)) (port_isSome (.inl hd'.2)) (hparsed.host origin rfl)
      (hparsed'.host origin' rfl)).mp horigin
    have hendpoint := endpoint_of_identity hparsed hparsed' hhashes hdistinct hfew hmade hmade' rfl rfl hidentity
    rw [RouteDispatch.inputs, RouteDispatch.inputs, hscheme, horigin.1, horigin.2, ConnectionInputs.forward.injEq, hendpoint]
    exact and_iff_left ⟨rfl, rfl, rfl, rfl, rfl⟩
  | connect key =>
    obtain ⟨proxy, origin, sniHostname, target, connectTimeout, rfl, rfl⟩ := key_connect hkey
    obtain ⟨proxy', origin', sniHostname', target', connectTimeout', rfl, hsame⟩ := key_connect hkey'
    obtain ⟨hidentity, horigin, rfl, -, rfl, -, rfl, -⟩ := ConnectRouteKey.mk.inj hsame
    have hscheme : origin.scheme = origin'.scheme := hd.2.trans hd'.2.symm
    have horigin := (originOrigin_inj hscheme (port_isSome (.inr hd.2)) (port_isSome (.inr hd'.2)) (hparsed.host origin rfl)
      (hparsed'.host origin' rfl)).mp horigin
    have hendpoint := endpoint_of_identity hparsed hparsed' hhashes hdistinct hfew hmade hmade' rfl rfl hidentity
    rw [RouteDispatch.inputs, RouteDispatch.inputs, hscheme, horigin.1, horigin.2, ConnectionInputs.connect.injEq, hendpoint]
    exact and_iff_left ⟨rfl, rfl, rfl, rfl, rfl, rfl, rfl, rfl, rfl⟩

end

/-- Two dispatches of a client that are given the same cached client have the same inputs exactly
where the pinned peers of their proxies have the same flow information. -/
theorem route_clients_apart (lib : Proxy.Library) (hasher : UInt8 → Str → Nat) (bigEndian : Bool) (tlsConfig : Option TlsConfig)
    (httpVersionPolicy : HttpVersionPolicy) {s : RouteClients}
    (h : Reachable (RouteClients.step lib hasher bigEndian tlsConfig httpVersionPolicy) {} s)
    (hfew : s.mint.configs.length < 2 ^ 32) (hparsed : ∀ e ∈ s.log, Parsed lib e.1)
    (hhashes : ∀ e ∈ s.log, ∀ e' ∈ s.log, HashesApart hasher (e.1.credential lib) (e'.1.credential lib)) :
    ∀ e ∈ s.log, ∀ e' ∈ s.log, e.2 = e'.2 →
      (e.1.inputs lib tlsConfig httpVersionPolicy = e'.1.inputs lib tlsConfig httpVersionPolicy ↔
        e.1.keyedPeers.map SocketAddr.flowinfo = e'.1.keyedPeers.map SocketAddr.flowinfo) := by
  intro e he e' he' hclient
  have hinv := inv_reachable h
  obtain ⟨-, hrouted, hmade, key, hkey⟩ := hinv.keyed e he
  obtain ⟨-, hrouted', hmade', -⟩ := hinv.keyed e' he'
  have hkey' := (hinv.same e he e' he' hclient).symm.trans hkey
  exact inputs_iff (hparsed e he) (hparsed e' he') (hhashes e he e' he') (tokensApart_reachable h hfew) hfew hmade.2 hmade'.2
    hrouted hrouted' hkey hkey'

end

private def sharedProxyUrl : Url := { scheme := utf8 "http", host := some (utf8 "p"), port := some 8080, path := utf8 "/" }

private def siteUrl : Url := { scheme := utf8 "http", host := some (utf8 "h"), path := utf8 "/" }

def oneProxyLibrary : Proxy.Library where
  parseUrl s := if s = utf8 "http://p:8080/" then some sharedProxyUrl else none
  asStr url := if url = sharedProxyUrl then utf8 "http://p:8080/" else []
  parseUri _ := .error []
  base64 := Base64.encodeBytes
  hyperAdds _ := []

/-- A hash of 64 bits that takes in each byte, and the salt first. -/
def saltedHash (salt : UInt8) (s : Str) : Nat :=
  (salt :: s).foldl (fun hash b => (hash ^^^ b.toNat) * 0x100000001b3 % 2 ^ 64) 0xcbf29ce484222325

/-- A proxy that is pinned to the loopback address with some flow label. -/
def pinnedProxy (flowinfo : Nat) : ProxyConfig where
  uri := sharedProxyUrl
  auth := some (.basic (utf8 "u") (utf8 "w"))
  proxyHeaders := .empty
  proxyTlsConfig := none
  resolvedAddresses := some ⟨[.v6 1 8080 flowinfo 0], List.cons_ne_nil _ _⟩

def pinnedDispatch (flowinfo : Nat) : RouteDispatch := .forward (pinnedProxy flowinfo) siteUrl none

/-- One after the other of two dispatches with one key. -/
theorem twice_given {lib : Proxy.Library} {hasher : UInt8 → Str → Nat} (d d' : RouteDispatch) {key : RouteKey}
    (hd : d.routed) (hd' : d'.routed) (htls : d.proxy.bind ProxyConfig.proxyTlsConfig = none)
    (htls' : d'.proxy.bind ProxyConfig.proxyTlsConfig = none)
    (hkey : d.key lib hasher false none (.auto false) = .ok key) (hkey' : d'.key lib hasher false none (.auto false) = .ok key) :
    ∃ s, Reachable (RouteClients.step lib hasher false none (.auto false)) {} s ∧ s.log = [(d', 0), (d, 0)] ∧
    s.mint.configs = [] := by
  have hmade (s : RouteClients) {d : RouteDispatch} (h : d.proxy.bind ProxyConfig.proxyTlsConfig = none) : s.Made none d :=
    ⟨fun _ hMem => absurd hMem (Option.not_mem_none _), fun _ hMem => absurd (h ▸ hMem) (Option.not_mem_none _)⟩
  let first := RouteClients.obtain {} d true 0 key
  let second := first.obtain d' true 0 key
  have hfirst : RouteClients.step lib hasher false none (.auto false) {} (.dispatch d true 0) = some first := by
    rw [RouteClients.step, if_pos ⟨hd, hmade _ htls⟩, hkey]
  have hsecond : RouteClients.step lib hasher false none (.auto false) first (.dispatch d' true 0) = some second := by
    rw [RouteClients.step, if_pos ⟨hd', hmade _ htls'⟩, hkey']
  have hcached : (first.clients key.cache).lookup key = some 0 := by
    have hclients : first.clients key.cache = insertClient key.cache.maxEntries 0 [] key 0 := Function.update_self ..
    rw [hclients, insertClient]
    exact List.lookup_cons_self
  refine ⟨second, .step (.step .start trivial hfirst) trivial hsecond, ?_, ?_⟩
  · show (first.obtain d' true 0 key).log = _
    rw [RouteClients.obtain, hcached]
    rfl
  · show (first.obtain d' true 0 key).mint.configs = _
    rw [RouteClients.obtain, hcached]
    rfl

theorem pinnedDispatch_key (flowinfo flowinfo' : Nat) :
    (pinnedDispatch flowinfo).key oneProxyLibrary saltedHash false none (.auto false) =
      (pinnedDispatch flowinfo').key oneProxyLibrary saltedHash false none (.auto false) := by
  simp only [pinnedDispatch, RouteDispatch.key, ForwardRouteKey.new, connectionIdentity, pinnedProxy, Option.elim, List.map_cons,
    List.map_nil, SocketAddr.text]

/-- The hypotheses of a run hold of the dispatches. -/
theorem pinnedDispatch_parsed (flowinfo : Nat) : Parsed oneProxyLibrary (pinnedDispatch flowinfo) := by
  constructor
  · rintro proxy ⟨⟩
    have huri : Serialised oneProxyLibrary sharedProxyUrl := ⟨by decide, by decide⟩
    exact huri
  · rintro url ⟨⟩
    rfl

private theorem pinnedDispatch_credential (flowinfo : Nat) :
    (pinnedDispatch flowinfo).credential oneProxyLibrary = some (utf8 "Basic dTp3") := by
  have hvalue : (Proxy.ProxyAuth.basic (utf8 "u") (utf8 "w")).headerValue oneProxyLibrary = utf8 "Basic dTp3" := by decide
  exact congrArg some hvalue

theorem pinnedDispatch_hashes (flowinfo flowinfo' : Nat) : HashesApart saltedHash
    ((pinnedDispatch flowinfo).credential oneProxyLibrary) ((pinnedDispatch flowinfo').credential oneProxyLibrary) := by
  have hfirst : ∀ x ∈ some (utf8 "Basic dTp3"), (credentialHash saltedHash x).head? ≠ some 0 := by
    rintro x ⟨⟩
    decide
  rw [pinnedDispatch_credential, pinnedDispatch_credential]
  constructor
  · exact hfirst
  · exact hfirst
  · rintro x ⟨⟩ y ⟨⟩ -
    rfl

/-- Two dispatches by one configuration share a client, and have all inputs in common. -/
theorem route_clients_apart_example : ∃ s : RouteClients, s.log = [(pinnedDispatch 7, 0), (pinnedDispatch 7, 0)] ∧
    ∀ e ∈ s.log, ∀ e' ∈ s.log, e.2 = e'.2 →
      (e.1.inputs oneProxyLibrary none (.auto false) = e'.1.inputs oneProxyLibrary none (.auto false) ↔
        e.1.keyedPeers.map SocketAddr.flowinfo = e'.1.keyedPeers.map SocketAddr.flowinfo) := by
  obtain ⟨s, hreach, hlog, hminted⟩ := twice_given (pinnedDispatch 7) (pinnedDispatch 7) ⟨by decide, by decide⟩
    ⟨by decide, by decide⟩ rfl rfl rfl rfl
  refine ⟨s, hlog, route_clients_apart oneProxyLibrary saltedHash false none (.auto false) hreach ?_ ?_ ?_⟩
  · rw [hminted]
    decide
  · rw [hlog]
    exact List.forall_mem_cons.mpr ⟨pinnedDispatch_parsed 7, List.forall_mem_singleton.mpr (pinnedDispatch_parsed 7)⟩
  · rw [hlog]
    have hall := pinnedDispatch_hashes 7 7
    exact List.forall_mem_cons.mpr ⟨List.forall_mem_cons.mpr ⟨hall, List.forall_mem_singleton.mpr hall⟩,
      List.forall_mem_singleton.mpr (List.forall_mem_cons.mpr ⟨hall, List.forall_mem_singleton.mpr hall⟩)⟩

/-- A proxy pinned to an address with another flow label is given the client of the first. -/
theorem flow_label_shared : ∃ s : RouteClients,
    Reachable (RouteClients.step oneProxyLibrary saltedHash false none (.auto false)) {} s ∧ s.mint.configs.length < 2 ^ 32 ∧
      (∀ e ∈ s.log, Parsed oneProxyLibrary e.1) ∧
      (∀ e ∈ s.log, ∀ e' ∈ s.log, HashesApart saltedHash (e.1.credential oneProxyLibrary) (e'.1.credential oneProxyLibrary)) ∧
      ∃ e ∈ s.log, ∃ e' ∈ s.log, e.2 = e'.2 ∧
        e.1.inputs oneProxyLibrary none (.auto false) ≠ e'.1.inputs oneProxyLibrary none (.auto false) := by
  obtain ⟨s, hreach, hlog, hminted⟩ := twice_given (pinnedDispatch 0) (pinnedDispatch 1) ⟨by decide, by decide⟩
    ⟨by decide, by decide⟩ rfl rfl rfl (pinnedDispatch_key 1 0)
  refine ⟨s, hreach, ?_, ?_, ?_, ?_⟩
  · rw [hminted]
    decide
  · rw [hlog]
    exact List.forall_mem_cons.mpr ⟨pinnedDispatch_parsed 1, List.forall_mem_singleton.mpr (pinnedDispatch_parsed 0)⟩
  · rw [hlog]
    exact List.forall_mem_cons.mpr ⟨List.forall_mem_cons.mpr ⟨pinnedDispatch_hashes 1 1,
        List.forall_mem_singleton.mpr (pinnedDispatch_hashes 1 0)⟩,
      List.forall_mem_singleton.mpr (List.forall_mem_cons.mpr ⟨pinnedDispatch_hashes 0 1,
        List.forall_mem_singleton.mpr (pinnedDispatch_hashes 0 0)⟩)⟩
  · rw [hlog]
    refine ⟨_, List.mem_cons_self, _, List.mem_cons_of_mem _ List.mem_cons_self, rfl, fun hsame => ?_⟩
    have hpeers := congrArg ProxyEndpoint.peers (ConnectionInputs.forward.inj hsame).1
    have hlabels : (1 : Nat) = 0 := congrArg (fun peers : Option ResolvedTarget =>
      ((peers.elim [] ResolvedTarget.addresses).map SocketAddr.flowinfo).sum) hpeers
    cases hlabels

end Eggfetch.Routing
