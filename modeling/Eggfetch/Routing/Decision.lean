import Eggfetch.Routing.Proxies

/-! Which proxy a request takes: the explicit proxy against the environment, and the three
evaluators of the decision against one another. -/
namespace Eggfetch.Routing
open Text Http

variable (lib : Library)

def Proxy.applies (proxy : Proxy) (scheme host : Str) (port : Option Nat) : Bool :=
  proxy.shouldUseForScheme scheme && proxy.bypass.all fun rules => !shouldBypassComponents lib rules scheme host port

def Proxy.appliesTo (proxy : Proxy) (url : Url) : Bool := proxy.applies lib url.scheme (url.host.getD []) url.port

def ClientProxies.candidates (client : ClientProxies) : List Proxy := client.proxy.toList ++ client.environmentProxies

theorem resolveProxy_inherit (client : ClientProxies) (url : Url) :
    resolveProxy lib client url .inherit =
      (client.candidates.find? (·.appliesTo lib url)).map (Proxy.config lib) := by
  simp only [resolveProxy, List.find?_filter, Bool.decide_and, Bool.decide_eq_true]
  rfl

theorem resolveProxy_isSome (client : ClientProxies) (url : Url) :
    (resolveProxy lib client url .inherit).isSome ↔ ∃ proxy ∈ client.candidates, proxy.appliesTo lib url = true := by
  rw [resolveProxy_inherit, Option.isSome_map, List.find?_isSome]

theorem nativeWouldUseProxy_iff (client : ClientProxies) (origin : HttpOrigin) (port : Option Nat) :
    nativeWouldUseProxy lib client origin port = true ↔
      ∃ proxy ∈ client.candidates, proxy.applies lib origin.scheme.asStr origin.host port = true := by
  rw [nativeWouldUseProxy, List.any_filter, List.any_eq_true]
  rfl

/-- With an explicit proxy, what it bypasses goes directly and the environment decides nothing,
for requests of either API. -/
structure ExplicitDecides (proxy : Proxy) (environment : List Proxy) (url : Url) : Prop where
  bypassed : proxy.shouldUseForScheme url.scheme = true → proxy.bypass.any (shouldBypass lib · url) = true →
    resolveProxy lib ⟨some proxy, environment⟩ url .inherit = none
  alone : ∀ choice, resolveProxy lib ⟨some proxy, environment⟩ url choice = resolveProxy lib ⟨some proxy, []⟩ url choice

private theorem resolve_of_applies {proxy : Proxy} {url : Url} (h : proxy.appliesTo lib url = true) (environment : List Proxy) :
    resolveProxy lib ⟨some proxy, environment⟩ url .inherit = some (proxy.config lib) := by
  rw [resolveProxy_inherit, ClientProxies.candidates]
  simp only [Option.toList_some, List.cons_append, List.nil_append, List.find?_cons, h, Option.map_some]

private theorem resolve_of_not_applies {proxy : Proxy} {url : Url} (h : proxy.appliesTo lib url = false)
    (environment : List Proxy) :
    resolveProxy lib ⟨some proxy, environment⟩ url .inherit =
      (environment.find? (·.appliesTo lib url)).map (Proxy.config lib) := by
  rw [resolveProxy_inherit, ClientProxies.candidates]
  simp only [Option.toList_some, List.cons_append, List.nil_append, List.find?_cons, h]

private theorem not_applies_of_bypassed {proxy : Proxy} {url : Url} (h : proxy.bypass.any (shouldBypass lib · url) = true) :
    proxy.appliesTo lib url = false := by
  obtain ⟨rules, hrules, hmatch⟩ := Option.any_eq_true _ _ |>.mp h
  have hall : (proxy.bypass.all fun rules => !shouldBypassComponents lib rules url.scheme (url.host.getD []) url.port) =
      !shouldBypass lib rules url := by
    rw [hrules]
    rfl
  rw [Proxy.appliesTo, Proxy.applies, hall, hmatch, Bool.not_true, Bool.and_false]

/-- The environment is left out exactly when the explicit proxy takes the request or no proxy
of the environment does. -/
theorem explicit_decides_iff (proxy : Proxy) (environment : List Proxy) (url : Url) :
    ExplicitDecides lib proxy environment url ↔
      proxy.appliesTo lib url = true ∨ ∀ other ∈ environment, other.appliesTo lib url = false := by
  constructor
  · intro h
    rcases Bool.eq_false_or_eq_true (proxy.appliesTo lib url) with happlies | happlies
    · exact .inl happlies
    · have halone := h.alone .inherit
      rw [resolve_of_not_applies lib happlies, resolve_of_not_applies lib happlies, List.find?_nil, Option.map_none,
        Option.map_eq_none_iff, List.find?_eq_none] at halone
      exact .inr fun other hother => by simpa using halone other hother
  · intro h
    constructor
    · intro _ hbypassed
      have hnot := not_applies_of_bypassed lib hbypassed
      have hnone := h.resolve_left (by simp [hnot])
      rw [resolve_of_not_applies lib hnot, List.find?_eq_none.mpr (by simpa using hnone), Option.map_none]
    · intro choice
      cases choice with
      | direct => rfl
      | «override» config => rfl
      | inherit =>
        rcases Bool.eq_false_or_eq_true (proxy.appliesTo lib url) with happlies | happlies
        · rw [resolve_of_applies lib happlies, resolve_of_applies lib happlies]
        · have hnone := h.resolve_left (by simp [happlies])
          rw [resolve_of_not_applies lib happlies, resolve_of_not_applies lib happlies, List.find?_nil,
            List.find?_eq_none.mpr (by simpa using hnone)]

private theorem native_explicit_iff (proxy : Proxy) (environment : List Proxy) (origin : HttpOrigin) (port : Option Nat) :
    nativeWouldUseProxy lib ⟨some proxy, environment⟩ origin port = nativeWouldUseProxy lib ⟨some proxy, []⟩ origin port ↔
      proxy.applies lib origin.scheme.asStr origin.host port = true ∨
        ∀ other ∈ environment, other.applies lib origin.scheme.asStr origin.host port = false := by
  rw [Bool.eq_iff_iff, nativeWouldUseProxy_iff, nativeWouldUseProxy_iff]
  simp only [ClientProxies.candidates, Option.toList_some, List.cons_append, List.nil_append, List.mem_cons,
    List.not_mem_nil, or_false, exists_eq_or_imp, exists_eq_left, or_iff_left_iff_imp]
  cases proxy.applies lib origin.scheme.asStr origin.host port with
  | true => simp
  | false => simp

/-- For both APIs the environment decides nothing beside an explicit proxy exactly where that
proxy applies or none of the environment does. -/
theorem explicit_proxy_decides (proxy : Proxy) (environment : List Proxy) :
    (∀ url, ExplicitDecides lib proxy environment url ↔
      proxy.appliesTo lib url = true ∨ ∀ other ∈ environment, other.appliesTo lib url = false) ∧
    ∀ origin port,
      nativeWouldUseProxy lib ⟨some proxy, environment⟩ origin port =
        nativeWouldUseProxy lib ⟨some proxy, []⟩ origin port ↔
      proxy.applies lib origin.scheme.asStr origin.host port = true ∨
        ∀ other ∈ environment, other.applies lib origin.scheme.asStr origin.host port = false :=
  ⟨explicit_decides_iff lib proxy environment, native_explicit_iff lib proxy environment⟩

def proxyUrl (name : String) : Url := { scheme := utf8 "http", host := some (utf8 name), port := some 8080, path := utf8 "/" }

def exampleLibrary : Library where
  parseUrl s :=
    if s ∈ ["http://proxy:8080", "http://proxy:8080/"].map utf8 then .ok (proxyUrl "proxy")
    else .error (utf8 "relative URL without a base")
  asStr url :=
    url.scheme ++ utf8 "://" ++ url.host.getD [] ++ (url.port.elim [] fun port => Proxy.colon :: utf8 (toString port)) ++
      url.path
  parseIpv4 _ := none
  parseIpv6 _ := none
  ipv4ToString _ := []
  ipv6ToString _ := []
  percentDecode := id

/-- Everything bypasses the explicit proxy, and so goes to the one of the environment. -/
theorem bypassed_to_environment :
    ¬ ∀ (lib : Library) (proxy : Proxy) (environment : List Proxy) (url : Url),
      ExplicitDecides lib proxy environment url := by
  intro h
  have hdecides := h exampleLibrary { uri := proxyUrl "proxy", rule := .all, bypass := some [.wildcard] }
    [{ uri := proxyUrl "fallback", rule := .all }] (proxyUrl "example.com")
  rw [explicit_decides_iff] at hdecides
  rcases hdecides with happlies | hothers
  · exact absurd happlies (by decide)
  · exact absurd (hothers _ (List.mem_singleton_self _)) (by decide)

theorem exists_of_map_ok {ε α β : Type} {f : α → β} {x : Except ε α} {b : β} (h : x.map f = .ok b) :
    ∃ a, x = .ok a ∧ f a = b := by
  cases x with
  | error e => cases h
  | ok a => exact ⟨a, rfl, Except.ok.inj h⟩

private theorem compat_spec {rule : ProxyRule} {urlStr : Str} {proxy : Proxy} (h : Proxy.compat lib rule urlStr = .ok proxy) :
    proxy.rule = rule ∧ proxy.bypass = none := by
  obtain ⟨all, hall, rfl⟩ := exists_of_map_ok h
  refine ⟨rfl, ?_⟩
  show all.bypass = none
  rw [Proxy.allCompat] at hall
  split at hall
  · cases hall
  · split at hall
    · cases hall
    · rename_i hnew
      obtain ⟨uri, -, rfl⟩ := exists_of_map_ok hnew
      dsimp only at hall
      split at hall
      · obtain ⟨auth, -, rfl⟩ := exists_of_map_ok hall
        rfl
      · cases hall
        rfl

theorem proxyFrom_spec {noProxy : Option (List NoProxyRule)} {rule : ProxyRule} {raw : Str} {proxy : Proxy}
    (h : ProxyEnvironment.proxyFrom lib noProxy rule raw = .ok proxy) : proxy.rule = rule ∧ proxy.bypass = noProxy := by
  obtain ⟨plain, hplain, rfl⟩ := exists_of_map_ok h
  obtain ⟨hrule, hbypass⟩ := compat_spec lib hplain
  refine ⟨hrule, ?_⟩
  show noProxy.or plain.bypass = noProxy
  rw [hbypass, Option.or_none]

theorem mapM_toList_ok {ε α β : Type} {f : α → Except ε β} {x : Option α} {l : List β} (h : x.toList.mapM f = .ok l) :
    (x = none ∧ l = []) ∨ ∃ a b, x = some a ∧ f a = .ok b ∧ l = [b] := by
  cases x with
  | none => exact .inl ⟨rfl, (Except.ok.inj h).symm⟩
  | some a =>
    refine .inr ⟨a, ?_⟩
    rw [Option.toList_some, List.mapM_cons, List.mapM_nil] at h
    cases hb : f a with
    | error e => rw [hb] at h; cases h
    | ok b => rw [hb] at h; exact ⟨b, rfl, rfl, (Except.ok.inj h).symm⟩

/-- The proxies of a snapshot: for each of its values the one that `resolve` builds too. -/
structure Expanded (env : ProxyEnvironment) (noProxy : Option (List NoProxyRule)) (http https all : List Proxy) : Prop where
  rules : env.noProxyRules lib = .ok noProxy
  http : env.httpProxy.toList.mapM (ProxyEnvironment.proxyFrom lib noProxy .http) = .ok http
  https : env.httpsProxy.toList.mapM (ProxyEnvironment.proxyFrom lib noProxy .https) = .ok https
  all : env.allProxy.toList.mapM (ProxyEnvironment.proxyFrom lib noProxy .all) = .ok all

theorem expanded_of_clientProxies {env : ProxyEnvironment} {proxies : List Proxy}
    (h : env.clientProxies lib = .ok proxies) :
    ∃ noProxy http https all, Expanded lib env noProxy http https all ∧ proxies = http ++ https ++ all := by
  simp only [ProxyEnvironment.clientProxies, bind, Except.bind] at h
  cases hrules : env.noProxyRules lib with
  | error e => simp [hrules] at h
  | ok noProxy =>
    simp only [hrules] at h
    cases hhttp : env.httpProxy.toList.mapM (ProxyEnvironment.proxyFrom lib noProxy .http) with
    | error e => simp [hhttp] at h
    | ok http =>
      simp only [hhttp] at h
      cases hhttps : env.httpsProxy.toList.mapM (ProxyEnvironment.proxyFrom lib noProxy .https) with
      | error e => simp [hhttps] at h
      | ok https =>
        simp only [hhttps] at h
        cases hall : env.allProxy.toList.mapM (ProxyEnvironment.proxyFrom lib noProxy .all) with
        | error e => simp [hall] at h
        | ok all =>
          simp only [hall] at h
          exact ⟨noProxy, http, https, all, ⟨hrules, hhttp, hhttps, hall⟩, (Except.ok.inj h).symm⟩

theorem mem_expanded {x : Option Str} {noProxy : Option (List NoProxyRule)} {rule : ProxyRule} {l : List Proxy}
    (h : x.toList.mapM (ProxyEnvironment.proxyFrom lib noProxy rule) = .ok l) {proxy : Proxy} (hproxy : proxy ∈ l) :
    proxy.rule = rule ∧ proxy.bypass = noProxy := by
  rcases mapM_toList_ok h with ⟨-, rfl⟩ | ⟨raw, p, -, hp, rfl⟩
  · cases hproxy
  · rw [List.mem_singleton.mp hproxy]
    exact proxyFrom_spec lib hp

def ProxyRule.covers : ProxyRule → Str → Bool
  | all, _ => true
  | http, scheme => scheme == utf8 "http"
  | https, scheme => scheme == utf8 "https"

private theorem shouldUse_eq (proxy : Proxy) (scheme : Str) : proxy.shouldUseForScheme scheme = proxy.rule.covers scheme := by
  rw [Proxy.shouldUseForScheme, ProxyRule.covers.eq_def]
  cases proxy.rule with
  | all => rfl
  | http => rfl
  | https => rfl

private theorem appliesTo_of_bypass {proxy : Proxy} {noProxy : Option (List NoProxyRule)}
    (h : proxy.bypass = noProxy) (url : Url) :
    proxy.appliesTo lib url = (proxy.rule.covers url.scheme && !noProxy.any (shouldBypass lib · url)) := by
  rw [Proxy.appliesTo, Proxy.applies, shouldUse_eq, h]
  cases noProxy with
  | none => rfl
  | some rules => rfl

private theorem find_expanded {x : Option Str} {noProxy : Option (List NoProxyRule)} {rule : ProxyRule} {l : List Proxy}
    (h : x.toList.mapM (ProxyEnvironment.proxyFrom lib noProxy rule) = .ok l) (url : Url) :
    l.find? (·.appliesTo lib url) =
      if rule.covers url.scheme && !noProxy.any (shouldBypass lib · url) then l.head? else none := by
  have happlies (proxy : Proxy) (hproxy : proxy ∈ l) :
      proxy.appliesTo lib url = (rule.covers url.scheme && !noProxy.any (shouldBypass lib · url)) := by
    obtain ⟨hrule, hbypass⟩ := mem_expanded lib h hproxy
    rw [appliesTo_of_bypass lib hbypass, hrule]
  split
  · rename_i hcond
    rw [← List.head?_filter, List.filter_eq_self.mpr]
    intro proxy hproxy
    rw [happlies proxy hproxy, hcond]
  · rename_i hcond
    rw [List.find?_eq_none]
    intro proxy hproxy
    rwa [happlies proxy hproxy]

private theorem selected_eq_head {x y : Option Str} {noProxy : Option (List NoProxyRule)} {rule : ProxyRule}
    {specific all : List Proxy}
    (hx : x.toList.mapM (ProxyEnvironment.proxyFrom lib noProxy rule) = .ok specific)
    (hy : y.toList.mapM (ProxyEnvironment.proxyFrom lib noProxy .all) = .ok all) :
    ProxyEnvironment.selected lib noProxy ((x.or y).map (·, rule, x.isNone)) = .ok (specific ++ all).head? := by
  rcases mapM_toList_ok hx with ⟨rfl, rfl⟩ | ⟨raw, proxy, rfl, hproxy, rfl⟩
  · rcases mapM_toList_ok hy with ⟨rfl, rfl⟩ | ⟨raw, proxy, rfl, hproxy, rfl⟩
    · rfl
    · simp only [Option.none_or, Option.map_some, Option.isNone_none, ProxyEnvironment.selected, if_true, hproxy]
      rfl
  · simp only [Option.some_or, Option.map_some, Option.isNone_some, ProxyEnvironment.selected, Bool.false_eq_true, if_false,
      hproxy]
    rfl

theorem resolve_eq {env : ProxyEnvironment} {proxies : List Proxy} (h : env.clientProxies lib = .ok proxies) {url : Url}
    (hscheme : url.scheme = utf8 "http" ∨ url.scheme = utf8 "https") :
    env.resolve lib url = .ok (proxies.find? (·.appliesTo lib url)) := by
  obtain ⟨noProxy, http, https, all, hexpanded, rfl⟩ := expanded_of_clientProxies lib h
  rw [List.find?_append, List.find?_append, find_expanded lib hexpanded.http, find_expanded lib hexpanded.https,
    find_expanded lib hexpanded.all, ProxyEnvironment.resolve, hexpanded.rules]
  dsimp only
  cases noProxy.any (shouldBypass lib · url) with
  | true => simp
  | false =>
    have hne : ¬ utf8 "http" = utf8 "https" := by decide
    rcases hscheme with hscheme | hscheme
    · rw [if_neg Bool.false_ne_true, ProxyEnvironment.selectProxy, hscheme, if_neg hne, if_pos rfl,
        selected_eq_head lib hexpanded.http hexpanded.all]
      simp [ProxyRule.covers, hne, List.head?_append]
    · rw [if_neg Bool.false_ne_true, ProxyEnvironment.selectProxy, hscheme, if_pos rfl,
        selected_eq_head lib hexpanded.https hexpanded.all]
      simp [ProxyRule.covers, Ne.symm hne, List.head?_append]

def isIpv6Byte (b : UInt8) : Bool := isDigit b || (0x61 ≤ b && b ≤ 0x66) || b == Proxy.colon

/-- Both parse one absolute text. `url::Url` writes the scheme and the host in lower case, drops
a default port, and has hexadecimal groups between brackets. -/
structure SameText (uri : Uri) (url : Url) : Prop where
  scheme : uri.scheme.map toAsciiLowercase = some url.scheme
  http : url.scheme = utf8 "http" ∨ url.scheme = utf8 "https"
  host : url.host = some (toAsciiLowercase uri.host)
  port : url.port = uri.port.filter (· ≠ defaultPortForScheme url.scheme)
  ipv6 : stripBrackets (toAsciiLowercase uri.host) ≠ toAsciiLowercase uri.host →
    ∀ b ∈ stripBrackets (toAsciiLowercase uri.host), isIpv6Byte b = true

section
variable (scheme host : Str) (port : Option Nat)

def isBracketed : Bool := stripBrackets host != host

def patternPort (rulePort : Option Nat) : Bool := rulePort.all (portMatches scheme port)

/-- The rule matches what `http::Uri` gives alone: a default port that was written out, or a
pattern for the address without its brackets. -/
def NoProxyRule.nativeOnly : NoProxyRule → Bool
  | hostPortHttpx h p => port == some p && p == defaultPortForScheme scheme && matchesHostRule host h
  | schemeHostPort ruleScheme ruleHost rulePort =>
    isBracketed host && eqIgnoreAsciiCase scheme ruleScheme && eqIgnoreAsciiCase (stripBrackets host) ruleHost &&
      patternPort scheme port rulePort
  | _ => false

/-- The rule matches what `url::Url` gives alone: a pattern for the address in brackets. -/
def NoProxyRule.urlOnly : NoProxyRule → Bool
  | schemeHostPort ruleScheme ruleHost rulePort =>
    isBracketed host && eqIgnoreAsciiCase scheme ruleScheme && eqIgnoreAsciiCase host ruleHost &&
      patternPort scheme port rulePort
  | _ => false

def NoProxyRule.common (rule : NoProxyRule) : Bool :=
  rule.isMatch lib scheme host (port.filter (· ≠ defaultPortForScheme scheme)) && !rule.urlOnly scheme host port

end

theorem portMatches_filter (scheme : Str) (port : Option Nat) (p : Nat) :
    portMatches scheme (port.filter (· ≠ defaultPortForScheme scheme)) p = portMatches scheme port p := by
  cases port with
  | none => rfl
  | some q =>
    by_cases hq : q = defaultPortForScheme scheme
    · rw [Option.filter_some, hq]
      simp [portMatches]
    · rw [Option.filter_some_pos (by simpa using hq)]

theorem pattern_port (scheme : Str) (port rulePort : Option Nat) :
    (rulePort.all fun rulePort => port == some rulePort || (port.isNone && defaultPortForScheme scheme == rulePort)) =
      patternPort scheme port rulePort := by
  cases rulePort with
  | none => rfl
  | some p => cases port <;> simp [patternPort, portMatches]

private theorem asciiLower_eq_iff (b : UInt8) : (asciiLower b = openBracket ↔ b = openBracket) ∧
    (asciiLower b = closeBracket ↔ b = closeBracket) := by
  simp only [asciiLower, openBracket, closeBracket]
  split
  · constructor <;> constructor <;> grind
  · exact ⟨Iff.rfl, Iff.rfl⟩

theorem toAsciiLowercase_stripBrackets (host : Str) :
    toAsciiLowercase (stripBrackets host) = stripBrackets (toAsciiLowercase host) := by
  have hhead : (toAsciiLowercase host).head? = some openBracket ↔ host.head? = some openBracket := by
    cases host with
    | nil => simp [toAsciiLowercase]
    | cons b rest => simp [toAsciiLowercase, (asciiLower_eq_iff b).1]
  have hlast : (toAsciiLowercase host).getLast? = some closeBracket ↔ host.getLast? = some closeBracket := by
    rw [toAsciiLowercase, List.getLast?_map]
    cases host.getLast? with
    | none => simp
    | some b => simp [(asciiLower_eq_iff b).2]
  have hlength : (toAsciiLowercase host).length = host.length := List.length_map _
  simp only [stripBrackets, hhead, hlast, hlength]
  split
  · rw [toAsciiLowercase, toAsciiLowercase, List.map_dropLast, List.map_tail]
  · rfl

/-- The rules that are no patterns read two hosts alike. -/
structure Alike (host host' : Str) : Prop where
  localhost : eqIgnoreAsciiCase host (utf8 "localhost") = eqIgnoreAsciiCase host' (utf8 "localhost")
  strip : stripBrackets host = stripBrackets host'
  trim : trimBrackets host = trimBrackets host'
  suffix : ∀ suffix, matchesDomainSuffix host suffix = matchesDomainSuffix host' suffix

theorem bracketed_eq {host : Str} (h : stripBrackets host ≠ host) :
    host = openBracket :: stripBrackets host ++ [closeBracket] := by
  rw [stripBrackets] at h ⊢
  split
  · rename_i hbrackets
    obtain ⟨hhead, hlast, hlength⟩ := hbrackets
    obtain ⟨rest, rfl⟩ := List.head?_eq_some_iff.mp hhead
    have hrest : rest ≠ [] := by
      rintro rfl
      simp at hlength
    rw [List.getLast?_cons_of_ne_nil hrest] at hlast
    rw [List.tail_cons, List.cons_append, List.dropLast_append_getLast? _ hlast]
  · rename_i hnot
    rw [if_neg hnot] at h
    exact absurd rfl h

theorem no_dot_no_label {host : Str} (h : dot ∉ toAsciiLowercase host) (suffix : Str) :
    matchesDomainSuffix host suffix = false := by
  rw [matchesDomainSuffix, endsAtLabel]
  simp only [Bool.and_eq_false_imp, Bool.and_eq_true, beq_iff_eq]
  rintro ⟨-, hdot⟩
  exact absurd (List.mem_of_getElem? hdot) h

theorem dropWhile_self {b : UInt8} {s : Str} (h : s.head? ≠ some b) : s.dropWhile (· == b) = s := by
  cases s with
  | nil => rfl
  | cons c rest =>
    apply List.dropWhile_cons_of_neg
    simpa using h

theorem rdropWhile_self {b : UInt8} {s : Str} (h : b ∉ s) : s.rdropWhile (· == b) = s := by
  rw [List.rdropWhile_eq_self_iff]
  intro hne hb
  exact h (beq_iff_eq.mp hb ▸ List.getLast_mem hne)

theorem trimBrackets_self {host : Str} (ho : openBracket ∉ host) (hc : closeBracket ∉ host) : trimBrackets host = host := by
  rw [trimBrackets, dropWhile_self fun hhead => ho (List.mem_of_mem_head? hhead), rdropWhile_self hc]

theorem trimBrackets_bracketed {host : Str} (ho : openBracket ∉ host) (hc : closeBracket ∉ host) :
    trimBrackets (openBracket :: host ++ [closeBracket]) = host := by
  have hdrop : (openBracket :: (host ++ [closeBracket])).dropWhile (· == openBracket) = host ++ [closeBracket] := by
    have hstep := List.dropWhile_cons_of_pos (p := (· == openBracket)) (a := openBracket) (l := host ++ [closeBracket]) rfl
    apply hstep.trans
    apply dropWhile_self
    cases host with
    | nil => decide
    | cons b rest =>
      intro hhead
      exact ho (Option.some.inj hhead ▸ List.mem_cons_self)
  rw [trimBrackets, List.cons_append, hdrop]
  rw [List.rdropWhile_concat_pos (· == closeBracket) host closeBracket (beq_self_eq_true closeBracket), rdropWhile_self hc]

theorem stripBrackets_self {host : Str} (ho : openBracket ∉ host) : stripBrackets host = host := by
  rw [stripBrackets, if_neg]
  rintro ⟨hhead, -⟩
  exact ho (List.mem_of_mem_head? hhead)

private theorem asciiLower_ipv6 {b : UInt8} (h : isIpv6Byte b = true) : asciiLower b = b := by
  rw [asciiLower, if_neg]
  simp only [isIpv6Byte, isDigit, Proxy.colon, Bool.or_eq_true, Bool.and_eq_true, decide_eq_true_eq, beq_iff_eq] at h
  grind

private theorem alike_bracketed {host : Str} (hbrackets : stripBrackets host ≠ host)
    (hbytes : ∀ b ∈ stripBrackets host, isIpv6Byte b = true) : Alike host (stripBrackets host) := by
  have heq := bracketed_eq hbrackets
  have habsent (b : UInt8) (hb : isIpv6Byte b = false) : b ∉ stripBrackets host :=
    fun hmem => absurd (hbytes b hmem) (by simp [hb])
  have hlower : toAsciiLowercase (stripBrackets host) = stripBrackets host :=
    (List.map_congr_left fun b hb => asciiLower_ipv6 (hbytes b hb)).trans (List.map_id _)
  have hopen := habsent openBracket rfl
  have hclose := habsent closeBracket rfl
  have hdot := habsent dot rfl
  generalize stripBrackets host = address at heq hbrackets hbytes habsent hlower hopen hclose hdot
  subst heq
  have hloweredAddress : toAsciiLowercase (openBracket :: address ++ [closeBracket]) = openBracket :: address ++
      [closeBracket] := by
    rw [toAsciiLowercase, List.map_append, List.map_cons]
    exact congrArg (fun lowered => openBracket :: lowered ++ [closeBracket]) hlower
  constructor
  · have hl : isIpv6Byte 0x6c = false := rfl
    rw [eqIgnoreAsciiCase, eqIgnoreAsciiCase, hloweredAddress, hlower, decide_eq_decide]
    constructor
    · intro h
      exact absurd (List.cons.inj h).1 (by decide)
    · intro h
      exact absurd (h ▸ by decide : (0x6c : UInt8) ∈ address) (habsent 0x6c hl)
  · rw [stripBrackets_self hopen, stripBrackets, if_pos ⟨rfl, by rw [List.getLast?_append]; rfl, by simp⟩, List.cons_append,
      List.tail_cons, List.dropLast_concat]
  · rw [trimBrackets_bracketed hopen hclose, trimBrackets_self hopen hclose]
  · intro suffix
    rw [no_dot_no_label (by rw [hloweredAddress]; simpa [dot, openBracket, closeBracket] using hdot),
      no_dot_no_label (by rwa [hlower])]

theorem common_of_not_urlOnly {rule : NoProxyRule} {scheme host : Str} {port : Option Nat}
    (h : rule.urlOnly scheme host port = false) :
    rule.common lib scheme host port = rule.isMatch lib scheme host (port.filter (· ≠ defaultPortForScheme scheme)) := by
  rw [NoProxyRule.common, h, Bool.not_false, Bool.and_true]

theorem matches_pattern (scheme host : Str) (port : Option Nat) (ruleScheme ruleHost : Str) (rulePort : Option Nat) :
    (NoProxyRule.schemeHostPort ruleScheme ruleHost rulePort).isMatch lib scheme host port =
      (eqIgnoreAsciiCase scheme ruleScheme && eqIgnoreAsciiCase host ruleHost && patternPort scheme port rulePort) := by
  rw [NoProxyRule.isMatch, pattern_port]

theorem patternPort_filter (scheme : Str) (port rulePort : Option Nat) :
    patternPort scheme (port.filter (· ≠ defaultPortForScheme scheme)) rulePort = patternPort scheme port rulePort := by
  cases rulePort with
  | none => rfl
  | some p => exact portMatches_filter scheme port p

theorem url_match (rule : NoProxyRule) (scheme host : Str) (port : Option Nat) :
    rule.isMatch lib scheme host (port.filter (· ≠ defaultPortForScheme scheme)) =
      (rule.urlOnly scheme host port || rule.common lib scheme host port) := by
  cases hu : rule.urlOnly scheme host port with
  | false => rw [common_of_not_urlOnly lib hu, Bool.false_or]
  | true =>
    rw [Bool.true_or]
    cases rule with
    | schemeHostPort ruleScheme ruleHost rulePort =>
      rw [NoProxyRule.urlOnly] at hu
      simp only [Bool.and_eq_true] at hu
      obtain ⟨⟨⟨-, hscheme⟩, hhost⟩, hport⟩ := hu
      rw [matches_pattern, patternPort_filter, hscheme, hhost, hport]
      rfl
    | _ => cases hu

private theorem some_port (scheme : Str) (port : Option Nat) (p : Nat) :
    (port == some p) =
      (port == some p && p == defaultPortForScheme scheme || port.filter (· ≠ defaultPortForScheme scheme) == some p) := by
  cases port with
  | none => rfl
  | some q =>
    by_cases hq : q = defaultPortForScheme scheme
    · rw [Option.filter_some, hq]
      simp only [ne_eq, not_true_eq_false, decide_false, Bool.false_eq_true, if_false, Bool.beq_eq_decide_eq, Option.some.injEq]
      grind
    · rw [Option.filter_some_pos (by simpa using hq)]
      grind

theorem native_match (rule : NoProxyRule) (scheme : Str) {host address : Str} (port : Option Nat)
    (haddress : address = stripBrackets host) (halike : Alike host address) :
    rule.isMatch lib scheme address port =
      (rule.nativeOnly scheme host port || rule.common lib scheme host port) := by
  cases rule with
  | schemeHostPort ruleScheme ruleHost rulePort =>
    rw [matches_pattern, NoProxyRule.nativeOnly, NoProxyRule.common, NoProxyRule.urlOnly, matches_pattern, patternPort_filter,
      isBracketed, ← haddress]
    by_cases hbrackets : address = host
    · simp [hbrackets]
    · simp [bne_iff_ne.mpr hbrackets]
  | hostPortHttpx h p =>
    rw [common_of_not_urlOnly lib rfl, NoProxyRule.isMatch, NoProxyRule.nativeOnly, NoProxyRule.isMatch, matchesHostRule,
      matchesHostRule, halike.trim, ← Bool.and_or_distrib_right, ← some_port]
  | wildcard => rfl
  | host h =>
    rw [common_of_not_urlOnly lib rfl, NoProxyRule.isMatch, NoProxyRule.isMatch, matchesHostRule, matchesHostRule, halike.trim]
    rfl
  | hostExact h =>
    rw [common_of_not_urlOnly lib rfl, NoProxyRule.isMatch, NoProxyRule.isMatch, matchesExactHost, matchesExactHost,
      halike.trim]
    rfl
  | domainSuffix suffix =>
    rw [common_of_not_urlOnly lib rfl, NoProxyRule.isMatch, NoProxyRule.isMatch, halike.suffix]
    rfl
  | hostPort h p =>
    rw [common_of_not_urlOnly lib rfl, NoProxyRule.isMatch, NoProxyRule.isMatch, portMatches_filter, halike.suffix,
      matchesHostRule, matchesHostRule, halike.trim]
    rfl
  | hostPortExact h p =>
    rw [common_of_not_urlOnly lib rfl, NoProxyRule.isMatch, NoProxyRule.isMatch, portMatches_filter, matchesExactHost,
      matchesExactHost, halike.trim]
    rfl
  | ipNetwork network width =>
    rw [common_of_not_urlOnly lib rfl, NoProxyRule.isMatch, NoProxyRule.isMatch, halike.trim]
    rfl
  | localhost =>
    rw [common_of_not_urlOnly lib rfl, NoProxyRule.isMatch, NoProxyRule.isMatch, halike.localhost, isLoopback, isLoopback,
      halike.strip]
    rfl
  | localhostExact =>
    rw [common_of_not_urlOnly lib rfl, NoProxyRule.isMatch, NoProxyRule.isMatch, halike.localhost]
    rfl

def Proxy.hasRule (proxy : Proxy) (test : NoProxyRule → Bool) : Bool := proxy.bypass.any (·.any test)

/-- The proxies for the scheme without a rule that matches either way. -/
def ClientProxies.undecided (client : ClientProxies) (scheme host : Str) (port : Option Nat) : List Proxy :=
  client.candidates.filter fun proxy =>
    proxy.shouldUseForScheme scheme && !proxy.hasRule (·.common lib scheme host port)

private theorem applies_eq (proxy : Proxy) (scheme host : Str) (port : Option Nat) :
    proxy.applies lib scheme host port =
      (proxy.shouldUseForScheme scheme && !proxy.hasRule (·.isMatch lib scheme host port)) := by
  rw [Proxy.applies, Proxy.hasRule]
  cases proxy.bypass with
  | none => rfl
  | some rules => rfl

private theorem hasRule_or (proxy : Proxy) (test test' : NoProxyRule → Bool) :
    proxy.hasRule (fun rule => test rule || test' rule) = (proxy.hasRule test || proxy.hasRule test') := by
  rw [Proxy.hasRule, Proxy.hasRule, Proxy.hasRule]
  cases proxy.bypass with
  | none => rfl
  | some rules =>
    show rules.any _ = (rules.any test || rules.any test')
    rw [Bool.eq_iff_iff]
    simp only [List.any_eq_true, Bool.or_eq_true, ← exists_or, ← and_or_left]

/-- An evaluator that adds `only` to the common rules takes a proxy unless those bypass every
undecided one. -/
theorem exists_applies_iff (client : ClientProxies) {scheme : Str} (host : Str) {host' : Str} (port : Option Nat)
    {port' : Option Nat} {only : NoProxyRule → Bool}
    (hmatch : ∀ rule, rule.isMatch lib scheme host' port' = (only rule || rule.common lib scheme host port)) :
    (∃ proxy ∈ client.candidates, proxy.applies lib scheme host' port' = true) ↔
      ¬ ∀ proxy ∈ client.undecided lib scheme host port, proxy.hasRule only = true := by
  have happlies (proxy : Proxy) : proxy.applies lib scheme host' port' =
      (proxy.shouldUseForScheme scheme && !proxy.hasRule (·.common lib scheme host port) && !proxy.hasRule only) := by
    rw [applies_eq, funext hmatch, hasRule_or, Bool.not_or, Bool.and_comm (!proxy.hasRule only), Bool.and_assoc]
  simp only [ClientProxies.undecided, happlies, List.mem_filter, not_forall, Bool.and_eq_true, Bool.not_eq_true',
    Bool.not_eq_true]
  grind

private theorem httpScheme_asStr {s : Str} {scheme : HttpScheme} (h : httpScheme? s = some scheme) :
    scheme.asStr = toAsciiLowercase s := by
  rw [httpScheme?] at h
  split at h
  · rename_i hhttp
    obtain rfl := Option.some.inj h
    exact (of_decide_eq_true hhttp).symm
  · split at h
    · rename_i hhttps
      obtain rfl := Option.some.inj h
      exact (of_decide_eq_true hhttps).symm
    · cases h

private theorem fromUri_spec {uri : Uri} {origin : HttpOrigin} (h : HttpOrigin.fromUri uri = .ok origin) :
    uri.scheme.map toAsciiLowercase = some origin.scheme.asStr ∧ origin.host = toAsciiLowercase (stripBrackets uri.host) := by
  rw [HttpOrigin.fromUri] at h
  split at h
  · cases h
  · rename_i s hs
    split at h
    · cases h
    · rename_i scheme hscheme
      split at h
      · cases h
      · split at h
        · cases h
        · dsimp only at h
          split at h
          · cases h
          · obtain ⟨port, -, rfl⟩ := exists_of_map_ok h
            rw [hs, Option.map_some, httpScheme_asStr hscheme]
            exact ⟨rfl, rfl⟩

private theorem alike_of_sameText {uri : Uri} {url : Url} (h : SameText uri url) :
    Alike (toAsciiLowercase uri.host) (stripBrackets (toAsciiLowercase uri.host)) := by
  by_cases hbrackets : stripBrackets (toAsciiLowercase uri.host) = toAsciiLowercase uri.host
  · rw [hbrackets]
    exact ⟨rfl, rfl, rfl, fun _ => rfl⟩
  · exact alike_bracketed hbrackets (h.ipv6 hbrackets)

/-- The decision by `http::Uri` is the one by `url::Url` exactly where, among the undecided
proxies, rules for a bracketed address bypass all of them just as rules for a bare one or for
a default port do. -/
theorem native_agrees_iff (client : ClientProxies) {uri : Uri} {url : Url} {origin : HttpOrigin}
    (hsame : SameText uri url) (horigin : HttpOrigin.fromUri uri = .ok origin) :
    (nativeWouldUseProxy lib client origin uri.port = true ↔ (resolveProxy lib client url .inherit).isSome) ↔
      ((∀ proxy ∈ client.undecided lib url.scheme (url.host.getD []) uri.port,
          proxy.hasRule (·.urlOnly url.scheme (url.host.getD []) uri.port) = true) ↔
        ∀ proxy ∈ client.undecided lib url.scheme (url.host.getD []) uri.port,
          proxy.hasRule (·.nativeOnly url.scheme (url.host.getD []) uri.port) = true) := by
  obtain ⟨hscheme, hhost⟩ := fromUri_spec horigin
  have hscheme : origin.scheme.asStr = url.scheme := Option.some.inj (hscheme.symm.trans hsame.scheme)
  have hurlHost : url.host.getD [] = toAsciiLowercase uri.host := by rw [hsame.host, Option.getD_some]
  rw [toAsciiLowercase_stripBrackets] at hhost
  have hnative := exists_applies_iff lib client (toAsciiLowercase uri.host) uri.port
    fun rule => native_match lib rule url.scheme uri.port hhost (hhost ▸ alike_of_sameText hsame)
  have hurl := exists_applies_iff lib client (toAsciiLowercase uri.host) uri.port
    fun rule => url_match lib rule url.scheme (toAsciiLowercase uri.host) uri.port
  rw [nativeWouldUseProxy_iff, resolveProxy_isSome, hscheme, hurlHost, hnative]
  simp only [Proxy.appliesTo, hurlHost, hsame.port]
  rw [hurl, not_iff_not]
  exact Iff.comm

private theorem environment_agrees (vars : List (Str × Str)) {proxies : List Proxy} {url : Url}
    (hproxies : (ProxyEnvironment.fromMap vars).clientProxies lib = .ok proxies)
    (hscheme : url.scheme = utf8 "http" ∨ url.scheme = utf8 "https") :
    ∃ proxy, (ProxyEnvironment.fromMap vars).resolve lib url = .ok proxy ∧
      proxy.map (Proxy.config lib) = resolveProxy lib ⟨none, proxies⟩ url .inherit := by
  refine ⟨_, resolve_eq lib hproxies hscheme, ?_⟩
  rw [resolveProxy_inherit]
  rfl

/-- The snapshot of the environment decides as the proxies made of it do; `http::Uri` decides
as `url::Url` does just under the condition above. -/
theorem proxy_decisions :
    (∀ vars proxies url, (ProxyEnvironment.fromMap vars).clientProxies lib = .ok proxies →
      url.scheme = utf8 "http" ∨ url.scheme = utf8 "https" →
      ∃ proxy, (ProxyEnvironment.fromMap vars).resolve lib url = .ok proxy ∧
        proxy.map (Proxy.config lib) = resolveProxy lib ⟨none, proxies⟩ url .inherit) ∧
    ∀ (client : ClientProxies) uri url origin, SameText uri url → HttpOrigin.fromUri uri = .ok origin →
      ((nativeWouldUseProxy lib client origin uri.port = true ↔ (resolveProxy lib client url .inherit).isSome) ↔
        ((∀ proxy ∈ client.undecided lib url.scheme (url.host.getD []) uri.port,
            proxy.hasRule (·.urlOnly url.scheme (url.host.getD []) uri.port) = true) ↔
          ∀ proxy ∈ client.undecided lib url.scheme (url.host.getD []) uri.port,
            proxy.hasRule (·.nativeOnly url.scheme (url.host.getD []) uri.port) = true)) :=
  ⟨fun vars _ _ hproxies hscheme => environment_agrees lib vars hproxies hscheme,
    fun client _ _ _ hsame horigin => native_agrees_iff lib client hsame horigin⟩

def secureUrl : Url := { scheme := utf8 "https", host := some (utf8 "example.com"), path := utf8 "/" }

/-- `https://example.com:443/` as `http::Uri` reads it. -/
def secureUri : Uri where
  scheme := some (utf8 "https")
  authority := some (utf8 "example.com:443")
  host := utf8 "example.com"
  port := some 443

theorem secure_sameText : SameText secureUri secureUrl :=
  ⟨by decide, by decide, by decide, by decide, fun h => absurd (by decide) h⟩

def exampleVars : List (Str × Str) := [("http_proxy", "proxy:8080"), ("NO_PROXY", "*")].map fun p => (utf8 p.1, utf8 p.2)

def exampleProxies : List Proxy := [{ uri := proxyUrl "proxy", rule := .http, bypass := some [.wildcard] }]

theorem proxy_decisions_example :
    (∃ proxy, (ProxyEnvironment.fromMap exampleVars).resolve exampleLibrary secureUrl = .ok proxy ∧
      proxy.map (Proxy.config exampleLibrary) = resolveProxy exampleLibrary ⟨none, exampleProxies⟩ secureUrl .inherit) ∧
    ((nativeWouldUseProxy exampleLibrary ⟨none, exampleProxies⟩ ⟨.https, utf8 "example.com", 443⟩ (some 443) = true ↔
        (resolveProxy exampleLibrary ⟨none, exampleProxies⟩ secureUrl .inherit).isSome) ↔
      ((∀ proxy ∈ (⟨none, exampleProxies⟩ : ClientProxies).undecided exampleLibrary secureUrl.scheme
            (utf8 "example.com") (some 443),
          proxy.hasRule (·.urlOnly secureUrl.scheme (utf8 "example.com") (some 443)) = true) ↔
        ∀ proxy ∈ (⟨none, exampleProxies⟩ : ClientProxies).undecided exampleLibrary secureUrl.scheme
            (utf8 "example.com") (some 443),
          proxy.hasRule (·.nativeOnly secureUrl.scheme (utf8 "example.com") (some 443)) = true)) :=
  ⟨(proxy_decisions exampleLibrary).1 exampleVars exampleProxies secureUrl rfl (.inr rfl),
    (proxy_decisions exampleLibrary).2 ⟨none, exampleProxies⟩ secureUri secureUrl ⟨.https, utf8 "example.com", 443⟩
      secure_sameText rfl⟩

/-- The rule for a default port bypasses the proxy for `http::Uri` alone. -/
theorem explicit_default_port_bypasses :
    ¬ ∀ (lib : Library) (s : Str) (rules : List NoProxyRule) (proxy : Proxy) (uri : Uri) (url : Url) (origin : HttpOrigin),
      parseRules lib s true = .ok rules → SameText uri url → HttpOrigin.fromUri uri = .ok origin →
        (nativeWouldUseProxy lib ⟨some { proxy with bypass := some rules }, []⟩ origin uri.port = true ↔
          (resolveProxy lib ⟨some { proxy with bypass := some rules }, []⟩ url .inherit).isSome) := by
  intro h
  have hiff := h exampleLibrary (utf8 "example.com:443") [.hostPortHttpx (utf8 "example.com") 443]
    { uri := proxyUrl "proxy", rule := .all } secureUri secureUrl ⟨.https, utf8 "example.com", 443⟩ rfl secure_sameText rfl
  exact absurd (hiff.mpr (by decide)) (by decide)

end Eggfetch.Routing
