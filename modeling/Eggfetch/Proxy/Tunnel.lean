import Eggfetch.Proxy.Wire

/-! How a request inside a tunnel names its destination. The pooled path gives Hyper a URI
without the port; the client's own writer takes the name from the request target, which inside
a tunnel has none. -/
namespace Eggfetch.Proxy
open Text Http

def slash : UInt8 := 0x2f

/-- An `https` URL as the `url` crate parses it: a host name, an address or one in brackets,
no default port, and a path from the root. -/
structure IsHttps (url : Url) (name : Str) : Prop where
  scheme : url.scheme = utf8 "https"
  host : url.host = some name
  name_plain : ∀ b ∈ utf8 "/?#@", b ∉ name
  name_colon : name.head? ≠ some 0x5b → colon ∉ name
  name_bracket : name.head? = some 0x5b → name.getLast? = some 0x5d
  port : url.port ≠ some 443
  path : url.path.head? = some slash
  path_clean : cr ∉ url.path
  query_clean : ∀ query ∈ url.query, cr ∉ query

def destinationAuthority (url : Url) : Str := withPort (url.host.getD []) (url.port.filter (· ≠ 443))

def Uri.defaultPort (uri : Uri) : Nat := if uri.scheme = utf8 "https" then 443 else 80

def Uri.authority (uri : Uri) : Str := withPort uri.host (uri.port.filter (· ≠ uri.defaultPort))

def hostValues (fields : List Field) : List Str := (fields.filter (·.name == host)).map Field.value

def Sent.hosts (lib : Library) : Sent → List Str
  | hyper request => hostValues (request.fields ++ lib.hyperAdds request)
  | wire bytes => hostValues (fieldsOf bytes)

/-- What the libraries do with authorities. -/
structure Library.ReadsAuthority (lib : Library) : Prop where
  /-- `Url::parse` has no base for a path. -/
  relative : ∀ text, text.head? = some slash → lib.parseUrl text = none
  origin : ∀ url name target uri, IsHttps url name → target.head? = some slash →
    lib.parseUri (utf8 "https" ++ utf8 "://" ++ name ++ target) = .ok uri → uri = ⟨utf8 "https", name, none⟩
  whole : ∀ url name uri, IsHttps url name → lib.parseUri (lib.asStr url) = .ok uri →
    uri = ⟨utf8 "https", name, url.port⟩
  /-- Hyper derives `Host` or `:authority` from the URI when the request has no `Host`. -/
  hyper : ∀ request : HyperRequest, hostValues (lib.hyperAdds request) =
    if request.fields.any (·.name == host) then [] else [request.uri.authority]

/-- The request names its destination once, and by whichever path it goes. -/
structure TunnelNamesAuthority (lib : Library) (request : ProxyRequest) : Prop where
  sent : ∀ s, sendProxyRoute lib true request = .ok s → s.hosts lib = [destinationAuthority request.url]
  same : ∀ hyper wire, sendHttpsConnectRequestHyper lib request = .ok hyper →
    sendHttpsConnectRequestOnce lib request = .ok wire → (Sent.hyper hyper).hosts lib = (Sent.wire wire).hosts lib

/-- The override is an absolute URL of the destination's authority. -/
def OverrideNames (lib : Library) (request : ProxyRequest) : Prop :=
  ∃ target parsed, request.target = some target ∧ lib.parseUrl target = some parsed ∧
    hostText parsed = destinationAuthority request.url

section
variable {lib : Library} {request : ProxyRequest} {name target wire : Str} {hyper : HyperRequest}

theorem hostValues_append (fields more : List Field) :
    hostValues (fields ++ more) = hostValues fields ++ hostValues more := by
  simp [hostValues]

theorem hostValues_of_names {fields : List Field} (h : ∀ field ∈ fields, field.name ≠ host) : hostValues fields = [] := by
  rw [hostValues, List.filter_eq_nil_iff.mpr (fun field hmem => by simpa using h field hmem)]
  rfl

theorem withPort_some_ne (name : Str) (port : Nat) : withPort name (some port) ≠ name := by
  intro h
  have hlength := congrArg List.length h
  have hcolon : (utf8 ":").length = 1 := by decide
  simp only [withPort, List.length_append, hcolon] at hlength
  omega

private theorem IsHttps.authority_eq (hurl : IsHttps request.url name) :
    destinationAuthority request.url = withPort name request.url.port := by
  rw [destinationAuthority, hurl.host]
  cases hport : request.url.port with
  | none => rfl
  | some port =>
    have hne : port ≠ 443 := fun heq => hurl.port (by rw [hport, heq])
    simp [Option.filter, hne]

/-- Without an override the target is a path. -/
theorem originUri_slash (hurl : IsHttps request.url name) (hnone : request.target = none)
    (htarget : originUri request = .ok target) : target.head? = some slash := by
  have hhead : ∀ more : Str, (request.url.path ++ more).head? = some slash := fun more => by
    rw [List.head?_append, hurl.path]
    rfl
  unfold originUri at htarget
  rw [hnone] at htarget
  dsimp only at htarget
  obtain rfl := Except.ok.inj htarget
  cases request.url.query with
  | none => exact hurl.path
  | some query =>
    dsimp only
    rw [List.append_assoc]
    exact hhead _

theorem originUri_override {override : Str} (hsome : request.target = some override)
    (htarget : originUri request = .ok target) : validateTarget override = .ok () ∧ target = override := by
  unfold originUri at htarget
  rw [hsome] at htarget
  dsimp only [bind, Except.bind] at htarget
  cases hvalid : validateTarget override with
  | error e =>
    rw [hvalid] at htarget
    cases htarget
  | ok value =>
    rw [hvalid] at htarget
    dsimp only at htarget
    unfold targetExtensionStr at htarget
    split at htarget
    · cases htarget
    · exact ⟨rfl, (Except.ok.inj htarget).symm⟩

theorem cr_not_mem_originUri (hurl : IsHttps request.url name) (htarget : originUri request = .ok target) : cr ∉ target := by
  cases hoverride : request.target with
  | some override =>
    obtain ⟨hvalid, rfl⟩ := originUri_override hoverride htarget
    exact cr_not_mem_of_validateTarget hvalid
  | none =>
    unfold originUri at htarget
    rw [hoverride] at htarget
    dsimp only at htarget
    obtain rfl := Except.ok.inj htarget
    cases hquery : request.url.query with
    | none => exact hurl.path_clean
    | some query =>
      have hmark : cr ∉ utf8 "?" := by decide
      have hclean := hurl.query_clean query hquery
      simp [hurl.path_clean, hmark, hclean]

private theorem hyper_hosts (hlib : lib.ReadsAuthority) (hhost : request.headers.contains host = false)
    (hfields : hyper.fields = request.headers.iter) : (Sent.hyper hyper).hosts lib = [hyper.uri.authority] := by
  have hnames := contains_eq_false.mp hhost
  have hany : hyper.fields.any (·.name == host) = false := by rw [hfields]; exact hhost
  rw [Sent.hosts, hostValues_append, hlib.hyper, hany, hfields, hostValues_of_names hnames]
  rfl

private theorem parseRequestUri_ok {message uri : Str} {parsed : Uri} (h : parseRequestUri lib message uri = .ok parsed) :
    lib.parseUri uri = .ok parsed := by
  unfold parseRequestUri at h
  cases hparse : lib.parseUri uri with
  | error e =>
    rw [hparse] at h
    cases h
  | ok uri =>
    rw [hparse] at h
    cases h
    rfl

/-- Hyper is given the bare host as authority, or the whole URL when the target is no path. -/
theorem pooled_hosts (hlib : lib.ReadsAuthority) (hurl : IsHttps request.url name)
    (hhost : request.headers.contains host = false) (htarget : originUri request = .ok target)
    (hsend : sendHttpsConnectRequestHyper lib request = .ok hyper) :
    (Sent.hyper hyper).hosts lib =
      [if target.head? = some slash then name else destinationAuthority request.url] := by
  unfold sendHttpsConnectRequestHyper at hsend
  simp only [htarget, bind, Except.bind, hurl.scheme, hurl.host, Option.getD_some] at hsend
  by_cases hslash : target.head? = some slash
  · rw [if_pos (show target.head? = some 0x2f from hslash)] at hsend
    cases hparse : parseRequestUri lib (utf8 "invalid CONNECT target: ") (utf8 "https" ++ utf8 "://" ++ name ++ target) with
    | error e =>
      rw [hparse] at hsend
      cases hsend
    | ok uri =>
      rw [hparse] at hsend
      obtain rfl := Except.ok.inj hsend
      rw [hyper_hosts hlib hhost rfl, hlib.origin request.url name target uri hurl hslash (parseRequestUri_ok hparse),
        if_pos hslash]
      rfl
  · rw [if_neg (show ¬ target.head? = some 0x2f from hslash)] at hsend
    cases hparse : parseRequestUri lib (utf8 "invalid CONNECT target: ") (lib.asStr request.url) with
    | error e =>
      rw [hparse] at hsend
      cases hsend
    | ok uri =>
      rw [hparse] at hsend
      obtain rfl := Except.ok.inj hsend
      rw [hyper_hosts hlib hhost rfl, hlib.whole request.url name uri hurl (parseRequestUri_ok hparse), if_neg hslash,
        destinationAuthority, hurl.host]
      rfl

/-- The writer names what the target names as an absolute URL, or nothing. -/
theorem manual_hosts (hclean : lib.Clean) (hurl : IsHttps request.url name)
    (hhost : request.headers.contains host = false) (htarget : originUri request = .ok target)
    (hsend : sendHttpsConnectRequestOnce lib request = .ok wire) :
    (Sent.wire wire).hosts lib = ((lib.parseUrl target).map hostText).toList := by
  unfold sendHttpsConnectRequestOnce at hsend
  simp only [htarget, bind, Except.bind] at hsend
  have hfields := fieldsOf_write hclean request.method_token (cr_not_mem_originUri hurl htarget) hsend
  have horigin : hostValues ((originFields request.headers).map Field.lower) = [] :=
    hostValues_of_names fun field hmem => by
      obtain ⟨written, hwritten, rfl⟩ := List.mem_map.mp hmem
      have hmem := (List.mem_filter.mp hwritten).1
      rw [HeaderMap.lower_eq hmem]
      exact contains_eq_false.mp hhost written hmem
  have hframing : hostValues ((framingFields request.body request.headers .empty).map Field.lower) = [] :=
    hostValues_of_names fun field hmem => by
      unfold framingFields at hmem
      split at hmem
      · obtain rfl := List.mem_singleton.mp hmem
        exact (by decide : toAsciiLowercase (utf8 "Transfer-Encoding") ≠ host)
      · cases hmem
  have hname : toAsciiLowercase (utf8 "Host") = host := by decide
  have hown : hostValues ((hostFields lib target request.headers).map Field.lower) =
      ((lib.parseUrl target).map hostText).toList := by
    rw [hostFields, hhost, if_neg Bool.false_ne_true]
    cases lib.parseUrl target with
    | none => rfl
    | some parsed => simp [hostValues, Field.lower, hname]
  have hproxy : proxyOnlyFields request.headers .empty = [] := rfl
  have hauth : authFields lib none = [] := rfl
  rw [Sent.hosts, hfields, writtenFields, hproxy, hauth]
  simp only [List.map_append, hostValues_append, hown, horigin, hframing, List.append_nil]

theorem name_eq_authority_iff (hurl : IsHttps request.url name) :
    name = destinationAuthority request.url ↔ request.url.port = none := by
  rw [hurl.authority_eq]
  cases request.url.port with
  | none => exact ⟨fun _ => rfl, fun _ => rfl⟩
  | some port => exact ⟨fun h => absurd h.symm (withPort_some_ne name port), (by intro h; cases h)⟩

private theorem overrideNames_iff (hlib : lib.ReadsAuthority) (hurl : IsHttps request.url name)
    (htarget : originUri request = .ok target) :
    OverrideNames lib request ↔ (lib.parseUrl target).map hostText = some (destinationAuthority request.url) := by
  constructor
  · rintro ⟨override, parsed, hoverride, hparse, hname⟩
    obtain ⟨-, rfl⟩ := originUri_override hoverride htarget
    rw [hparse, Option.map_some, hname]
  · intro hmap
    obtain ⟨parsed, hparse, hname⟩ := Option.map_eq_some_iff.mp hmap
    cases hoverride : request.target with
    | none =>
      rw [hlib.relative target (originUri_slash hurl hoverride htarget)] at hparse
      cases hparse
    | some override =>
      obtain ⟨-, rfl⟩ := originUri_override hoverride htarget
      exact ⟨target, parsed, hoverride, hparse, hname⟩

theorem originUri_of_once (h : sendHttpsConnectRequestOnce lib request = .ok wire) :
    ∃ target, originUri request = .ok target := by
  unfold sendHttpsConnectRequestOnce at h
  cases htarget : originUri request with
  | error e =>
    rw [htarget] at h
    cases h
  | ok target => exact ⟨target, rfl⟩

private theorem route_of_override (hlib : lib.ReadsAuthority) (hurl : IsHttps request.url name)
    (hnames : OverrideNames lib request) {s : Sent} (hsend : sendProxyRoute lib true request = .ok s)
    (hwire : sendHttpsConnectRequestOnce lib request = .ok wire) : s = .wire wire := by
  obtain ⟨override, parsed, hoverride, hparse, -⟩ := hnames
  have hslash : override.head? ≠ some slash := fun hslash => by
    rw [hlib.relative override hslash] at hparse
    cases hparse
  have hroute : usesConnectClient request = false := by
    have hne : (override.head? == some 0x2f) = false := beq_eq_false_iff_ne.mpr hslash
    rw [usesConnectClient, hoverride, Option.all_some, hne, Bool.false_and]
  have hhttp : utf8 "https" ≠ utf8 "http" := by decide
  unfold sendProxyRoute at hsend
  split at hsend
  · cases hsend
  · rw [hurl.scheme, if_neg hhttp, if_pos rfl, hroute] at hsend
    simp only [sendHttpsConnectRequest, Bool.false_eq_true, if_false, hwire, bind, Except.bind] at hsend
    exact (Except.ok.inj hsend).symm

private theorem originUri_of_hyper (h : sendHttpsConnectRequestHyper lib request = .ok hyper) :
    ∃ target, originUri request = .ok target := by
  unfold sendHttpsConnectRequestHyper at h
  cases htarget : originUri request with
  | error e =>
    rw [htarget] at h
    cases h
  | ok target => exact ⟨target, rfl⟩

private theorem absolute_iff (hurl : IsHttps request.url name) (htarget : originUri request = .ok target) :
    target.head? ≠ some slash ↔ ∃ override, request.target = some override ∧ override.head? ≠ some slash := by
  constructor
  · intro hslash
    cases hoverride : request.target with
    | none => exact absurd (originUri_slash hurl hoverride htarget) hslash
    | some override =>
      obtain ⟨-, rfl⟩ := originUri_override hoverride htarget
      exact ⟨target, rfl, hslash⟩
  · rintro ⟨override, hoverride, hslash⟩
    obtain ⟨-, rfl⟩ := originUri_override hoverride htarget
    exact hslash

theorem pooled_hosts_iff (hlib : lib.ReadsAuthority) (hurl : IsHttps request.url name)
    (hhost : request.headers.contains host = false) (hhyper : sendHttpsConnectRequestHyper lib request = .ok hyper) :
    (Sent.hyper hyper).hosts lib = [destinationAuthority request.url] ↔
      request.url.port = none ∨ ∃ override, request.target = some override ∧ override.head? ≠ some slash := by
  obtain ⟨target, htarget⟩ := originUri_of_hyper hhyper
  rw [pooled_hosts hlib hurl hhost htarget hhyper, ← absolute_iff hurl htarget, List.singleton_inj]
  by_cases hslash : target.head? = some slash
  · rw [if_pos hslash, name_eq_authority_iff hurl]
    exact ⟨.inl, fun h => h.resolve_right (not_not_intro hslash)⟩
  · rw [if_neg hslash]
    exact ⟨fun _ => .inr hslash, fun _ => rfl⟩

theorem manual_hosts_iff (hclean : lib.Clean) (hlib : lib.ReadsAuthority) (hurl : IsHttps request.url name)
    (hhost : request.headers.contains host = false) (hwire : sendHttpsConnectRequestOnce lib request = .ok wire) :
    (Sent.wire wire).hosts lib = [destinationAuthority request.url] ↔ OverrideNames lib request := by
  obtain ⟨target, htarget⟩ := originUri_of_once hwire
  rw [manual_hosts hclean hurl hhost htarget hwire, overrideNames_iff hlib hurl htarget]
  cases (lib.parseUrl target).map hostText with
  | none => exact ⟨(by intro h; cases h), (by intro h; cases h)⟩
  | some text => rw [Option.toList_some, List.singleton_inj, Option.some_inj]

private theorem overrideNames_of_same (hclean : lib.Clean) (hlib : lib.ReadsAuthority) (hurl : IsHttps request.url name)
    (hhost : request.headers.contains host = false) (hhyper : sendHttpsConnectRequestHyper lib request = .ok hyper)
    (hwire : sendHttpsConnectRequestOnce lib request = .ok wire) (hnames : TunnelNamesAuthority lib request) :
    OverrideNames lib request := by
  obtain ⟨target, htarget⟩ := originUri_of_once hwire
  have hpooled := pooled_hosts hlib hurl hhost htarget hhyper
  have hsame := hnames.same hyper wire hhyper hwire
  by_cases hslash : target.head? = some slash
  · have hmanual := manual_hosts hclean hurl hhost htarget hwire
    rw [hlib.relative target hslash] at hmanual
    rw [hpooled, hmanual] at hsame
    cases hsame
  · rw [if_neg hslash] at hpooled
    exact (manual_hosts_iff hclean hlib hurl hhost hwire).mp (hsame.symm.trans hpooled)

private theorem namesAuthority_of_override (hclean : lib.Clean) (hlib : lib.ReadsAuthority) (hurl : IsHttps request.url name)
    (hhost : request.headers.contains host = false) (hwire : sendHttpsConnectRequestOnce lib request = .ok wire)
    (hnames : OverrideNames lib request) : TunnelNamesAuthority lib request where
  sent s hsend := by
    rw [route_of_override hlib hurl hnames hsend hwire]
    exact (manual_hosts_iff hclean hlib hurl hhost hwire).mpr hnames
  same hyper' wire' hhyper' hwire' := by
    obtain ⟨override, parsed, hoverride, hparse, -⟩ := id hnames
    have hslash : override.head? ≠ some slash := fun hslash => by
      rw [hlib.relative override hslash] at hparse
      cases hparse
    have hpooled := (pooled_hosts_iff hlib hurl hhost hhyper').mpr (.inr ⟨override, hoverride, hslash⟩)
    exact hpooled.trans ((manual_hosts_iff hclean hlib hurl hhost hwire').mpr hnames).symm

end

/-- For every `https` URL and every request without a `Host`: the pooled path is right for the
default port or with an absolute override, the writer only with an override that names the
destination, and the two agree only with such an override. -/
theorem tunnel_authority_iff {lib : Library} {request : ProxyRequest} {name : Str}
    (hclean : lib.Clean) (hlib : lib.ReadsAuthority) (hurl : IsHttps request.url name)
    (hhost : request.headers.contains host = false) :
    (∀ hyper, sendHttpsConnectRequestHyper lib request = .ok hyper →
      ((Sent.hyper hyper).hosts lib = [destinationAuthority request.url] ↔
        request.url.port = none ∨ ∃ override, request.target = some override ∧ override.head? ≠ some slash)) ∧
    (∀ wire, sendHttpsConnectRequestOnce lib request = .ok wire →
      ((Sent.wire wire).hosts lib = [destinationAuthority request.url] ↔ OverrideNames lib request)) ∧
    (∀ hyper wire, sendHttpsConnectRequestHyper lib request = .ok hyper →
      sendHttpsConnectRequestOnce lib request = .ok wire →
      (TunnelNamesAuthority lib request ↔ OverrideNames lib request)) :=
  ⟨fun _ hhyper => pooled_hosts_iff hlib hurl hhost hhyper,
    fun _ hwire => manual_hosts_iff hclean hlib hurl hhost hwire,
    fun _ _ hhyper hwire => ⟨fun hnames => overrideNames_of_same hclean hlib hurl hhost hhyper hwire hnames,
      fun hnames => namesAuthority_of_override hclean hlib hurl hhost hwire hnames⟩⟩

def serviceUrl : Url :=
  { scheme := utf8 "https", host := some (utf8 "example.com"), port := some 8443, path := utf8 "/" }

def serviceText : Str := utf8 "https://example.com:8443/"

/-- The libraries as far as requests to the service use them. -/
def serviceLibrary : Library where
  parseUrl text := if text = serviceText then some serviceUrl else none
  asStr url := if url = serviceUrl then serviceText else []
  parseUri text :=
    if text = serviceText then .ok ⟨utf8 "https", utf8 "example.com", some 8443⟩
    else if text = utf8 "https://example.com/" then .ok ⟨utf8 "https", utf8 "example.com", none⟩
    else .error (utf8 "invalid uri character")
  base64 _ := []
  hyperAdds request := if request.fields.any (·.name == host) then [] else [⟨host, request.uri.authority⟩]

set_option maxRecDepth 2000 in
theorem isHttps_service : IsHttps serviceUrl (utf8 "example.com") where
  scheme := rfl
  host := rfl
  name_plain := by decide
  name_colon _ := by decide
  name_bracket := by decide
  port := by decide
  path := by decide
  path_clean := by decide
  query_clean := (by intro _ h; cases h)

theorem serviceLibrary_clean : serviceLibrary.Clean where
  asStr url := by
    simp only [serviceLibrary]
    split
    · exact (by decide : cr ∉ serviceText)
    · exact List.not_mem_nil
  host text parsed h := by
    simp only [serviceLibrary] at h
    split at h
    · obtain rfl := Option.some.inj h
      decide
    · cases h
  base64 _ := List.not_mem_nil

private theorem name_of_text {url : Url} {name target text : Str} (hurl : IsHttps url name) (hslash : target.head? = some slash)
    (htext : utf8 "https" ++ utf8 "://" ++ name ++ target = utf8 "https" ++ utf8 "://" ++ text) :
    name = (splitOnce slash text).1 := by
  obtain ⟨rest, rfl⟩ : ∃ rest, target = slash :: rest := List.head?_eq_some_iff.mp hslash
  rw [List.append_assoc] at htext
  rw [← List.append_cancel_left htext, splitOnce_append (hurl.name_plain slash (by decide))]

private theorem serviceLibrary_reads : serviceLibrary.ReadsAuthority where
  relative text h := by
    have hne : text ≠ serviceText := fun heq => by
      rw [heq] at h
      revert h
      decide
    simp only [serviceLibrary, if_neg hne]
  origin url name target uri hurl hslash h := by
    simp only [serviceLibrary] at h
    split at h
    · rename_i htext
      have hname : name = utf8 "example.com:8443" := name_of_text hurl hslash htext
      refine absurd ?_ (hurl.name_colon ?_)
      · rw [hname]
        decide
      · rw [hname]
        decide
    · split at h
      · rename_i htext
        have hname : name = utf8 "example.com" := name_of_text hurl hslash htext
        rw [hname]
        exact (Except.ok.inj h).symm
      · cases h
  whole url name uri hurl h := by
    by_cases hservice : url = serviceUrl
    · subst hservice
      obtain rfl : utf8 "example.com" = name := Option.some.inj hurl.host
      exact (Except.ok.inj h).symm
    · have htext : serviceLibrary.asStr url = [] := if_neg hservice
      rw [htext] at h
      cases h
  hyper request := by
    simp only [serviceLibrary]
    split
    · rfl
    · rfl

def serviceRequest (target : Option Str) : ProxyRequest where
  url := serviceUrl
  method := utf8 "GET"
  method_token := get_token
  headers := .empty
  body := .empty
  version := .http11
  auth := none
  proxyHeaders := .empty
  target := target
  proxiedTarget := none
  http2Only := false

set_option maxRecDepth 20000 in
/-- With the whole URL as target the request names the service. -/
theorem service_named_by_override : TunnelNamesAuthority serviceLibrary (serviceRequest (some serviceText)) :=
  ((tunnel_authority_iff serviceLibrary_clean serviceLibrary_reads isHttps_service rfl).2.2
    ⟨utf8 "GET", ⟨utf8 "https", utf8 "example.com", some 8443⟩, .http11, [], .empty⟩
    (utf8 "GET https://example.com:8443/ HTTP/1.1\r\nHost: example.com:8443\r\n\r\n") rfl rfl).mpr
      ⟨serviceText, serviceUrl, rfl, rfl, rfl⟩

set_option maxRecDepth 20000 in
/-- Without an override the pooled path names port 443. -/
theorem service_port_lost : ¬ TunnelNamesAuthority serviceLibrary (serviceRequest none) := by
  intro hnames
  have hhosts := hnames.sent
    (.hyper ⟨utf8 "GET", ⟨utf8 "https", utf8 "example.com", none⟩, .http11, [], .empty⟩) rfl
  revert hhosts
  decide

end Eggfetch.Proxy
