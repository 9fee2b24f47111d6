import Eggfetch.Facade.Client

/-! What one dispatch puts on the wire: the last value of each of the facade's headers,
then the native client's default headers, then the native jar. -/
namespace Eggfetch.Facade
open Text Pipeline

variable {PJ J O : Type} {env : Env PJ J O} {client : Client PJ J} {native : Native J}
  {request : Request PJ} {now : Nat} {reply : Option Reply} {hop : Hop PJ J O}

/-- The values of a name when the native client merges the facade's headers with its
default ones. -/
def sentValues (defaultHeaders : Http.Headers) (headers : Headers) (name : Str) : List Str :=
  if headers.getList name = [] then defaultHeaders.getAll name
  else (headers.getList name).getLast?.toList

theorem sentValues_nil {defaultHeaders : Http.Headers} {headers : Headers} {name : Str} :
    sentValues defaultHeaders headers name = [] ↔
      headers.getList name = [] ∧ defaultHeaders.getAll name = [] := by
  unfold sentValues
  cases headers.getList name with
  | nil => simp
  | cons value values => simp [List.getLast?_cons]

/-- A dispatch that got its hop to the wire: the hop's jar, and the rest by the reply. -/
def Client.settle (env : Env PJ J O) (client : Client PJ J) (native : Native J) (hop : Hop PJ J O)
    (jar : J) : Option Reply → Sent PJ J O
  | none => ⟨some hop, .ok none, { client with native := some { native with jar := jar } }⟩
  | some reply =>
    match reply.result with
    | .error e =>
      ⟨some hop, .error (.native e), { client with native := some { native with jar := jar } }⟩
    | .ok response =>
      ⟨some hop, .ok (some response),
        { client with
          native := some { native with jar := updateCookieJar (env.store hop.now) jar response }
          cookies := env.extractCookies client.cookies hop.request.url response hop.now }⟩

section native
variable {store : CookieStore J} {config : ClientConfig} {params : HopBuildParams O} {jar jar' : J}
  {headers : Http.Headers}

theorem buildHopRequest_of_no_auth (store : CookieStore J) (jar : J) (hparams : params.auth = none)
    (hconfig : config.auth = none) :
    buildHopRequest store config jar params =
      match params.withCookies store jar with
      | .error e => .error e
      | .ok (headers, jar) => .ok (params.request headers, jar) := by
  have hauth : ∀ headers, resolveRequestAuth none params.authDisabled none headers = .ok none := by
    intro headers
    simp [resolveRequestAuth]
  cases hcookies : params.withCookies store jar with
  | error e => simp only [buildHopRequest, hcookies]
  | ok built => simp only [buildHopRequest, hcookies, hparams, hconfig, ite_self, hauth]

private theorem withCookies_reads (hallowed : params.cookieAllowed = true)
    (h : params.withCookies store jar = .ok (headers, jar')) :
    headers.getAll cookie =
        (if params.headers.getAll cookie = [] then (store.cookiesForUrl jar params.url).1.toList
        else params.headers.getAll cookie) ∧
      jar' = if params.headers.getAll cookie = [] then (store.cookiesForUrl jar params.url).2 else jar := by
  simp only [HopBuildParams.withCookies, hallowed, Bool.not_true, Bool.false_eq_true, if_false] at h
  by_cases hnone : params.headers.getAll cookie = []
  · rw [if_neg (by simp [Http.Headers.contains, hnone])] at h
    rw [if_pos hnone, if_pos hnone]
    rcases hread : store.cookiesForUrl jar params.url with ⟨_ | text, next⟩ <;> rw [hread] at h
    · obtain ⟨rfl, hjar⟩ := Prod.mk.inj (Except.ok.inj h)
      exact ⟨hnone, hjar.symm⟩
    · simp only at h
      split at h
      · rename_i hins
        obtain ⟨rfl, hjar⟩ := Prod.mk.inj (Except.ok.inj h)
        refine ⟨?_, hjar.symm⟩
        rw [Http.Headers.insert_ok hins]
        exact Http.Headers.getAll_insertRaw_self
      · cases h
  · rw [if_pos (by simpa [Http.Headers.contains] using hnone)] at h
    obtain ⟨rfl, hjar⟩ := Prod.mk.inj (Except.ok.inj h)
    rw [if_neg hnone, if_neg hnone]
    exact ⟨rfl, hjar.symm⟩

theorem withCookies_cookie (hallowed : params.cookieAllowed = true)
    (h : params.withCookies store jar = .ok (headers, jar')) :
    headers.getAll cookie =
      if params.headers.getAll cookie = [] then (store.cookiesForUrl jar params.url).1.toList
      else params.headers.getAll cookie := (withCookies_reads hallowed h).1

theorem withCookies_jar (hallowed : params.cookieAllowed = true)
    (h : params.withCookies store jar = .ok (headers, jar')) :
    jar' = if params.headers.getAll cookie = [] then (store.cookiesForUrl jar params.url).2 else jar :=
  (withCookies_reads hallowed h).2

theorem addContentType_of_ne {value : Option Str} {headers' : Http.Headers}
    (h : addContentType headers value = .ok headers') {name : Str} (hne : name ≠ contentType) :
    headers'.getAll name = headers.getAll name := by
  cases value with
  | none =>
    cases h
    rfl
  | some value =>
    rw [addContentType] at h
    by_cases hcontains : headers.contains contentType
    · rw [if_pos hcontains] at h
      cases h
      rfl
    · rw [if_neg hcontains] at h
      rw [Http.Headers.insert_ok h]
      exact Http.Headers.getAll_set_of_ne hne

theorem addContentType_self {value : Option Str} {headers' : Http.Headers}
    (h : addContentType headers value = .ok headers') :
    headers'.getAll contentType =
      if headers.getAll contentType = [] then value.toList else headers.getAll contentType := by
  cases value with
  | none =>
    cases h
    split_ifs with hnone
    · exact hnone
    · rfl
  | some value =>
    rw [addContentType] at h
    by_cases hcontains : headers.contains contentType
    · rw [if_pos hcontains] at h
      cases h
      rw [if_neg (by simpa [Http.Headers.contains] using hcontains)]
    · rw [if_neg hcontains] at h
      rw [if_pos (by simpa [Http.Headers.contains] using hcontains), Http.Headers.insert_ok h]
      exact Http.Headers.getAll_insertRaw_self

end native

theorem nativeRequest_ok {nativeRequest' : Pipeline.Request O}
    (h : nativeRequest env native request = .ok nativeRequest') :
    ∃ converted headers, pythonHeadersToRust request.headers.multiItems = .ok converted ∧
      addContentType converted (nativeBody env request.body).1 = .ok headers ∧
      nativeRequest'.headers = headers ∧ nativeRequest'.auth = none ∧
      nativeRequest'.redirect = some { native.redirect with follow := false } := by
  unfold nativeRequest at h
  split at h
  · cases h
  · split at h
    · cases h
    · rename_i converted hconverted
      split at h
      · cases h
      · rename_i headers hheaders
        split at h
        · cases h
        · cases h
          exact ⟨converted, headers, hconverted, hheaders, rfl, rfl, rfl⟩

theorem nativeRequest_url {nativeRequest' : Pipeline.Request O}
    (h : nativeRequest env native request = .ok nativeRequest') :
    env.parse request.url.text = .ok nativeRequest'.url := by
  unfold nativeRequest at h
  split at h
  · cases h
  · rename_i url hparse
    split at h
    · cases h
    · split at h
      · cases h
      · split at h
        · cases h
        · cases h
          exact hparse

@[simp] theorem Client.settle_hop (jar : J) :
    (client.settle env native hop jar reply).hop = some hop := by
  cases reply with
  | none => rfl
  | some reply => cases hresult : reply.result <;> simp only [settle, hresult]

private theorem dispatch_of_build {nativeRequest' : Pipeline.Request O} {headers : Http.Headers} {jar : J}
    (hensure : client.ensureClient env = .ok native)
    (hrequest : nativeRequest env native request = .ok nativeRequest')
    (hbuild : buildHopRequest (env.store now) native.config native.jar
      (prepareFirstHop native.config nativeRequest') =
        .ok ((prepareFirstHop native.config nativeRequest').request headers, jar)) :
    client.dispatch env request now reply =
      client.settle env native ⟨now, request, native.jar,
        (prepareFirstHop native.config nativeRequest').request headers⟩ jar reply := by
  obtain ⟨-, -, -, -, -, -, hredirect⟩ := nativeRequest_ok hrequest
  have hsend : ∀ replies, sendWithRedirects (env.store now) env.join native.config native.jar
      nativeRequest' 0 replies = sendFirstHop (env.store now) native.config native.jar
        (prepareFirstHop native.config nativeRequest') replies := by
    intro replies
    rw [sendWithRedirects, hredirect]
    rfl
  simp only [Client.dispatch, hensure, hrequest, hsend, sendFirstHop, hbuild]
  cases reply with
  | none => rfl
  | some reply => cases hresult : reply.result <;> simp [Client.settle, hresult]

/-- A dispatch ends in an error, or its hop comes from the native client's first-hop path. -/
theorem dispatch_cases (env : Env PJ J O) (client : Client PJ J) (request : Request PJ) (now : Nat)
    (reply : Option Reply) :
    ((client.dispatch env request now reply).hop = none ∧
      ∃ e, (client.dispatch env request now reply).result = .error e) ∨
    ∃ native nativeRequest' headers jar, client.ensureClient env = .ok native ∧
      nativeRequest env native request = .ok nativeRequest' ∧
      (prepareFirstHop native.config nativeRequest').withCookies (env.store now) native.jar =
        .ok (headers, jar) ∧
      client.dispatch env request now reply =
        client.settle env native ⟨now, request, native.jar,
          (prepareFirstHop native.config nativeRequest').request headers⟩ jar reply := by
  cases hensure : client.ensureClient env with
  | error e => exact .inl ⟨by simp [Client.dispatch, hensure], e, by simp [Client.dispatch, hensure]⟩
  | ok native =>
    cases hrequest : nativeRequest env native request with
    | error e =>
      exact .inl ⟨by simp [Client.dispatch, hensure, hrequest], e,
        by simp [Client.dispatch, hensure, hrequest]⟩
    | ok nativeRequest' =>
      obtain ⟨-, -, -, -, -, hauth, hredirect⟩ := nativeRequest_ok hrequest
      have hbuild : buildHopRequest (env.store now) native.config native.jar
          (prepareFirstHop native.config nativeRequest') = _ :=
        buildHopRequest_of_no_auth (env.store now) native.jar hauth rfl
      cases hcookies : (prepareFirstHop native.config nativeRequest').withCookies (env.store now)
          native.jar with
      | error e =>
        rw [hcookies] at hbuild
        refine .inl ⟨?_, .native e, ?_⟩ <;>
          simp [Client.dispatch, hensure, hrequest, sendWithRedirects, hredirect, sendFirstHop, hbuild]
      | ok built =>
        obtain ⟨headers, jar⟩ := built
        rw [hcookies] at hbuild
        exact .inr ⟨native, nativeRequest', headers, jar, rfl, hrequest, hcookies,
          dispatch_of_build hensure hrequest hbuild⟩

theorem dispatch_spec (h : (client.dispatch env request now reply).hop = some hop) :
    ∃ native nativeRequest' headers jar, client.ensureClient env = .ok native ∧
      nativeRequest env native request = .ok nativeRequest' ∧
      (prepareFirstHop native.config nativeRequest').withCookies (env.store now) native.jar =
        .ok (headers, jar) ∧
      hop = ⟨now, request, native.jar, (prepareFirstHop native.config nativeRequest').request headers⟩ ∧
      client.dispatch env request now reply = client.settle env native hop jar reply := by
  rcases dispatch_cases env client request now reply with ⟨hnone, -⟩ |
    ⟨native, nativeRequest', headers, jar, hensure, hrequest, hcookies, hdispatch⟩
  · rw [hnone] at h
    cases h
  · rw [hdispatch, Client.settle_hop, Option.some.injEq] at h
    rw [h] at hdispatch
    exact ⟨native, nativeRequest', headers, jar, hensure, hrequest, hcookies, h.symm, hdispatch⟩

theorem dispatch_url (h : (client.dispatch env request now reply).hop = some hop) :
    env.parse request.url.text = .ok hop.built.url := by
  obtain ⟨_, _, _, _, _, hrequest, _, rfl, _⟩ := dispatch_spec h
  rw [nativeRequest_url hrequest]
  rfl

theorem dispatch_request (h : (client.dispatch env request now reply).hop = some hop) :
    hop.request = request ∧ hop.now = now := by
  obtain ⟨_, _, _, _, _, _, _, rfl, _⟩ := dispatch_spec h
  exact ⟨rfl, rfl⟩

/-- A response is the reply's. -/
theorem dispatch_response {reply : Reply} {response : Response}
    (h : (client.dispatch env request now (some reply)).result = .ok (some response)) :
    reply.result = .ok response := by
  rcases dispatch_cases env client request now (some reply) with ⟨-, e, herror⟩ |
    ⟨_, _, _, _, -, -, -, hdispatch⟩
  · rw [herror] at h
    cases h
  · rw [hdispatch] at h
    cases hresult : reply.result with
    | error e =>
      simp only [Client.settle, hresult] at h
      cases h
    | ok answer =>
      simp only [Client.settle, hresult, Except.ok.injEq, Option.some.injEq] at h
      rw [h]

theorem dispatch_hop_of_ok {result : Option Response}
    (h : (client.dispatch env request now reply).result = .ok result) :
    ∃ hop, (client.dispatch env request now reply).hop = some hop := by
  rcases dispatch_cases env client request now reply with ⟨-, e, herror⟩ | ⟨_, _, _, _, -, -, -, hdispatch⟩
  · rw [herror] at h
    cases h
  · exact ⟨_, by rw [hdispatch, Client.settle_hop]⟩

/-- The merged headers of the native request. -/
theorem getAll_merged {nativeRequest' : Pipeline.Request O}
    (h : nativeRequest env native request = .ok nativeRequest') {name : Str}
    (htype : name ≠ contentType) :
    (mergedHeaders native.config nativeRequest').getAll name =
      sentValues native.defaultHeaders request.headers name := by
  obtain ⟨converted, merged, hconverted, htyped, hheaders, -, -⟩ := nativeRequest_ok h
  have hvalues : nativeRequest'.headers.getAll name = (request.headers.getList name).getLast?.toList := by
    rw [hheaders, addContentType_of_ne htyped htype, getAll_pythonHeadersToRust hconverted]
  rw [getAll_mergedHeaders, Http.Headers.contains, hvalues, sentValues]
  cases hlist : request.headers.getList name with
  | nil => rfl
  | cons value values =>
    rw [if_neg (List.cons_ne_nil _ _), if_pos (by simp [List.getLast?_cons])]

/-- The values of a header at the wire, but for the two that a dispatch may add. -/
theorem dispatch_getAll (h : (client.dispatch env request now reply).hop = some hop)
    (hensure : client.ensureClient env = .ok native) {name : Str} (hcookie : name ≠ cookie)
    (htype : name ≠ contentType) :
    hop.built.headers.getAll name = sentValues native.defaultHeaders request.headers name := by
  obtain ⟨native', nativeRequest', headers, jar, hensure', hrequest, hcookies, rfl, -⟩ :=
    dispatch_spec h
  obtain rfl : native' = native := Except.ok.inj (hensure'.symm.trans hensure)
  rw [← getAll_merged hrequest htype]
  exact withCookies_ok hcookies hcookie

/-- The `Cookie` header at the wire: the facade's, else the default one, else the jar's. -/
theorem dispatch_cookie (h : (client.dispatch env request now reply).hop = some hop)
    (hensure : client.ensureClient env = .ok native) :
    hop.built.headers.getAll cookie =
      if sentValues native.defaultHeaders request.headers cookie = [] then
        ((env.store now).cookiesForUrl hop.jar hop.built.url).1.toList
      else sentValues native.defaultHeaders request.headers cookie := by
  obtain ⟨native', nativeRequest', headers, jar, hensure', hrequest, hcookies, rfl, -⟩ :=
    dispatch_spec h
  obtain rfl : native' = native := Except.ok.inj (hensure'.symm.trans hensure)
  rw [← getAll_merged hrequest (by decide : cookie ≠ contentType)]
  exact withCookies_cookie rfl hcookies

/-- The content type at the wire: a multipart body brings its own to headers without one. -/
theorem dispatch_contentType (h : (client.dispatch env request now reply).hop = some hop)
    (hensure : client.ensureClient env = .ok native) :
    hop.built.headers.getAll contentType =
      if request.headers.getList contentType = [] ∧ (nativeBody env request.body).1.isSome then
        (nativeBody env request.body).1.toList
      else sentValues native.defaultHeaders request.headers contentType := by
  obtain ⟨native', nativeRequest', headers, jar, hensure', hrequest, hcookies, rfl, -⟩ :=
    dispatch_spec h
  obtain rfl : native' = native := Except.ok.inj (hensure'.symm.trans hensure)
  obtain ⟨converted, merged, hconverted, htyped, hheaders, -, -⟩ := nativeRequest_ok hrequest
  have hvalues := addContentType_self htyped
  rw [getAll_pythonHeadersToRust hconverted] at hvalues
  show headers.getAll contentType = _
  rw [withCookies_ok hcookies (by decide : contentType ≠ cookie)]
  show (mergedHeaders _ _).getAll contentType = _
  rw [getAll_mergedHeaders, Http.Headers.contains, hheaders, hvalues, sentValues]
  cases request.headers.getList contentType with
  | nil => cases (nativeBody env request.body).1 <;> simp [Native.config]
  | cons value values => simp [List.getLast?_cons]

end Eggfetch.Facade
