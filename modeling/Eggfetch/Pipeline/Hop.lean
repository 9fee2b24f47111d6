import Eggfetch.Pipeline.Request

/-! Hop preparation of `pipeline/hop.rs`, shared by the lean path and the redirect loop,
with the auth resolution of `auth.rs`. -/
namespace Eggfetch.Pipeline
open Text Http

def authorization : Str := utf8 "authorization"
def proxyAuthorization : Str := utf8 "proxy-authorization"
def cookie : Str := utf8 "cookie"
def host : Str := utf8 "host"

variable {O J : Type}

structure HopBuildParams (O : Type) where
  method : Method
  url : Url
  headers : Headers
  body : RequestBody
  version : Version
  timeout : Timeout
  options : O
  transportHints : TransportHints
  proxiedTarget : Option ResolvedTarget
  auth : Option AuthScheme
  authDisabled : Bool
  isFirstHop : Bool
  preserveResolvedTarget : Bool
  credentialsAllowed : Bool
  cookieAllowed : Bool

/-- Request headers replace the client's default headers of the same name. -/
def mergedHeaders (config : ClientConfig) (request : Request O) : Headers :=
  config.defaultHeaders.replaceBy request.headers

def prepareFirstHop (config : ClientConfig) (request : Request O) : HopBuildParams O where
  method := request.method
  url := request.url
  headers := mergedHeaders config request
  body := request.body
  version := request.version
  timeout := match config.timeout with
    | some clientTimeout => clientTimeout.merge request.timeout
    | none => request.timeout.getD {}
  options := request.options
  transportHints := request.transportHints
  proxiedTarget := request.proxiedTarget
  auth := request.auth
  authDisabled := request.authDisabled
  isFirstHop := true
  preserveResolvedTarget := false
  credentialsAllowed := true
  cookieAllowed := true

def AuthScheme.apply (auth : AuthScheme) (headers : Headers) : Except HeaderError Headers :=
  headers.insert authorization auth.headerValue

def resolveRequestAuth (requestAuth : Option AuthScheme) (authDisabled : Bool)
    (clientAuth : Option AuthScheme) (headers : Headers) : Except Error (Option AuthScheme) :=
  if headers.contains authorization then
    if requestAuth.isSome || clientAuth.isSome then .error .conflictingAuth else .ok none
  else
    match requestAuth with
    | some auth => .ok (some auth)
    | none => if authDisabled then .ok none else .ok clientAuth

def HopBuildParams.withCookies (store : CookieStore J) (jar : J) (params : HopBuildParams O) :
    Except Error (Headers × J) :=
  if !params.cookieAllowed then .ok (params.headers.remove cookie, jar)
  else if params.headers.contains cookie then .ok (params.headers, jar)
  else
    match store.cookiesForUrl jar params.url with
    | (none, jar) => .ok (params.headers, jar)
    | (some header, jar) =>
      match params.headers.insert cookie header with
      | .ok headers => .ok (headers, jar)
      | .error e => .error (.header e)

/-- The wire hints of the hop: all on the first one; the resolved destination, with its SNI
name, on a later one that keeps it. -/
def HopBuildParams.hopHints (params : HopBuildParams O) : TransportHints :=
  if params.isFirstHop then params.transportHints
  else if params.preserveResolvedTarget then
    { resolvedTarget := params.transportHints.resolvedTarget
      sniHostname := params.transportHints.sniHostname }
  else {}

def HopBuildParams.request (params : HopBuildParams O) (headers : Headers) : Request O where
  method := params.method
  url := params.url
  headers := headers
  body := params.body
  version := params.version
  timeout := some params.timeout
  auth := if params.credentialsAllowed then params.auth else none
  authDisabled := params.authDisabled
  options := params.options
  transportHints := params.hopHints
  proxiedTarget :=
    if params.isFirstHop || params.preserveResolvedTarget then params.proxiedTarget else none

def buildHopRequest (store : CookieStore J) (config : ClientConfig) (jar : J)
    (params : HopBuildParams O) : Except Error (Request O × J) :=
  match params.withCookies store jar with
  | .error e => .error e
  | .ok (headers, jar) =>
    let requestAuth := if params.credentialsAllowed then params.auth else none
    let clientAuth := if params.credentialsAllowed then config.auth else none
    match resolveRequestAuth requestAuth params.authDisabled clientAuth headers with
    | .error e => .error e
    | .ok none => .ok (params.request headers, jar)
    | .ok (some auth) =>
      match auth.apply headers with
      | .error e => .error (.header e)
      | .ok headers => .ok (params.request headers, jar)

/-- The jar after a response; values that are no visible ASCII are skipped. -/
def updateCookieJar (store : CookieStore J) (jar : J) (response : Response) : J :=
  let setCookieHeaders := (response.headers.getAll (utf8 "set-cookie")).filter isVisibleAscii
  if setCookieHeaders.isEmpty then jar else store.updateFromResponse jar response.url setCookieHeaders

variable {store : CookieStore J} {config : ClientConfig} {params : HopBuildParams O} {jar jar' : J}
  {headers : Headers} {hop : Request O}

@[simp] theorem getAll_mergedHeaders (config : ClientConfig) (request : Request O) (name : Str) :
    (mergedHeaders config request).getAll name =
      if request.headers.contains name then request.headers.getAll name
      else config.defaultHeaders.getAll name := rfl

theorem withCookies_ok (h : params.withCookies store jar = .ok (headers, jar')) {name : Str}
    (hne : name ≠ cookie) : headers.getAll name = params.headers.getAll name := by
  unfold HopBuildParams.withCookies at h
  split at h
  · obtain ⟨rfl, -⟩ := Prod.mk.inj (Except.ok.inj h)
    exact Headers.getAll_set_of_ne hne
  · split at h
    · obtain ⟨rfl, -⟩ := Prod.mk.inj (Except.ok.inj h)
      rfl
    · split at h
      · obtain ⟨rfl, -⟩ := Prod.mk.inj (Except.ok.inj h)
        rfl
      · split at h
        · rename_i hins
          obtain ⟨rfl, -⟩ := Prod.mk.inj (Except.ok.inj h)
          rw [Headers.insert_ok hins]
          exact Headers.getAll_set_of_ne hne
        · cases h

private theorem resolveRequestAuth_ok {requestAuth clientAuth effective : Option AuthScheme} {disabled : Bool}
    (h : resolveRequestAuth requestAuth disabled clientAuth headers = .ok effective) :
    (headers.getAll authorization ≠ [] ∧ effective = none) ∨
      (headers.getAll authorization = [] ∧
        effective = (requestAuth <|> if disabled then none else clientAuth)) := by
  unfold resolveRequestAuth at h
  split at h
  · rename_i hcontains
    split at h
    · cases h
    · exact .inl ⟨by simpa [Headers.contains] using hcontains, (Except.ok.inj h).symm⟩
  · rename_i hcontains
    refine .inr ⟨by simpa [Headers.contains] using hcontains, ?_⟩
    split at h
    · exact (Except.ok.inj h).symm
    · cases disabled <;> exact (Except.ok.inj h).symm

/-- A hop that may carry neither credentials nor cookies is its headers less the cookie. -/
theorem buildHopRequest_denied (hcredentials : params.credentialsAllowed = false)
    (hcookie : params.cookieAllowed = false) :
    buildHopRequest store config jar params = .ok (params.request (params.headers.remove cookie), jar) := by
  have hcookies : params.withCookies store jar = .ok (params.headers.remove cookie, jar) := by
    simp [HopBuildParams.withCookies, hcookie]
  have hauth : ∀ headers, resolveRequestAuth none params.authDisabled none headers = .ok none := by
    intro headers
    unfold resolveRequestAuth
    split <;> simp
  simp only [buildHopRequest, hcookies, hcredentials, Bool.false_eq_true, if_false, hauth]

/-- A built hop is its parameters' request, with these `Authorization` values when it may
carry credentials. -/
theorem buildHopRequest_ok (h : buildHopRequest store config jar params = .ok (hop, jar')) :
    ∃ headers, hop = params.request headers ∧
      (params.credentialsAllowed = true →
        (params.headers.getAll authorization ≠ [] ∧
          headers.getAll authorization = params.headers.getAll authorization) ∨
        (params.headers.getAll authorization = [] ∧
          headers.getAll authorization =
            ((params.auth <|> if params.authDisabled then none else config.auth).map (·.headerValue)).toList)) := by
  unfold buildHopRequest at h
  split at h
  · cases h
  · rename_i cookieHeaders _ hcookies
    have hsame := withCookies_ok hcookies (by decide : authorization ≠ cookie)
    dsimp only at h
    split at h
    · cases h
    · rename_i hresolve
      obtain ⟨rfl, -⟩ := Prod.mk.inj (Except.ok.inj h)
      refine ⟨cookieHeaders, rfl, fun hallowed => ?_⟩
      rw [hallowed, if_pos rfl, if_pos rfl] at hresolve
      rw [← hsame]
      rcases resolveRequestAuth_ok hresolve with ⟨hne, -⟩ | ⟨hempty, heffective⟩
      · exact .inl ⟨hne, rfl⟩
      · exact .inr ⟨hempty, by rw [← heffective, hempty]; rfl⟩
    · rename_i auth hresolve
      split at h
      · cases h
      · rename_i headers happly
        obtain ⟨rfl, -⟩ := Prod.mk.inj (Except.ok.inj h)
        refine ⟨headers, rfl, fun hallowed => ?_⟩
        rw [hallowed, if_pos rfl, if_pos rfl] at hresolve
        rw [← hsame]
        rcases resolveRequestAuth_ok hresolve with ⟨-, hnone⟩ | ⟨hempty, heffective⟩
        · cases hnone
        · refine .inr ⟨hempty, ?_⟩
          rw [← heffective, Headers.insert_ok happly]
          exact Headers.getAll_insertRaw_self

end Eggfetch.Pipeline
