import Eggfetch.Retry.Logical
import Eggfetch.Text.Base64

/-! The credentials of `auth.rs`: which ones are accepted, the header that is made of them, and what the other side reads in the
requests of a send. -/
namespace Eggfetch.Retry
open Text Http Pipeline

inductive AuthError where
  | invalidAuthHeader (message : Str)
  deriving DecidableEq, Repr

def colon : UInt8 := 0x3a

def validateAuthBytes (bytes : Str) (fieldName : String) : Except AuthError Unit :=
  if 0x0d ∈ bytes then .error (.invalidAuthHeader (utf8 s!"auth {fieldName} must not contain CR"))
  else if 0x0a ∈ bytes then .error (.invalidAuthHeader (utf8 s!"auth {fieldName} must not contain LF"))
  else .ok ()

structure BasicAuth where
  username : Str
  password : Str
  noColon : colon ∉ username

def BasicAuth.new (username password : Str) : Except AuthError BasicAuth :=
  if h : colon ∈ username then .error (.invalidAuthHeader (utf8 "basic auth username must not contain ':'"))
  else
    match validateAuthBytes username "username" with
    | .error e => .error e
    | .ok () =>
      match validateAuthBytes password "password" with
      | .error e => .error e
      | .ok () => .ok ⟨username, password, h⟩

def bearerPrefix : Str := utf8 "Bearer "
def basicPrefix : Str := utf8 "Basic "

structure BearerAuth where
  token : Str
  valid : validateHeaderValue (bearerPrefix ++ token) = true

def BearerAuth.new (token : Str) : Except AuthError BearerAuth :=
  match validateAuthBytes token "token" with
  | .error e => .error e
  | .ok () =>
    if h : validateHeaderValue (bearerPrefix ++ token) = true then .ok ⟨token, h⟩
    else .error (.invalidAuthHeader (utf8 "auth token must contain only characters valid in an HTTP header"))

def BasicAuth.encodedCredentials (auth : BasicAuth) : Str :=
  (Base64.encode (auth.username ++ colon :: auth.password)).map fun c => UInt8.ofNat c.toNat

/-- The two kinds of `AuthScheme`. -/
inductive Credentials where
  | basic (auth : BasicAuth)
  | bearer (auth : BearerAuth)

def Credentials.headerValue : Credentials → Str
  | .basic auth => basicPrefix ++ auth.encodedCredentials
  | .bearer auth => bearerPrefix ++ auth.token

/-- What a server makes of an `Authorization` value: the user and the password around the first colon, or the token. -/
inductive Presented where
  | basic (username password : Str)
  | bearer (token : Str)
  deriving DecidableEq, Repr

def readAuthorization (value : Str) : Option Presented :=
  if basicPrefix <+: value then
    let decoded := Base64.decode ((value.drop basicPrefix.length).map fun b => Char.ofNat b.toNat)
    if colon ∈ decoded then
      some (.basic (decoded.takeWhile (· != colon)) ((decoded.dropWhile (· != colon)).drop 1))
    else none
  else if bearerPrefix <+: value then some (.bearer (value.drop bearerPrefix.length))
  else none

def Credentials.presented : Credentials → Presented
  | .basic auth => .basic auth.username auth.password
  | .bearer auth => .bearer auth.token

private theorem symbol_byte : ∀ n : Fin 64, Char.ofNat (UInt8.ofNat (Base64.symbol n).toNat).toNat = Base64.symbol n ∧
    validateHeaderValue [UInt8.ofNat (Base64.symbol n).toNat] = true := by decide

/-- The symbols of an encoding are bytes that a header value may hold. -/
theorem mem_encode (s : Str) : ∀ c ∈ Base64.encode s, Char.ofNat (UInt8.ofNat c.toNat).toNat = c ∧
    validateHeaderValue [UInt8.ofNat c.toNat] = true := Base64.forall_mem_encode symbol_byte (by decide) s

theorem validateHeaderValue_append (x y : Str) :
    validateHeaderValue (x ++ y) = (validateHeaderValue x && validateHeaderValue y) := by
  rw [validateHeaderValue, validateHeaderValue, validateHeaderValue, List.any_append, Bool.not_or]

private theorem encodedCredentials_valid (auth : BasicAuth) : validateHeaderValue auth.encodedCredentials = true := by
  have hEach : ∀ b ∈ auth.encodedCredentials, validateHeaderValue [b] = true := by
    intro b hMem
    obtain ⟨c, hc, rfl⟩ := List.mem_map.mp hMem
    exact (mem_encode _ c hc).2
  generalize auth.encodedCredentials = value at hEach
  induction value with
  | nil => rfl
  | cons b value ih =>
    obtain ⟨hByte, hRest⟩ := List.forall_mem_cons.mp hEach
    rw [← List.singleton_append, validateHeaderValue_append, hByte, ih hRest]
    rfl

private theorem headerValue_valid (c : Credentials) : validateHeaderValue c.headerValue = true := by
  cases c with
  | basic auth =>
    rw [Credentials.headerValue, validateHeaderValue_append, encodedCredentials_valid]
    decide
  | bearer auth => exact auth.valid

def Credentials.scheme (c : Credentials) : AuthScheme := ⟨c.headerValue, headerValue_valid c⟩

private theorem decode_encodedCredentials (auth : BasicAuth) :
    Base64.decode (auth.encodedCredentials.map fun b => Char.ofNat b.toNat) = auth.username ++ colon :: auth.password := by
  have hChars : (auth.encodedCredentials.map fun b => Char.ofNat b.toNat) =
      Base64.encode (auth.username ++ colon :: auth.password) := by
    rw [BasicAuth.encodedCredentials, List.map_map]
    refine (List.map_congr_left fun c hc => ?_).trans (List.map_id _)
    exact (mem_encode _ c hc).1
  rw [hChars, Base64.decode_encode]

private theorem readAuthorization_headerValue (c : Credentials) : readAuthorization c.headerValue = some c.presented := by
  cases c with
  | basic auth =>
    have hStops : ∀ b ∈ auth.username, (b != colon) = true := by
      intro b hb
      exact bne_iff_ne.mpr fun hEq => auth.noColon (hEq ▸ hb)
    rw [Credentials.headerValue, readAuthorization, if_pos (List.prefix_append _ _), List.drop_left, decode_encodedCredentials]
    dsimp only
    rw [if_pos (List.mem_append_right _ List.mem_cons_self), List.takeWhile_append_of_pos hStops,
      List.dropWhile_append_of_pos hStops]
    simp [Credentials.presented]
  | bearer auth =>
    have hNot : ¬ basicPrefix <+: bearerPrefix ++ auth.token := by
      rintro ⟨rest, hEq⟩
      have hBasic : (basicPrefix ++ rest)[1]? = some 0x61 := rfl
      have hBearer : (bearerPrefix ++ auth.token)[1]? = some 0x65 := rfl
      rw [hEq, hBearer] at hBasic
      exact absurd hBasic (by decide)
    rw [Credentials.headerValue, readAuthorization, if_neg hNot, if_pos (List.prefix_append _ _), List.drop_left]
    rfl

theorem validateAuthBytes_ok {bytes : Str} {fieldName : String} :
    validateAuthBytes bytes fieldName = .ok () ↔ 0x0d ∉ bytes ∧ 0x0a ∉ bytes := by
  unfold validateAuthBytes
  split_ifs with hCr hLf <;> simp [*]

theorem basicAuth_new_iff {username password : Str} :
    (∃ auth, BasicAuth.new username password = .ok auth ∧ auth.username = username ∧ auth.password = password) ↔
      colon ∉ username ∧ (∀ b ∈ username ++ password, b ≠ 0x0d ∧ b ≠ 0x0a) := by
  have hBytes : ∀ bytes : Str, (∀ b ∈ bytes, b ≠ 0x0d ∧ b ≠ 0x0a) ↔ 0x0d ∉ bytes ∧ 0x0a ∉ bytes := by
    intro bytes
    exact ⟨fun h => ⟨fun hMem => (h _ hMem).1 rfl, fun hMem => (h _ hMem).2 rfl⟩,
      fun h b hMem => ⟨fun hEq => h.1 (hEq ▸ hMem), fun hEq => h.2 (hEq ▸ hMem)⟩⟩
  rw [List.forall_mem_append, hBytes, hBytes]
  unfold BasicAuth.new
  by_cases hColon : colon ∈ username
  · simp [hColon]
  · rw [dif_neg hColon]
    cases hUsername : validateAuthBytes username "username" with
    | error e =>
      have hNot : ¬ (0x0d ∉ username ∧ 0x0a ∉ username) := fun h => by cases (validateAuthBytes_ok.mpr h).symm.trans hUsername
      simp [hNot]
    | ok u =>
      cases hPassword : validateAuthBytes password "password" with
      | error e =>
        have hNot : ¬ (0x0d ∉ password ∧ 0x0a ∉ password) := fun h => by cases (validateAuthBytes_ok.mpr h).symm.trans hPassword
        simp [hNot]
      | ok p =>
        exact iff_of_true ⟨⟨username, password, hColon⟩, rfl, rfl, rfl⟩
          ⟨hColon, validateAuthBytes_ok.mp hUsername, validateAuthBytes_ok.mp hPassword⟩

theorem bearerAuth_new_iff {token : Str} :
    (∃ auth, BearerAuth.new token = .ok auth ∧ auth.token = token) ↔ validateHeaderValue token = true := by
  have hPrefix : validateHeaderValue (bearerPrefix ++ token) = validateHeaderValue token := by
    rw [validateHeaderValue_append, show validateHeaderValue bearerPrefix = true by decide, Bool.true_and]
  unfold BearerAuth.new
  cases hBytes : validateAuthBytes token "token" with
  | error e =>
    refine iff_of_false (fun ⟨_, h, _⟩ => by cases h) fun hValid => ?_
    have hNot : 0x0d ∉ token ∧ 0x0a ∉ token := by
      constructor <;>
      · intro hMem
        rw [validateHeaderValue, Bool.not_eq_true', List.any_eq_false] at hValid
        exact hValid _ hMem (by decide)
    cases (validateAuthBytes_ok.mpr hNot).symm.trans hBytes
  | ok u =>
    dsimp only
    by_cases hValid : validateHeaderValue (bearerPrefix ++ token) = true
    · rw [dif_pos hValid]
      exact iff_of_true ⟨_, rfl, rfl⟩ (hPrefix ▸ hValid)
    · rw [dif_neg hValid]
      exact iff_of_false (fun ⟨_, h, _⟩ => by cases h) fun h => hValid (hPrefix.trans h)

section Send
variable {F O J : Type} {store : CookieStore J} {join : Join} {config : ClientConfig} {jar : J} {request : Request O}
  {elapsed : Duration} {replies : List Reply} {auth : AuthScheme}

private theorem buildHopRequest_unconflicted {params : HopBuildParams O} {hop : Request O} {jar' : J}
    (hAllowed : params.credentialsAllowed = true) (hAuth : params.auth = some auth)
    (h : buildHopRequest store config jar params = .ok (hop, jar')) : params.headers.getAll authorization = [] := by
  unfold buildHopRequest at h
  split at h
  · cases h
  · rename_i headers _ hCookies
    have hSame := withCookies_ok hCookies (by decide : authorization ≠ cookie)
    dsimp only at h
    rw [hAllowed, if_pos rfl, if_pos rfl, hAuth] at h
    by_cases hContains : headers.contains authorization = true
    · rw [resolveRequestAuth, if_pos hContains, Option.isSome_some, Bool.true_or, if_pos rfl] at h
      cases h
    · rw [← hSame]
      simpa [Headers.contains] using hContains

private theorem sendWithRedirects_conflict (hAuth : request.auth = some auth)
    (hExplicit : (mergedHeaders config request).getAll authorization ≠ []) :
    (sendWithRedirects store join config jar request elapsed replies).hops = [] := by
  cases hFollow : (request.redirect.getD config.redirect).follow with
  | false =>
    rw [sendWithRedirects_single hFollow]
    rcases sendFirstHop_hops store config jar (prepareFirstHop config request) replies with hNil | ⟨_, _, hBuild, _⟩
    · exact hNil
    · exact absurd (buildHopRequest_unconflicted rfl hAuth hBuild) hExplicit
  | true =>
    rw [sendWithRedirects_loop hFollow]
    have hPrep : ∀ l : LoopParams O J, l.params = prepareFirstHop config request → ∀ p,
        (LoopState.start (prepareFirstHop config request) jar).prepare l elapsed ≠ .ok p := by
      rintro l hParams ⟨hop, st'⟩ hOk
      unfold LoopState.prepare at hOk
      split at hOk
      · cases hOk
      · rename_i timeout _
        split at hOk
        · cases hOk
        · split at hOk
          · cases hOk
          · rename_i hBuild
            have hParam : (LoopState.hopParams l (LoopState.start (prepareFirstHop config request) jar).enter timeout).auth =
                some auth := by
              rw [LoopState.hopParams, hParams]
              exact hAuth
            exact hExplicit (buildHopRequest_unconflicted rfl hParam hBuild)
    rcases (LoopState.start (prepareFirstHop config request) jar).loop_cases
        ⟨store, join, config, request.redirect.getD config.redirect, prepareFirstHop config request⟩ elapsed replies with
      hNil | ⟨_, _, hOk, _⟩ | ⟨_, _, _, _, _, _, _, _, hOk, _⟩
    · exact hNil
    · exact absurd hOk (hPrep _ rfl _)
    · exact absurd hOk (hPrep _ rfl _)

private theorem sendWithRedirects_authorization (hAuth : request.auth = some auth) :
    ∀ hop ∈ beforeCrossing (sendWithRedirects store join config jar request elapsed replies).hops,
      hop.headers.getAll authorization = [auth.headerValue] := by
  intro hop hMem
  by_cases hExplicit : (mergedHeaders config request).getAll authorization = []
  · have hApplied : appliedAuthorization ((mergedHeaders config request).getAll authorization) request.auth request.authDisabled
        config.auth = [auth.headerValue] := by
      rw [appliedAuthorization, hExplicit, hAuth]
      rfl
    rw [← hApplied]
    cases hFollow : (request.redirect.getD config.redirect).follow with
    | true =>
      rw [sendWithRedirects_loop hFollow] at hMem
      refine (LoopState.start_uncrossed _ _).loop_kept ?_ elapsed replies hop hMem
      change ((mergedHeaders config request).getAll authorization).length ≤ 1
      rw [hExplicit]
      exact Nat.zero_le 1
    | false =>
      rw [sendWithRedirects_single hFollow] at hMem
      rcases sendFirstHop_hops store config jar (prepareFirstHop config request) replies with hNil | ⟨_, _, hBuild, hOne⟩
      · rw [hNil] at hMem
        cases hMem
      · rw [hOne] at hMem
        obtain rfl := List.mem_singleton.mp hMem
        obtain ⟨headers, rfl, hHeaders⟩ := buildHopRequest_ok hBuild
        rcases hHeaders rfl with ⟨hNe, -⟩ | ⟨-, hValues⟩
        · exact absurd hExplicit hNe
        · rw [hApplied]
          change headers.getAll authorization = _
          rw [hValues]
          change ((request.auth <|> _).map _).toList = _
          rw [hAuth]
          rfl
  · rw [sendWithRedirects_conflict hAuth hExplicit] at hMem
    cases hMem

end Send

/-- What the other side learns of credentials, and who does. -/
structure CredentialsRead {F O J : Type} (c : Credentials) (sender : Sender J F) (requestPolicy : Option (RetryPolicy F))
    (request : Request O) (jar : J) (turns : List (Turn F)) : Prop where
  basic : ∀ username password,
    (∃ auth, BasicAuth.new username password = .ok auth ∧ auth.username = username ∧ auth.password = password) ↔
      colon ∉ username ∧ (∀ b ∈ username ++ password, b ≠ 0x0d ∧ b ≠ 0x0a)
  bearer : ∀ token, (∃ auth, BearerAuth.new token = .ok auth ∧ auth.token = token) ↔ validateHeaderValue token = true
  /-- As long as an attempt stays on the caller's origin, its one `Authorization` value reads as the credentials. -/
  presented : ∀ a ∈ (sender.send requestPolicy { request with auth := some c.scheme } jar turns).attempts,
    ∀ hop ∈ beforeCrossing a.chain.hops, ∃ value, hop.headers.getAll authorization = [value] ∧
      readAuthorization value = some c.presented
  withheld : ∀ a ∈ (sender.send requestPolicy { request with auth := some c.scheme } jar turns).attempts,
    ∀ hop ∈ afterCrossing a.chain.hops, hop.headers.getAll authorization = [] ∧ hop.auth = none

/-- Accepted credentials arrive as they were given, in every attempt, and on the caller's origin only. -/
theorem credentials_read {F O J : Type} (c : Credentials) (sender : Sender J F) (requestPolicy : Option (RetryPolicy F))
    (request : Request O) (jar : J) (turns : List (Turn F)) : CredentialsRead c sender requestPolicy request jar turns := by
  refine ⟨fun _ _ => basicAuth_new_iff, fun _ => bearerAuth_new_iff, ?_, ?_⟩
  · intro a hMem hop hHop
    obtain ⟨⟨timeout, hRequest⟩, jar', hChain⟩ := mem_send hMem
    rw [hChain, hRequest] at hHop
    exact ⟨c.headerValue, sendWithRedirects_authorization rfl hop hHop, readAuthorization_headerValue c⟩
  · intro a hMem hop hHop
    obtain ⟨-, jar', hChain⟩ := mem_send hMem
    rw [hChain] at hHop
    obtain ⟨hHeaders, hAuth⟩ := sendWithRedirects_bare hop hHop
    exact ⟨hHeaders authorization List.mem_cons_self, hAuth⟩

end Eggfetch.Retry
