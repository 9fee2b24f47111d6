import Eggfetch.Facade.Agreement

/-! When the facade keeps credentials from another origin. Its own requests are stripped, but
for the further repetitions of `Authorization`; the native client's default headers are not,
and they go out again with each hop that does not carry the header itself. -/
namespace Eggfetch.Facade
open Text Pipeline

variable {PJ J O : Type} {env : Env PJ J O} {client : Client PJ J} {request : Request PJ}
  {follow : Bool} {history now : Nat} {replies : List Reply}

structure SameNative (native native' : Native J) : Prop where
  rest : native' = { native with defaultHeaders := native'.defaultHeaders }
  value : ∀ name ∉ secretNames, native.defaultHeaders.getAll name = native'.defaultHeaders.getAll name
  present : ∀ name, native.defaultHeaders.getAll name = [] ↔ native'.defaultHeaders.getAll name = []

/-- Clients and requests that differ in the values of secret headers only. -/
structure SameButSecrets (client client' : Client PJ J) (request request' : Request PJ) : Prop where
  rest : client' = { client with headers := client'.headers, native := client'.native }
  headers : SameHeaders client.headers client'.headers
  native : Option.Rel SameNative client.native client'.native
  request : SameRequest request request'

/-- The `Authorization` values that client and request are configured with. -/
def configuredAuthorization (env : Env PJ J O) (client : Client PJ J) (request : Request PJ) : List Str :=
  client.headers.getList authorization ++ request.headers.getList authorization ++
    (client.defaultHeaders env).getAll authorization

/-- What a call that follows redirects does with credentials. -/
structure Confined (env : Env PJ J O) (client : Client PJ J) (request : Request PJ) (follow : Bool)
    (history now : Nat) (replies : List Reply) : Prop where
  stripped : ∀ hop ∈ afterCrossing
      (client.sendHandlingRedirects env request follow history now replies).hops,
    ∀ value ∈ configuredAuthorization env client request, value ∉ hop.built.headers.getAll authorization
  regenerated : ∀ hop ∈ (client.sendHandlingRedirects env request follow history now replies).hops.tail,
    hop.built.headers.getAll cookie = (hop.jarCookie env).toList
  independent : ∀ client' request', SameButSecrets client client' request request' →
    let hops := afterCrossing (client.sendHandlingRedirects env request follow history now replies).hops
    let hops' := afterCrossing (client'.sendHandlingRedirects env request' follow history now replies).hops
    hops ≠ [] → hops' ≠ [] → hops.map (·.built) = hops'.map (·.built)

/-- No secret is among the default headers, and the request has `Authorization` once. -/
structure Clean (env : Env PJ J O) (client : Client PJ J) (request : Request PJ) : Prop where
  defaults : ∀ name ∈ secretNames, (client.defaultHeaders env).getAll name = []
  single : (request.headers.getList authorization).length ≤ 1

theorem mem_tail_of_mem_afterCrossing {hop : Hop PJ J O} {hops : List (Hop PJ J O)}
    (hmem : hop ∈ afterCrossing hops) : hop ∈ hops.tail := by
  induction hops with
  | nil => cases hmem
  | cons first rest ih =>
    cases rest with
    | nil => cases hmem
    | cons second rest =>
      rw [afterCrossing] at hmem
      split_ifs at hmem
      · exact hmem
      · exact List.mem_cons_of_mem _ (ih hmem)

private theorem SameButSecrets.engine {client' : Client PJ J} {request' : Request PJ} {native : Native J}
    (hsame : SameButSecrets client client' request request')
    (hdefaults : ∀ name ∈ secretNames, (client.defaultHeaders env).getAll name = [])
    (hensure : client.ensureClient env = .ok native) : SameEngine env client client' := by
  have hcookies : client.cookies = client'.cookies := by rw [hsame.rest]
  have hmax : client.maxRedirects = client'.maxRedirects := by rw [hsame.rest]
  refine ⟨?_, hcookies, hmax⟩
  rw [Client.defaultHeaders, hensure] at hdefaults
  have hnative := hsame.native
  cases hbuilt : client.native with
  | some native₀ =>
    obtain rfl : native₀ = native := by
      simp only [Client.ensureClient, hbuilt] at hensure
      exact Except.ok.inj hensure
    rw [hbuilt] at hnative
    cases hbuilt' : client'.native with
    | none =>
      rw [hbuilt'] at hnative
      cases hnative
    | some native' =>
      rw [hbuilt'] at hnative
      obtain ⟨hsamenative⟩ := hnative
      have hheaders : native₀.defaultHeaders = native'.defaultHeaders := by
        ext1
        funext name
        by_cases hname : name ∈ secretNames
        · rw [hdefaults name hname, (hsamenative.present name).mp (hdefaults name hname)]
        · exact hsamenative.value name hname
      have heq : native' = native₀ := by rw [hsamenative.rest, ← hheaders]
      simp only [Client.ensureClient, hbuilt, hbuilt', heq]
  | none =>
    rw [hbuilt] at hnative
    cases hbuilt' : client'.native with
    | some native' =>
      rw [hbuilt'] at hnative
      cases hnative
    | none =>
      have hnone : ∀ name ∈ secretNames, client.headers.getList name = [] := by
        intro name hname
        rw [Client.ensureClient, hbuilt] at hensure
        cases hconverted : pythonHeadersToRust client.headers.multiItems with
        | error e =>
          rw [hconverted] at hensure
          cases hensure
        | ok headers =>
          rw [hconverted] at hensure
          obtain rfl := Except.ok.inj hensure
          have hlast := hdefaults name hname
          rw [getAll_pythonHeadersToRust hconverted] at hlast
          simpa using hlast
      have heq : client' = client := by
        rw [hsame.rest, ← hsame.headers.eq hnone, hbuilt', ← hbuilt]
      rw [heq]

private theorem Clean.confined (hclean : Clean env client request) :
    Confined env client request follow history now replies := by
  have hbuilt := @hop_builtWith _ _ _ env client request follow history now replies
  have hnone : ∀ hop ∈ afterCrossing
      (client.sendHandlingRedirects env request follow history now replies).hops,
      hop.request.headers.getList authorization = [] := by
    intro hop hmem
    have hle := (crossed_authorization client request follow history now replies hop hmem).length_le
    have hsingle := hclean.single
    rw [List.length_tail] at hle
    exact List.eq_nil_of_length_eq_zero (by omega)
  refine ⟨?_, ?_, ?_⟩
  · intro hop hmem value _ hvalue
    have hwire := (hbuilt hop (List.mem_of_mem_tail (mem_tail_of_mem_afterCrossing hmem))).values
      authorization (by decide) (by decide)
    rw [hwire, sentValues_nil.mpr ⟨hnone hop hmem, hclean.defaults _ (by decide)⟩] at hvalue
    cases hvalue
  · intro hop hmem
    have hwire := (hbuilt hop (List.mem_of_mem_tail hmem)).cookies
    have hfacade := tail_cookie client request follow history now replies hop hmem
    have hdefault := hclean.defaults cookie (by decide)
    rw [hwire, sentValues, hfacade, hdefault, Hop.jarCookie]
    cases env.cookieText hop.request.cookies hop.request.url hop.now with
    | none => simp
    | some text => simp
  · intro client' request' hsame
    dsimp only
    intro hcross hcross'
    obtain ⟨hop, _, _, _, _, hhop, -⟩ := afterCrossing_cases hcross
    obtain ⟨native, -, hensure, -⟩ := ensureClient_sent hhop
    have hengine := hsame.engine hclean.defaults hensure
    rw [hengine.afterCrossing_eq hsame.request hclean.single hcross hcross']

/-- A call that crosses, with no cookie of the jars for a later hop, confines credentials
only if it is clean. -/
theorem Confined.clean (hconfined : Confined env client request follow history now replies)
    {hop : Hop PJ J O}
    (hmem : hop ∈ afterCrossing (client.sendHandlingRedirects env request follow history now replies).hops)
    (hjar : hop.jarCookie env = none) : Clean env client request := by
  have hbuilt := @hop_builtWith _ _ _ env client request follow history now replies
  have hcookie : (client.defaultHeaders env).getAll cookie = [] := by
    have htail := mem_tail_of_mem_afterCrossing hmem
    have hwire := (hbuilt hop (List.mem_of_mem_tail htail)).cookies
    rw [hconfined.regenerated hop htail, hjar] at hwire
    by_contra hdefault
    have hsent : sentValues (client.defaultHeaders env) hop.request.headers cookie ≠ [] :=
      fun hnil => hdefault (sentValues_nil.mp hnil).2
    rw [if_neg hsent] at hwire
    exact hsent hwire.symm
  obtain ⟨first, rest, hhops⟩ := List.exists_cons_of_ne_nil (List.ne_nil_of_mem hmem)
  have hfirst : first ∈ afterCrossing
      (client.sendHandlingRedirects env request follow history now replies).hops := by
    rw [hhops]
    exact List.mem_cons_self
  have hsent := (hbuilt first (List.mem_of_mem_tail (mem_tail_of_mem_afterCrossing hfirst))).values
    authorization (by decide) (by decide)
  rw [sentValues, crossing_authorization hhops] at hsent
  have htail : (request.headers.getList authorization).tail = [] := by
    by_contra hmore
    rw [if_neg hmore] at hsent
    have hlast := List.mem_of_mem_tail (List.getLast_mem hmore)
    apply hconfined.stripped first hfirst _ (List.mem_append_left _ (List.mem_append_right _ hlast))
    rw [hsent, List.getLast?_eq_getLast_of_ne_nil hmore]
    exact List.mem_singleton_self _
  have hdefault : (client.defaultHeaders env).getAll authorization = [] := by
    rw [if_pos htail] at hsent
    rw [List.eq_nil_iff_forall_not_mem]
    intro value hvalue
    refine hconfined.stripped first hfirst value (List.mem_append_right _ hvalue) ?_
    rw [hsent]
    exact hvalue
  refine ⟨?_, ?_⟩
  · intro name hname
    rcases List.mem_cons.mp hname with rfl | hname
    · exact hdefault
    · rw [List.mem_singleton.mp hname]
      exact hcookie
  · have hlength := congrArg List.length htail
    rw [List.length_tail, List.length_nil] at hlength
    omega

/-- The facade keeps credentials to their origin in every chain of a clean call, and in a
chain that would show it in no other call. -/
theorem credentials_confined (env : Env PJ J O) (client : Client PJ J) (request : Request PJ)
    (auth : Option Str) (follow : Bool) (history now : Nat) (replies : List Reply) :
    let sent := request.authenticate auth
    let hops := (client.sendHandlingRedirects env sent follow history now replies).hops
    (Clean env client sent → Confined env client sent follow history now replies) ∧
      ((∃ hop ∈ afterCrossing hops, hop.jarCookie env = none) →
        Confined env client sent follow history now replies → Clean env client sent) :=
  ⟨Clean.confined, fun ⟨_, hmem, hjar⟩ hconfined => hconfined.clean hmem hjar⟩

private def siteUrl (text host : String) : Url := ⟨utf8 text, utf8 "http", some (utf8 host), none⟩

private def wireUrl (host : String) : Http.Url :=
  { scheme := utf8 "http", host := some (utf8 host), path := utf8 "/" }

private def twoSites : Env Unit Unit Unit where
  cookieText _ _ _ := none
  extractCookies _ _ _ _ := ()
  redirectUrl _ location := if location = utf8 "http://b/" then .ok (siteUrl "http://b/" "b") else .error []
  parse text := .ok (if text = utf8 "http://b/" then wireUrl "b" else wireUrl "a")
  join _ _ := .error []
  store _ := ⟨fun _ _ => (none, ()), fun _ _ _ => ()⟩
  emptyJar := ()
  multipart _ := ([], .empty)
  iterator _ := 0
  options := ()

private def bearer : Headers := ⟨[(authorizationName, utf8 "Bearer t")]⟩

/-- The client of `Client(headers={"Authorization": "Bearer t"}, follow_redirects=True)`. -/
private def bearerClient : Client Unit Unit := { headers := bearer, cookies := (), followRedirects := true }

private def getBearer : Request Unit :=
  { method := utf8 "GET", url := siteUrl "http://a/" "a", headers := bearer, cookies := () }

private def toSiteB : Reply :=
  ⟨.ok ⟨302, wireUrl "a", Http.Headers.empty.insertRaw (utf8 "location") (utf8 "http://b/")⟩, 0⟩

private theorem bearer_hops :
    (afterCrossing (bearerClient.sendHandlingRedirects twoSites getBearer true 0 0 [toSiteB]).hops).map
      (·.built.headers.getAll authorization) = [[utf8 "Bearer t"]] := by
  decide

/-- `http://b/` gets the `Authorization` of the client that a redirect of `http://a/` led
there, though the redirected request does not have it. -/
theorem default_authorization_leaks :
    ¬ ∀ (env : Env Unit Unit Unit) (client : Client Unit Unit) (request : Request Unit)
      (auth : Option Str) (follow : Bool) (history now : Nat) (replies : List Reply),
      Confined env client (request.authenticate auth) follow history now replies := by
  intro hall
  have hstripped := (hall twoSites bearerClient getBearer none true 0 0 [toSiteB]).stripped
  have hleak : [utf8 "Bearer t"] ∈ (afterCrossing (bearerClient.sendHandlingRedirects twoSites getBearer
      true 0 0 [toSiteB]).hops).map (·.built.headers.getAll authorization) := by
    rw [bearer_hops]
    exact List.mem_singleton_self _
  obtain ⟨hop, hmem, hvalues⟩ := List.mem_map.mp hleak
  refine hstripped hop hmem (utf8 "Bearer t") ?_ ?_
  · exact List.mem_append_left _ (by decide)
  · rw [hvalues]
    exact List.mem_singleton_self _

end Eggfetch.Facade
