import Eggfetch.Pipeline.Redirect

/-! Credentials along a redirect chain. Once a hop has crossed to another origin no later
hop depends on the caller's or the client's credentials, and up to there every hop carries
the caller's `Authorization`, as long as that header is not repeated: a same-origin
redirect keeps its first value only. -/
namespace Eggfetch.Pipeline
open Text Http

variable {O J : Type}

def secretHeaders : List Str := [authorization, proxyAuthorization, cookie, host]

def AgreeOffSecrets (h h' : Headers) : Prop := ∀ name ∉ secretHeaders, h.getAll name = h'.getAll name

def NoSecrets (h : Headers) : Prop := ∀ name ∈ secretHeaders, h.getAll name = []

def Bare (hop : Request O) : Prop := NoSecrets hop.headers ∧ hop.auth = none

/-- Clients and requests that differ in nothing but secrets: the values and presence of the
secret headers, and the credentials of client and request. -/
structure SameButSecrets (config config' : ClientConfig) (request request' : Request O) : Prop where
  sameConfig : config' = { config with defaultHeaders := config'.defaultHeaders, auth := config'.auth }
  sameRequest : request' = { request with headers := request'.headers, auth := request'.auth }
  defaultHeaders : AgreeOffSecrets config.defaultHeaders config'.defaultHeaders
  headers : AgreeOffSecrets request.headers request'.headers

/-- The hops from the first one on whose origin is not that of the hop before. -/
def afterCrossing : List (Request O) → List (Request O)
  | a :: b :: rest => if a.url.sameOrigin b.url then afterCrossing (b :: rest) else b :: rest
  | _ => []

def beforeCrossing : List (Request O) → List (Request O)
  | a :: b :: rest => if a.url.sameOrigin b.url then a :: beforeCrossing (b :: rest) else [a]
  | hops => hops

/-- The `Authorization` values of a hop with these explicit ones and these credentials. -/
def appliedAuthorization (explicit : List Str) (requestAuth : Option AuthScheme) (authDisabled : Bool)
    (clientAuth : Option AuthScheme) : List Str :=
  if explicit ≠ [] then explicit
  else ((requestAuth <|> if authDisabled then none else clientAuth).map (·.headerValue)).toList

/-- The `Authorization` values that client and request ask for. -/
def callerAuthorization (config : ClientConfig) (request : Request O) : List Str :=
  appliedAuthorization ((mergedHeaders config request).getAll authorization) request.auth
    request.authDisabled config.auth

/-- The reply redirects to the origin of `url`. -/
def staysOnOrigin (join : Join) (url : Url) (reply : Reply) : Bool :=
  match reply.result with
  | .error _ => false
  | .ok response =>
    isRedirectStatus response.status &&
      match (response.headers.get (utf8 "location")).map (join url) with
      | some (.ok newUrl) => url.sameOrigin newUrl
      | _ => false

/-- What a redirect chain does with credentials. -/
structure Confined (store : CookieStore J) (join : Join) (config : ClientConfig) (jar : J)
    (request : Request O) (elapsed : Duration) (replies : List Reply) : Prop where
  bare : ∀ hop ∈ afterCrossing (sendWithRedirects store join config jar request elapsed replies).hops,
    Bare hop
  independent : ∀ config' jar' request', SameButSecrets config config' request request' →
    let trace := sendWithRedirects store join config jar request elapsed replies
    let trace' := sendWithRedirects store join config' jar' request' elapsed replies
    afterCrossing trace.hops ≠ [] → afterCrossing trace'.hops ≠ [] →
    afterCrossing trace.hops = afterCrossing trace'.hops ∧ trace.outcome = trace'.outcome
  kept : ∀ hop ∈ beforeCrossing (sendWithRedirects store join config jar request elapsed replies).hops,
    hop.headers.getAll authorization = callerAuthorization config request

def redirectHeaders (headers : Headers) (url newUrl : Url) (dropBody : Bool) : Headers :=
  match headers.get authorization with
  | some value =>
    if url.sameOrigin newUrl then
      (stripHeadersForRedirect headers url newUrl dropBody).insertRaw authorization value
    else stripHeadersForRedirect headers url newUrl dropBody
  | none => stripHeadersForRedirect headers url newUrl dropBody

section
variable {l l' : LoopParams O J} {st st' next : LoopState J} {hop : Request O} {url newUrl : Url}
  {h h' : Headers} {dropBody : Bool} {name : Str}

private theorem getAll_stripHeaders (h : Headers) (url newUrl : Url) (dropBody : Bool) (name : Str) :
    (stripHeadersForRedirect h url newUrl dropBody).getAll name =
      if name = authorization ∨ name = proxyAuthorization ∨
          (url.sameOrigin newUrl = false ∧ name ∈ crossOriginHeaders) ∨ (dropBody ∧ name ∈ bodyHeaders)
      then [] else h.getAll name := by
  simp only [stripHeadersForRedirect]
  cases dropBody <;> cases url.sameOrigin newUrl <;>
    simp only [Bool.not_false, Bool.not_true, Bool.false_eq_true, if_true, if_false,
      Headers.getAll_removeAll, List.mem_cons, List.not_mem_nil, or_false] <;>
    grind

/-- Only the first value of a same-origin `Authorization` goes on. -/
theorem getAll_redirectHeaders :
    (redirectHeaders h url newUrl dropBody).getAll name =
      if name = authorization then (if url.sameOrigin newUrl then (h.getAll authorization).take 1 else [])
      else if name = proxyAuthorization ∨ (url.sameOrigin newUrl = false ∧ name ∈ crossOriginHeaders) ∨
          (dropBody ∧ name ∈ bodyHeaders)
      then [] else h.getAll name := by
  have hstrip := getAll_stripHeaders h url newUrl dropBody name
  unfold redirectHeaders Headers.get
  cases hvalues : h.getAll authorization with
  | nil =>
    simp only [List.head?_nil, hstrip]
    by_cases hname : name = authorization <;> simp [hname]
  | cons value rest =>
    simp only [List.head?_cons]
    by_cases hname : name = authorization
    · subst hname
      split
      · exact Headers.getAll_insertRaw_self
      · simp [hstrip]
    · split
      · rw [Headers.insertRaw, Headers.getAll_set_of_ne hname, hstrip]
        simp [hname]
      · simp [hstrip, hname]

theorem redirectHeaders_agree (url newUrl : Url) (dropBody : Bool) (hagree : AgreeOffSecrets h h') :
    AgreeOffSecrets (redirectHeaders h url newUrl dropBody) (redirectHeaders h' url newUrl dropBody) := by
  intro name hname
  have hne : name ≠ authorization := fun heq => hname (heq ▸ List.mem_cons_self)
  simp only [getAll_redirectHeaders, if_neg hne, hagree name hname]

/-- A crossing leaves no secret header behind. -/
theorem redirectHeaders_crossing (hcross : url.sameOrigin newUrl = false) :
    NoSecrets (redirectHeaders h url newUrl dropBody) := by
  intro name hname
  simp only [secretHeaders, List.mem_cons, List.not_mem_nil, or_false] at hname
  rw [getAll_redirectHeaders]
  rcases hname with rfl | rfl | rfl | rfl <;> simp [hcross, crossOriginHeaders]

theorem redirectHeaders_noSecrets (hnone : NoSecrets h) :
    NoSecrets (redirectHeaders h url newUrl dropBody) := by
  intro name hname
  have hauth := hnone authorization List.mem_cons_self
  simp only [getAll_redirectHeaders, hnone name hname, hauth, List.take_nil, ite_self]

private theorem AgreeOffSecrets.eq (hagree : AgreeOffSecrets h h') (hnone : NoSecrets h) (hnone' : NoSecrets h') :
    h = h' := by
  ext1
  funext name
  by_cases hname : name ∈ secretHeaders
  · rw [hnone name hname, hnone' name hname]
  · exact hagree name hname

theorem mergedHeaders_agree {config config' : ClientConfig} {request request' : Request O}
    (hsame : SameButSecrets config config' request request') :
    AgreeOffSecrets (mergedHeaders config request) (mergedHeaders config' request') := by
  intro name hname
  have hheaders := hsame.headers name hname
  have hcontains : request.headers.contains name = request'.headers.contains name := by
    unfold Headers.contains
    rw [hheaders]
  rw [getAll_mergedHeaders, getAll_mergedHeaders, hcontains, hheaders, hsame.defaultHeaders name hname]

private theorem advanceRedirectHop_eq (join : Join) (method : Method) (url : Url) (h : Headers)
    (replayBody : Option Str) (status : Nat) (location : Str) (downgrade : RedirectDowngradePolicy) :
    advanceRedirectHop join method url h replayBody status location downgrade =
      (advanceRedirectHop join method url .empty replayBody status location downgrade).map fun p =>
        ({ p.1 with headers := redirectHeaders h url p.1.url (dropsBodyOnRedirect status method) }, p.2) := by
  simp only [advanceRedirectHop, buildRedirectRequest]
  split
  · rfl
  · cases join url location with
    | error => rfl
    | ok newUrl =>
      dsimp only
      cases validateRedirectUrl newUrl with
      | error => rfl
      | ok =>
        dsimp only
        cases checkHttpsDowngrade url newUrl downgrade with
        | error => rfl
        | ok =>
          dsimp only
          cases dropsBodyOnRedirect status method with
          | true => rfl
          | false => rfl

theorem buildRedirectRequest_url {join : Join} {body body' : RequestBody} {location : Str}
    {downgrade : RedirectDowngradePolicy}
    (hbuild : buildRedirectRequest join url h body location dropBody downgrade = .ok (newUrl, h', body')) :
    join url location = .ok newUrl := by
  unfold buildRedirectRequest at hbuild
  split at hbuild
  · cases hbuild
  · rename_i hjoin
    split at hbuild
    · cases hbuild
    · split at hbuild
      · cases hbuild
      · dsimp only at hbuild
        split at hbuild
        · obtain ⟨rfl, -⟩ := Prod.mk.inj (Except.ok.inj hbuild)
          exact hjoin
        · split at hbuild
          · cases hbuild
          · obtain ⟨rfl, -⟩ := Prod.mk.inj (Except.ok.inj hbuild)
            exact hjoin

theorem advanceRedirectHop_url {join : Join} {method : Method} {replayBody replayBody' : Option Str}
    {status : Nat} {location : Str} {downgrade : RedirectDowngradePolicy} {redirectHop : RedirectHop}
    (hadvance : advanceRedirectHop join method url h replayBody status location downgrade =
      .ok (redirectHop, replayBody')) : join url location = .ok redirectHop.url := by
  simp only [advanceRedirectHop] at hadvance
  split at hadvance
  · cases hadvance
  · split at hadvance
    · cases hadvance
    · rename_i hbuild
      obtain ⟨rfl, -⟩ := Prod.mk.inj (Except.ok.inj hadvance)
      exact buildRedirectRequest_url hbuild

/-- What `follow` does, apart from the headers and the jar it is handed. -/
theorem LoopState.follow_eq (st : LoopState J) (response : Response) (h' : Headers) (jar' : J) :
    { st with headers := h', jar := jar' }.follow l response =
      (st.follow l response).map fun next =>
        { next with
          headers := redirectHeaders h' st.url next.url (dropsBodyOnRedirect response.status st.method)
          jar := jar' } := by
  unfold LoopState.follow
  dsimp only
  split
  · rfl
  · split
    · rfl
    · split
      · rfl
      · split
        · rfl
        · rw [advanceRedirectHop_eq (h := h'), advanceRedirectHop_eq (h := st.headers)]
          cases advanceRedirectHop l.join st.method st.url .empty st.replayBody response.status _
            l.policy.downgrade <;> rfl

theorem LoopState.follow_ok {response : Response} (hnext : st.follow l response = .ok next) :
    next.headers = redirectHeaders st.headers st.url next.url (dropsBodyOnRedirect response.status st.method) ∧
      next.prevUrl = some st.url ∧ next.credentialsAllowed = st.credentialsAllowed ∧
      next.cookieHeaderAllowed = st.cookieHeaderAllowed := by
  have hself := st.follow_eq (l := l) response st.headers st.jar
  rw [show { st with headers := st.headers, jar := st.jar } = st from rfl, hnext] at hself
  refine ⟨(congrArg LoopState.headers (Except.ok.inj hself)), ?_⟩
  unfold LoopState.follow at hnext
  split at hnext
  · cases hnext
  · split at hnext
    · cases hnext
    · split at hnext
      · cases hnext
      · dsimp only at hnext
        split at hnext
        · cases hnext
        · split at hnext
          · cases hnext
          · obtain rfl := Except.ok.inj hnext
            exact ⟨rfl, rfl, rfl⟩

/-- A chain goes on to where the `Location` of a redirect points. -/
theorem LoopState.follow_location {response : Response} (hnext : st.follow l response = .ok next) :
    isRedirectStatus response.status = true ∧
      (response.headers.get (utf8 "location")).map (l.join st.url) = some (.ok next.url) := by
  unfold LoopState.follow at hnext
  split at hnext
  · cases hnext
  · rename_i hredirect
    split at hnext
    · cases hnext
    · rename_i location hlocation
      split at hnext
      · cases hnext
      · dsimp only at hnext
        split at hnext
        · cases hnext
        · split at hnext
          · cases hnext
          · rename_i hop _ hadvance
            obtain rfl := Except.ok.inj hnext
            rw [hlocation, Option.map_some, advanceRedirectHop_url hadvance]
            exact ⟨by simpa using (not_or.mp hredirect).1, rfl⟩

private theorem LoopState.follow_stays {reply : Reply} {response : Response} (hresult : reply.result = .ok response)
    (hnext : st.follow l response = .ok next) :
    staysOnOrigin l.join st.url reply = st.url.sameOrigin next.url := by
  obtain ⟨hstatus, hlocation⟩ := follow_location hnext
  simp only [staysOnOrigin, hresult, hstatus, hlocation, Bool.true_and]

theorem LoopState.follow_jar (st : LoopState J) (response : Response) (jar' : J) :
    { st with jar := jar' }.follow l response =
      (st.follow l response).map fun next => { next with jar := jar' } := by
  have heq := st.follow_eq (l := l) response st.headers jar'
  cases hnext : st.follow l response with
  | error outcome => rwa [hnext] at heq
  | ok next =>
    rw [hnext] at heq
    have hheaders := (follow_ok hnext).1
    rw [heq, Except.map, Except.map, ← hheaders]

theorem LoopState.prepare_ok {elapsed : Duration} (hprep : st.prepare l elapsed = .ok (hop, next)) :
    hop.url = st.url ∧ next = { st.enter with jar := next.jar } := by
  unfold LoopState.prepare at hprep
  split at hprep
  · cases hprep
  · split at hprep
    · cases hprep
    · split at hprep
      · cases hprep
      · rename_i hbuild
        obtain ⟨rfl, rfl⟩ := Prod.mk.inj (Except.ok.inj hprep)
        obtain ⟨_, rfl, -⟩ := buildHopRequest_ok hbuild
        refine ⟨?_, rfl⟩
        unfold LoopState.enter
        split <;> rfl

/-- A loop dispatches nothing, or one last hop, or a hop and then the loop of the next state. -/
theorem LoopState.loop_cases (l : LoopParams O J) (st : LoopState J) (elapsed : Duration)
    (replies : List Reply) :
    (st.loop l elapsed replies).hops = [] ∨
    (∃ hop st', st.prepare l elapsed = .ok (hop, st') ∧ (st.loop l elapsed replies).hops = [hop]) ∨
    (∃ hop st' reply rest response next, replies = reply :: rest ∧ reply.result = .ok response ∧
      st.prepare l elapsed = .ok (hop, st') ∧
      { st' with jar := updateCookieJar l.store st'.jar response }.follow l response = .ok next ∧
      (st.loop l elapsed replies).hops = hop :: (next.loop l reply.elapsed rest).hops) := by
  cases hprep : st.prepare l elapsed with
  | error e => cases replies <;> simp [LoopState.loop, hprep]
  | ok p =>
    cases replies with
    | nil => exact .inr (.inl ⟨p.1, p.2, rfl, by simp [LoopState.loop, hprep]⟩)
    | cons reply rest =>
      simp only [LoopState.loop, hprep]
      split
      · exact .inr (.inl ⟨p.1, p.2, rfl, rfl⟩)
      · rename_i response hresult
        split
        · exact .inr (.inl ⟨p.1, p.2, rfl, rfl⟩)
        · rename_i next hnext
          exact .inr (.inr ⟨p.1, p.2, reply, rest, response, next, rfl, hresult, rfl, hnext, rfl⟩)

/-- The first hop of a loop goes to the state's URL. -/
theorem LoopState.loop_head {elapsed : Duration} {replies : List Reply} :
    ∀ hop ∈ (st.loop l elapsed replies).hops.head?, hop.url = st.url := by
  intro hop hhead
  rcases st.loop_cases l elapsed replies with
    hnil | ⟨first, _, hprep, hhops⟩ | ⟨first, _, _, _, _, _, _, _, hprep, _, hhops⟩
  · simp [hnil] at hhead
  · obtain rfl : first = hop := by simpa [hhops] using hhead
    exact (prepare_ok hprep).1
  · obtain rfl : first = hop := by simpa [hhops] using hhead
    exact (prepare_ok hprep).1

/-- Induction along a loop: its hops are none, a last one, or one before those of the next state. -/
theorem LoopState.loop_induction {P : LoopState J → List (Request O) → Prop} (l : LoopParams O J)
    (none : ∀ st, P st [])
    (last : ∀ st elapsed hop st', st.prepare l elapsed = .ok (hop, st') → P st [hop])
    (more : ∀ st elapsed hop st' jar response next rest, st.prepare l elapsed = .ok (hop, st') →
      { st' with jar := jar }.follow l response = .ok next → (∀ b ∈ rest.head?, b.url = next.url) →
      P next rest → P st (hop :: rest))
    (st : LoopState J) (elapsed : Duration) (replies : List Reply) :
    P st (st.loop l elapsed replies).hops := by
  induction replies generalizing st elapsed with
  | nil =>
    rcases st.loop_cases l elapsed [] with hnil | ⟨_, _, hprep, hhops⟩ | ⟨_, _, _, _, _, _, hcons, _⟩
    · exact hnil ▸ none st
    · exact hhops ▸ last st elapsed _ _ hprep
    · cases hcons
  | cons reply replies ih =>
    rcases st.loop_cases l elapsed (reply :: replies) with
      hnil | ⟨_, _, hprep, hhops⟩ | ⟨_, _, _, _, response, next, hcons, -, hprep, hnext, hhops⟩
    · exact hnil ▸ none st
    · exact hhops ▸ last st elapsed _ _ hprep
    · obtain ⟨rfl, rfl⟩ := List.cons.inj hcons
      exact hhops ▸ more st elapsed _ _ _ response next _ hprep hnext loop_head (ih next _)

theorem afterCrossing_cons {hops : List (Request O)} {url : Url} (hhead : ∀ b ∈ hops.head?, b.url = url) :
    afterCrossing (hop :: hops) = if hop.url.sameOrigin url then afterCrossing hops else hops := by
  cases hops with
  | nil => simp [afterCrossing]
  | cons b rest => rw [afterCrossing, hhead b rfl]

theorem beforeCrossing_cons {hops : List (Request O)} {url : Url} (hhead : ∀ b ∈ hops.head?, b.url = url) :
    beforeCrossing (hop :: hops) = hop :: if hop.url.sameOrigin url then beforeCrossing hops else [] := by
  cases hops with
  | nil => simp [beforeCrossing]
  | cons b rest =>
    rw [beforeCrossing, hhead b rfl]
    split <;> rfl

/-- The state of a chain that has crossed, or crosses with its next hop. -/
structure LoopState.Crossed (st : LoopState J) : Prop where
  headers : NoSecrets st.headers
  credentials : st.enter.credentialsAllowed = false
  cookies : st.enter.cookieHeaderAllowed = false

theorem LoopState.enter_headers : st.enter.headers = st.headers := by
  unfold enter
  split <;> rfl

/-- After a crossing a hop is determined by what is no secret. -/
theorem LoopState.Crossed.prepare (hc : st.Crossed) (elapsed : Duration) :
    st.prepare l elapsed =
      match hopTimeout l.params.timeout elapsed with
      | .error e => .error e
      | .ok timeout =>
        if st.isCrossOrigin ∧
            (l.params.transportHints.resolvedTarget.isSome ∨ l.params.proxiedTarget.isSome) then
          .error .resolvedTargetRedirect
        else .ok ((st.enter.hopParams l timeout).request (st.headers.remove cookie), st.enter) := by
  have hbuild : ∀ timeout, buildHopRequest l.store l.config st.jar (st.enter.hopParams l timeout) =
      .ok ((st.enter.hopParams l timeout).request (st.headers.remove cookie), st.jar) := by
    intro timeout
    rw [buildHopRequest_denied hc.credentials hc.cookies]
    simp only [hopParams, enter_headers]
  have hjar : { st.enter with jar := st.jar } = st.enter := by
    unfold enter
    split <;> rfl
  cases htimeout : hopTimeout l.params.timeout elapsed with
  | error e => simp only [LoopState.prepare, htimeout]
  | ok timeout => simp only [LoopState.prepare, htimeout, hbuild, hjar]

theorem LoopState.Crossed.follow (hc : st.Crossed) {response : Response} (jar : J)
    (hnext : { st.enter with jar := jar }.follow l response = .ok next) : next.Crossed := by
  obtain ⟨hheaders, -, hcredentials, hcookies⟩ := follow_ok hnext
  refine ⟨?_, ?_, ?_⟩
  · rw [hheaders]
    exact redirectHeaders_noSecrets (by rw [enter_headers]; exact hc.headers)
  · have hfalse := hcredentials.trans hc.credentials
    unfold enter
    split
    · rfl
    · exact hfalse
  · have hfalse := hcookies.trans hc.cookies
    unfold enter
    split
    · rfl
    · exact hfalse

private theorem LoopState.crossed_of_crossOrigin (hheaders : NoSecrets st.headers) (hcross : st.isCrossOrigin = true) :
    st.Crossed := by
  refine ⟨hheaders, ?_, ?_⟩ <;> simp [enter, hcross]

private theorem request_bare (params : HopBuildParams O) (hheaders : NoSecrets params.headers)
    (hcredentials : params.credentialsAllowed = false) :
    Bare (params.request (params.headers.remove cookie)) := by
  refine ⟨fun name hname => ?_, by simp [HopBuildParams.request, hcredentials]⟩
  by_cases heq : name = cookie
  · rw [heq]
    exact Headers.getAll_remove_self
  · exact (Headers.getAll_set_of_ne heq).trans (hheaders name hname)

theorem LoopState.Crossed.prepare_ok (hc : st.Crossed) {elapsed : Duration}
    (hprep : st.prepare l elapsed = .ok (hop, next)) :
    Bare hop ∧ next = st.enter := by
  rw [hc.prepare] at hprep
  split at hprep
  · cases hprep
  · split at hprep
    · cases hprep
    · rename_i timeout _ _
      obtain ⟨rfl, rfl⟩ := Prod.mk.inj (Except.ok.inj hprep)
      have hbare := request_bare (st.enter.hopParams l timeout)
        (by simpa only [hopParams, enter_headers] using hc.headers) hc.credentials
      exact ⟨by simpa only [hopParams, enter_headers] using hbare, rfl⟩

/-- A chain that has not crossed yet. -/
structure LoopState.Uncrossed (st : LoopState J) : Prop where
  same : st.isCrossOrigin = false
  credentials : st.credentialsAllowed = true

theorem LoopState.Uncrossed.enter (hu : st.Uncrossed) : st.enter = st := by
  simp [LoopState.enter, hu.same]

/-- The next state of an uncrossed chain is uncrossed or crossed, as the origins say. -/
theorem LoopState.Uncrossed.follow (hu : st.Uncrossed) {response : Response} (jar : J)
    (hnext : { st with jar := jar }.follow l response = .ok next) :
    (st.url.sameOrigin next.url = true → next.Uncrossed) ∧
      (st.url.sameOrigin next.url = false → next.Crossed) := by
  obtain ⟨hheaders, hprev, hcredentials, -⟩ := follow_ok hnext
  have hcross : next.isCrossOrigin = !st.url.sameOrigin next.url := by
    simp [isCrossOrigin, hprev]
  constructor
  · intro hsame
    exact ⟨by simp [hcross, hsame], hcredentials.trans hu.credentials⟩
  · intro hdiff
    refine crossed_of_crossOrigin ?_ (by simp [hcross, hdiff])
    rw [hheaders]
    exact redirectHeaders_crossing hdiff

theorem LoopState.Uncrossed.prepare_ok (hu : st.Uncrossed) {elapsed : Duration}
    (hprep : st.prepare l elapsed = .ok (hop, next)) :
    next = { st with jar := next.jar } ∧ hop.headers.getAll authorization =
      appliedAuthorization (st.headers.getAll authorization) l.params.auth l.params.authDisabled
        l.config.auth := by
  refine ⟨hu.enter ▸ (LoopState.prepare_ok hprep).2, ?_⟩
  unfold LoopState.prepare at hprep
  split at hprep
  · cases hprep
  · split at hprep
    · cases hprep
    · split at hprep
      · cases hprep
      · rename_i hbuild
        obtain ⟨rfl, -⟩ := Prod.mk.inj (Except.ok.inj hprep)
        rw [hu.enter] at hbuild
        obtain ⟨headers, rfl, hauth⟩ := buildHopRequest_ok hbuild
        rcases hauth hu.credentials with ⟨hne, heq⟩ | ⟨hempty, heq⟩
        · exact heq.trans (if_pos hne).symm
        · exact heq.trans (if_neg (not_not.mpr hempty)).symm

/-- Every hop of a crossed chain is bare, and every hop from the crossing on. -/
theorem LoopState.loop_bare (l : LoopParams O J) (st : LoopState J) (elapsed : Duration)
    (replies : List Reply) :
    (st.Crossed → ∀ hop ∈ (st.loop l elapsed replies).hops, Bare hop) ∧
      (st.Uncrossed → ∀ hop ∈ afterCrossing (st.loop l elapsed replies).hops, Bare hop) := by
  refine loop_induction l (P := fun st hops => (st.Crossed → ∀ hop ∈ hops, Bare hop) ∧
      (st.Uncrossed → ∀ hop ∈ afterCrossing hops, Bare hop)) ?_ ?_ ?_ st elapsed replies
  · exact fun st => ⟨fun _ _ hb => absurd hb List.not_mem_nil, fun _ _ hb => absurd hb List.not_mem_nil⟩
  · intro st elapsed hop st' hprep
    refine ⟨fun hc b hb => ?_, fun _ _ hb => absurd hb List.not_mem_nil⟩
    rw [List.mem_singleton.mp hb]
    exact (hc.prepare_ok hprep).1
  · intro st elapsed hop st' jar response next rest hprep hnext hhead ih
    constructor
    · intro hc b hb
      obtain ⟨hbare, rfl⟩ := hc.prepare_ok hprep
      rcases List.mem_cons.mp hb with rfl | hrest
      · exact hbare
      · exact ih.1 (hc.follow _ hnext) b hrest
    · intro hu b hb
      rw [(hu.prepare_ok hprep).1] at hnext
      rw [afterCrossing_cons hhead, (LoopState.prepare_ok hprep).1] at hb
      split at hb
      · rename_i hsame
        exact ih.2 ((hu.follow _ hnext).1 hsame) b hb
      · rename_i hdiff
        exact ih.1 ((hu.follow _ hnext).2 (by simpa using hdiff)) b hb

/-- Up to the crossing, every hop of a chain carries the same `Authorization`. -/
theorem LoopState.Uncrossed.loop_kept (hu : st.Uncrossed)
    (honce : (st.headers.getAll authorization).length ≤ 1) (elapsed : Duration) (replies : List Reply) :
    ∀ hop ∈ beforeCrossing (st.loop l elapsed replies).hops, hop.headers.getAll authorization =
      appliedAuthorization (st.headers.getAll authorization) l.params.auth l.params.authDisabled
        l.config.auth := by
  revert hu honce
  refine loop_induction l (P := fun st hops => st.Uncrossed → (st.headers.getAll authorization).length ≤ 1 →
      ∀ hop ∈ beforeCrossing hops, hop.headers.getAll authorization =
        appliedAuthorization (st.headers.getAll authorization) l.params.auth l.params.authDisabled
          l.config.auth)
    (fun _ _ _ _ hb => absurd hb List.not_mem_nil) ?_ ?_ st elapsed replies
  · intro st elapsed hop st' hprep hu _ b hb
    rw [List.mem_singleton.mp hb]
    exact (hu.prepare_ok hprep).2
  · intro st elapsed hop st' jar response next rest hprep hnext hhead ih hu honce b hb
    obtain ⟨hst, hauth⟩ := hu.prepare_ok hprep
    rw [hst] at hnext
    rw [beforeCrossing_cons hhead, (LoopState.prepare_ok hprep).1] at hb
    rcases List.mem_cons.mp hb with rfl | hrest
    · exact hauth
    · split at hrest
      · rename_i hsame
        have hvalues : next.headers.getAll authorization = st.headers.getAll authorization := by
          rw [(follow_ok hnext).1, getAll_redirectHeaders, if_pos rfl]
          exact (if_pos hsame).trans (List.take_of_length_le honce)
        rw [← hvalues]
        exact ih ((hu.follow _ hnext).1 hsame) (hvalues ▸ honce) b hrest
      · cases hrest

private theorem LoopState.Uncrossed.loop_leaves (hu : st.Uncrossed) (elapsed : Duration) {replies : List Reply}
    (hleaves : ∀ reply ∈ replies.head?, staysOnOrigin l.join st.url reply = false) :
    ∀ hop ∈ beforeCrossing (st.loop l elapsed replies).hops, hop.headers.getAll authorization =
      appliedAuthorization (st.headers.getAll authorization) l.params.auth l.params.authDisabled
        l.config.auth := by
  intro b hb
  rcases st.loop_cases l elapsed replies with
    hnil | ⟨first, _, hprep, hhops⟩ | ⟨first, st', _, _, response, next, rfl, hresult, hprep, hnext, hhops⟩
  · rw [hnil] at hb
    exact absurd hb List.not_mem_nil
  · rw [hhops] at hb
    rw [List.mem_singleton.mp hb]
    exact (hu.prepare_ok hprep).2
  · obtain ⟨hst, hauth⟩ := hu.prepare_ok hprep
    rw [hst] at hnext
    have hdiff := (follow_stays hresult hnext).symm.trans (hleaves _ rfl)
    rw [hhops, beforeCrossing_cons loop_head, (LoopState.prepare_ok hprep).1, hdiff] at hb
    rw [List.mem_singleton.mp hb]
    exact hauth

/-- Two loops of clients and requests that differ in nothing but secrets. -/
structure SameLoop (l l' : LoopParams O J) : Prop where
  store : l'.store = l.store
  join : l'.join = l.join
  policy : l'.policy = l.policy
  params : l'.params = { l.params with headers := l'.params.headers, auth := l'.params.auth }

theorem LoopState.follow_congr (hjoin : l'.join = l.join) (hpolicy : l'.policy = l.policy)
    (response : Response) : st.follow l' response = st.follow l response := by
  unfold follow
  rw [hjoin, hpolicy]

private theorem SameLoop.request (hsame : SameLoop l l') (st : LoopState J) (hcredentials : st.credentialsAllowed = false)
    (timeout : Timeout) (headers : Headers) :
    (st.hopParams l' timeout).request headers = (st.hopParams l timeout).request headers := by
  unfold LoopState.hopParams
  rw [hsame.params]
  simp only [HopBuildParams.request, HopBuildParams.hopHints, hcredentials, Bool.false_eq_true, if_false]

theorem LoopState.enter_jar (st : LoopState J) (jar : J) :
    { st with jar := jar }.enter = { st.enter with jar := jar } := by
  have hcross : { st with jar := jar }.isCrossOrigin = st.isCrossOrigin := rfl
  unfold enter
  rw [hcross]
  split <;> rfl

theorem LoopState.Crossed.withJar (hc : st.Crossed) (jar : J) : { st with jar := jar }.Crossed := by
  refine ⟨hc.headers, ?_, ?_⟩ <;> rw [enter_jar]
  · exact hc.credentials
  · exact hc.cookies

theorem SameLoop.prepare (hsame : SameLoop l l') (hc : st.Crossed) (elapsed : Duration) (jar' : J) :
    { st with jar := jar' }.prepare l' elapsed =
      (st.prepare l elapsed).map fun p => (p.1, { p.2 with jar := jar' }) := by
  have htimeout : l'.params.timeout = l.params.timeout := by rw [hsame.params]
  have hhints : l'.params.transportHints = l.params.transportHints := by rw [hsame.params]
  have hproxied : l'.params.proxiedTarget = l.params.proxiedTarget := by rw [hsame.params]
  have hcross : { st with jar := jar' }.isCrossOrigin = st.isCrossOrigin := rfl
  rw [(hc.withJar jar').prepare, hc.prepare, htimeout, hhints, hproxied, hcross]
  cases hopTimeout l.params.timeout elapsed with
  | error e => rfl
  | ok timeout =>
    dsimp only
    split
    · rfl
    · have hrequest := hsame.request st.enter hc.credentials timeout (st.headers.remove cookie)
      rw [st.enter_jar, Except.map, ← hrequest]
      rfl

private theorem SameLoop.loop_crossed (hsame : SameLoop l l') (hc : st.Crossed) (jar' : J) (elapsed : Duration)
    (replies : List Reply) :
    ({ st with jar := jar' }.loop l' elapsed replies).hops = (st.loop l elapsed replies).hops ∧
      ({ st with jar := jar' }.loop l' elapsed replies).outcome = (st.loop l elapsed replies).outcome := by
  induction replies generalizing st elapsed jar' with
  | nil =>
    simp only [LoopState.loop, hsame.prepare hc]
    cases st.prepare l elapsed <;> exact ⟨rfl, rfl⟩
  | cons reply replies ih =>
    simp only [LoopState.loop, hsame.prepare hc]
    cases hprep : st.prepare l elapsed with
    | error e => exact ⟨rfl, rfl⟩
    | ok p =>
      obtain ⟨-, henter⟩ := hc.prepare_ok hprep
      simp only [Except.map, hsame.store]
      cases reply.result with
      | error e => exact ⟨rfl, rfl⟩
      | ok response =>
        -- both responses lead to the same next state, but for the jar
        have hfollow := p.2.follow_jar (l := l) response
        dsimp only
        rw [LoopState.follow_congr hsame.join hsame.policy, hfollow (updateCookieJar l.store jar' response),
          hfollow (updateCookieJar l.store p.2.jar response)]
        cases hnext : p.2.follow l response with
        | error outcome => exact ⟨rfl, rfl⟩
        | ok next =>
          have hcrossed : next.Crossed := hc.follow p.2.jar (by rw [← henter]; exact hnext)
          have hloop := ih (hcrossed.withJar (updateCookieJar l.store p.2.jar response))
            (updateCookieJar l.store jar' response) reply.elapsed
          exact ⟨congrArg (p.1 :: ·) hloop.1, hloop.2⟩

theorem LoopState.Uncrossed.withSecrets (hu : st.Uncrossed) (headers : Headers) (jar : J) :
    { st with headers := headers, jar := jar }.Uncrossed := ⟨hu.same, hu.credentials⟩

private theorem LoopState.Uncrossed.loop_cons (hu : st.Uncrossed) {elapsed : Duration} {st' : LoopState J}
    (hprep : st.prepare l elapsed = .ok (hop, st')) {reply : Reply} {response : Response}
    (hresult : reply.result = .ok response) (replies : List Reply) :
    ∃ jar, st.loop l elapsed (reply :: replies) =
      match (st.follow l response).map fun next => { next with jar := jar } with
      | .error outcome => ⟨[hop], outcome, jar⟩
      | .ok next =>
        let rest := next.loop l reply.elapsed replies
        ⟨hop :: rest.hops, rest.outcome, rest.jar⟩ := by
  obtain ⟨jar, rfl⟩ : ∃ jar, st' = { st with jar := jar } := ⟨_, (hu.prepare_ok hprep).1⟩
  refine ⟨updateCookieJar l.store jar response, ?_⟩
  rw [← LoopState.follow_jar, LoopState.loop, hprep]
  dsimp only
  rewrite [hresult]
  rfl

/-- Two uncrossed loops that differ in secrets and jars agree from the crossing on, when both
of them cross. -/
theorem SameLoop.loop_uncrossed (hsame : SameLoop l l') (hu : st.Uncrossed)
    (hagree : AgreeOffSecrets st.headers h') (jar' : J) (elapsed : Duration) (replies : List Reply)
    (hcross : afterCrossing (st.loop l elapsed replies).hops ≠ [])
    (hcross' : afterCrossing ({ st with headers := h', jar := jar' }.loop l' elapsed replies).hops ≠ []) :
    afterCrossing (st.loop l elapsed replies).hops =
        afterCrossing ({ st with headers := h', jar := jar' }.loop l' elapsed replies).hops ∧
      (st.loop l elapsed replies).outcome =
        ({ st with headers := h', jar := jar' }.loop l' elapsed replies).outcome := by
  induction replies generalizing st elapsed h' jar' with
  | nil =>
    cases hprep : st.prepare l elapsed <;> simp [LoopState.loop, hprep, afterCrossing] at hcross
  | cons reply replies ih =>
    have hu' := hu.withSecrets h' jar'
    cases hprep : st.prepare l elapsed with
    | error e => simp [LoopState.loop, hprep, afterCrossing] at hcross
    | ok p =>
      cases hprep' : { st with headers := h', jar := jar' }.prepare l' elapsed with
      | error e => simp [LoopState.loop, hprep', afterCrossing] at hcross'
      | ok p' =>
        cases hresult : reply.result with
        | error e => simp [LoopState.loop, hprep, hresult, afterCrossing] at hcross
        | ok response =>
          obtain ⟨jar₁, hloop⟩ := hu.loop_cons hprep hresult replies
          obtain ⟨jar₂, hloop'⟩ := hu'.loop_cons hprep' hresult replies
          have hurl := (LoopState.prepare_ok hprep).1
          have hurl' := (LoopState.prepare_ok hprep').1
          rw [LoopState.follow_congr hsame.join hsame.policy, st.follow_eq response h' jar'] at hloop'
          cases hnext : st.follow l response with
          | error outcome =>
            rw [hnext] at hloop
            simp [hloop, Except.map, afterCrossing] at hcross
          | ok next =>
            rw [hnext] at hloop hloop'
            simp only [Except.map] at hloop hloop'
            have hheaders := (LoopState.follow_ok hnext).1
            rw [hloop, afterCrossing_cons LoopState.loop_head, hurl] at hcross
            rw [hloop', afterCrossing_cons LoopState.loop_head, hurl'] at hcross'
            rw [hloop, hloop', afterCrossing_cons LoopState.loop_head, afterCrossing_cons LoopState.loop_head,
              hurl, hurl']
            have hstep := hu.follow st.jar hnext
            cases hdiff : st.url.sameOrigin next.url with
            | true =>
              simp only [hdiff, if_true] at hcross hcross' ⊢
              have hnextAgree := redirectHeaders_agree st.url next.url
                (dropsBodyOnRedirect response.status st.method) hagree
              rw [← hheaders] at hnextAgree
              exact ih ((hstep.1 hdiff).withSecrets next.headers jar₁) hnextAgree jar₂ _ hcross hcross'
            | false =>
              -- the crossing strips what was different
              have hequal : redirectHeaders h' st.url next.url
                  (dropsBodyOnRedirect response.status st.method) = next.headers := by
                rw [hheaders]
                exact ((redirectHeaders_agree _ _ _ hagree).eq (redirectHeaders_crossing hdiff)
                  (redirectHeaders_crossing hdiff)).symm
              have hcrossed := (hstep.2 hdiff).withJar jar₁
              obtain ⟨hhops, houtcome⟩ := hsame.loop_crossed hcrossed jar₂ reply.elapsed replies
              rw [hequal]
              simp only [Bool.false_eq_true, if_false]
              exact ⟨hhops.symm, houtcome.symm⟩

end

theorem SameButSecrets.sameLoop {config config' : ClientConfig} {request request' : Request O}
    (h : SameButSecrets config config' request request') (store : CookieStore J) (join : Join)
    (policy : RedirectPolicy) :
    SameLoop ⟨store, join, config, policy, prepareFirstHop config request⟩
      ⟨store, join, config', policy, prepareFirstHop config' request'⟩ := by
  refine ⟨rfl, rfl, rfl, ?_⟩
  rw [h.sameConfig, h.sameRequest]
  rfl

variable {store : CookieStore J} {join : Join} {config : ClientConfig} {jar : J} {request : Request O}
  {elapsed : Duration} {replies : List Reply}

/-- A client that does not follow redirects dispatches at most one hop. -/
theorem sendFirstHop_hops (store : CookieStore J) (config : ClientConfig) (jar : J)
    (params : HopBuildParams O) (replies : List Reply) :
    (sendFirstHop store config jar params replies).hops = [] ∨
      ∃ hop jar', buildHopRequest store config jar params = .ok (hop, jar') ∧
        (sendFirstHop store config jar params replies).hops = [hop] := by
  unfold sendFirstHop
  split
  · exact .inl rfl
  · rename_i hop jar' hbuild
    refine .inr ⟨hop, jar', hbuild, ?_⟩
    dsimp only
    split
    · rfl
    · split <;> rfl

theorem LoopState.start_uncrossed (params : HopBuildParams O) (jar : J) :
    (LoopState.start params jar).Uncrossed := ⟨rfl, rfl⟩

theorem sendFirstHop_afterCrossing (params : HopBuildParams O) :
    afterCrossing (sendFirstHop store config jar params replies).hops = [] := by
  rcases sendFirstHop_hops store config jar params replies with hnil | ⟨_, _, _, hone⟩
  · rw [hnil]
    rfl
  · rw [hone]
    rfl

theorem sendWithRedirects_single (hfollow : (request.redirect.getD config.redirect).follow = false) :
    sendWithRedirects store join config jar request elapsed replies =
      sendFirstHop store config jar (prepareFirstHop config request) replies := by
  simp [sendWithRedirects, hfollow]

theorem sendWithRedirects_loop (hfollow : (request.redirect.getD config.redirect).follow = true) :
    sendWithRedirects store join config jar request elapsed replies =
      (LoopState.start (prepareFirstHop config request) jar).loop
        ⟨store, join, config, request.redirect.getD config.redirect, prepareFirstHop config request⟩
        elapsed replies := by
  simp [sendWithRedirects, hfollow]

private theorem single_confined (hfollow : (request.redirect.getD config.redirect).follow = false) :
    Confined store join config jar request elapsed replies := by
  refine ⟨?_, ?_, ?_⟩
  · rw [sendWithRedirects_single hfollow, sendFirstHop_afterCrossing]
    exact fun _ hb => absurd hb List.not_mem_nil
  · intro config' jar' request' hsame
    dsimp only
    rw [sendWithRedirects_single hfollow, sendFirstHop_afterCrossing]
    exact fun hcross => absurd rfl hcross
  · rw [sendWithRedirects_single hfollow]
    rcases sendFirstHop_hops store config jar (prepareFirstHop config request) replies with
      hnil | ⟨hop, jar', hbuild, hone⟩
    · rw [hnil]
      exact fun _ hb => absurd hb List.not_mem_nil
    · rw [hone]
      intro b hb
      rw [List.mem_singleton.mp hb]
      obtain ⟨headers, rfl, hauth⟩ := buildHopRequest_ok hbuild
      rcases hauth rfl with ⟨hne, heq⟩ | ⟨hempty, heq⟩
      · exact heq.trans (if_pos hne).symm
      · exact heq.trans (if_neg (not_not.mpr hempty)).symm

private theorem loop_independent (hfollow : (request.redirect.getD config.redirect).follow = true)
    {config' : ClientConfig} {request' : Request O} (hsame : SameButSecrets config config' request request')
    (jar' : J) :
    let trace := sendWithRedirects store join config jar request elapsed replies
    let trace' := sendWithRedirects store join config' jar' request' elapsed replies
    afterCrossing trace.hops ≠ [] → afterCrossing trace'.hops ≠ [] →
    afterCrossing trace.hops = afterCrossing trace'.hops ∧ trace.outcome = trace'.outcome := by
  have hpolicy : request'.redirect.getD config'.redirect = request.redirect.getD config.redirect := by
    rw [hsame.sameConfig, hsame.sameRequest]
  have hstart : LoopState.start (prepareFirstHop config' request') jar' =
      { LoopState.start (prepareFirstHop config request) jar with
        headers := mergedHeaders config' request', jar := jar' } := by
    rw [hsame.sameConfig, hsame.sameRequest]
    rfl
  have hfollow' : (request'.redirect.getD config'.redirect).follow = true := hpolicy ▸ hfollow
  have hagree : AgreeOffSecrets (LoopState.start (prepareFirstHop config request) jar).headers
      (mergedHeaders config' request') := mergedHeaders_agree hsame
  dsimp only
  rw [sendWithRedirects_loop hfollow, sendWithRedirects_loop hfollow', hpolicy, hstart]
  exact (hsame.sameLoop store join _).loop_uncrossed (LoopState.start_uncrossed _ jar) hagree jar' elapsed
    replies

/-- A redirect chain confines credentials when `Authorization` is not repeated, or the first
reply leads away from the origin. -/
theorem redirect_confined (store : CookieStore J) (join : Join) (config : ClientConfig) (jar : J)
    (request : Request O) (elapsed : Duration) (replies : List Reply)
    (h : ((mergedHeaders config request).getAll authorization).length ≤ 1 ∨
      ∀ reply ∈ replies.head?, staysOnOrigin join request.url reply = false) :
    Confined store join config jar request elapsed replies := by
  cases hfollow : (request.redirect.getD config.redirect).follow with
  | false => exact single_confined hfollow
  | true =>
    have hstart := LoopState.start_uncrossed (prepareFirstHop config request) jar
    refine ⟨?_, fun _ jar' _ hsame => loop_independent hfollow hsame jar', ?_⟩
    · rw [sendWithRedirects_loop hfollow]
      exact (LoopState.loop_bare _ _ _ _).2 hstart
    · rw [sendWithRedirects_loop hfollow]
      rcases h with honce | hleaves
      · exact hstart.loop_kept honce elapsed replies
      · exact hstart.loop_leaves elapsed hleaves

def siteA : Url := { scheme := utf8 "https", host := some (utf8 "a"), path := utf8 "/" }
def siteB : Url := { siteA with host := some (utf8 "b") }

def joinSites : Join := fun base location =>
  if location = utf8 "https://b/" then .ok siteB
  else if location = utf8 "https://a/" then .ok siteA
  else if location = utf8 "/next" then .ok { base with path := location }
  else .error (utf8 "relative URL without a base")

def noCookies : CookieStore Unit := ⟨fun _ _ => (none, ()), fun _ _ _ => ()⟩

def redirectTo (url : Url) (location : String) : Reply :=
  ⟨.ok ⟨307, url, Headers.empty.insertRaw (utf8 "location") (utf8 location)⟩, 0⟩

def following : ClientConfig := { redirect := { follow := true } }

private def getA (tokens : List String) : Request Unit :=
  { method := utf8 "GET", url := siteA, options := ()
    headers := Headers.empty.set authorization (tokens.map utf8) }

/-- The `Authorization` values of the hops up to the crossing, and of those after it. -/
private def authorizations (replies : List Reply) (tokens : List String) : List (List Str) × List (List Str) :=
  let hops := (sendWithRedirects noCookies joinSites following () (getA tokens) 0 replies).hops
  ((beforeCrossing hops).map (·.headers.getAll authorization),
    (afterCrossing hops).map (·.headers.getAll authorization))

/-- Two hops on the first origin carry the token; across and back, no hop does. -/
theorem redirect_confined_return :
    let replies := [redirectTo siteA "/next", redirectTo siteA "https://b/", redirectTo siteB "https://a/"]
    authorizations replies ["Bearer t"] = ([[utf8 "Bearer t"], [utf8 "Bearer t"]], [[], []]) ∧
      Confined noCookies joinSites following () (getA ["Bearer t"]) 0 replies :=
  ⟨by decide, redirect_confined _ _ _ _ _ _ _ (.inl (by decide))⟩

private theorem repeated_hops :
    authorizations [redirectTo siteA "/next"] ["Bearer t", "Bearer u"] =
      ([[utf8 "Bearer t", utf8 "Bearer u"], [utf8 "Bearer t"]], []) := by
  decide

/-- The second value of a repeated `Authorization` is lost on a same-origin redirect. -/
theorem repeated_authorization_lost :
    ¬ ∀ (store : CookieStore Unit) (join : Join) (config : ClientConfig) (jar : Unit)
      (request : Request Unit) (elapsed : Duration) (replies : List Reply),
      Confined store join config jar request elapsed replies := by
  intro hall
  have hkept := (hall noCookies joinSites following () (getA ["Bearer t", "Bearer u"]) 0
    [redirectTo siteA "/next"]).kept
  have hlost : [utf8 "Bearer t"] ∈ (authorizations [redirectTo siteA "/next"] ["Bearer t", "Bearer u"]).1 := by
    rw [repeated_hops]
    simp
  obtain ⟨hop, hmem, hvalues⟩ := List.mem_map.mp hlost
  have hcaller := hvalues.symm.trans (hkept hop hmem)
  exact absurd hcaller (by decide)

end Eggfetch.Pipeline
