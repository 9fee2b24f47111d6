import Eggfetch.Pipeline.Limits

/-! Request bodies along a redirect chain: replayed until a redirect drops them, gone from
there on, and never sent twice when they can be read only once. -/
namespace Eggfetch.Pipeline
open Text Http

variable {O J : Type}

/-- The bytes of a body; a one-shot stream has none to replay. -/
def RequestBody.payload : RequestBody → Option Str
  | .empty => some []
  | .bytes data => some data
  | .stream _ => none

def Reply.status (reply : Reply) : Option Nat :=
  match reply.result with
  | .ok response => some response.status
  | .error _ => none

/-- The statuses that led to hop `n`, counted from 0. -/
def statusesBefore (replies : List Reply) (n : Nat) : List Nat := (replies.take n).filterMap Reply.status

def methodAfter (method : Method) : List Nat → Method
  | [] => method
  | status :: statuses => methodAfter (redirectMethod status method) statuses

def droppedBy (method : Method) : List Nat → Bool
  | [] => false
  | status :: statuses =>
    dropsBodyOnRedirect status method || droppedBy (redirectMethod status method) statuses

/-- What a redirect chain does with the request body. -/
structure BodyReplayed (store : CookieStore J) (join : Join) (config : ClientConfig) (jar : J)
    (request : Request O) (elapsed : Duration) (replies : List Reply) : Prop where
  first : ∀ hop ∈ (sendWithRedirects store join config jar request elapsed replies).hops.head?,
    hop.body = request.body
  payload : ∀ n, ∀ hop ∈ (sendWithRedirects store join config jar request elapsed replies).hops[n]?,
    hop.body.payload =
      if droppedBy request.method (statusesBefore replies n) then some [] else request.body.payload
  contentHeaders : ∀ n, ∀ hop ∈ (sendWithRedirects store join config jar request elapsed replies).hops[n]?,
    droppedBy request.method (statusesBefore replies n) = true →
      ∀ name ∈ bodyHeaders, hop.headers.getAll name = []
  method : ∀ n, ∀ hop ∈ (sendWithRedirects store join config jar request elapsed replies).hops[n]?,
    hop.method = methodAfter request.method (statusesBefore replies n)
  rewritten : ∀ n, ∀ hop ∈ (sendWithRedirects store join config jar request elapsed replies).hops[n]?,
    methodAfter request.method (statusesBefore replies n) ≠ request.method → hop.body.payload = some []
  /-- A one-shot stream is sent on the first hop only. -/
  once : ∀ n, ∀ hop ∈ (sendWithRedirects store join config jar request elapsed replies).hops[n]?,
    ∀ source, hop.body = .stream source → n = 0
  /-- The first redirect that keeps the body ends a chain that has streamed it. -/
  notReplayable : (request.redirect.getD config.redirect).follow = true →
    ∀ source, request.body = .stream source →
    (sendWithRedirects store join config jar request elapsed replies).hops ≠ [] →
    ∀ reply ∈ replies.head?, ∀ response, reply.result = .ok response →
    (redirectLocation response).isSome → 1 ≤ (request.redirect.getD config.redirect).maxRedirects →
    dropsBodyOnRedirect response.status request.method = false →
      (sendWithRedirects store join config jar request elapsed replies).hops.length = 1 ∧
        (sendWithRedirects store join config jar request elapsed replies).outcome =
          .error .bodyNotReplayableForRedirect

private theorem redirectMethod_of_kept {status : Nat} {method : Method}
    (h : dropsBodyOnRedirect status method = false) : redirectMethod status method = method := by
  unfold dropsBodyOnRedirect at h
  split at h
  · rename_i hstatus
    have hhead : method = utf8 "HEAD" := by simpa using h
    simp [redirectMethod, hstatus, hhead]
  · rename_i hstatus
    unfold redirectMethod at h ⊢
    simp only [hstatus, if_false] at h ⊢
    by_cases hmoved : status = 301 ∨ status = 302
    · simp only [hmoved, if_true] at h ⊢
      by_cases hpost : method = utf8 "POST"
      · simp [hpost] at h
      · rw [if_neg hpost]
    · rw [if_neg hmoved]

theorem methodAfter_of_not_dropped {method : Method} {statuses : List Nat}
    (h : droppedBy method statuses = false) : methodAfter method statuses = method := by
  induction statuses with
  | nil => rfl
  | cons status statuses ih =>
    rw [droppedBy, Bool.or_eq_false_iff] at h
    rw [redirectMethod_of_kept h.1] at h
    rw [methodAfter, redirectMethod_of_kept h.1, ih h.2]

theorem statusesBefore_succ {reply : Reply} {response : Response} (hresult : reply.result = .ok response)
    (replies : List Reply) (n : Nat) :
    statusesBefore (reply :: replies) (n + 1) = response.status :: statusesBefore replies n := by
  simp [statusesBefore, Reply.status, hresult]

section
variable {l : LoopParams O J} {st : LoopState J} {hop : Request O}

private theorem buildHopRequest_headers {store : CookieStore J} {config : ClientConfig} {jar jar' : J}
    {params : HopBuildParams O} (h : buildHopRequest store config jar params = .ok (hop, jar')) {name : Str}
    (hcookie : name ≠ cookie) (hauth : name ≠ authorization) :
    hop.headers.getAll name = params.headers.getAll name := by
  unfold buildHopRequest at h
  split at h
  · cases h
  · rename_i cookieHeaders _ hcookies
    have hsame := withCookies_ok hcookies hcookie
    dsimp only at h
    split at h
    · cases h
    · obtain ⟨rfl, -⟩ := Prod.mk.inj (Except.ok.inj h)
      exact hsame
    · split at h
      · cases h
      · rename_i happly
        obtain ⟨rfl, -⟩ := Prod.mk.inj (Except.ok.inj h)
        rw [← hsame]
        simp only [HopBuildParams.request, Headers.insert_ok happly]
        exact Headers.getAll_set_of_ne hauth

theorem buildHopRequest_body {store : CookieStore J} {config : ClientConfig} {jar jar' : J}
    {params : HopBuildParams O} (h : buildHopRequest store config jar params = .ok (hop, jar')) :
    hop.method = params.method ∧ hop.body = params.body ∧
      ∀ name ∈ bodyHeaders, hop.headers.getAll name = params.headers.getAll name := by
  have hparts : hop.method = params.method ∧ hop.body = params.body := by
    obtain ⟨_, rfl, -⟩ := buildHopRequest_ok h
    exact ⟨rfl, rfl⟩
  refine ⟨hparts.1, hparts.2, fun name hname => ?_⟩
  have hcookie : name ≠ cookie := by
    rintro rfl
    exact absurd hname (by decide)
  have hauth : name ≠ authorization := by
    rintro rfl
    exact absurd hname (by decide)
  exact buildHopRequest_headers h hcookie hauth

/-- A prepared hop has the method, the body and the content headers of its state. -/
theorem LoopState.prepare_body {elapsed : Duration} {st' : LoopState J}
    (hprep : st.prepare l elapsed = .ok (hop, st')) :
    hop.method = st.method ∧ hop.body = st.body ∧
      ∀ name ∈ bodyHeaders, hop.headers.getAll name = st.headers.getAll name := by
  unfold prepare at hprep
  split at hprep
  · cases hprep
  · split at hprep
    · cases hprep
    · split at hprep
      · cases hprep
      · rename_i hbuild
        obtain ⟨rfl, -⟩ := Prod.mk.inj (Except.ok.inj hprep)
        obtain ⟨credentials, cookies, henter⟩ := st.enter_eq
        rw [henter] at hbuild
        exact buildHopRequest_body hbuild

def LoopState.Replayable (st : LoopState J) : Prop := st.replayBody = st.body.payload

theorem LoopState.start_replayable (params : HopBuildParams O) (jar : J) :
    (LoopState.start params jar).Replayable := by
  unfold Replayable start
  cases params.body <;> rfl

/-- The next state of a chain: its method, its body and its content headers. -/
theorem LoopState.follow_body {next : LoopState J} {response : Response} (hnext : st.follow l response = .ok next)
    (hreplay : st.Replayable) :
    next.Replayable ∧ next.method = redirectMethod response.status st.method ∧
      (∀ source, next.body ≠ .stream source) ∧
      next.body.payload =
        (if dropsBodyOnRedirect response.status st.method then some [] else st.body.payload) ∧
      ∀ name ∈ bodyHeaders, dropsBodyOnRedirect response.status st.method = true ∨ st.headers.getAll name = [] →
        next.headers.getAll name = [] := by
  obtain ⟨location, hop, replayBody, -, -, hadvance, rfl⟩ := follow_next hnext
  obtain ⟨payload, hpayload, rfl, -, -, -, hmethod, hheaders, hbody⟩ := advanceRedirectHop_ok hadvance
  rw [Replayable] at hreplay
  rw [hreplay] at hpayload
  have hnew : hop.body.payload = some payload := by
    rw [hbody]
    cases hdrop : dropsBodyOnRedirect response.status st.method with
    | true =>
      rw [hdrop, if_pos rfl] at hpayload
      exact hpayload
    | false => rfl
  refine ⟨hnew.symm, hmethod, ?_, hnew.trans hpayload.symm, ?_⟩
  · intro source hstream
    dsimp only at hstream
    rw [hbody] at hstream
    split at hstream <;> cases hstream
  · intro name hname hempty
    have hauth : name ≠ authorization := by
      rintro rfl
      exact absurd hname (by decide)
    dsimp only
    rw [hheaders, getAll_redirectHeaders, if_neg hauth]
    rcases hempty with hdrop | hempty
    · rw [if_pos (.inr (.inr ⟨hdrop, hname⟩))]
    · rw [hempty, ite_self]

/-- The hop after `n` redirects, with these statuses, of a loop. -/
structure LoopState.HopAfter (st : LoopState J) (n : Nat) (statuses : List Nat) (hop : Request O) : Prop where
  method : hop.method = methodAfter st.method statuses
  payload : hop.body.payload = if droppedBy st.method statuses then some [] else st.body.payload
  contentHeaders : ∀ name ∈ bodyHeaders, droppedBy st.method statuses = true ∨ st.headers.getAll name = [] →
    hop.headers.getAll name = []
  first : n = 0 → hop.body = st.body
  once : n ≠ 0 ∨ (∀ source, st.body ≠ .stream source) → ∀ source, hop.body ≠ .stream source

theorem LoopState.hopAfter_nil (hmethod : hop.method = st.method) (hbody : hop.body = st.body)
    (hheaders : ∀ name ∈ bodyHeaders, hop.headers.getAll name = st.headers.getAll name) :
    st.HopAfter 0 [] hop := by
  refine ⟨hmethod, congrArg _ hbody, fun name hname hempty => ?_, fun _ => hbody, fun hnot => ?_⟩
  · rcases hempty with hdropped | hempty
    · cases hdropped
    · rw [hheaders name hname, hempty]
  · rw [hbody]
    exact hnot.resolve_left fun hne => hne rfl

theorem LoopState.hopAfter_only {elapsed : Duration} {st' : LoopState J} {first : Request O} {replies : List Reply}
    {n : Nat} (hprep : st.prepare l elapsed = .ok (first, st')) (hmem : hop ∈ [first][n]?) :
    st.HopAfter n (statusesBefore replies n) hop := by
  cases n with
  | zero =>
    obtain rfl := Option.some.inj hmem
    obtain ⟨hmethod, hbody, hheaders⟩ := prepare_body hprep
    exact hopAfter_nil hmethod hbody hheaders
  | succ n => simp at hmem

theorem LoopState.hopAfter_cons {next : LoopState J} {response : Response} {n : Nat} {statuses : List Nat}
    (hnext : st.follow l response = .ok next) (hreplay : st.Replayable) (hafter : next.HopAfter n statuses hop) :
    st.HopAfter (n + 1) (response.status :: statuses) hop := by
  obtain ⟨-, hmethod, hstream, hpayload, hheaders⟩ := follow_body hnext hreplay
  refine ⟨?_, ?_, fun name hname hempty => ?_, (by intro h; cases h), fun _ => hafter.once (.inr hstream)⟩
  · rw [hafter.method, hmethod, methodAfter]
  · rw [hafter.payload, hpayload, hmethod, droppedBy]
    cases dropsBodyOnRedirect response.status st.method <;> simp
  · apply hafter.contentHeaders name hname
    rw [hmethod]
    rw [droppedBy, Bool.or_eq_true] at hempty
    rcases hempty with (hdrop | hdropped) | hempty
    · exact .inr (hheaders name hname (.inl hdrop))
    · exact .inl hdropped
    · exact .inr (hheaders name hname (.inr hempty))

theorem LoopState.loop_bodies (l : LoopParams O J) (st : LoopState J) (elapsed : Duration)
    (replies : List Reply) (hreplay : st.Replayable) :
    ∀ n, ∀ hop ∈ (st.loop l elapsed replies).hops[n]?, st.HopAfter n (statusesBefore replies n) hop := by
  revert hreplay
  refine loop_rec l (P := fun st replies trace => st.Replayable →
    ∀ n, ∀ hop ∈ trace.hops[n]?, st.HopAfter n (statusesBefore replies n) hop) ?_ ?_ ?_ ?_ ?_ st elapsed replies
  · intro st _ _ _ _ _ _ n hop hmem
    cases hmem
  · intro st elapsed first st' jar hprep _ n hop hmem
    exact hopAfter_only hprep hmem
  · intro st elapsed first st' jar reply replies e hprep _ _ n hop hmem
    exact hopAfter_only hprep hmem
  · intro st elapsed first st' _ _ jar reply replies response outcome hprep _ _ _ n hop hmem
    exact hopAfter_only hprep hmem
  · intro st elapsed first st' _ _ jar reply replies response next rest hprep hresult hnext ih hreplay n hop hmem
    cases n with
    | zero =>
      obtain rfl := Option.some.inj hmem
      obtain ⟨hmethod, hbody, hheaders⟩ := prepare_body hprep
      exact hopAfter_nil hmethod hbody hheaders
    | succ n =>
      rw [statusesBefore_succ hresult]
      have hstep := follow_body hnext hreplay
      obtain ⟨hmethod, hpayload, hheaders, hfirst, honce⟩ := hopAfter_cons hnext hreplay (ih hstep.1 n hop hmem)
      exact ⟨hmethod, hpayload, hheaders, hfirst, honce⟩

private theorem LoopState.loop_notReplayable (hfollow : l.policy.follow = true) {elapsed : Duration} {reply : Reply}
    {replies : List Reply} {response : Response} (hstream : st.replayBody = none)
    (hhops : (st.loop l elapsed (reply :: replies)).hops ≠ []) (hresult : reply.result = .ok response)
    (hlocation : (redirectLocation response).isSome) (hcount : st.redirectCount + 1 ≤ l.policy.maxRedirects)
    (hkeep : dropsBodyOnRedirect response.status st.method = false) :
    (st.loop l elapsed (reply :: replies)).hops.length = 1 ∧
      (st.loop l elapsed (reply :: replies)).outcome = .error .bodyNotReplayableForRedirect := by
  have hadvance : ∀ location, advanceRedirectHop l.join st.method st.url st.headers st.replayBody response.status
      location l.policy.downgrade = .error .bodyNotReplayableForRedirect := by
    intro location
    simp only [advanceRedirectHop, hkeep, hstream, Bool.false_eq_true, if_false]
  rw [loop] at hhops ⊢
  cases hprep : st.prepare l elapsed with
  | error e =>
    rw [hprep] at hhops
    exact absurd rfl hhops
  | ok p =>
    obtain ⟨credentials, cookies, henter⟩ := st.enter_eq
    have hstate := (prepare_ok hprep).2
    rw [henter] at hstate
    simp only [hresult]
    cases hnext : { p.2 with jar := updateCookieJar l.store p.2.jar response }.follow l response with
    | ok next =>
      rw [hstate] at hnext
      obtain ⟨location, hop, replayBody, -, -, hok, -⟩ := follow_next hnext
      cases (hadvance location).symm.trans hok
    | error outcome =>
      rw [hstate] at hnext
      rcases follow_end hfollow hnext with
        ⟨hnone, -⟩ | ⟨location, -, ⟨hover, -⟩ | ⟨-, e, rfl, herr⟩⟩
      · rw [hnone] at hlocation
        cases hlocation
      · exact absurd hcount (Nat.not_le_of_lt hover)
      · obtain rfl := Except.error.inj ((hadvance location).symm.trans herr)
        exact ⟨rfl, rfl⟩

end

theorem sendWithRedirects_bodies (store : CookieStore J) (join : Join) (config : ClientConfig) (jar : J)
    (request : Request O) (elapsed : Duration) (replies : List Reply) :
    ∀ n, ∀ hop ∈ (sendWithRedirects store join config jar request elapsed replies).hops[n]?,
      (LoopState.start (prepareFirstHop config request) jar).HopAfter n (statusesBefore replies n) hop := by
  cases hfollow : (request.redirect.getD config.redirect).follow with
  | true =>
    rw [sendWithRedirects_loop hfollow]
    exact LoopState.loop_bodies _ _ elapsed replies (LoopState.start_replayable _ jar)
  | false =>
    rw [sendWithRedirects_single hfollow]
    intro n hop hmem
    rcases sendFirstHop_hops store config jar (prepareFirstHop config request) replies with
      hnil | ⟨first, jar', hbuild, hone⟩
    · simp [hnil] at hmem
    · rw [hone] at hmem
      cases n with
      | zero =>
        obtain rfl := Option.some.inj hmem
        obtain ⟨hmethod, hbody, hheaders⟩ := buildHopRequest_body hbuild
        exact LoopState.hopAfter_nil hmethod hbody hheaders
      | succ n => simp at hmem

/-- A redirect chain replays the body until it is dropped, and never sends a stream twice. -/
theorem body_replayed (store : CookieStore J) (join : Join) (config : ClientConfig) (jar : J)
    (request : Request O) (elapsed : Duration) (replies : List Reply) :
    BodyReplayed store join config jar request elapsed replies := by
  have hbodies := sendWithRedirects_bodies store join config jar request elapsed replies
  refine ⟨?_, ?_, ?_, ?_, ?_, ?_, ?_⟩
  · intro hop hhead
    rw [List.head?_eq_getElem?] at hhead
    exact (hbodies 0 hop hhead).first rfl
  · exact fun n hop hmem => (hbodies n hop hmem).payload
  · exact fun n hop hmem hdropped name hname => (hbodies n hop hmem).contentHeaders name hname (.inl hdropped)
  · exact fun n hop hmem => (hbodies n hop hmem).method
  · intro n hop hmem hrewritten
    have hdropped : droppedBy request.method (statusesBefore replies n) = true := by
      by_contra hkept
      exact hrewritten (methodAfter_of_not_dropped (by simpa using hkept))
    exact (hbodies n hop hmem).payload.trans (if_pos hdropped)
  · intro n hop hmem source hstream
    by_contra hlater
    exact (hbodies n hop hmem).once (.inl hlater) source hstream
  · intro hfollow source hbody hhops reply hreply response hresult hlocation hcount hkeep
    obtain ⟨rest, rfl⟩ := List.head?_eq_some_iff.mp hreply
    rw [sendWithRedirects_loop hfollow] at hhops ⊢
    refine LoopState.loop_notReplayable hfollow ?_ hhops hresult hlocation hcount hkeep
    simp [LoopState.start, prepareFirstHop, hbody]

end Eggfetch.Pipeline
