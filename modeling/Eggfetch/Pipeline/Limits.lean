import Eggfetch.Pipeline.Secrecy

/-! How far a redirect chain goes: the count of its hops, the history it returns, its limit
and the schemes it passes through. -/
namespace Eggfetch.Pipeline
open Text Http

variable {O J : Type}

def redirectLocation (response : Response) : Option Str :=
  if isRedirectStatus response.status then
    (response.headers.get (utf8 "location")).filter isVisibleAscii
  else none

/-- Reply `n`, counted from 0, is a redirect with a readable Location. -/
def RedirectsAgain (replies : List Reply) (n : Nat) : Prop :=
  ∃ reply ∈ replies[n]?, ∃ response, reply.result = .ok response ∧ (redirectLocation response).isSome

/-- What a redirect chain does with its limits. -/
structure RedirectsLimited (store : CookieStore J) (join : Join) (config : ClientConfig) (jar : J)
    (request : Request O) (elapsed : Duration) (replies : List Reply) : Prop where
  dispatched : (sendWithRedirects store join config jar request elapsed replies).hops.length ≤
    (request.redirect.getD config.redirect).maxRedirects + 1
  /-- The history is made of the responses that were followed. -/
  history : ∀ response history,
    (sendWithRedirects store join config jar request elapsed replies).outcome = .ok response history →
    history.length + 1 = (sendWithRedirects store join config jar request elapsed replies).hops.length ∧
    (replies.take (sendWithRedirects store join config jar request elapsed replies).hops.length).map (·.result) =
      (history ++ [response]).map .ok
  /-- As long as the transport has no such error of its own. -/
  tooMany : (∀ reply ∈ replies, ∀ followed max, reply.result ≠ .error (.tooManyRedirects followed max)) →
    ((∃ followed max, (sendWithRedirects store join config jar request elapsed replies).outcome =
        .error (.tooManyRedirects followed max)) ↔
      (sendWithRedirects store join config jar request elapsed replies).hops.length =
          (request.redirect.getD config.redirect).maxRedirects + 1 ∧
        RedirectsAgain replies (request.redirect.getD config.redirect).maxRedirects)
  downgrade : (request.redirect.getD config.redirect).downgrade = .deny →
    (sendWithRedirects store join config jar request elapsed replies).hops.Pairwise fun a b =>
      a.url.scheme = utf8 "https" → b.url.scheme ≠ utf8 "http"

section
variable {l : LoopParams O J} {st next : LoopState J} {response : Response}

/-- What a hop that is advanced to consists of. -/
theorem advanceRedirectHop_ok {join : Join} {method : Method} {url : Url} {headers : Headers}
    {replayBody replayBody' : Option Str} {status : Nat} {location : Str}
    {downgrade : RedirectDowngradePolicy} {hop : RedirectHop}
    (h : advanceRedirectHop join method url headers replayBody status location downgrade = .ok (hop, replayBody')) :
    ∃ payload, (if dropsBodyOnRedirect status method then some [] else replayBody) = some payload ∧
      replayBody' = some payload ∧
      join url location = .ok hop.url ∧
      validateRedirectUrl hop.url = .ok () ∧
      checkHttpsDowngrade url hop.url downgrade = .ok () ∧
      hop.method = redirectMethod status method ∧
      hop.headers = redirectHeaders headers url hop.url (dropsBodyOnRedirect status method) ∧
      hop.body = if dropsBodyOnRedirect status method then .empty else .bytes payload := by
  unfold advanceRedirectHop at h
  dsimp only at h
  split at h
  · cases h
  · rename_i payload hpayload
    split at h
    · cases h
    · rename_i newUrl newHeaders newBody hbuild
      obtain ⟨rfl, rfl⟩ := Prod.mk.inj (Except.ok.inj h)
      refine ⟨payload, hpayload, rfl, buildRedirectRequest_url hbuild, ?_⟩
      unfold buildRedirectRequest at hbuild
      split at hbuild
      · cases hbuild
      · split at hbuild
        · cases hbuild
        · rename_i hvalid
          split at hbuild
          · cases hbuild
          · rename_i hcheck
            dsimp only at hbuild
            split at hbuild
            · rename_i hdrop
              obtain ⟨rfl, hrest⟩ := Prod.mk.inj (Except.ok.inj hbuild)
              obtain ⟨rfl, rfl⟩ := Prod.mk.inj hrest
              exact ⟨hvalid, hcheck, rfl, rfl, by rw [if_pos hdrop]⟩
            · rename_i hkeep
              split at hbuild
              · cases hbuild
              · rename_i hclone
                obtain ⟨rfl, hrest⟩ := Prod.mk.inj (Except.ok.inj hbuild)
                obtain ⟨rfl, rfl⟩ := Prod.mk.inj hrest
                refine ⟨hvalid, hcheck, rfl, rfl, ?_⟩
                rw [if_neg hkeep]
                exact (Except.ok.inj hclone).symm

theorem redirectLocation_eq (hredirect : isRedirectStatus response.status = true) {location : Str}
    (hlocation : response.headers.get (utf8 "location") = some location) :
    redirectLocation response = if isVisibleAscii location then some location else none := by
  simp only [redirectLocation, hredirect, hlocation, if_true, Option.filter_some]

/-- A followed response has a readable Location, is within the limit and was advanced. -/
theorem LoopState.follow_next (hnext : st.follow l response = .ok next) :
    ∃ location hop replayBody, redirectLocation response = some location ∧
      st.redirectCount + 1 ≤ l.policy.maxRedirects ∧
      advanceRedirectHop l.join st.method st.url st.headers st.replayBody response.status location
        l.policy.downgrade = .ok (hop, replayBody) ∧
      next = { st with
        method := hop.method
        url := hop.url
        headers := hop.headers
        body := hop.body
        version := hop.version
        replayBody := replayBody
        prevUrl := some st.url
        redirectCount := st.redirectCount + 1
        history := st.history ++ [response] } := by
  unfold follow at hnext
  split at hnext
  · cases hnext
  · rename_i hredirect
    split at hnext
    · cases hnext
    · rename_i location hlocation
      split at hnext
      · cases hnext
      · rename_i hvisible
        dsimp only at hnext
        split at hnext
        · cases hnext
        · rename_i hcount
          split at hnext
          · cases hnext
          · rename_i hop replayBody hadvance
            have hstatus : isRedirectStatus response.status = true := by
              simpa using (not_or.mp hredirect).1
            refine ⟨location, hop, replayBody, ?_, Nat.le_of_not_lt hcount, hadvance, (Except.ok.inj hnext).symm⟩
            rw [redirectLocation_eq hstatus hlocation, if_pos (by simpa using hvisible)]

/-- The ways a chain ends at a response, for a policy that follows. -/
theorem LoopState.follow_end (hfollow : l.policy.follow = true) {outcome : Outcome}
    (hend : st.follow l response = .error outcome) :
    (redirectLocation response = none ∧
      (outcome = .ok response st.history ∨ ∃ reason, outcome = .error (.invalidRedirectLocation reason))) ∨
    ∃ location, redirectLocation response = some location ∧
      (l.policy.maxRedirects < st.redirectCount + 1 ∧
          outcome = .error (.tooManyRedirects st.redirectCount l.policy.maxRedirects) ∨
        st.redirectCount + 1 ≤ l.policy.maxRedirects ∧ ∃ e, outcome = .error e ∧
          advanceRedirectHop l.join st.method st.url st.headers st.replayBody response.status location
            l.policy.downgrade = .error e) := by
  unfold follow at hend
  split at hend
  · rename_i hredirect
    have hstatus : isRedirectStatus response.status = false := by simpa [hfollow] using hredirect
    refine .inl ⟨by simp [redirectLocation, hstatus], .inl (Except.error.inj hend).symm⟩
  · rename_i hredirect
    have hstatus : isRedirectStatus response.status = true := by
      simpa using (not_or.mp hredirect).1
    split at hend
    · rename_i hlocation
      refine .inl ⟨by simp [redirectLocation, hlocation], .inl (Except.error.inj hend).symm⟩
    · rename_i location hlocation
      split at hend
      · rename_i hvisible
        refine .inl ⟨?_, .inr ⟨_, (Except.error.inj hend).symm⟩⟩
        rw [redirectLocation_eq hstatus hlocation, if_neg (by simpa using hvisible)]
      · rename_i hvisible
        refine .inr ⟨location, ?_, ?_⟩
        · rw [redirectLocation_eq hstatus hlocation, if_pos (by simpa using hvisible)]
        · dsimp only at hend
          split at hend
          · rename_i hcount
            exact .inl ⟨hcount, (Except.error.inj hend).symm⟩
          · rename_i hcount
            split at hend
            · rename_i e hadvance
              exact .inr ⟨Nat.le_of_not_lt hcount, e, (Except.error.inj hend).symm, hadvance⟩
            · cases hend

theorem LoopState.enter_eq (st : LoopState J) :
    ∃ credentials cookies, st.enter =
      { st with credentialsAllowed := credentials, cookieHeaderAllowed := cookies } := by
  unfold enter
  split
  · exact ⟨false, false, rfl⟩
  · exact ⟨st.credentialsAllowed, st.cookieHeaderAllowed, rfl⟩

/-- Induction along a loop with the replies it takes: no hop, a hop without a reply, with a
failure or with a response, and then an end or the hops of the next state. -/
theorem LoopState.loop_rec {P : LoopState J → List Reply → Trace O J → Prop} (l : LoopParams O J)
    (fails : ∀ st elapsed replies e jar, st.prepare l elapsed = .error e → P st replies ⟨[], .error e, jar⟩)
    (waits : ∀ st elapsed hop st' jar, st.prepare l elapsed = .ok (hop, st') → P st [] ⟨[hop], .waiting, jar⟩)
    (breaks : ∀ st elapsed hop st' jar reply replies e, st.prepare l elapsed = .ok (hop, st') →
      reply.result = .error e → P st (reply :: replies) ⟨[hop], .error e, jar⟩)
    (ends : ∀ st elapsed hop st' credentials cookies jar reply replies response outcome,
      st.prepare l elapsed = .ok (hop, st') → reply.result = .ok response →
      { st with credentialsAllowed := credentials, cookieHeaderAllowed := cookies, jar := jar }.follow l response =
        .error outcome →
      P st (reply :: replies) ⟨[hop], outcome, jar⟩)
    (follows : ∀ st elapsed hop st' credentials cookies jar reply replies response next rest,
      st.prepare l elapsed = .ok (hop, st') → reply.result = .ok response →
      { st with credentialsAllowed := credentials, cookieHeaderAllowed := cookies, jar := jar }.follow l response =
        .ok next →
      P next replies rest → P st (reply :: replies) ⟨hop :: rest.hops, rest.outcome, rest.jar⟩)
    (st : LoopState J) (elapsed : Duration) (replies : List Reply) :
    P st replies (st.loop l elapsed replies) := by
  induction replies generalizing st elapsed with
  | nil =>
    rw [loop]
    cases hprep : st.prepare l elapsed with
    | error e => exact fails st elapsed [] e st.jar hprep
    | ok p => exact waits st elapsed p.1 p.2 p.2.jar hprep
  | cons reply replies ih =>
    rw [loop]
    cases hprep : st.prepare l elapsed with
    | error e => exact fails st elapsed _ e st.jar hprep
    | ok p =>
      have henter : p.2 = { st.enter with jar := p.2.jar } := (prepare_ok hprep).2
      dsimp only
      cases hresult : reply.result with
      | error e => exact breaks st elapsed p.1 p.2 p.2.jar reply replies e hprep hresult
      | ok response =>
        obtain ⟨credentials, cookies, hflags⟩ := st.enter_eq
        have hjar : { p.2 with jar := updateCookieJar l.store p.2.jar response } =
            { st with
              credentialsAllowed := credentials
              cookieHeaderAllowed := cookies
              jar := updateCookieJar l.store p.2.jar response } := by
          rw [henter, hflags]
        dsimp only
        rw [hjar]
        cases hnext : { st with
            credentialsAllowed := credentials
            cookieHeaderAllowed := cookies
            jar := updateCookieJar l.store p.2.jar response }.follow l response with
        | error outcome => exact ends st elapsed p.1 p.2 credentials cookies _ reply replies response outcome hprep hresult hnext
        | ok next =>
          exact follows st elapsed p.1 p.2 credentials cookies _ reply replies response next _ hprep hresult hnext
            (ih next reply.elapsed)

theorem hopTimeout_error {timeout : Timeout} {elapsed : Duration} {e : Error}
    (h : hopTimeout timeout elapsed = .error e) : e = .timeout .total elapsed := by
  unfold hopTimeout at h
  split at h
  · split at h
    · exact (Except.error.inj h).symm
    · cases h
  · cases h

private theorem resolveRequestAuth_error {requestAuth clientAuth : Option AuthScheme} {disabled : Bool}
    {headers : Headers} {e : Error} (h : resolveRequestAuth requestAuth disabled clientAuth headers = .error e) :
    e = .conflictingAuth := by
  unfold resolveRequestAuth at h
  split at h
  · split at h
    · exact (Except.error.inj h).symm
    · cases h
  · split at h
    · cases h
    · split at h <;> cases h

private theorem withCookies_error {store : CookieStore J} {jar : J} {params : HopBuildParams O} {e : Error}
    (h : params.withCookies store jar = .error e) : ∃ reason, e = .header reason := by
  unfold HopBuildParams.withCookies at h
  split at h
  · cases h
  · split at h
    · cases h
    · split at h
      · cases h
      · split at h
        · cases h
        · exact ⟨_, (Except.error.inj h).symm⟩

private theorem buildHopRequest_error {store : CookieStore J} {config : ClientConfig} {jar : J}
    {params : HopBuildParams O} {e : Error} (h : buildHopRequest store config jar params = .error e) :
    e = .conflictingAuth ∨ ∃ reason, e = .header reason := by
  unfold buildHopRequest at h
  split at h
  · rename_i hcookies
    obtain rfl := Except.error.inj h
    exact .inr (withCookies_error hcookies)
  · dsimp only at h
    split at h
    · rename_i hresolve
      obtain rfl := Except.error.inj h
      exact .inl (resolveRequestAuth_error hresolve)
    · cases h
    · split at h
      · exact .inr ⟨_, (Except.error.inj h).symm⟩
      · cases h

theorem LoopState.prepare_error {elapsed : Duration} {e : Error} (h : st.prepare l elapsed = .error e)
    (followed max : Nat) : e ≠ .tooManyRedirects followed max := by
  unfold prepare at h
  split at h
  · rename_i htimeout
    obtain rfl := Except.error.inj h
    rw [hopTimeout_error htimeout]
    exact (by intro h; cases h)
  · split at h
    · obtain rfl := Except.error.inj h
      exact (by intro h; cases h)
    · split at h
      · rename_i hbuild
        obtain rfl := Except.error.inj h
        rcases buildHopRequest_error hbuild with rfl | ⟨_, rfl⟩ <;> exact (by intro h; cases h)
      · cases h

private theorem buildRedirectRequest_error {join : Join} {url : Url} {headers : Headers} {body : RequestBody}
    {location : Str} {dropBody : Bool} {downgrade : RedirectDowngradePolicy} {e : Error}
    (h : buildRedirectRequest join url headers body location dropBody downgrade = .error e) :
    e = .bodyNotReplayableForRedirect ∨ (∃ reason, e = .invalidRedirectLocation reason) ∨
      ∃ reason, e = .unsupported reason := by
  unfold buildRedirectRequest at h
  split at h
  · exact .inr (.inl ⟨_, (Except.error.inj h).symm⟩)
  · split at h
    · rename_i hvalid
      obtain rfl := Except.error.inj h
      unfold validateRedirectUrl at hvalid
      split at hvalid
      · exact .inr (.inl ⟨_, (Except.error.inj hvalid).symm⟩)
      · split at hvalid
        · cases hvalid
        · exact .inr (.inr ⟨_, (Except.error.inj hvalid).symm⟩)
    · split at h
      · rename_i hcheck
        obtain rfl := Except.error.inj h
        unfold checkHttpsDowngrade at hcheck
        split at hcheck
        · exact .inr (.inl ⟨_, (Except.error.inj hcheck).symm⟩)
        · cases hcheck
      · dsimp only at h
        split at h
        · cases h
        · split at h
          · rename_i hclone
            obtain rfl := Except.error.inj h
            cases body
            · cases hclone
            · cases hclone
            · exact .inl (Except.error.inj hclone).symm
          · cases h

theorem advanceRedirectHop_error {join : Join} {method : Method} {url : Url} {headers : Headers}
    {replayBody : Option Str} {status : Nat} {location : Str} {downgrade : RedirectDowngradePolicy} {e : Error}
    (h : advanceRedirectHop join method url headers replayBody status location downgrade = .error e)
    (followed max : Nat) : e ≠ .tooManyRedirects followed max := by
  unfold advanceRedirectHop at h
  dsimp only at h
  split at h
  · obtain rfl := Except.error.inj h
    exact (by intro h; cases h)
  · split at h
    · rename_i hbuild
      obtain rfl := Except.error.inj h
      rcases buildRedirectRequest_error hbuild with rfl | ⟨_, rfl⟩ | ⟨_, rfl⟩ <;> exact (by intro h; cases h)
    · cases h

/-- A loop takes no more hops than its limit leaves. -/
theorem LoopState.loop_dispatched (l : LoopParams O J) (st : LoopState J) (elapsed : Duration)
    (replies : List Reply) (hcount : st.redirectCount ≤ l.policy.maxRedirects) :
    (st.loop l elapsed replies).hops.length + st.redirectCount ≤ l.policy.maxRedirects + 1 := by
  revert hcount
  refine loop_rec l (P := fun st _ trace => st.redirectCount ≤ l.policy.maxRedirects →
    trace.hops.length + st.redirectCount ≤ l.policy.maxRedirects + 1) ?_ ?_ ?_ ?_ ?_ st elapsed replies
  · intro st _ _ _ _ _ hcount
    simp only [List.length_nil]
    omega
  · intro st _ _ _ _ _ hcount
    simp only [List.length_singleton]
    omega
  · intro st _ _ _ _ _ _ _ _ _ hcount
    simp only [List.length_singleton]
    omega
  · intro st _ _ _ _ _ _ _ _ _ _ _ _ _ hcount
    simp only [List.length_singleton]
    omega
  · intro st _ _ _ _ _ _ _ _ _ _ _ _ _ hnext ih hcount
    obtain ⟨_, _, _, _, hmore, _, rfl⟩ := follow_next hnext
    have hrest := ih hmore
    simp only [List.length_cons] at hrest ⊢
    omega

private theorem LoopState.loop_history (l : LoopParams O J) (hfollow : l.policy.follow = true) (st : LoopState J)
    (elapsed : Duration) (replies : List Reply) :
    ∀ response history, (st.loop l elapsed replies).outcome = .ok response history →
      ∃ later, history = st.history ++ later ∧ later.length + 1 = (st.loop l elapsed replies).hops.length ∧
        (replies.take (st.loop l elapsed replies).hops.length).map (·.result) =
          (later ++ [response]).map .ok := by
  refine loop_rec l (P := fun st replies trace => ∀ response history, trace.outcome = .ok response history →
    ∃ later, history = st.history ++ later ∧ later.length + 1 = trace.hops.length ∧
      (replies.take trace.hops.length).map (·.result) = (later ++ [response]).map .ok) ?_ ?_ ?_ ?_ ?_ st elapsed replies
  · exact fun _ _ _ _ _ _ _ _ h => by cases h
  · exact fun _ _ _ _ _ _ _ _ h => by cases h
  · exact fun _ _ _ _ _ _ _ _ _ _ _ _ h => by cases h
  · intro st _ _ _ _ _ _ reply replies response outcome _ hresult hend response' history h
    dsimp only at h
    subst h
    rcases follow_end hfollow hend with ⟨-, hok | ⟨_, herr⟩⟩ | ⟨_, -, ⟨-, herr⟩ | ⟨-, _, herr, -⟩⟩
    · obtain ⟨rfl, rfl⟩ := Outcome.ok.inj hok
      exact ⟨[], (List.append_nil _).symm, rfl, by simp [hresult]⟩
    · cases herr
    · cases herr
    · cases herr
  · intro st _ _ _ _ _ _ reply replies response next rest _ hresult hnext ih response' history h
    obtain ⟨_, _, _, _, _, _, rfl⟩ := follow_next hnext
    obtain ⟨later, rfl, hlength, hlater⟩ := ih response' history h
    refine ⟨response :: later, by simp, congrArg (· + 1) hlength, ?_⟩
    simp only [List.length_cons, List.take_succ_cons, List.map_cons, hresult, hlater, List.cons_append]

private theorem redirectsAgain_succ (reply : Reply) (replies : List Reply) (n : Nat) :
    RedirectsAgain (reply :: replies) (n + 1) ↔ RedirectsAgain replies n := Iff.rfl

private theorem redirectsAgain_zero {reply : Reply} {replies : List Reply} (hresult : reply.result = .ok response) :
    RedirectsAgain (reply :: replies) 0 ↔ (redirectLocation response).isSome := by
  constructor
  · rintro ⟨_, ⟨rfl⟩, response', hresult', hlocation⟩
    obtain rfl := Except.ok.inj (hresult.symm.trans hresult')
    exact hlocation
  · intro hlocation
    exact ⟨reply, rfl, response, hresult, hlocation⟩

private theorem LoopState.loop_tooMany (l : LoopParams O J) (hfollow : l.policy.follow = true) (st : LoopState J)
    (elapsed : Duration) (replies : List Reply)
    (htransport : ∀ reply ∈ replies, ∀ followed max, reply.result ≠ .error (.tooManyRedirects followed max))
    (hcount : st.redirectCount ≤ l.policy.maxRedirects) :
    (∃ followed max, (st.loop l elapsed replies).outcome = .error (.tooManyRedirects followed max)) ↔
      (st.loop l elapsed replies).hops.length + st.redirectCount = l.policy.maxRedirects + 1 ∧
        RedirectsAgain replies (l.policy.maxRedirects - st.redirectCount) := by
  revert htransport hcount
  refine loop_rec l (P := fun st replies trace =>
    (∀ reply ∈ replies, ∀ followed max, reply.result ≠ .error (.tooManyRedirects followed max)) →
    st.redirectCount ≤ l.policy.maxRedirects →
    ((∃ followed max, trace.outcome = .error (.tooManyRedirects followed max)) ↔
      trace.hops.length + st.redirectCount = l.policy.maxRedirects + 1 ∧
        RedirectsAgain replies (l.policy.maxRedirects - st.redirectCount))) ?_ ?_ ?_ ?_ ?_ st elapsed replies
  · intro st elapsed replies e _ hprep _ hcount
    constructor
    · rintro ⟨followed, max, h⟩
      exact absurd (Outcome.error.inj h) (prepare_error hprep followed max)
    · rintro ⟨hlength, -⟩
      simp only [List.length_nil] at hlength
      omega
  · intro st elapsed hop _ _ _ _ _
    constructor
    · rintro ⟨_, _, h⟩
      cases h
    · rintro ⟨-, reply, hreply, -⟩
      cases hreply
  · intro st elapsed hop _ _ reply replies e _ hresult htransport hcount
    constructor
    · rintro ⟨followed, max, h⟩
      obtain rfl := Outcome.error.inj h
      exact absurd hresult (htransport reply List.mem_cons_self followed max)
    · rintro ⟨hlength, reply', hreply, response, hresponse, -⟩
      simp only [List.length_singleton] at hlength
      have hlast : l.policy.maxRedirects - st.redirectCount = 0 := by omega
      rw [hlast] at hreply
      obtain rfl := Option.some.inj hreply
      cases hresult.symm.trans hresponse
  · intro st elapsed hop _ credentials cookies jar reply replies response outcome _ hresult hend _ hcount
    rcases follow_end hfollow hend with
      ⟨hnone, hout⟩ | ⟨location, hlocation, ⟨hover, rfl⟩ | ⟨hmore, e, rfl, hadvance⟩⟩
    · constructor
      · rintro ⟨_, _, h⟩
        dsimp only at h
        subst h
        rcases hout with h | ⟨_, h⟩ <;> cases h
      · rintro ⟨hlength, hagain⟩
        simp only [List.length_singleton] at hlength
        have hlast : l.policy.maxRedirects - st.redirectCount = 0 := by omega
        rw [hlast, redirectsAgain_zero hresult, hnone] at hagain
        cases hagain
    · dsimp only at hover
      have hlast : l.policy.maxRedirects - st.redirectCount = 0 := by omega
      refine ⟨fun _ => ⟨?_, ?_⟩, fun _ => ⟨_, _, rfl⟩⟩
      · simp only [List.length_singleton]
        omega
      · rw [hlast, redirectsAgain_zero hresult, hlocation]
        rfl
    · dsimp only at hmore
      constructor
      · rintro ⟨followed, max, h⟩
        exact absurd (Outcome.error.inj h) (advanceRedirectHop_error hadvance followed max)
      · rintro ⟨hlength, -⟩
        simp only [List.length_singleton] at hlength
        omega
  · intro st elapsed hop _ credentials cookies jar reply replies response next rest _ hresult hnext ih htransport _
    obtain ⟨_, _, _, _, hmore, _, rfl⟩ := follow_next hnext
    have hrest := ih (fun reply' hmem => htransport reply' (List.mem_cons_of_mem _ hmem)) hmore
    dsimp only at hmore hrest
    have hindex : l.policy.maxRedirects - st.redirectCount =
        l.policy.maxRedirects - (st.redirectCount + 1) + 1 := by omega
    rw [hrest, hindex, redirectsAgain_succ, List.length_cons]
    refine and_congr_left fun _ => ?_
    omega

private theorem checkHttpsDowngrade_deny {source target : Url}
    (h : checkHttpsDowngrade source target .deny = .ok ()) (hsource : source.scheme = utf8 "https") :
    target.scheme ≠ utf8 "http" := by
  intro htarget
  unfold checkHttpsDowngrade at h
  split at h
  · cases h
  · rename_i hallowed
    exact hallowed ⟨rfl, by simp [isHttpsDowngrade, hsource, htarget]⟩

private theorem validateRedirectUrl_scheme {url : Url} (h : validateRedirectUrl url = .ok ()) :
    url.scheme = utf8 "http" ∨ url.scheme = utf8 "https" := by
  unfold validateRedirectUrl at h
  split at h
  · cases h
  · split at h
    · assumption
    · cases h

private theorem LoopState.loop_https (l : LoopParams O J) (hdeny : l.policy.downgrade = .deny) (st : LoopState J)
    (elapsed : Duration) (replies : List Reply) :
    (st.url.scheme = utf8 "https" → ∀ hop ∈ (st.loop l elapsed replies).hops, hop.url.scheme = utf8 "https") ∧
      (st.loop l elapsed replies).hops.Pairwise fun a b =>
        a.url.scheme = utf8 "https" → b.url.scheme = utf8 "https" := by
  refine loop_induction l (P := fun st hops =>
    (st.url.scheme = utf8 "https" → ∀ hop ∈ hops, hop.url.scheme = utf8 "https") ∧
      hops.Pairwise fun a b => a.url.scheme = utf8 "https" → b.url.scheme = utf8 "https") ?_ ?_ ?_ st elapsed replies
  · exact fun _ => ⟨fun _ _ hb => absurd hb List.not_mem_nil, .nil⟩
  · intro st elapsed hop st' hprep
    refine ⟨fun hhttps b hb => ?_, List.pairwise_singleton _ _⟩
    rw [List.mem_singleton.mp hb, (prepare_ok hprep).1, hhttps]
  · intro st elapsed hop st' jar response next rest hprep hnext _ ih
    have hurl := (prepare_ok hprep).1
    have hstay : st.url.scheme = utf8 "https" → next.url.scheme = utf8 "https" := by
      intro hhttps
      obtain ⟨_, _, _, _, _, hadvance, rfl⟩ := follow_next hnext
      obtain ⟨_, _, _, _, hvalid, hcheck, -⟩ := advanceRedirectHop_ok hadvance
      rw [hdeny, (prepare_ok hprep).2] at hcheck
      have hsource : st.enter.url = st.url := by
        obtain ⟨_, _, henter⟩ := st.enter_eq
        rw [henter]
      rcases validateRedirectUrl_scheme hvalid with hhttp | hok
      · exact absurd hhttp (checkHttpsDowngrade_deny hcheck (hsource ▸ hhttps))
      · exact hok
    constructor
    · intro hhttps b hb
      rcases List.mem_cons.mp hb with rfl | hb
      · rw [hurl, hhttps]
      · exact ih.1 (hstay hhttps) b hb
    · refine List.pairwise_cons.mpr ⟨fun b hb hhttps => ?_, ih.2⟩
      exact ih.1 (hstay (hurl ▸ hhttps)) b hb

end

/-- A chain that follows redirects keeps to its limits. -/
theorem redirects_limited (store : CookieStore J) (join : Join) (config : ClientConfig) (jar : J)
    (request : Request O) (elapsed : Duration) (replies : List Reply)
    (hfollow : (request.redirect.getD config.redirect).follow = true) :
    RedirectsLimited store join config jar request elapsed replies := by
  have hcount : (LoopState.start (prepareFirstHop config request) jar).redirectCount ≤
      (request.redirect.getD config.redirect).maxRedirects := Nat.zero_le _
  refine ⟨?_, ?_, ?_, ?_⟩ <;> rw [sendWithRedirects_loop hfollow]
  · exact LoopState.loop_dispatched
      ⟨store, join, config, request.redirect.getD config.redirect, prepareFirstHop config request⟩
      _ elapsed replies hcount
  · intro response history houtcome
    obtain ⟨later, rfl, hlength, hlater⟩ := LoopState.loop_history _ hfollow _ elapsed replies response history houtcome
    exact ⟨hlength, hlater⟩
  · exact fun htransport => LoopState.loop_tooMany _ hfollow _ elapsed replies htransport hcount
  · intro hdeny
    refine (LoopState.loop_https _ hdeny _ elapsed replies).2.imp ?_
    intro a b hhttps hsource htarget
    have hsame := (hhttps hsource).symm.trans htarget
    exact absurd hsame (by decide)

/-- A limit of one redirect, reached at the second response. -/
theorem redirects_limited_at_limit :
    let config : ClientConfig := { redirect := { follow := true, maxRedirects := 1 } }
    let request : Request Unit := { method := utf8 "GET", url := siteA, options := () }
    config.redirect.follow = true ∧ RedirectsLimited noCookies joinSites config () request 0
      [redirectTo siteA "https://b/", redirectTo siteB "https://a/"] :=
  ⟨rfl, redirects_limited noCookies joinSites _ () _ 0 _ rfl⟩

end Eggfetch.Pipeline
