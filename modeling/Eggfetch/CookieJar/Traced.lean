import Eggfetch.CookieJar.Confined
import Eggfetch.Retry.Logical

/-! The cookie jar inside a send. The pipeline reads the jar for every hop and updates it with every response,
over the redirects of an attempt and over the attempts. -/
namespace Eggfetch.CookieJar
open Text Http Pipeline Retry

variable {F O : Type}

/-- What the calls of a jar find, by their number: the clock, the clock at each header, and the order of the map. -/
structure Surroundings where
  now : Nat → Time
  headerNow : Nat → Nat → Time
  order : Nat → List Cookie → List Cookie
  perm : ∀ n values, (order n values).Perm values

def liveStore (lib : Library) (w : Surroundings) : CookieStore (JarInner × Nat) where
  cookiesForUrl jar url :=
    let inner := jar.1.expireIfDue (w.now jar.2)
    (JarInner.cookiesForUrl lib (w.order jar.2 (inner.cookies.map Prod.snd)) url, inner, jar.2 + 1)
  updateFromResponse jar url headers :=
    (jar.1.updateFromResponse lib url (w.now jar.2) (headers.zipIdx.map fun p => (p.1, w.headerNow jar.2 p.2)), jar.2 + 1)

def setCookie : Str := utf8 "set-cookie"

def received (response : Response) (value : Str) (now : Time) : Update := ⟨response.url, now, [(value, now)]⟩

/-- One of the responses set the cookie, for URLs like this one. -/
def CameFrom (lib : Library) (responses : List Response) (url : Url) (c : Cookie) : Prop :=
  ∃ response ∈ responses, ∃ value ∈ response.headers.getAll setCookie, ∃ now, SetBy lib (received response value now) c ∧
    SharedWith lib url (received response value now) c ∧ PathMatch url.path c.path ∧ (c.secure = true → url.scheme = utf8 "https")

/-- Where the `Cookie` values for a URL are from: nowhere, the caller, or the jar. -/
def Traced (lib : Library) (jar : JarInner) (callers : List Str) (seen : List Response) (url : Url) (values : List Str) : Prop :=
  values = [] ∨ values = callers ∨
    ∃ cookies, values = [JarInner.joinLoop [] [] cookies] ∧
      ∀ c ∈ cookies, Sends lib url c = true ∧ (c ∈ jar.cookies.map Prod.snd ∨ CameFrom lib seen url c)

def responses (replies : List Reply) : List Response := replies.filterMap (·.result.toOption)

def attemptResponses (a : Attempt F O (JarInner × Nat)) : List Response := responses (a.turn.replies.take a.chain.hops.length)

def withJar (lib : Library) (w : Surroundings) (sender : Sender (JarInner × Nat) F) : Sender (JarInner × Nat) F :=
  { sender with store := liveStore lib w }

section Jar
variable {lib : Library} {w : Surroundings} {initial : JarInner} {seen : List Response} {jar jar' : JarInner × Nat}

def From (lib : Library) (initial : JarInner) (seen : List Response) (jar : JarInner) : Prop :=
  ∀ p ∈ jar.cookies, p.2 ∈ initial.cookies.map Prod.snd ∨
    ∃ response ∈ seen, ∃ value ∈ response.headers.getAll setCookie, ∃ now, SetBy lib (received response value now) p.2

theorem From.expireIfDue (h : From lib initial seen jar.1) (now : Time) : From lib initial seen (jar.1.expireIfDue now) := by
  intro p hp
  unfold JarInner.expireIfDue at hp
  split at hp
  · exact h p (List.mem_of_mem_filter hp)
  · exact h p hp

theorem From.mono {seen' : List Response} (h : From lib initial seen jar.1) (hSub : seen ⊆ seen') :
    From lib initial seen' jar.1 := by
  intro p hp
  refine (h p hp).imp_right ?_
  rintro ⟨response, hMem, hSet⟩
  exact ⟨response, hSub hMem, hSet⟩

theorem From.update (h : From lib initial seen jar.1) (response : Response) :
    From lib initial (seen ++ [response]) (updateCookieJar (liveStore lib w) jar response).1 := by
  unfold updateCookieJar
  dsimp only
  split
  · exact h.mono (List.subset_append_left _ _)
  · intro p hp
    rcases JarInner.mem_updateFromResponse hp with hp | ⟨-, hp⟩
    · exact h.mono (List.subset_append_left _ _) p hp
    · obtain ⟨-, q, hq, counter, hParse⟩ := mem_collect hp
      obtain ⟨⟨value, index⟩, hValue, rfl⟩ := List.mem_map.mp hq
      have hIn := List.mem_of_mem_filter (List.fst_mem_of_mem_zipIdx hValue)
      exact .inr ⟨response, List.mem_append_right _ List.mem_cons_self, value, hIn, _, _, List.mem_singleton_self _,
        counter, hParse⟩

private theorem From.cookiesForUrl (h : From lib initial seen jar.1) {url : Url} {header : Str}
    (hRead : ((liveStore lib w).cookiesForUrl jar url).1 = some header) :
    ∃ cookies, header = JarInner.joinLoop [] [] cookies ∧
      ∀ c ∈ cookies, Sends lib url c = true ∧ (c ∈ initial.cookies.map Prod.snd ∨ CameFrom lib seen url c) := by
  change JarInner.cookiesForUrl lib (w.order jar.2 ((jar.1.expireIfDue (w.now jar.2)).cookies.map Prod.snd)) url = _ at hRead
  refine ⟨JarInner.sortedMatches lib (w.order jar.2 ((jar.1.expireIfDue (w.now jar.2)).cookies.map Prod.snd)) url, ?_, ?_⟩
  · unfold JarInner.cookiesForUrl at hRead
    dsimp only at hRead
    split at hRead
    · cases hRead
    · split at hRead
      · cases hRead
      · exact (Option.some.inj hRead).symm
  · intro c hc
    rw [sortedMatches_eq, List.mem_insertionSort, List.mem_filter] at hc
    obtain ⟨hMem, hSends⟩ := hc
    obtain ⟨p, hp, rfl⟩ := List.mem_map.mp ((w.perm _ _).mem_iff.mp hMem)
    refine ⟨hSends, (h.expireIfDue _ p hp).imp_right ?_⟩
    rintro ⟨response, hResponse, value, hValue, now, hSet⟩
    exact ⟨response, hResponse, value, hValue, now, hSet, cookieMatches_of_setBy hSet hSends⟩

private theorem withCookies_traced {params : HopBuildParams O} {callers : List Str} {headers : Headers}
    (h : From lib initial seen jar.1)
    (hCallers : params.headers.getAll cookie = [] ∨ params.headers.getAll cookie = callers)
    (hOk : params.withCookies (liveStore lib w) jar = .ok (headers, jar')) :
    Traced lib initial callers seen params.url (headers.getAll cookie) ∧ From lib initial seen jar'.1 := by
  have hOwn : Traced lib initial callers seen params.url (params.headers.getAll cookie) := hCallers.imp_right .inl
  unfold HopBuildParams.withCookies at hOk
  split at hOk
  · obtain ⟨rfl, rfl⟩ := Prod.mk.inj (Except.ok.inj hOk)
    exact ⟨.inl Headers.getAll_remove_self, h⟩
  · split at hOk
    · obtain ⟨rfl, rfl⟩ := Prod.mk.inj (Except.ok.inj hOk)
      exact ⟨hOwn, h⟩
    · split at hOk
      · rename_i read hRead
        obtain ⟨rfl, rfl⟩ := Prod.mk.inj (Except.ok.inj hOk)
        obtain rfl := (congrArg Prod.snd hRead).symm
        exact ⟨hOwn, h.expireIfDue _⟩
      · rename_i header read hRead
        split at hOk
        · rename_i inserted hInsert
          obtain ⟨rfl, rfl⟩ := Prod.mk.inj (Except.ok.inj hOk)
          obtain rfl := (congrArg Prod.snd hRead).symm
          refine ⟨?_, h.expireIfDue _⟩
          obtain ⟨cookies, rfl, hCookies⟩ := h.cookiesForUrl (congrArg Prod.fst hRead)
          rw [Headers.insert_ok hInsert]
          exact .inr (.inr ⟨cookies, Headers.getAll_set_self, hCookies⟩)
        · cases hOk

theorem buildHopRequest_traced {config : ClientConfig} {params : HopBuildParams O} {callers : List Str} {hop : Request O}
    (h : From lib initial seen jar.1) (hCallers : params.headers.getAll cookie = [] ∨ params.headers.getAll cookie = callers)
    (hOk : buildHopRequest (liveStore lib w) config jar params = .ok (hop, jar')) :
    Traced lib initial callers seen hop.url (hop.headers.getAll cookie) ∧ From lib initial seen jar'.1 := by
  unfold buildHopRequest at hOk
  split at hOk
  · cases hOk
  · rename_i headers read hCookies
    have hTraced := withCookies_traced h hCallers hCookies
    dsimp only at hOk
    split at hOk
    · cases hOk
    · obtain ⟨rfl, rfl⟩ := Prod.mk.inj (Except.ok.inj hOk)
      exact hTraced
    · split at hOk
      · cases hOk
      · rename_i applied hApply
        obtain ⟨rfl, rfl⟩ := Prod.mk.inj (Except.ok.inj hOk)
        have hKept : applied.getAll cookie = headers.getAll cookie := by
          rw [Headers.insert_ok hApply]
          exact Headers.getAll_set_of_ne (by decide)
        exact ⟨hKept.symm ▸ hTraced.1, hTraced.2⟩

end Jar

section Send
variable {lib : Library} {w : Surroundings} {initial : JarInner} {callers : List Str} {seen : List Response}

/-- The headers of a chain lose the caller's cookies or keep them. -/
def KeepsCallers (callers : List Str) (st : LoopState (JarInner × Nat)) : Prop :=
  st.headers.getAll cookie = [] ∨ st.headers.getAll cookie = callers

theorem prepare_traced {l : LoopParams O (JarInner × Nat)} {st st' : LoopState (JarInner × Nat)} {elapsed : Duration}
    {hop : Request O}
    (hStore : l.store = liveStore lib w) (h : From lib initial seen st.jar.1) (hCallers : KeepsCallers callers st)
    (hPrep : st.prepare l elapsed = .ok (hop, st')) :
    Traced lib initial callers seen hop.url (hop.headers.getAll cookie) ∧ From lib initial seen st'.jar.1 := by
  unfold LoopState.prepare at hPrep
  split at hPrep
  · cases hPrep
  · split at hPrep
    · cases hPrep
    · split at hPrep
      · cases hPrep
      · rename_i hBuild
        obtain ⟨rfl, rfl⟩ := Prod.mk.inj (Except.ok.inj hPrep)
        rw [hStore] at hBuild
        refine buildHopRequest_traced h ?_ hBuild
        change KeepsCallers callers st.enter
        rwa [KeepsCallers, LoopState.enter_headers]

theorem KeepsCallers.follow {l : LoopParams O (JarInner × Nat)} {st next : LoopState (JarInner × Nat)} {response : Response}
    (hCallers : KeepsCallers callers st) (hNext : st.follow l response = .ok next) : KeepsCallers callers next := by
  have hHeaders := (LoopState.follow_ok hNext).1
  unfold KeepsCallers
  rw [hHeaders, getAll_redirectHeaders, if_neg (by decide)]
  split
  · exact .inl rfl
  · exact hCallers

theorem responses_cons_ok {reply : Reply} {response : Response} (hResult : reply.result = .ok response) (replies : List Reply) :
    responses (reply :: replies) = response :: responses replies := by
  rw [responses, List.filterMap_cons, hResult]
  rfl

/-- The hops of a chain are traced to the responses before them, and its jar to all of them. -/
structure ChainTraced (lib : Library) (initial : JarInner) (callers : List Str) (seen : List Response) (replies : List Reply)
    (trace : Pipeline.Trace O (JarInner × Nat)) : Prop where
  hops : ∀ n, ∀ hop ∈ trace.hops[n]?,
    Traced lib initial callers (seen ++ responses (replies.take n)) hop.url (hop.headers.getAll cookie)
  jar : From lib initial (seen ++ responses (replies.take trace.hops.length)) trace.jar.1

theorem chainTraced_nil {replies : List Reply} {outcome : Pipeline.Outcome} {jar : JarInner × Nat}
    (h : From lib initial seen jar.1) :
    ChainTraced (O := O) lib initial callers seen replies ⟨[], outcome, jar⟩ := by
  refine ⟨fun n hop hMem => ?_, h.mono (List.subset_append_left _ _)⟩
  simp at hMem

theorem chainTraced_single {replies : List Reply} {hop : Request O} {outcome : Pipeline.Outcome} {jar : JarInner × Nat}
    (hHop : Traced lib initial callers seen hop.url (hop.headers.getAll cookie))
    (hJar : From lib initial (seen ++ responses (replies.take 1)) jar.1) :
    ChainTraced lib initial callers seen replies ⟨[hop], outcome, jar⟩ := by
  refine ⟨fun n first hMem => ?_, hJar⟩
  cases n with
  | zero =>
    obtain rfl := Option.some.inj hMem
    rw [List.take_zero]
    exact (List.append_nil seen).symm ▸ hHop
  | succ n => simp at hMem

private theorem chainTraced_cons {reply : Reply} {replies : List Reply} {response : Response} {hop : Request O}
    {rest : Pipeline.Trace O (JarInner × Nat)}
    (hResult : reply.result = .ok response) (hHop : Traced lib initial callers seen hop.url (hop.headers.getAll cookie))
    (hRest : ChainTraced lib initial callers (seen ++ [response]) replies rest) :
    ChainTraced lib initial callers seen (reply :: replies) ⟨hop :: rest.hops, rest.outcome, rest.jar⟩ := by
  have hSeen : ∀ n, seen ++ responses ((reply :: replies).take (n + 1)) = (seen ++ [response]) ++ responses (replies.take n) := by
    intro n
    rw [List.take_succ_cons, responses_cons_ok hResult, List.append_assoc, List.singleton_append]
  constructor
  · intro n first hMem
    cases n with
    | zero =>
      obtain rfl := Option.some.inj hMem
      rw [List.take_zero]
      exact (List.append_nil seen).symm ▸ hHop
    | succ n =>
      rw [hSeen]
      exact hRest.hops n first hMem
  · dsimp only
    rw [List.length_cons, hSeen]
    exact hRest.jar

theorem responses_take_one {reply : Reply} {replies : List Reply} :
    responses ((reply :: replies).take 1) = reply.result.toOption.toList := by
  cases hResult : reply.result <;> simp [responses, hResult, Except.toOption]

private theorem loop_traced {l : LoopParams O (JarInner × Nat)} (hStore : l.store = liveStore lib w) (replies : List Reply)
    {st : LoopState (JarInner × Nat)} (elapsed : Duration) (h : From lib initial seen st.jar.1)
    (hCallers : KeepsCallers callers st) :
    ChainTraced lib initial callers seen replies (st.loop l elapsed replies) := by
  induction replies generalizing st elapsed seen with
  | nil =>
    rw [LoopState.loop]
    cases hPrep : st.prepare l elapsed with
    | error e => exact chainTraced_nil h
    | ok p =>
      obtain ⟨hHop, hJar⟩ := prepare_traced hStore h hCallers hPrep
      exact chainTraced_single hHop (hJar.mono (List.subset_append_left _ _))
  | cons reply replies ih =>
    rw [LoopState.loop]
    cases hPrep : st.prepare l elapsed with
    | error e => exact chainTraced_nil h
    | ok p =>
      obtain ⟨hHop, hJar⟩ := prepare_traced hStore h hCallers hPrep
      dsimp only
      cases hResult : reply.result with
      | error e => exact chainTraced_single hHop (hJar.mono (List.subset_append_left _ _))
      | ok response =>
        have hUpdated : From lib initial (seen ++ [response]) (updateCookieJar l.store p.2.jar response).1 :=
          hStore ▸ hJar.update response
        dsimp only
        cases hNext : { p.2 with jar := updateCookieJar l.store p.2.jar response }.follow l response with
        | error outcome =>
          refine chainTraced_single hHop ?_
          rw [responses_take_one, hResult]
          exact hUpdated
        | ok next =>
          have hKept : KeepsCallers callers { p.2 with jar := updateCookieJar l.store p.2.jar response } := by
            rw [KeepsCallers, (LoopState.prepare_ok hPrep).2, LoopState.enter_headers]
            exact hCallers
          have hNextJar : next.jar = updateCookieJar l.store p.2.jar response := by
            obtain ⟨_, _, _, -, -, -, rfl⟩ := LoopState.follow_next hNext
            rfl
          exact chainTraced_cons hResult hHop (ih reply.elapsed (hNextJar ▸ hUpdated) (hKept.follow hNext))

/-- What the caller puts into `Cookie`, with the client's defaults. -/
def callersCookies (config : ClientConfig) (request : Request O) : List Str := (mergedHeaders config request).getAll cookie

private theorem sendWithRedirects_traced {join : Join} {config : ClientConfig} {jar : JarInner × Nat} {request : Request O}
    {elapsed : Duration}
    {replies : List Reply} (h : From lib initial seen jar.1) :
    ChainTraced lib initial (callersCookies config request) seen replies
      (sendWithRedirects (liveStore lib w) join config jar request elapsed replies) := by
  cases hFollow : (request.redirect.getD config.redirect).follow with
  | true =>
    rw [sendWithRedirects_loop hFollow]
    exact loop_traced rfl replies elapsed h (.inr rfl)
  | false =>
    rw [sendWithRedirects_single hFollow]
    unfold sendFirstHop
    cases hBuild : buildHopRequest (liveStore lib w) config jar (prepareFirstHop config request) with
    | error e => exact chainTraced_nil h
    | ok p =>
      obtain ⟨hHop, hJar⟩ := buildHopRequest_traced h (.inr rfl) hBuild
      cases replies with
      | nil => exact chainTraced_single hHop (hJar.mono (List.subset_append_left _ _))
      | cons reply replies =>
        dsimp only
        cases hResult : reply.result with
        | error e => exact chainTraced_single hHop (hJar.mono (List.subset_append_left _ _))
        | ok response =>
          refine chainTraced_single hHop ?_
          rw [responses_take_one, hResult]
          exact hJar.update response

private theorem attempts_traced (sender : Sender (JarInner × Nat) F) {looping : Bool} {request : Request O}
    (turns : List (Turn F))
    {jar : JarInner × Nat} (h : From lib initial seen jar.1) :
    ∀ k, ∀ a ∈ ((withJar lib w sender).attempts looping request jar turns)[k]?, ∀ n, ∀ hop ∈ a.chain.hops[n]?,
      Traced lib initial (callersCookies sender.config request)
        (seen ++ (((withJar lib w sender).attempts looping request jar turns).take k).flatMap attemptResponses ++
          responses (a.turn.replies.take n))
        hop.url (hop.headers.getAll cookie) := by
  induction turns generalizing jar seen with
  | nil => simp [Sender.attempts]
  | cons turn turns ih =>
    have hChain : ChainTraced lib initial (callersCookies sender.config request) seen turn.replies
        ((withJar lib w sender).attempt looping request jar turn).chain := by
      have hRetried : callersCookies sender.config
        (retryRequest request (request.timeout.map (shrinkTotalDeadline · turn.elapsed))) =
          callersCookies sender.config request := rfl
      cases looping with
      | true =>
        rw [← hRetried]
        exact sendWithRedirects_traced h
      | false => exact sendWithRedirects_traced h
    intro k a hMem n hop hHop
    cases k with
    | zero =>
      obtain rfl := Option.some.inj hMem
      rw [List.take_zero, List.flatMap_nil, List.append_nil]
      exact hChain.hops n hop hHop
    | succ k =>
      have hRest := ih hChain.jar k a hMem n hop hHop
      rwa [List.append_assoc seen] at hRest

/-- Every hop of a send is traced to the responses of the attempts before it and of the hops before it. -/
structure CookiesTraced (lib : Library) (w : Surroundings) (sender : Sender (JarInner × Nat) F)
    (requestPolicy : Option (RetryPolicy F))
    (request : Request O) (jar : JarInner × Nat) (turns : List (Turn F)) : Prop where
  hops : ∀ k, ∀ a ∈ ((withJar lib w sender).send requestPolicy request jar turns).attempts[k]?, ∀ n, ∀ hop ∈ a.chain.hops[n]?,
    Traced lib jar.1 (callersCookies sender.config request)
      ((((withJar lib w sender).send requestPolicy request jar turns).attempts.take k).flatMap attemptResponses ++
        responses (a.turn.replies.take n))
      hop.url (hop.headers.getAll cookie)

/-- Cookies in a send are the caller's, were in the jar, or come from a response that the send has received by then. The
send has the jar to itself. -/
theorem cookies_traced (lib : Library) (w : Surroundings) (sender : Sender (JarInner × Nat) F)
    (requestPolicy : Option (RetryPolicy F))
    (request : Request O) (jar : JarInner × Nat) (turns : List (Turn F)) :
    CookiesTraced lib w sender requestPolicy request jar turns := by
  constructor
  intro k a hMem n hop hHop
  have hStart : From lib jar.1 [] jar.1 := fun p hp => .inl (List.mem_map_of_mem hp)
  unfold Sender.send at hMem ⊢
  dsimp only at hMem ⊢
  obtain ⟨hLt, hGet⟩ := List.getElem?_eq_some_iff.mp hMem
  rw [List.length_take] at hLt
  rw [Option.mem_def, List.getElem?_take, if_pos (lt_min_iff.mp hLt).1] at hMem
  have hTraced := attempts_traced sender turns hStart k a hMem n hop hHop
  rwa [List.nil_append, ← Nat.min_eq_left (lt_min_iff.mp hLt).1.le, ← List.take_take] at hTraced

end Send
end Eggfetch.CookieJar
