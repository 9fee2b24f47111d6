import Eggfetch.Pipeline.Bodies
import Eggfetch.Retry.Budget
import Eggfetch.Retry.Deadline
import Mathlib.Algebra.Order.BigOperators.Group.List

/-! A logical request as a whole: the retry loop of `pipeline/retry.rs` around the redirect chains of `pipeline/redirect.rs`. The
attempts share the cookie jar, the total deadline and the one-shot body. -/
namespace Eggfetch.Retry
open Text Pipeline

variable {F O J : Type}

/-- What the world does in one round. `firstHop` and the times of the replies are on the attempt's own clock. -/
structure Turn (F : Type) where
  elapsed : Duration
  firstHop : Duration
  replies : List Reply
  budgetElapsed : Duration
  jitter : Option F
  elapsedCheck : Duration
  totalCheck : Duration

/-- What the attempts share. `transport` classifies the failures of the transport. -/
structure Sender (J F : Type) where
  store : CookieStore J
  join : Join
  config : ClientConfig
  retry : Option (RetryPolicy F)
  env : Env F
  transport : Str → AttemptError

def phase : TimeoutPhase → Phase
  | .pool => .pool
  | .connect => .connect
  | .write => .write
  | .read => .read
  | .total => .total

/-- A chain's error as `is_error_retryable` sees it: the pipeline's own errors are none of those it names. -/
def Sender.attemptError (sender : Sender J F) : Pipeline.Error → AttemptError
  | .timeout p _ => .timeout (phase p)
  | .dispatch reason => sender.transport reason
  | .header _ => .other (utf8 "header")
  | .conflictingAuth => .other (utf8 "conflicting auth")
  | .resolvedTargetRedirect | .invalidRedirectLocation _ | .tooManyRedirects _ _ | .bodyNotReplayableForRedirect =>
    .other (utf8 "redirect")
  | .unsupported reason => .other reason

def Sender.attemptOutcome (sender : Sender J F) : Pipeline.Outcome → Option (Except AttemptError Response)
  | .ok response _ => some (.ok response)
  | .error e => some (.error (sender.attemptError e))
  | .waiting => none

/-- `start` is when the attempt starts, on the clock of the send. -/
structure Attempt (F O J : Type) where
  start : Duration
  turn : Turn F
  request : Request O
  chain : Pipeline.Trace O J

def Sender.step (sender : Sender J F) (a : Attempt F O J) : Step F where
  elapsed := a.turn.elapsed
  outcome := sender.attemptOutcome a.chain.outcome
  budgetElapsed := a.turn.budgetElapsed
  jitter := a.turn.jitter
  elapsedCheck := a.turn.elapsedCheck
  totalCheck := a.turn.totalCheck

/-- `dispatch_attempt` on the request of the send, or of one round of its loop. -/
def Sender.attempt (sender : Sender J F) (looping : Bool) (request : Request O) (jar : J) (turn : Turn F) : Attempt F O J :=
  let attempted :=
    if looping then retryRequest request (request.timeout.map (shrinkTotalDeadline · turn.elapsed)) else request
  { start := if looping then turn.elapsed else 0
    turn := turn
    request := attempted
    chain := sendWithRedirects sender.store sender.join sender.config jar attempted turn.firstHop turn.replies }

/-- The attempts one after another, each with the jar that the one before left. -/
def Sender.attempts (sender : Sender J F) (looping : Bool) (request : Request O) : J → List (Turn F) → List (Attempt F O J)
  | _, [] => []
  | jar, turn :: turns =>
    let attempt := sender.attempt looping request jar turn
    attempt :: sender.attempts looping request attempt.chain.jar turns

structure Sent (F O J : Type) where
  attempts : List (Attempt F O J)
  outcome : Outcome

/-- `send_with_retry` over `send_with_redirects`. -/
def Sender.send (sender : Sender J F) (requestPolicy : Option (RetryPolicy F)) (request : Request O) (jar : J)
    (turns : List (Turn F)) : Sent F O J :=
  let looping := (loopPolicy requestPolicy sender.retry request.body).isSome
  let attempts := sender.attempts looping request jar turns
  let trace := sendWithRetry sender.env requestPolicy sender.retry (savedParts request) (attempts.map sender.step)
  ⟨attempts.take trace.rounds.length, trace.outcome⟩

def Sender.redirect (sender : Sender J F) (request : Request O) : RedirectPolicy := request.redirect.getD sender.config.redirect

def isStream : RequestBody → Bool
  | .stream _ => true
  | _ => false

/-- When hop `n` of a chain starts. -/
def hopClock (firstHop : Duration) (replies : List Reply) : Nat → Duration
  | 0 => firstHop
  | n + 1 => replies[n]?.elim 0 (·.elapsed)

/-- What a send does with its attempts. -/
structure SentAsOne (sender : Sender J F) (requestPolicy : Option (RetryPolicy F)) (request : Request O) (jar : J)
    (turns : List (Turn F)) : Prop where
  dispatched : ((sender.send requestPolicy request jar turns).attempts.map (·.chain.hops.length)).sum ≤
    max 1 ((effectivePolicy requestPolicy sender.retry).elim 1 (·.maxAttempts)) * ((sender.redirect request).maxRedirects + 1)
  /-- Every attempt starts again where the caller asked to. -/
  restarted : ∀ a ∈ (sender.send requestPolicy request jar turns).attempts, ∀ hop ∈ a.chain.hops.head?,
    hop.method = request.method ∧ hop.url = request.url ∧ hop.body = request.body
  /-- A hop is left with what its own start leaves of the total; a client that does not follow reads the clock no more. -/
  deadline : ∀ total ∈ ownTotal request, ∀ a ∈ (sender.send requestPolicy request jar turns).attempts,
    ∀ n, ∀ hop ∈ a.chain.hops[n]?, ∃ left ∈ hop.timeout.bind (·.total),
      a.start + (if (sender.redirect request).follow then hopClock a.turn.firstHop a.turn.replies n else 0) + left = total
  /-- A one-shot body is handed to the transport once. -/
  streamed : (((sender.send requestPolicy request jar turns).attempts.flatMap (·.chain.hops)).filter
    (isStream ·.body)).length ≤ 1
  bare : ∀ a ∈ (sender.send requestPolicy request jar turns).attempts, ∀ hop ∈ afterCrossing a.chain.hops, Bare hop
  answered : ∀ response, (sender.send requestPolicy request jar turns).outcome = .response response →
    ∃ a ∈ (sender.send requestPolicy request jar turns).attempts.getLast?, ∃ history, a.chain.outcome = .ok response history

section Chain
variable {store : CookieStore J} {join : Join} {config : ClientConfig} {jar : J} {request : Request O} {elapsed : Duration}
  {replies : List Reply}

theorem sendWithRedirects_dispatched :
    (sendWithRedirects store join config jar request elapsed replies).hops.length ≤
      (request.redirect.getD config.redirect).maxRedirects + 1 := by
  cases hFollow : (request.redirect.getD config.redirect).follow with
  | true =>
    rw [sendWithRedirects_loop hFollow]
    have hCount : (LoopState.start (prepareFirstHop config request) jar).redirectCount ≤
        (request.redirect.getD config.redirect).maxRedirects := Nat.zero_le _
    exact LoopState.loop_dispatched
      ⟨store, join, config, request.redirect.getD config.redirect, prepareFirstHop config request⟩ _ elapsed replies hCount
  | false =>
    rw [sendWithRedirects_single hFollow]
    rcases sendFirstHop_hops store config jar (prepareFirstHop config request) replies with hNil | ⟨_, _, _, hOne⟩
    · rw [hNil]
      exact Nat.zero_le _
    · rw [hOne]
      exact Nat.le_add_left _ _

theorem sendWithRedirects_bare :
    ∀ hop ∈ afterCrossing (sendWithRedirects store join config jar request elapsed replies).hops, Bare hop := by
  cases hFollow : (request.redirect.getD config.redirect).follow with
  | true =>
    rw [sendWithRedirects_loop hFollow]
    exact (LoopState.loop_bare _ _ elapsed replies).2 (LoopState.start_uncrossed _ _)
  | false =>
    rw [sendWithRedirects_single hFollow, sendFirstHop_afterCrossing]
    exact fun _ hMem => absurd hMem List.not_mem_nil

theorem sendWithRedirects_url :
    ∀ hop ∈ (sendWithRedirects store join config jar request elapsed replies).hops.head?, hop.url = request.url := by
  cases hFollow : (request.redirect.getD config.redirect).follow with
  | true =>
    rw [sendWithRedirects_loop hFollow]
    exact fun hop hHead => LoopState.loop_head hop hHead
  | false =>
    rw [sendWithRedirects_single hFollow]
    intro hop hHead
    rcases sendFirstHop_hops store config jar (prepareFirstHop config request) replies with hNil | ⟨_, _, hBuild, hOne⟩
    · rw [hNil] at hHead
      cases hHead
    · rw [hOne] at hHead
      obtain rfl := Option.some.inj hHead
      obtain ⟨_, rfl, -⟩ := buildHopRequest_ok hBuild
      rfl

private theorem prepare_total {l : LoopParams O J} {st st' : LoopState J} {hop : Request O} {total : Duration}
    (hTotal : l.params.timeout.total = some total) (hPrep : st.prepare l elapsed = .ok (hop, st')) :
    ∃ left ∈ hop.timeout.bind (·.total), elapsed + left = total := by
  unfold LoopState.prepare at hPrep
  rw [hopTimeout, hTotal] at hPrep
  dsimp only at hPrep
  by_cases hSpent : total ≤ elapsed
  · rw [if_pos hSpent] at hPrep
    cases hPrep
  · rw [if_neg hSpent] at hPrep
    dsimp only at hPrep
    split at hPrep
    · cases hPrep
    · split at hPrep
      · cases hPrep
      · rename_i hBuild
        obtain ⟨rfl, -⟩ := Prod.mk.inj (Except.ok.inj hPrep)
        obtain ⟨_, rfl, -⟩ := buildHopRequest_ok hBuild
        exact ⟨total - elapsed, rfl, Nat.add_sub_of_le (Nat.le_of_not_le hSpent)⟩

private theorem loop_total {l : LoopParams O J} {total : Duration} (hTotal : l.params.timeout.total = some total)
    (st : LoopState J) (elapsed : Duration) (replies : List Reply) :
    ∀ n, ∀ hop ∈ (st.loop l elapsed replies).hops[n]?, ∃ left ∈ hop.timeout.bind (·.total),
      hopClock elapsed replies n + left = total := by
  have hLast : ∀ {st st' : LoopState J} {elapsed replies} {first : Request O}, st.prepare l elapsed = .ok (first, st') →
      ∀ n, ∀ hop ∈ [first][n]?, ∃ left ∈ hop.timeout.bind (·.total), hopClock elapsed replies n + left = total := by
    intro st st' elapsed replies first hPrep n hop hMem
    cases n with
    | zero =>
      obtain rfl := Option.some.inj hMem
      exact prepare_total hTotal hPrep
    | succ n => simp at hMem
  induction replies generalizing st elapsed with
  | nil =>
    rcases st.loop_cases l elapsed [] with hNil | ⟨first, st', hPrep, hHops⟩ | ⟨_, _, _, _, _, _, hCons, _⟩
    · simp [hNil]
    · rw [hHops]
      exact hLast hPrep
    · cases hCons
  | cons reply replies ih =>
    rcases st.loop_cases l elapsed (reply :: replies) with
      hNil | ⟨first, st', hPrep, hHops⟩ | ⟨first, st', _, _, response, next, hCons, -, hPrep, -, hHops⟩
    · simp [hNil]
    · rw [hHops]
      exact hLast hPrep
    · obtain ⟨rfl, rfl⟩ := List.cons.inj hCons
      rw [hHops]
      intro n hop hMem
      cases n with
      | zero =>
        obtain rfl := Option.some.inj hMem
        exact prepare_total hTotal hPrep
      | succ n =>
        obtain ⟨left, hLeft, hSum⟩ := ih next reply.elapsed n hop hMem
        refine ⟨left, hLeft, ?_⟩
        rw [← hSum]
        cases n <;> rfl

theorem sendWithRedirects_total {total : Duration} (hTotal : (prepareFirstHop config request).timeout.total = some total) :
    ∀ n, ∀ hop ∈ (sendWithRedirects store join config jar request elapsed replies).hops[n]?, ∃ left ∈ hop.timeout.bind (·.total),
      (if (request.redirect.getD config.redirect).follow then hopClock elapsed replies n else 0) + left = total := by
  cases hFollow : (request.redirect.getD config.redirect).follow with
  | true =>
    rw [sendWithRedirects_loop hFollow]
    exact loop_total hTotal _ elapsed replies
  | false =>
    rw [sendWithRedirects_single hFollow]
    intro n hop hMem
    rcases sendFirstHop_hops store config jar (prepareFirstHop config request) replies with hNil | ⟨_, _, hBuild, hOne⟩
    · simp [hNil] at hMem
    · rw [hOne] at hMem
      have hHop := List.mem_singleton.mp (List.mem_of_getElem? hMem)
      obtain ⟨_, rfl, -⟩ := buildHopRequest_ok hBuild
      rw [hHop]
      exact ⟨total, hTotal, Nat.zero_add total⟩

private theorem sendWithRedirects_stream :
    ((sendWithRedirects store join config jar request elapsed replies).hops.filter (isStream ·.body)).length ≤
      if isStream request.body then 1 else 0 := by
  have hBodies := sendWithRedirects_bodies store join config jar request elapsed replies
  have hNone : ∀ hop : Request O, (∀ source, hop.body ≠ .stream source) → isStream hop.body = false := by
    intro hop hNot
    cases hBody : hop.body with
    | empty => rfl
    | bytes data => rfl
    | stream source => exact absurd hBody (hNot source)
  cases hHops : (sendWithRedirects store join config jar request elapsed replies).hops with
  | nil => exact Nat.zero_le _
  | cons first rest =>
    have hFirst : first.body = request.body := (hBodies 0 first (by rw [hHops]; rfl)).first rfl
    have hRest : rest.filter (isStream ·.body) = [] := by
      rw [List.filter_eq_nil_iff]
      intro hop hMem
      obtain ⟨n, hn⟩ := List.mem_iff_getElem?.mp hMem
      have hAfter := hBodies (n + 1) hop (by rw [hHops, List.getElem?_cons_succ]; exact hn)
      rw [hNone hop (hAfter.once (.inl n.succ_ne_zero))]
      exact Bool.false_ne_true
    rw [List.filter_cons, hRest, hFirst]
    cases isStream request.body <;> simp

end Chain

section Loop
variable {env : Env F} {policy : RetryPolicy F} {saved : Saved} {steps : List (Step F)} {attempt : Nat}

private theorem retryLoop_steps :
    (retryLoop env policy saved attempt steps).rounds.map (·.step) =
      steps.take (retryLoop env policy saved attempt steps).rounds.length := by
  induction steps generalizing attempt with
  | nil => rfl
  | cons step steps ih =>
    obtain hNil | ⟨slept, rest, hCons, -, ⟨-, rfl⟩ | ⟨-, rfl⟩⟩ := @retryLoop_cons F env policy saved attempt step steps
    · rw [hNil]
      rfl
    · rw [hCons]
      rfl
    · rw [hCons, List.map_cons, List.length_cons, List.take_succ_cons, ih]

theorem started_before {step : Step F} {total : Duration} (hTotal : saved.timeout.bind (·.total) = some total)
    (hStep : step ∈ (retryLoop env policy saved attempt steps).rounds.map (·.step)) : step.elapsed < total := by
  induction steps generalizing attempt with
  | nil => cases hStep
  | cons first steps ih =>
    obtain hNil | ⟨slept, rest, hCons, hLt, hRest⟩ := @retryLoop_cons F env policy saved attempt first steps
    · rw [hNil] at hStep
      cases hStep
    · rw [hCons, List.map_cons] at hStep
      obtain rfl | hStep := List.mem_cons.mp hStep
      · exact hLt total hTotal
      · obtain ⟨-, rfl⟩ | ⟨-, rfl⟩ := hRest
        · cases hStep
        · exact ih hStep

private theorem retryLoop_answered (hBody : isReplayable saved.body = true) (hAttempt : attempt < policy.maxAttempts)
    {response : Response} (h : (retryLoop env policy saved attempt steps).outcome = .response response) :
    ∃ r ∈ (retryLoop env policy saved attempt steps).rounds.getLast?, r.step.outcome = some (.ok response) := by
  induction steps generalizing attempt with
  | nil => cases h
  | cons step steps ih =>
    rcases retryLoop_step env step steps hBody hAttempt with
      ⟨-, hEq⟩ | ⟨-, -, hEq⟩ | ⟨-, ⟨outcome, hNext, hEq⟩ | ⟨slept, hNext, hEq⟩⟩
    · rw [hEq] at h
      cases h
    · rw [hEq] at h
      cases h
    · rw [hEq] at h ⊢
      obtain rfl : outcome = .response response := h
      refine ⟨_, rfl, ?_⟩
      rcases next_stop hNext with ⟨-, hOutcome⟩ | ⟨result, hStep, -, hOutcome⟩ | ⟨_, _, -, -, hSleep⟩
      · cases hOutcome
      · cases result with
        | error e => cases hOutcome
        | ok answer =>
          obtain rfl := Outcome.response.inj hOutcome
          exact hStep
      · rcases sleepIfBudgetAllows_stop hSleep with ⟨hOutcome, -⟩ | ⟨hOutcome, -⟩ <;> cases hOutcome
    · rw [hEq] at h ⊢
      obtain ⟨r, hLast, hStep⟩ := ih (attempt_lt_of_again hNext) h
      refine ⟨r, ?_, hStep⟩
      obtain ⟨init, hInit⟩ := List.getLast?_eq_some_iff.mp hLast
      exact List.getLast?_eq_some_iff.mpr ⟨_ :: init, by rw [hInit, List.cons_append]⟩

variable {requestPolicy clientPolicy : Option (RetryPolicy F)}

theorem sendWithRetry_steps :
    (sendWithRetry env requestPolicy clientPolicy saved steps).rounds.map (·.step) =
      steps.take (sendWithRetry env requestPolicy clientPolicy saved steps).rounds.length := by
  unfold sendWithRetry
  split
  · exact retryLoop_steps
  · cases steps <;> rfl

theorem sendWithRetry_length :
    (sendWithRetry env requestPolicy clientPolicy saved steps).rounds.length ≤
      max 1 ((effectivePolicy requestPolicy clientPolicy).elim 1 (·.maxAttempts)) := by
  unfold sendWithRetry
  split
  · rename_i policy hLoop
    obtain ⟨hPolicy, hEnabled, hBody⟩ := loopPolicy_some hLoop
    have hLength := retryLoop_length env steps hBody (Nat.zero_lt_of_lt hEnabled)
    rw [Nat.zero_add] at hLength
    rw [hPolicy]
    exact hLength.trans (Nat.le_max_right _ _)
  · refine le_trans ?_ (Nat.le_max_left _ _)
    cases steps <;> simp [single]

theorem sendWithRetry_answered {response : Response}
    (h : (sendWithRetry env requestPolicy clientPolicy saved steps).outcome = .response response) :
    ∃ r ∈ (sendWithRetry env requestPolicy clientPolicy saved steps).rounds.getLast?,
      r.step.outcome = some (.ok response) := by
  unfold sendWithRetry at h ⊢
  split at h
  · rename_i policy hLoop
    obtain ⟨-, hEnabled, hBody⟩ := loopPolicy_some hLoop
    exact retryLoop_answered hBody (Nat.zero_lt_of_lt hEnabled) h
  · cases steps with
    | nil => cases h
    | cons step steps =>
      refine ⟨_, rfl, ?_⟩
      cases hStep : step.outcome with
      | none =>
        rw [single, hStep] at h
        cases h
      | some result =>
        rw [single, hStep] at h
        cases result with
        | error e => cases h
        | ok answer =>
          obtain rfl := Outcome.response.inj h
          exact hStep

end Loop

section Send
variable {sender : Sender J F} {requestPolicy : Option (RetryPolicy F)} {looping : Bool} {request : Request O} {jar : J}
  {turns : List (Turn F)} {a : Attempt F O J}

theorem mem_attempts (hMem : a ∈ sender.attempts looping request jar turns) :
    ∃ jar turn, a = sender.attempt looping request jar turn := by
  induction turns generalizing jar with
  | nil => cases hMem
  | cons turn turns ih =>
    obtain rfl | hMem := List.mem_cons.mp hMem
    · exact ⟨jar, turn, rfl⟩
    · exact ih hMem

/-- The attempts of a send run the request, but for its timeout, as chains of their own. -/
theorem mem_send (hMem : a ∈ (sender.send requestPolicy request jar turns).attempts) :
    (∃ timeout, a.request = retryRequest request timeout) ∧
      ∃ jar, a.chain = sendWithRedirects sender.store sender.join sender.config jar a.request a.turn.firstHop a.turn.replies := by
  obtain ⟨jar, turn, rfl⟩ := mem_attempts (List.mem_of_mem_take hMem)
  refine ⟨?_, jar, rfl⟩
  unfold Sender.attempt
  dsimp only
  split
  · exact ⟨_, rfl⟩
  · exact ⟨request.timeout, rfl⟩

theorem send_length :
    (sender.send requestPolicy request jar turns).attempts.length ≤
      (sendWithRetry sender.env requestPolicy sender.retry (savedParts request)
        ((sender.attempts (loopPolicy requestPolicy sender.retry request.body).isSome request jar turns).map
          sender.step)).rounds.length :=
  List.length_take_le _ _

variable (sender requestPolicy request jar turns) in
/-- The attempts that are made are those of the loop's rounds. -/
theorem send_steps :
    (sender.send requestPolicy request jar turns).attempts.map sender.step =
      (sendWithRetry sender.env requestPolicy sender.retry (savedParts request)
        ((sender.attempts (loopPolicy requestPolicy sender.retry request.body).isSome request jar turns).map
          sender.step)).rounds.map
          (·.step) := by
  rw [sendWithRetry_steps, ← List.map_take]
  rfl

private theorem send_left {total : Duration} (hTotal : ownTotal request = some total)
    (hMem : a ∈ (sender.send requestPolicy request jar turns).attempts) :
    ∃ left, (prepareFirstHop sender.config a.request).timeout.total = some left ∧ a.start + left = total := by
  have hStep := List.mem_map_of_mem (f := sender.step) hMem
  rw [send_steps] at hStep
  obtain ⟨jar', turn, rfl⟩ := mem_attempts (List.mem_of_mem_take hMem)
  change ∃ left, effectiveTotal _ _ = some left ∧ _
  cases hLoop : loopPolicy requestPolicy sender.retry request.body with
  | none =>
    refine ⟨total, ?_, Nat.zero_add total⟩
    rw [effectiveTotal_eq]
    change (ownTotal request <|> _) = _
    rw [hTotal]
    rfl
  | some policy =>
    have hLt : turn.elapsed < total := by
      have hSaved : loopPolicy requestPolicy sender.retry (savedParts request).body = some policy := hLoop
      rw [sendWithRetry, hSaved] at hStep
      have hOwn : (savedParts request).timeout.bind (·.total) = some total := hTotal
      exact started_before hOwn hStep
    refine ⟨total - turn.elapsed, ?_, Nat.add_sub_of_le hLt.le⟩
    rw [effectiveTotal_eq]
    change (ownTotal (retryRequest request _) <|> _) = _
    rw [ownTotal_shrunk, hTotal]
    rfl

private theorem send_streamed (hStream : isStream request.body = true) :
    (sender.send requestPolicy request jar turns).attempts.length ≤ 1 := by
  have hLoop : loopPolicy requestPolicy sender.retry request.body = none := by
    refine Option.eq_none_iff_forall_ne_some.mpr fun policy hSome => ?_
    have hBody := (loopPolicy_some hSome).2.2
    cases hRequest : request.body <;> simp_all [isStream, isReplayable]
  refine send_length.trans ?_
  rw [sendWithRetry, show loopPolicy requestPolicy sender.retry (savedParts request).body = none from hLoop]
  cases sender.attempts _ request jar turns <;> simp [single]

theorem sum_le_mul {l : List (Attempt F O J)} {f : Attempt F O J → Nat} {n m : Nat} (hLength : l.length ≤ n)
    (hEach : ∀ a ∈ l, f a ≤ m) : (l.map f).sum ≤ n * m := by
  refine (List.sum_le_card_nsmul _ m (by simpa using hEach)).trans ?_
  rw [List.length_map]
  exact Nat.mul_le_mul_right m hLength

private theorem send_oneShot :
    (((sender.send requestPolicy request jar turns).attempts.flatMap (·.chain.hops)).filter (isStream ·.body)).length ≤ 1 := by
  rw [List.filter_flatMap, List.length_flatMap]
  have hEach : ∀ a ∈ (sender.send requestPolicy request jar turns).attempts,
      (a.chain.hops.filter (isStream ·.body)).length ≤ if isStream request.body then 1 else 0 := by
    intro a hMem
    obtain ⟨⟨timeout, hRequest⟩, jar', hChain⟩ := mem_send hMem
    rw [hChain, hRequest]
    exact sendWithRedirects_stream
  cases hStream : isStream request.body with
  | true => exact sum_le_mul (send_streamed hStream) fun a hMem => (hEach a hMem).trans_eq (if_pos hStream)
  | false =>
    have hNone := sum_le_mul le_rfl fun a hMem => (hEach a hMem).trans_eq (if_neg (Bool.eq_false_iff.mp hStream))
    rw [Nat.mul_zero] at hNone
    exact hNone.trans (Nat.zero_le 1)

private theorem send_answered {response : Response}
    (hResponse : (sender.send requestPolicy request jar turns).outcome = .response response) :
    ∃ a ∈ (sender.send requestPolicy request jar turns).attempts.getLast?, ∃ history, a.chain.outcome = .ok response history := by
  obtain ⟨r, hLast, hOutcome⟩ := sendWithRetry_answered hResponse
  have hSteps := congrArg List.getLast? (send_steps sender requestPolicy request jar turns)
  rw [List.getLast?_map, List.getLast?_map, Option.mem_def.mp hLast, Option.map_some] at hSteps
  obtain ⟨a, hMem, hStep⟩ := Option.map_eq_some_iff.mp hSteps
  refine ⟨a, hMem, ?_⟩
  rw [← hStep] at hOutcome
  change sender.attemptOutcome a.chain.outcome = _ at hOutcome
  cases hChain : a.chain.outcome with
  | ok answer history =>
    rw [hChain] at hOutcome
    obtain rfl := Except.ok.inj (Option.some.inj hOutcome)
    exact ⟨history, rfl⟩
  | error e =>
    rw [hChain] at hOutcome
    cases hOutcome
  | waiting =>
    rw [hChain] at hOutcome
    cases hOutcome

/-- A send, with its retries and their redirects, keeps the caller's request, limits, deadline and body. -/
theorem sent_as_one (sender : Sender J F) (requestPolicy : Option (RetryPolicy F)) (request : Request O) (jar : J)
    (turns : List (Turn F)) : SentAsOne sender requestPolicy request jar turns := by
  refine ⟨?_, ?_, ?_, send_oneShot, ?_, fun response => send_answered⟩
  · refine sum_le_mul (send_length.trans sendWithRetry_length) fun a hMem => ?_
    obtain ⟨⟨timeout, hRequest⟩, jar', hChain⟩ := mem_send hMem
    rw [hChain, hRequest]
    exact sendWithRedirects_dispatched
  · intro a hMem hop hHead
    obtain ⟨⟨timeout, hRequest⟩, jar', hChain⟩ := mem_send hMem
    rw [hChain, hRequest] at hHead
    have hFirst := sendWithRedirects_bodies _ _ _ _ _ _ _ 0 hop (by rwa [← List.head?_eq_getElem?])
    have hUrl := sendWithRedirects_url hop hHead
    exact ⟨hFirst.method, hUrl, hFirst.first rfl⟩
  · intro total hTotal a hMem n hop hHop
    obtain ⟨left, hLeft, hSum⟩ := send_left hTotal hMem
    obtain ⟨⟨timeout, hRequest⟩, jar', hChain⟩ := mem_send hMem
    rw [hChain] at hHop
    obtain ⟨given, hGiven, hClock⟩ := sendWithRedirects_total hLeft n hop hHop
    refine ⟨given, hGiven, ?_⟩
    rw [← hSum, ← hClock, hRequest, Nat.add_assoc]
    rfl
  · intro a hMem
    obtain ⟨-, jar', hChain⟩ := mem_send hMem
    rw [hChain]
    exact sendWithRedirects_bare

end Send
end Eggfetch.Retry
