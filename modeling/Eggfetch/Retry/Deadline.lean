import Eggfetch.Pipeline.Hop
import Eggfetch.Retry.Delay

/-! The total timeout over the attempts of a send. The loop shrinks the total of the
request's own timeout; the client's timeout is merged into it only inside each attempt. -/
namespace Eggfetch.Retry
open Text Pipeline

variable {F O : Type}

def retryRequest (request : Request O) (attemptTimeout : Option Timeout) : Request O :=
  { request with timeout := attemptTimeout }

def savedParts (request : Request O) : Saved := ⟨request.method, request.body, request.timeout⟩

def effectiveTotal (config : ClientConfig) (request : Request O) : Option Duration :=
  (prepareFirstHop config request).timeout.total

def ownTotal (request : Request O) : Option Duration := request.timeout.bind (·.total)

/-- Every attempt starts before the total is over and is given at most what is left of it,
and no sleep goes past it. -/
def WithinTotal (config : ClientConfig) (request : Request O) (total : Duration) (r : Round F) : Prop :=
  r.elapsed < total ∧
    (∃ given ∈ effectiveTotal config (retryRequest request r.timeout), given ≤ total - r.elapsed) ∧
    ∀ s ∈ r.slept, s.start + s.delay ≤ total

def Round.WithinOwn (saved : Saved) (r : Round F) : Prop :=
  r.timeout = saved.timeout.map (shrinkTotalDeadline · r.elapsed) ∧
    ∀ t ∈ saved.timeout.bind (·.total), r.elapsed < t ∧ ∀ s ∈ r.slept, s.start + s.delay ≤ t

private theorem next_within {env : Env F} {policy : RetryPolicy F} {saved : Saved} {attempt : Nat} {step : Step F}
    {slept : Option Sleep} (h : next env policy saved attempt step = .again slept) :
    ∀ t ∈ saved.timeout.bind (·.total), ∀ s ∈ slept, s.start + s.delay ≤ t := by
  obtain ⟨_, _, _, _, _, hPause⟩ := next_again h
  intro t ht s hs
  exact (pause_again hPause).2 s hs t ht

theorem retryLoop_within {env : Env F} {policy : RetryPolicy F} {saved : Saved} {steps : List (Step F)}
    {attempt : Nat} : ∀ r ∈ (retryLoop env policy saved attempt steps).rounds, r.WithinOwn saved := by
  induction steps generalizing attempt with
  | nil => simp [retryLoop]
  | cons step steps ih =>
    obtain hNil | ⟨slept, rest, hCons, hElapsed, hRest⟩ := @retryLoop_cons F env policy saved attempt step steps
    · simp [hNil]
    · intro r hr
      rw [hCons] at hr
      obtain ⟨rfl, rfl⟩ | ⟨hNext, rfl⟩ := hRest
      · obtain rfl := List.mem_singleton.mp hr
        exact ⟨rfl, fun t ht => ⟨hElapsed t ht, by simp⟩⟩
      · obtain rfl | hr := List.mem_cons.mp hr
        · exact ⟨rfl, fun t ht => ⟨hElapsed t ht, next_within hNext t ht⟩⟩
        · exact ih r hr

section Totals
variable {config : ClientConfig} {request : Request O} {total : Duration}

theorem effectiveTotal_eq (config : ClientConfig) (request : Request O) :
    effectiveTotal config request = (ownTotal request <|> config.timeout.bind (·.total)) := by
  cases hConfig : config.timeout <;> cases hRequest : request.timeout <;>
    simp [effectiveTotal, ownTotal, prepareFirstHop, hConfig, hRequest, Timeout.merge]

theorem ownTotal_shrunk (request : Request O) (elapsed : Duration) :
    ownTotal (retryRequest request (request.timeout.map (shrinkTotalDeadline · elapsed))) =
      (ownTotal request).map (· - elapsed) := by
  cases h : request.timeout <;> simp [ownTotal, retryRequest, shrinkTotalDeadline, h]

/-- The total given to an attempt that starts with `elapsed` gone: the rest of the request's
own, else the client's again. -/
theorem effectiveTotal_shrunk (hTotal : effectiveTotal config request = some total) (elapsed : Duration) :
    effectiveTotal config (retryRequest request (request.timeout.map (shrinkTotalDeadline · elapsed))) =
      some (if (ownTotal request).isSome then total - elapsed else total) := by
  rw [effectiveTotal_eq] at hTotal ⊢
  rw [ownTotal_shrunk]
  cases hOwn : ownTotal request with
  | some own =>
    rw [hOwn] at hTotal
    obtain rfl : own = total := by simpa using hTotal
    simp
  | none =>
    rw [hOwn] at hTotal
    simpa using hTotal

private theorem withinTotal_of_own {r : Round F} (hTotal : effectiveTotal config request = some total)
    (hOwn : (ownTotal request).isSome) (hr : r.WithinOwn (savedParts request)) :
    WithinTotal config request total r := by
  obtain ⟨hTimeout, hWithin⟩ := hr
  have hMem : ownTotal request = some total := by
    rw [effectiveTotal_eq] at hTotal
    obtain ⟨own, hOwn⟩ := Option.isSome_iff_exists.mp hOwn
    simpa [hOwn] using hTotal
  obtain ⟨hElapsed, hSlept⟩ := hWithin total hMem
  have hGiven := effectiveTotal_shrunk hTotal r.elapsed
  rw [if_pos hOwn] at hGiven
  exact ⟨hElapsed, ⟨_, by rw [hTimeout]; exact hGiven, le_rfl⟩, hSlept⟩

private theorem withinTotal_whole {r : Round F} (hGiven : effectiveTotal config (retryRequest request r.timeout) = some total) :
    WithinTotal config request total r ↔
      (r.elapsed = 0 ∧ 0 < total) ∧ ∀ s ∈ r.slept, s.start + s.delay ≤ total := by
  constructor
  · rintro ⟨hElapsed, ⟨given, hMem, hLe⟩, hSlept⟩
    obtain rfl : total = given := Option.some.inj (hGiven.symm.trans hMem)
    have hZero : r.elapsed = 0 := by
      simp only [Duration] at *
      omega
    exact ⟨⟨hZero, hZero ▸ hElapsed⟩, hSlept⟩
  · rintro ⟨⟨hZero, hPos⟩, hSlept⟩
    rw [WithinTotal, hZero]
    exact ⟨hPos, ⟨total, hGiven, le_rfl⟩, hSlept⟩

end Totals

def OwnDeadline (requestPolicy clientPolicy : Option (RetryPolicy F)) (request : Request O) : Prop :=
  (loopPolicy requestPolicy clientPolicy request.body).isSome ∧ (ownTotal request).isSome

/-- The total is kept over a send exactly where it is the request's own and the loop runs, or
nothing is started later than at once, or slept past it. -/
theorem total_kept_iff (env : Env F) (config : ClientConfig) (request : Request O)
    (requestPolicy clientPolicy : Option (RetryPolicy F)) (steps : List (Step F)) (total : Duration)
    (hTotal : effectiveTotal config request = some total) :
    (∀ r ∈ (sendWithRetry env requestPolicy clientPolicy (savedParts request) steps).rounds,
      WithinTotal config request total r) ↔
    OwnDeadline requestPolicy clientPolicy request ∨
      ∀ r ∈ (sendWithRetry env requestPolicy clientPolicy (savedParts request) steps).rounds,
        (r.elapsed = 0 ∧ 0 < total) ∧ ∀ s ∈ r.slept, s.start + s.delay ≤ total := by
  by_cases hOwn : OwnDeadline requestPolicy clientPolicy request
  · have hKept : ∀ r ∈ (sendWithRetry env requestPolicy clientPolicy (savedParts request) steps).rounds,
        WithinTotal config request total r := by
      obtain ⟨policy, hLoop⟩ := Option.isSome_iff_exists.mp hOwn.1
      have hLoop' : loopPolicy requestPolicy clientPolicy (savedParts request).body = some policy := hLoop
      rw [sendWithRetry, hLoop']
      intro r hr
      exact withinTotal_of_own hTotal hOwn.2 (retryLoop_within r hr)
    exact ⟨fun _ => .inl hOwn, fun _ => hKept⟩
  · rw [or_iff_right hOwn]
    apply forall₂_congr
    intro r hr
    apply withinTotal_whole
    -- the single attempt is given the merged timeout as it is, a retried one the client's
    cases hLoop : loopPolicy requestPolicy clientPolicy (savedParts request).body with
    | none =>
      rw [sendWithRetry, hLoop] at hr
      cases steps with
      | nil => simp [single] at hr
      | cons step steps =>
        obtain rfl := List.mem_singleton.mp hr
        exact hTotal
    | some policy =>
      rw [sendWithRetry, hLoop] at hr
      have hNone : ¬ (ownTotal request).isSome := by
        intro hSome
        exact hOwn ⟨Option.isSome_iff_exists.mpr ⟨policy, hLoop⟩, hSome⟩
      have hGiven := effectiveTotal_shrunk hTotal r.elapsed
      rw [if_neg hNone] at hGiven
      rw [(retryLoop_within r hr).1]
      exact hGiven

def exampleConfig : ClientConfig := { timeout := some { total := some (10 * 10 ^ 9) } }

def exampleRequest : Request Unit where
  method := utf8 "GET"
  url := { scheme := utf8 "https", host := some (utf8 "example.com"), path := utf8 "/" }
  options := ()

/-- A connection that fails after six seconds, and a second attempt. -/
def slowSteps : List (Step ℚ) :=
  [⟨0, some (.error .connect), 6 * 10 ^ 9, none, 6 * 10 ^ 9, 6 * 10 ^ 9⟩, ⟨6 * 10 ^ 9, none, 0, none, 0, 0⟩]

/-- The second attempt is given ten seconds again. -/
theorem client_total_restarts :
    ¬ ∀ r ∈ (sendWithRetry exampleEnv (some examplePolicy) none (savedParts exampleRequest) slowSteps).rounds,
      WithinTotal exampleConfig exampleRequest (10 * 10 ^ 9) r := by
  intro h
  have hRounds : (sendWithRetry exampleEnv (some examplePolicy) none (savedParts exampleRequest) slowSteps).rounds =
      slowSteps.mapIdx fun i step => ⟨i + 1, step.elapsed, none, step, none⟩ := rfl
  rw [hRounds] at h
  obtain ⟨-, ⟨given, hGiven, hLe⟩, -⟩ := h ⟨2, 6 * 10 ^ 9, none, ⟨6 * 10 ^ 9, none, 0, none, 0, 0⟩, none⟩
    (.tail _ (.head _))
  obtain rfl : 10 * 10 ^ 9 = given := Option.some.inj hGiven
  exact absurd hLe (by decide)

theorem total_kept_iff_example :
    (∀ r ∈ (sendWithRetry exampleEnv (some examplePolicy) none (savedParts exampleRequest) slowSteps).rounds,
      WithinTotal exampleConfig exampleRequest (10 * 10 ^ 9) r) ↔
    OwnDeadline (some examplePolicy) none exampleRequest ∨
      ∀ r ∈ (sendWithRetry exampleEnv (some examplePolicy) none (savedParts exampleRequest) slowSteps).rounds,
        (r.elapsed = 0 ∧ 0 < 10 * 10 ^ 9) ∧ ∀ s ∈ r.slept, s.start + s.delay ≤ 10 * 10 ^ 9 :=
  total_kept_iff exampleEnv exampleConfig exampleRequest (some examplePolicy) none slowSteps (10 * 10 ^ 9) rfl

end Eggfetch.Retry
