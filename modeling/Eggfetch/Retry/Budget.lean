import Eggfetch.Retry.Delay

/-! The budgets of the retry loop: attempts and elapsed time. `has_budget` hands the last
outcome back when a budget is spent; the gate before the sleep and the head of the loop put
an error in its place. -/
namespace Eggfetch.Retry
open Text Pipeline

variable {F : Type}

def effectivePolicy (requestPolicy clientPolicy : Option (RetryPolicy F)) : Option (RetryPolicy F) :=
  requestPolicy <|> clientPolicy

/-- Neither the elapsed-time budget nor the total is spent when the first attempt is to
start. -/
def BudgetLeft (policy : Option (RetryPolicy F)) (saved : Saved) (step : Step F) : Prop :=
  (∀ m ∈ policy.bind (·.maxElapsed), step.elapsed < m) ∧ ∀ t ∈ saved.timeout.bind (·.total), step.elapsed < t

/-- The loop hands the outcome of an attempt back, unless the total deadline is in its place or
another attempt is to start. -/
def EndsWith (outcome : Outcome) (result : Except AttemptError Response) : Prop :=
  outcome = .of result ∨ (∃ e, outcome = .totalTimeout e) ∨ outcome = .waiting

/-- What a send does with its budgets. A sleep is counted from the reading of the clock that
admits it. -/
structure BudgetsKept (env : Env F) (requestPolicy clientPolicy : Option (RetryPolicy F)) (saved : Saved)
    (steps : List (Step F)) : Prop where
  started : ∀ step ∈ steps.head?, BudgetLeft (effectivePolicy requestPolicy clientPolicy) saved step →
    1 ≤ (sendWithRetry env requestPolicy clientPolicy saved steps).rounds.length
  bounded : (sendWithRetry env requestPolicy clientPolicy saved steps).rounds.length ≤
    max 1 ((effectivePolicy requestPolicy clientPolicy).elim 1 (·.maxAttempts))
  once : isReplayable saved.body = false ∨
      (∀ policy ∈ effectivePolicy requestPolicy clientPolicy, saved.method ∉ policy.methods) →
    ∀ step ∈ steps.head?, BudgetLeft (effectivePolicy requestPolicy clientPolicy) saved step →
      (sendWithRetry env requestPolicy clientPolicy saved steps).rounds.length = 1
  elapsed : ∀ m ∈ (effectivePolicy requestPolicy clientPolicy).bind (·.maxElapsed),
    ∀ r ∈ (sendWithRetry env requestPolicy clientPolicy saved steps).rounds,
      r.elapsed ≤ m ∧ ∀ s ∈ r.slept, r.step.elapsedCheck + s.delay ≤ m
  returned : ∀ r ∈ (sendWithRetry env requestPolicy clientPolicy saved steps).rounds.getLast?,
    ∀ result ∈ r.step.outcome, EndsWith (sendWithRetry env requestPolicy clientPolicy saved steps).outcome result

/-- The cause and the `Retry-After` of a retry that `has_budget` admits. -/
def admittedRetry (policy : RetryPolicy F) (saved : Saved) (attempt : Nat) (step : Step F) :
    Option (RetryCause × Option Str) :=
  (step.outcome.bind (retried policy saved)).filter fun _ => hasBudget policy attempt step

def nextDelay (env : Env F) (policy : RetryPolicy F) (attempt : Nat) (step : Step F)
    (retry : RetryCause × Option Str) : Option Duration :=
  policy.computeRetryDelay env.ops env.untilDate retry.1 attempt retry.2 step.jitter

/-- A retry that `has_budget` admits is admitted by the gate before its sleep and, unless the
total deadline comes first, by the head of the loop. -/
structure Admits (env : Env F) (policy : RetryPolicy F) (saved : Saved) (attempt : Nat) (step : Step F)
    (following : Option (Step F)) : Prop where
  sleep : ∀ retry ∈ admittedRetry policy saved attempt step, ∀ delay ∈ nextDelay env policy attempt step retry,
    ∀ m ∈ policy.maxElapsed, step.elapsedCheck + delay ≤ m
  start : ∀ retry ∈ admittedRetry policy saved attempt step,
    (∀ delay ∈ nextDelay env policy attempt step retry, ∀ t ∈ saved.timeout.bind (·.total),
      step.totalCheck + delay ≤ t) →
    ∀ step' ∈ following, ∀ m ∈ policy.maxElapsed, step'.elapsed < m

section Rounds
variable {env : Env F} {policy : RetryPolicy F} {saved : Saved} {attempt : Nat} {step : Step F}
  {steps : List (Step F)} {slept : Option Sleep} {outcome : Outcome}

private theorem any_lt_iff (o : Option Duration) (d : Duration) :
    o.any (· < d) = true ↔ ¬ ∀ m ∈ o, d ≤ m := by
  cases o <;> simp

private theorem any_le_iff (o : Option Duration) (d : Duration) :
    o.any (· ≤ d) = true ↔ ¬ ∀ m ∈ o, d < m := by
  cases o <;> simp

theorem sleepIfBudgetAllows_stop {delay : Duration} {total : Option Duration}
    (h : sleepIfBudgetAllows policy delay attempt total step = .stop outcome) :
    (outcome = .retryBudgetExhausted attempt ∧ ¬ ∀ m ∈ policy.maxElapsed, step.elapsedCheck + delay ≤ m) ∨
      (outcome = .totalTimeout step.totalCheck ∧ (∀ m ∈ policy.maxElapsed, step.elapsedCheck + delay ≤ m) ∧
        ¬ ∀ t ∈ total, step.totalCheck + delay ≤ t) := by
  unfold sleepIfBudgetAllows at h
  split at h
  · rename_i hElapsed
    exact .inl ⟨(Next.stop.inj h).symm, (any_lt_iff _ _).mp hElapsed⟩
  · rename_i hElapsed
    split at h
    · rename_i hTotal
      rw [any_lt_iff, not_not] at hElapsed
      exact .inr ⟨(Next.stop.inj h).symm, hElapsed, (any_lt_iff _ _).mp hTotal⟩
    · cases h

private theorem sleepIfBudgetAllows_admits {delay : Duration} {total : Option Duration}
    (h : sleepIfBudgetAllows policy delay attempt total step = .again slept) :
    ∀ m ∈ policy.maxElapsed, step.elapsedCheck + delay ≤ m := by
  unfold sleepIfBudgetAllows at h
  split at h
  · cases h
  · rename_i hElapsed
    rwa [any_lt_iff, not_not] at hElapsed

/-- Why the loop stops after an attempt: it still runs, its outcome is not retried or a budget
was found spent, or the sleep does not fit a budget. -/
theorem next_stop (h : next env policy saved attempt step = .stop outcome) :
    (step.outcome = none ∧ outcome = .waiting) ∨
    (∃ result, step.outcome = some result ∧ admittedRetry policy saved attempt step = none ∧
      outcome = .of result) ∨
    ∃ retry delay, admittedRetry policy saved attempt step = some retry ∧
      nextDelay env policy attempt step retry = some delay ∧
      sleepIfBudgetAllows policy delay attempt (saved.timeout.bind (·.total)) step = .stop outcome := by
  unfold next at h
  split at h
  · rename_i hNone
    exact .inl ⟨hNone, (Next.stop.inj h).symm⟩
  · rename_i result hOutcome
    split at h
    · rename_i hRetried
      exact .inr (.inl ⟨result, hOutcome, by simp [admittedRetry, hOutcome, hRetried], (Next.stop.inj h).symm⟩)
    · rename_i cause value hRetried
      split at h
      · rename_i hBudget
        refine .inr (.inl ⟨result, hOutcome, ?_, (Next.stop.inj h).symm⟩)
        simpa [admittedRetry, hOutcome, hRetried, Option.filter] using hBudget
      · rename_i hBudget
        have hAdmitted : admittedRetry policy saved attempt step = some (cause, value) := by
          simpa [admittedRetry, hOutcome, hRetried, Option.filter] using hBudget
        unfold pause at h
        split at h
        · rename_i delay hDelay
          exact .inr (.inr ⟨(cause, value), delay, hAdmitted, hDelay, h⟩)
        · cases h

/-- When the loop goes on, the gate admitted the retry. -/
theorem next_again_admits (h : next env policy saved attempt step = .again slept) :
    ∃ retry, admittedRetry policy saved attempt step = some retry ∧
      slept = (nextDelay env policy attempt step retry).map (⟨step.totalCheck, ·⟩) ∧
      ∀ delay ∈ nextDelay env policy attempt step retry,
        (∀ m ∈ policy.maxElapsed, step.elapsedCheck + delay ≤ m) ∧
          ∀ t ∈ saved.timeout.bind (·.total), step.totalCheck + delay ≤ t := by
  have hBudget : hasBudget policy attempt step = true := by
    unfold next at h
    split at h
    · cases h
    · split at h
      · cases h
      · split at h
        · cases h
        · rename_i hBudget
          simpa using hBudget
  obtain ⟨result, cause, value, hOutcome, hRetried, hPause⟩ := next_again h
  obtain ⟨hSlept, hTotal⟩ := pause_again hPause
  refine ⟨(cause, value), by simp [admittedRetry, hOutcome, hRetried, Option.filter, hBudget], hSlept, ?_⟩
  intro delay hDelay
  have hDelay' : policy.computeRetryDelay env.ops env.untilDate cause attempt value step.jitter = some delay := hDelay
  rw [hDelay'] at hSlept
  refine ⟨?_, fun t ht => hTotal _ hSlept t ht⟩
  unfold pause at hPause
  rw [hDelay'] at hPause
  exact sleepIfBudgetAllows_admits hPause

theorem hasBudget_of_admittedRetry {retry : RetryCause × Option Str}
    (h : admittedRetry policy saved attempt step = some retry) : attempt < policy.maxAttempts := by
  have hBudget := (Option.filter_eq_some_iff.mp h).2
  simp only [hasBudget, Bool.and_eq_true, decide_eq_true_eq] at hBudget
  exact hBudget.1

private theorem admits_of_stop (h : next env policy saved attempt step = .stop outcome) (following : Option (Step F)) :
    Admits env policy saved attempt step following ↔ ∀ n, outcome ≠ .retryBudgetExhausted n := by
  rcases next_stop h with ⟨hNone, rfl⟩ | ⟨result, hOutcome, hAdmitted, rfl⟩ | ⟨retry, delay, hAdmitted, hDelay, hSleep⟩
  · have hAdmitted : admittedRetry policy saved attempt step = none := by simp [admittedRetry, hNone]
    exact ⟨fun _ _ => (by intro h; cases h), fun _ => ⟨by simp [hAdmitted], by simp [hAdmitted]⟩⟩
  · refine ⟨fun _ n => ?_, fun _ => ⟨by simp [hAdmitted], by simp [hAdmitted]⟩⟩
    cases result <;> exact (by intro h; cases h)
  · rcases sleepIfBudgetAllows_stop hSleep with ⟨rfl, hRefused⟩ | ⟨rfl, hFits, hTotal⟩
    · refine ⟨fun hAdmits => absurd (hAdmits.sleep retry hAdmitted delay hDelay) hRefused, ?_⟩
      exact fun hNot => absurd rfl (hNot attempt)
    · refine ⟨fun _ _ => (by intro h; cases h), fun _ => ⟨?_, ?_⟩⟩
      · intro retry' hRetry' delay' hDelay'
        obtain rfl := Option.some.inj (hAdmitted.symm.trans hRetry')
        obtain rfl := Option.some.inj (hDelay.symm.trans hDelay')
        exact hFits
      · intro retry' hRetry' hTotal'
        obtain rfl := Option.some.inj (hAdmitted.symm.trans hRetry')
        exact absurd (hTotal' delay hDelay) hTotal

theorem admits_of_again (h : next env policy saved attempt step = .again slept) (following : Option (Step F)) :
    Admits env policy saved attempt step following ↔
      ∀ step' ∈ following, ∀ m ∈ policy.maxElapsed, step'.elapsed < m := by
  obtain ⟨retry, hAdmitted, -, hFits⟩ := next_again_admits h
  constructor
  · intro hAdmits
    exact hAdmits.start retry hAdmitted fun delay hDelay => (hFits delay hDelay).2
  · intro hStart
    refine ⟨?_, fun _ _ _ => hStart⟩
    intro retry' hRetry' delay hDelay
    obtain rfl := Option.some.inj (hAdmitted.symm.trans hRetry')
    exact (hFits delay hDelay).1

variable (env step steps) in
/-- The head of the loop ends it on a spent budget, or starts an attempt. -/
theorem retryLoop_step (hBody : isReplayable saved.body = true) (hAttempt : attempt < policy.maxAttempts) :
    ((¬ ∀ m ∈ policy.maxElapsed, step.elapsed < m) ∧
      retryLoop env policy saved attempt (step :: steps) = ⟨[], .retryBudgetExhausted attempt⟩) ∨
    ((∀ m ∈ policy.maxElapsed, step.elapsed < m) ∧ (¬ ∀ t ∈ saved.timeout.bind (·.total), step.elapsed < t) ∧
      retryLoop env policy saved attempt (step :: steps) = ⟨[], .totalTimeout step.elapsed⟩) ∨
    ((∀ m ∈ policy.maxElapsed, step.elapsed < m) ∧
      ((∃ outcome, next env policy saved (attempt + 1) step = .stop outcome ∧
        retryLoop env policy saved attempt (step :: steps) =
          ⟨[⟨attempt + 1, step.elapsed, saved.timeout.map (shrinkTotalDeadline · step.elapsed), step, none⟩],
            outcome⟩) ∨
      ∃ slept, next env policy saved (attempt + 1) step = .again slept ∧
        retryLoop env policy saved attempt (step :: steps) =
          ⟨⟨attempt + 1, step.elapsed, saved.timeout.map (shrinkTotalDeadline · step.elapsed), step, slept⟩ ::
              (retryLoop env policy saved (attempt + 1) steps).rounds,
            (retryLoop env policy saved (attempt + 1) steps).outcome⟩)) := by
  rw [retryLoop]
  dsimp only
  split_ifs with hAttempts hElapsed hTotal hZero hReplay
  · exact absurd hAttempts (by omega)
  · exact .inl ⟨(any_le_iff _ _).mp hElapsed, rfl⟩
  · rw [any_le_iff, not_not] at hElapsed
    exact .inr (.inl ⟨hElapsed, (any_le_iff _ _).mp hTotal, rfl⟩)
  · -- what is left of a total that is not over is not zero
    rw [any_le_iff, not_not] at hTotal
    obtain ⟨timeout, hTimeout, hNone⟩ := Option.bind_eq_some_iff.mp hZero
    obtain ⟨own, hOwn, rfl⟩ := Option.map_eq_some_iff.mp hTimeout
    obtain ⟨t, ht, hLeft⟩ := Option.map_eq_some_iff.mp hNone
    have hLt := hTotal t (by simp [hOwn, ht])
    exact absurd hLeft (Nat.sub_ne_zero_of_lt hLt)
  · rw [hBody] at hReplay
    cases hReplay
  · rw [any_le_iff, not_not] at hElapsed
    refine .inr (.inr ⟨hElapsed, ?_⟩)
    cases hNext : next env policy saved (attempt + 1) step with
    | stop outcome => exact .inl ⟨outcome, rfl, rfl⟩
    | again slept => exact .inr ⟨slept, rfl, rfl⟩

theorem attempt_lt_of_again (h : next env policy saved attempt step = .again slept) :
    attempt < policy.maxAttempts := by
  obtain ⟨_, hAdmitted, -, -⟩ := next_again_admits h
  exact hasBudget_of_admittedRetry hAdmitted

variable (env steps) in
theorem retryLoop_length (hBody : isReplayable saved.body = true) (hAttempt : attempt < policy.maxAttempts) :
    attempt + (retryLoop env policy saved attempt steps).rounds.length ≤ policy.maxAttempts := by
  induction steps generalizing attempt with
  | nil =>
    simp only [retryLoop, List.length_nil]
    omega
  | cons step steps ih =>
    rcases retryLoop_step env step steps hBody hAttempt with
      ⟨-, hEq⟩ | ⟨-, -, hEq⟩ | ⟨-, ⟨outcome, -, hEq⟩ | ⟨slept, hNext, hEq⟩⟩
    · simp only [hEq, List.length_nil]
      omega
    · simp only [hEq, List.length_nil]
      omega
    · simp only [hEq, List.length_singleton]
      omega
    · have hRest := ih (attempt_lt_of_again hNext)
      simp only [hEq, List.length_cons]
      omega

private theorem retryLoop_elapsed (hBody : isReplayable saved.body = true) (hAttempt : attempt < policy.maxAttempts) :
    ∀ m ∈ policy.maxElapsed, ∀ r ∈ (retryLoop env policy saved attempt steps).rounds,
      r.elapsed < m ∧ ∀ s ∈ r.slept, r.step.elapsedCheck + s.delay ≤ m := by
  intro m hm
  induction steps generalizing attempt with
  | nil => simp [retryLoop]
  | cons step steps ih =>
    rcases retryLoop_step env step steps hBody hAttempt with
      ⟨-, hEq⟩ | ⟨-, -, hEq⟩ | ⟨hElapsed, ⟨outcome, -, hEq⟩ | ⟨slept, hNext, hEq⟩⟩ <;> rw [hEq] <;> intro r hr
    · cases hr
    · cases hr
    · rw [List.mem_singleton.mp hr]
      exact ⟨hElapsed m hm, fun s hs => by cases hs⟩
    · rcases List.mem_cons.mp hr with rfl | hr
      · obtain ⟨retry, -, hSlept, hFits⟩ := next_again_admits hNext
        refine ⟨hElapsed m hm, fun s hs => ?_⟩
        rw [hSlept] at hs
        obtain ⟨delay, hDelay, rfl⟩ := Option.map_eq_some_iff.mp hs
        exact (hFits delay hDelay).1 m hm
      · exact ih (attempt_lt_of_again hNext) r hr

variable (env attempt steps) in
private theorem retryLoop_ineligible (hMethod : saved.method ∉ policy.methods) :
    (retryLoop env policy saved attempt steps).rounds.length ≤ 1 := by
  cases steps with
  | nil => simp [retryLoop]
  | cons step steps =>
    obtain hNil | ⟨slept, rest, hCons, -, ⟨-, rfl⟩ | ⟨hNext, -⟩⟩ := @retryLoop_cons F env policy saved attempt step steps
    · simp [hNil]
    · simp [hCons]
    · obtain ⟨result, cause, value, -, hRetried, -⟩ := next_again hNext
      cases result <;> simp [retried, RetryPolicy.retriesStatus, RetryPolicy.retriesError, hMethod] at hRetried

theorem EndsWith.ne_exhausted {result : Except AttemptError Response} (h : EndsWith outcome result) (n : Nat) :
    outcome ≠ .retryBudgetExhausted n := by
  rintro rfl
  rcases h with h | ⟨_, h⟩ | h
  · cases result <;> cases h
  · cases h
  · cases h

theorem retryLoop_returned (hBody : isReplayable saved.body = true) (hAttempt : attempt < policy.maxAttempts) :
    ∀ r ∈ (retryLoop env policy saved attempt steps).rounds.getLast?,
      (r.step.outcome = none ∧ (retryLoop env policy saved attempt steps).outcome = .waiting) ∨
      ∃ result, r.step.outcome = some result ∧
        (EndsWith (retryLoop env policy saved attempt steps).outcome result ∨
          ∃ n, (retryLoop env policy saved attempt steps).outcome = .retryBudgetExhausted n) := by
  induction steps generalizing attempt with
  | nil => simp [retryLoop]
  | cons step steps ih =>
    rcases retryLoop_step env step steps hBody hAttempt with
      ⟨-, hEq⟩ | ⟨-, -, hEq⟩ | ⟨-, ⟨outcome, hNext, hEq⟩ | ⟨slept, hNext, hEq⟩⟩ <;> rw [hEq] <;> intro r hr
    · cases hr
    · cases hr
    · obtain rfl := Option.some.inj hr
      rcases next_stop hNext with ⟨hNone, rfl⟩ | ⟨result, hOutcome, -, rfl⟩ | ⟨_, _, hAdmitted, -, hSleep⟩
      · exact .inl ⟨hNone, rfl⟩
      · exact .inr ⟨result, hOutcome, .inl (.inl rfl)⟩
      · obtain ⟨result, hOutcome, -⟩ := Option.bind_eq_some_iff.mp (Option.filter_eq_some_iff.mp hAdmitted).1
        refine .inr ⟨result, hOutcome, ?_⟩
        rcases sleepIfBudgetAllows_stop hSleep with ⟨rfl, -⟩ | ⟨rfl, -, -⟩
        · exact .inr ⟨_, rfl⟩
        · exact .inl (.inr (.inl ⟨_, rfl⟩))
    · have hAttempt' := attempt_lt_of_again hNext
      cases hRest : (retryLoop env policy saved (attempt + 1) steps).rounds with
      | cons r' rest =>
        simp only [hRest, List.getLast?_cons_cons] at hr
        exact ih hAttempt' r (hRest ▸ hr)
      | nil =>
        -- the head of the loop ended it
        simp only [hRest, List.getLast?_singleton] at hr
        obtain rfl := Option.some.inj hr
        obtain ⟨result, _, _, hOutcome, -⟩ := next_again hNext
        refine .inr ⟨result, hOutcome, ?_⟩
        cases steps with
        | nil => exact .inl (.inr (.inr rfl))
        | cons step' steps =>
          rcases retryLoop_step env step' steps hBody hAttempt' with
            ⟨-, hEq'⟩ | ⟨-, -, hEq'⟩ | ⟨-, ⟨outcome, -, hEq'⟩ | ⟨slept', -, hEq'⟩⟩
          · exact .inr ⟨_, congrArg Trace.outcome hEq'⟩
          · exact .inl (.inr (.inl ⟨_, congrArg Trace.outcome hEq'⟩))
          · cases hRest.symm.trans (congrArg Trace.rounds hEq')
          · cases hRest.symm.trans (congrArg Trace.rounds hEq')

/-- The first `n` attempts, by their steps, admit what follows them. -/
def AdmitsUpTo (env : Env F) (policy : RetryPolicy F) (saved : Saved) (attempt : Nat) (steps : List (Step F))
    (n : Nat) : Prop :=
  ∀ i < n, ∀ step ∈ steps[i]?, Admits env policy saved (attempt + i + 1) step steps[i + 1]?

private theorem admitsUpTo_succ (n : Nat) :
    AdmitsUpTo env policy saved attempt (step :: steps) (n + 1) ↔
      Admits env policy saved (attempt + 1) step steps.head? ∧
        AdmitsUpTo env policy saved (attempt + 1) steps n := by
  constructor
  · intro h
    refine ⟨?_, fun i hi step' hStep => ?_⟩
    · have hFirst := h 0 (Nat.succ_pos n) step rfl
      simpa [List.head?_eq_getElem?] using hFirst
    · have hNext := h (i + 1) (Nat.succ_lt_succ hi) step' hStep
      have hIndex : attempt + (i + 1) + 1 = attempt + 1 + i + 1 := by omega
      rwa [hIndex] at hNext
  · rintro ⟨hFirst, hRest⟩ i hi step' hStep
    cases i with
    | zero =>
      obtain rfl := Option.some.inj hStep
      simpa [List.head?_eq_getElem?] using hFirst
    | succ i =>
      have hNext := hRest i (Nat.lt_of_succ_lt_succ hi) step' hStep
      have hIndex : attempt + (i + 1) + 1 = attempt + 1 + i + 1 := by omega
      rw [hIndex]
      exact hNext

/-- The loop ends with the budget's error exactly if the budget is spent at its start or an
attempt does not admit what follows it. -/
theorem retryLoop_not_exhausted (hBody : isReplayable saved.body = true) (hAttempt : attempt < policy.maxAttempts) :
    (∀ n, (retryLoop env policy saved attempt steps).outcome ≠ .retryBudgetExhausted n) ↔
      (∀ step ∈ steps.head?, ∀ m ∈ policy.maxElapsed, step.elapsed < m) ∧
        AdmitsUpTo env policy saved attempt steps (retryLoop env policy saved attempt steps).rounds.length := by
  induction steps generalizing attempt with
  | nil =>
    refine ⟨fun _ => ⟨by simp, fun i hi => absurd hi (Nat.not_lt_zero i)⟩, fun _ n => ?_⟩
    exact (by intro h; cases h)
  | cons step steps ih =>
    rcases retryLoop_step env step steps hBody hAttempt with
      ⟨hSpent, hEq⟩ | ⟨hElapsed, -, hEq⟩ | ⟨hElapsed, ⟨outcome, hNext, hEq⟩ | ⟨slept, hNext, hEq⟩⟩ <;> rw [hEq]
    · exact ⟨fun h => absurd rfl (h attempt), fun h => absurd (h.1 step rfl) hSpent⟩
    · refine ⟨fun _ => ⟨?_, fun i hi => absurd hi (Nat.not_lt_zero i)⟩, fun _ n => (by intro h; cases h)⟩
      rintro step' ⟨rfl⟩
      exact hElapsed
    · have hAdmits := admits_of_stop hNext steps.head?
      simp only [List.length_singleton, admitsUpTo_succ, hAdmits]
      refine ⟨fun h => ⟨?_, h, fun i hi => absurd hi (Nat.not_lt_zero i)⟩, fun h => h.2.1⟩
      rintro step' ⟨rfl⟩
      exact hElapsed
    · have hAdmits := admits_of_again hNext steps.head?
      have hRest := ih (attempt_lt_of_again hNext)
      simp only [List.length_cons, admitsUpTo_succ, hAdmits, hRest]
      refine ⟨fun h => ⟨?_, h⟩, fun h => h.2⟩
      rintro step' ⟨rfl⟩
      exact hElapsed

private theorem retryLoop_started (hBody : isReplayable saved.body = true) (hAttempt : attempt < policy.maxAttempts)
    (hElapsed : ∀ m ∈ policy.maxElapsed, step.elapsed < m)
    (hTotal : ∀ t ∈ saved.timeout.bind (·.total), step.elapsed < t) :
    1 ≤ (retryLoop env policy saved attempt (step :: steps)).rounds.length := by
  rcases retryLoop_step env step steps hBody hAttempt with
    ⟨hSpent, -⟩ | ⟨-, hSpent, -⟩ | ⟨-, ⟨_, -, hEq⟩ | ⟨_, -, hEq⟩⟩
  · exact absurd hElapsed hSpent
  · exact absurd hTotal hSpent
  · simp [hEq]
  · simp [hEq]

end Rounds

theorem loopPolicy_some {requestPolicy clientPolicy : Option (RetryPolicy F)} {body : RequestBody}
    {policy : RetryPolicy F} (h : loopPolicy requestPolicy clientPolicy body = some policy) :
    effectivePolicy requestPolicy clientPolicy = some policy ∧ 1 < policy.maxAttempts ∧
      isReplayable body = true := by
  obtain ⟨hPolicy, hEnabled⟩ := Option.filter_eq_some_iff.mp h
  simp only [RetryPolicy.isEnabled, Bool.and_eq_true, decide_eq_true_eq] at hEnabled
  exact ⟨hPolicy, hEnabled⟩

private theorem single_kept {env : Env F} {requestPolicy clientPolicy : Option (RetryPolicy F)} {saved : Saved}
    {steps : List (Step F)} (hNone : loopPolicy requestPolicy clientPolicy saved.body = none) :
    BudgetsKept env requestPolicy clientPolicy saved steps := by
  have hSend : sendWithRetry env requestPolicy clientPolicy saved steps = single saved steps := by
    rw [sendWithRetry, hNone]
  have hLength : (single saved steps).rounds.length ≤ 1 := by cases steps <;> simp [single]
  have hHead : ∀ step ∈ steps.head?, (single saved steps).rounds.length = 1 := by
    cases steps <;> simp [single]
  refine ⟨?_, ?_, ?_, ?_, ?_⟩ <;> rw [hSend]
  · exact fun step hStep _ => (hHead step hStep).ge
  · exact hLength.trans (Nat.le_max_left _ _)
  · exact fun _ step hStep _ => hHead step hStep
  · intro m _ r hr
    cases steps with
    | nil => simp [single] at hr
    | cons step steps =>
      obtain rfl := List.mem_singleton.mp hr
      exact ⟨Nat.zero_le m, fun s hs => by cases hs⟩
  · intro r hr result hResult
    cases steps with
    | nil => simp [single] at hr
    | cons step steps =>
      obtain rfl := Option.some.inj hr
      have hStep : step.outcome = some result := hResult
      refine .inl ?_
      simp only [single, hStep, Option.elim_some]

private theorem loop_kept {env : Env F} {requestPolicy clientPolicy : Option (RetryPolicy F)} {saved : Saved}
    {steps : List (Step F)} {policy : RetryPolicy F}
    (hLoop : loopPolicy requestPolicy clientPolicy saved.body = some policy) :
    BudgetsKept env requestPolicy clientPolicy saved steps ↔
      AdmitsUpTo env policy saved 0 steps
        (sendWithRetry env requestPolicy clientPolicy saved steps).rounds.length := by
  obtain ⟨hPolicy, hEnabled, hBody⟩ := loopPolicy_some hLoop
  have hSend : sendWithRetry env requestPolicy clientPolicy saved steps = retryLoop env policy saved 0 steps := by
    rw [sendWithRetry, hLoop]
  have hAttempt : 0 < policy.maxAttempts := by omega
  have hLength := retryLoop_length env steps hBody hAttempt
  have hStarted : ∀ step ∈ steps.head?, BudgetLeft (effectivePolicy requestPolicy clientPolicy) saved step →
      1 ≤ (retryLoop env policy saved 0 steps).rounds.length := by
    intro step hStep hLeft
    obtain ⟨rest, rfl⟩ := List.head?_eq_some_iff.mp hStep
    rw [hPolicy] at hLeft
    exact retryLoop_started hBody hAttempt hLeft.1 hLeft.2
  constructor
  · intro hKept
    rw [hSend]
    cases hLast : (retryLoop env policy saved 0 steps).rounds.getLast? with
    | none =>
      rw [List.getLast?_eq_none_iff.mp hLast]
      exact fun i hi => absurd hi (Nat.not_lt_zero i)
    | some r =>
      refine ((retryLoop_not_exhausted hBody hAttempt).mp fun n hExhausted => ?_).2
      rcases retryLoop_returned hBody hAttempt r hLast with ⟨-, hWaiting⟩ | ⟨result, hResult, -⟩
      · cases hWaiting.symm.trans hExhausted
      · have hEnds := hKept.returned r (by rw [hSend]; exact hLast) result hResult
        rw [hSend] at hEnds
        exact hEnds.ne_exhausted n hExhausted
  · intro hAdmits
    rw [hSend] at hAdmits
    refine ⟨?_, ?_, ?_, ?_, ?_⟩ <;> rw [hSend]
    · exact hStarted
    · rw [hPolicy, Option.elim_some]
      omega
    · intro hOnce step hStep hLeft
      have hMethod : saved.method ∉ policy.methods := by
        rcases hOnce with hStream | hMethod
        · rw [hBody] at hStream
          cases hStream
        · exact hMethod policy hPolicy
      have hAtMost := retryLoop_ineligible env 0 steps hMethod
      have hAtLeast := hStarted step hStep hLeft
      omega
    · rw [hPolicy, Option.bind_some]
      intro m hm r hr
      obtain ⟨hElapsed, hSlept⟩ := retryLoop_elapsed hBody hAttempt m hm r hr
      exact ⟨hElapsed.le, hSlept⟩
    · intro r hr result hResult
      have hHead : ∀ step ∈ steps.head?, ∀ m ∈ policy.maxElapsed, step.elapsed < m := by
        intro step hStep
        obtain ⟨rest, rfl⟩ := List.head?_eq_some_iff.mp hStep
        rcases retryLoop_step env step rest hBody hAttempt with
          ⟨-, hEq⟩ | ⟨hElapsed, -⟩ | ⟨hElapsed, -⟩
        · rw [hEq] at hr
          cases hr
        · exact hElapsed
        · exact hElapsed
      have hNot := (retryLoop_not_exhausted hBody hAttempt).mpr ⟨hHead, hAdmits⟩
      rcases retryLoop_returned hBody hAttempt r hr with ⟨hNone, -⟩ | ⟨result', hResult', hEnds | ⟨n, hExhausted⟩⟩
      · cases hNone.symm.trans hResult
      · obtain rfl := Option.some.inj (hResult'.symm.trans hResult)
        exact hEnds
      · exact absurd hExhausted (hNot n)

/-- A send keeps its budgets when every retry that `has_budget` admits is admitted by the gate
and the head of the loop too, and only if the retry after every attempt it makes is. -/
theorem budgets_kept (env : Env F) (requestPolicy clientPolicy : Option (RetryPolicy F)) (saved : Saved)
    (steps : List (Step F)) :
    ((∀ policy ∈ loopPolicy requestPolicy clientPolicy saved.body, ∀ i, ∀ step ∈ steps[i]?,
        Admits env policy saved (i + 1) step steps[i + 1]?) →
      BudgetsKept env requestPolicy clientPolicy saved steps) ∧
    (BudgetsKept env requestPolicy clientPolicy saved steps →
      ∀ policy ∈ loopPolicy requestPolicy clientPolicy saved.body,
        ∀ i < (sendWithRetry env requestPolicy clientPolicy saved steps).rounds.length, ∀ step ∈ steps[i]?,
          Admits env policy saved (i + 1) step steps[i + 1]?) := by
  cases hLoop : loopPolicy requestPolicy clientPolicy saved.body with
  | none => exact ⟨fun _ => single_kept hLoop, fun _ policy hPolicy => by cases hPolicy⟩
  | some policy =>
    constructor
    · intro hAdmits
      refine (loop_kept hLoop).mpr fun i _ step hStep => ?_
      rw [Nat.zero_add]
      exact hAdmits policy rfl i step hStep
    · rintro hKept policy' ⟨rfl⟩ i hi step hStep
      have hAdmits := (loop_kept hLoop).mp hKept i hi step hStep
      rwa [Nat.zero_add] at hAdmits

def tightPolicy : RetryPolicy ℚ := { examplePolicy with maxElapsed := some (400 * 10 ^ 6) }

def unavailable : Response where
  status := 503
  url := { scheme := utf8 "https", host := some (utf8 "example.com"), path := utf8 "/" }
  headers := Http.Headers.empty.insertRaw (utf8 "retry-after") (utf8 "1")

def unavailableStep : Step ℚ := ⟨0, some (.ok unavailable), 0, none, 0, 0⟩

/-- The answer is thrown away: the second it asks to wait for is not left of 400 ms. -/
theorem answer_discarded :
    ¬ ∀ (env : Env ℚ) (requestPolicy clientPolicy : Option (RetryPolicy ℚ)) (saved : Saved)
      (steps : List (Step ℚ)), BudgetsKept env requestPolicy clientPolicy saved steps := by
  intro hAll
  have hReturned := (hAll exampleEnv (some tightPolicy) none exampleSaved [unavailableStep]).returned
  have hSend : sendWithRetry exampleEnv (some tightPolicy) none exampleSaved [unavailableStep] =
      ⟨[⟨1, 0, none, unavailableStep, none⟩], .retryBudgetExhausted 1⟩ := rfl
  rw [hSend] at hReturned
  exact (hReturned _ rfl _ rfl).ne_exhausted 1 rfl

end Eggfetch.Retry
