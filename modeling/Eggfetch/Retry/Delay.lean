import Eggfetch.Retry.Loop
import Mathlib.Data.List.Chain
import Mathlib.Data.Rat.Floor

/-! The delay before a retry against the documented one: `min(max_delay, initial_delay *
factor^(n - 2))` with full jitter before attempt `n`. The loop asks for the delay of the
attempt that failed, so it sleeps the delay of attempt `n - 1`, and nothing before the first
retry. -/
namespace Eggfetch.Retry
open Text Pipeline

variable {F : Type}

section Rounds
variable {env : Env F} {policy : RetryPolicy F} {saved : Saved} {attempt : Nat} {step : Step F}
  {steps : List (Step F)} {slept : Option Sleep}

private theorem sleepIfBudgetAllows_again {delay : Duration} {total : Option Duration}
    (h : sleepIfBudgetAllows policy delay attempt total step = .again slept) :
    slept = some ⟨step.totalCheck, delay⟩ ∧ ∀ t ∈ total, step.totalCheck + delay ≤ t := by
  unfold sleepIfBudgetAllows at h
  split at h
  · cases h
  · split at h
    · cases h
    · rename_i hTotal
      refine ⟨(Next.again.inj h).symm, ?_⟩
      rintro t rfl
      simpa using hTotal

/-- What is known when the loop goes on to another attempt. -/
theorem next_again (h : next env policy saved attempt step = .again slept) :
    ∃ outcome cause value, step.outcome = some outcome ∧
      retried policy saved outcome = some (cause, value) ∧
      pause env policy saved cause attempt value step = .again slept := by
  unfold next at h
  split at h
  · cases h
  · rename_i outcome hOutcome
    split at h
    · cases h
    · rename_i cause value hRetried
      split at h
      · cases h
      · exact ⟨outcome, cause, value, hOutcome, hRetried, h⟩

theorem pause_again {cause : RetryCause} {value : Option Str}
    (h : pause env policy saved cause attempt value step = .again slept) :
    slept = (policy.computeRetryDelay env.ops env.untilDate cause attempt value step.jitter).map
        (⟨step.totalCheck, ·⟩) ∧
      ∀ s ∈ slept, ∀ t ∈ saved.timeout.bind (·.total), s.start + s.delay ≤ t := by
  unfold pause at h
  split at h
  · rename_i delay hDelay
    obtain ⟨rfl, hTotal⟩ := sleepIfBudgetAllows_again h
    refine ⟨by rw [hDelay]; rfl, ?_⟩
    rintro s ⟨rfl⟩
    exact hTotal
  · rename_i hDelay
    have hSlept : none = slept := Next.again.inj h
    subst hSlept
    exact ⟨by rw [hDelay]; rfl, by simp⟩

/-- The rounds from one step on: the guards at the top end the loop, or there is an attempt,
and the rest are those of the loop after it. -/
theorem retryLoop_cons :
    (retryLoop env policy saved attempt (step :: steps)).rounds = [] ∨
    ∃ slept rest, (retryLoop env policy saved attempt (step :: steps)).rounds =
        ⟨attempt + 1, step.elapsed, saved.timeout.map (shrinkTotalDeadline · step.elapsed), step, slept⟩ :: rest ∧
      (∀ t ∈ saved.timeout.bind (·.total), step.elapsed < t) ∧
      (slept = none ∧ rest = [] ∨
        next env policy saved (attempt + 1) step = .again slept ∧
          rest = (retryLoop env policy saved (attempt + 1) steps).rounds) := by
  rw [retryLoop]
  dsimp only
  split_ifs with hAttempts hElapsed hTotal hZero
  · exact .inl rfl
  · exact .inl rfl
  · exact .inl rfl
  · exact .inl rfl
  · exact .inl rfl
  · right
    have hLt : ∀ t ∈ saved.timeout.bind (·.total), step.elapsed < t := by
      intro t ht
      simp only [Option.mem_def.mp ht, Option.any_some, decide_eq_true_eq] at hTotal
      exact Nat.lt_of_not_le hTotal
    cases hNext : next env policy saved (attempt + 1) step with
    | stop outcome => exact ⟨none, [], rfl, hLt, .inl ⟨rfl, rfl⟩⟩
    | again slept => exact ⟨slept, _, rfl, hLt, .inr ⟨rfl, rfl⟩⟩

private theorem retryLoop_head :
    ∀ r ∈ (retryLoop env policy saved attempt steps).rounds.head?, r.attempt = attempt + 1 := by
  cases steps with
  | nil => simp [retryLoop]
  | cons step steps =>
    obtain hNil | ⟨slept, rest, hCons, -⟩ := @retryLoop_cons F env policy saved attempt step steps
    · simp [hNil]
    · simp [hCons]

/-- One round follows another when its attempt was followed by a retry. -/
def Follows (env : Env F) (policy : RetryPolicy F) (saved : Saved) (r r' : Round F) : Prop :=
  0 < r.attempt ∧ r'.attempt = r.attempt + 1 ∧ next env policy saved r.attempt r.step = .again r.slept

theorem retryLoop_isChain :
    (retryLoop env policy saved attempt steps).rounds.IsChain (Follows env policy saved) := by
  induction steps generalizing attempt with
  | nil => exact .nil
  | cons step steps ih =>
    obtain hNil | ⟨slept, rest, hCons, -, hRest⟩ := @retryLoop_cons F env policy saved attempt step steps
    · rw [hNil]
      exact .nil
    · rw [hCons]
      obtain ⟨-, rfl⟩ | ⟨hNext, rfl⟩ := hRest
      · exact .singleton _
      · apply List.isChain_cons.mpr
        refine ⟨?_, ih⟩
        intro r hr
        exact ⟨Nat.succ_pos _, retryLoop_head r hr, hNext⟩

end Rounds

/-- The documented delay before attempt `attempt`, of at least 2. -/
def documentedDelay (ops : FloatOps F) (policy : RetryPolicy F) (cause : RetryCause) (attempt : Nat)
    (jitter : Option F) : Duration :=
  policy.adjust ops cause (jittered ops (policy.backoff.capped ops (attempt - 2)) jitter)

def documentedFloor (ops : FloatOps F) (policy : RetryPolicy F) (attempt : Nat) : Duration :=
  min millisecond (policy.backoff.capped ops (attempt - 2))

/-- The facts of `f64` and `Duration` arithmetic that the floor rests on. -/
structure FloatOps.Lawful (ops : FloatOps F) : Prop where
  asSecs_isFinite (d : Duration) : ops.isFinite (ops.asSecs d)
  asSecs_mono {d e : Duration} (h : d ≤ e) : ¬ ops.lt (ops.asSecs e) (ops.asSecs d)
  mul_oneAndHalf {d e : Duration} (h : d ≤ e) :
    ¬ ops.lt (ops.mul (ops.asSecs e) ops.oneAndHalf) (ops.asSecs d)
  min_isFinite {x y : F} (hx : ops.isFinite x) (hy : ops.isFinite y) : ops.isFinite (ops.min x y)
  le_min {x y z : F} (hx : ¬ ops.lt x z) (hy : ¬ ops.lt y z) : ¬ ops.lt (ops.min x y) z
  le_max {x y z : F} (hx : ops.isFinite x) (h : ¬ ops.lt x z) : ¬ ops.lt (ops.max x y) z
  /-- Up to a millisecond the conversions are exact, and they are monotone. -/
  le_tryFromSecs {d e : Duration} {x : F} (hd : d ≤ millisecond) (hx : ¬ ops.lt x (ops.asSecs d))
    (h : ops.tryFromSecs x = some e) : d ≤ e
  tryFromSecs_le {d e : Duration} {x : F} (hd : d ≤ millisecond) (hx : ¬ ops.lt (ops.asSecs d) x)
    (h : ops.tryFromSecs x = some e) : e ≤ d
  tryFromSecs_isSome {d : Duration} (hd : d ≤ millisecond) : (ops.tryFromSecs (ops.asSecs d)).isSome

section Floor
variable {ops : FloatOps F} (laws : ops.Lawful)
include laws

private theorem floor_le_maxDelay (backoff : BackoffPolicy F) (exponent : Nat) :
    min millisecond (backoff.capped ops exponent) ≤ backoff.maxDelay := by
  obtain hLarge | hSmall := le_total millisecond backoff.maxDelay
  · exact (min_le_left _ _).trans hLarge
  · apply (min_le_right _ _).trans
    have hSome := laws.tryFromSecs_isSome hSmall
    simp only [BackoffPolicy.capped, hSome, if_true]
    split
    · exact le_rfl
    · rename_i hRaw
      simp only [Bool.or_eq_true, not_or] at hRaw
      cases h : ops.tryFromSecs (ops.mul (ops.asSecs backoff.initialDelay)
        (ops.powf backoff.factor exponent)) with
      | none => exact le_rfl
      | some capped => exact laws.tryFromSecs_le hSmall hRaw.2 h

/-- The longer back-off of a 429 stays above what the shorter one and `max_delay` are above,
up to a millisecond. -/
theorem le_adjust (policy : RetryPolicy F) (cause : RetryCause) {d base : Duration}
    (hd : d ≤ millisecond) (hBase : d ≤ base) (hMax : d ≤ policy.backoff.maxDelay) :
    d ≤ policy.adjust ops cause base := by
  simp only [RetryPolicy.adjust]
  split
  · split
    · exact hMax
    · rename_i hFinite
      simp only [Bool.or_eq_true, Bool.not_eq_true', not_or, Bool.not_eq_false] at hFinite
      have hMin := laws.le_min (laws.mul_oneAndHalf hBase) (laws.asSecs_mono hMax)
      have hFiniteMin := laws.min_isFinite hFinite.1 (laws.asSecs_isFinite policy.backoff.maxDelay)
      cases h : ops.tryFromSecs (ops.max (ops.min (ops.mul (ops.asSecs base) ops.oneAndHalf)
        (ops.asSecs policy.backoff.maxDelay)) ops.zero) with
      | none => exact hMax
      | some e => exact laws.le_tryFromSecs hd (laws.le_max hFiniteMin hMin) h
  · exact hBase

theorem documentedFloor_le (policy : RetryPolicy F) (cause : RetryCause) (attempt : Nat)
    (jitter : Option F) :
    documentedFloor ops policy attempt ≤ documentedDelay ops policy cause attempt jitter := by
  apply le_adjust laws
  · exact min_le_left _ _
  · exact le_max_right _ _
  · exact floor_le_maxDelay laws _ _

end Floor

/-- The round's outcome is retried, for `cause`, without an applicable `Retry-After`. -/
def BacksOff (env : Env F) (policy : RetryPolicy F) (saved : Saved) (r : Round F) (cause : RetryCause) : Prop :=
  ∃ outcome value, r.step.outcome = some outcome ∧
    retried policy saved outcome = some (cause, value) ∧
    value.bind (policy.retryAfterDelay env.untilDate) = none

def Round.sleptDelay (r : Round F) : Duration := r.slept.elim 0 (·.delay)

/-- Where the loop backs off, it sleeps the delay that is documented for the attempt that
failed, and nothing after the first. -/
theorem sleptDelay_eq {env : Env F} {policy : RetryPolicy F} {saved : Saved} {r r' : Round F}
    {cause : RetryCause} (hFollows : Follows env policy saved r r')
    (hBacksOff : BacksOff env policy saved r cause) :
    r.sleptDelay = if r'.attempt = 2 then 0
      else documentedDelay env.ops policy cause (r'.attempt - 1) r.step.jitter := by
  obtain ⟨hPos, hAttempt, hNext⟩ := hFollows
  obtain ⟨outcome, value, hOutcome, hRetried, hNone⟩ := hBacksOff
  obtain ⟨outcome', cause', value', hOutcome', hRetried', hPause⟩ := next_again hNext
  obtain rfl : outcome = outcome' := Option.some.inj (hOutcome.symm.trans hOutcome')
  obtain ⟨rfl, rfl⟩ : cause = cause' ∧ value = value' := by
    simpa using hRetried.symm.trans hRetried'
  have hSlept := (pause_again hPause).1
  simp only [RetryPolicy.computeRetryDelay, hNone, BackoffPolicy.delay] at hSlept
  rw [Round.sleptDelay, hSlept, hAttempt]
  obtain hFirst | hLater := Nat.lt_or_ge r.attempt 2
  · have hOne : r.attempt = 1 := by omega
    simp [hOne]
  · have hNe : r.attempt + 1 ≠ 2 := by omega
    have hGt : ¬ r.attempt ≤ 1 := by omega
    simp [hNe, hGt, documentedDelay]

/-- The delay between two rounds is the documented one, and at least the floor. -/
def DelayDocumented (env : Env F) (policy : RetryPolicy F) (saved : Saved) (r r' : Round F) : Prop :=
  ∀ cause, BacksOff env policy saved r cause →
    r.sleptDelay = documentedDelay env.ops policy cause r'.attempt r.step.jitter ∧
      documentedFloor env.ops policy r'.attempt ≤ r.sleptDelay

/-- The documented delay is that of the attempt before; before the second attempt it is
zero. -/
def DelayUnchanged (env : Env F) (policy : RetryPolicy F) (saved : Saved) (r r' : Round F) : Prop :=
  ∀ cause, BacksOff env policy saved r cause →
    documentedDelay env.ops policy cause r'.attempt r.step.jitter =
      if r'.attempt = 2 then 0
      else documentedDelay env.ops policy cause (r'.attempt - 1) r.step.jitter

theorem delayDocumented_iff {env : Env F} (laws : env.ops.Lawful) {policy : RetryPolicy F} {saved : Saved}
    {r r' : Round F} (hFollows : Follows env policy saved r r') :
    DelayDocumented env policy saved r r' ↔ DelayUnchanged env policy saved r r' := by
  constructor
  · intro h cause hBacksOff
    rw [← (h cause hBacksOff).1]
    exact sleptDelay_eq hFollows hBacksOff
  · intro h cause hBacksOff
    have hSlept := (sleptDelay_eq hFollows hBacksOff).trans (h cause hBacksOff).symm
    refine ⟨hSlept, ?_⟩
    rw [hSlept]
    exact documentedFloor_le laws policy cause r'.attempt r.step.jitter

theorem isChain_congr {α : Type} {R S T : α → α → Prop} {l : List α} (hR : l.IsChain R)
    (h : ∀ {a b}, R a b → (S a b ↔ T a b)) : l.IsChain S ↔ l.IsChain T := by
  induction hR with
  | nil => simp
  | singleton a => simp
  | cons_cons hab _ ih => simp only [List.isChain_cons_cons, h hab, ih]

theorem sendWithRetry_isChain {env : Env F} {requestPolicy clientPolicy : Option (RetryPolicy F)} {saved : Saved}
    {steps : List (Step F)} {policy : RetryPolicy F}
    (h : loopPolicy requestPolicy clientPolicy saved.body = some policy) :
    (sendWithRetry env requestPolicy clientPolicy saved steps).rounds.IsChain (Follows env policy saved) := by
  rw [sendWithRetry, h]
  exact retryLoop_isChain

/-- The operations in exact arithmetic, with the rounding of the conversions. -/
def exactOps : FloatOps ℚ where
  asSecs d := d / 10 ^ 9
  tryFromSecs x := if x < 0 ∨ 2 ^ 64 ≤ x then none else some ⌊x * 10 ^ 9 + 1 / 2⌋₊
  mul x y := x * y
  powf x n := x ^ n
  lt x y := x < y
  isFinite _ := true
  min x y := min x y
  max x y := max x y
  zero := 0
  oneAndHalf := 3 / 2
  maxValue := 2 ^ 1024

private theorem exactOps_asSecs_le {d e : Duration} (h : d ≤ e) : exactOps.asSecs d ≤ exactOps.asSecs e := by
  change (d : ℚ) / 10 ^ 9 ≤ (e : ℚ) / 10 ^ 9
  gcongr

private theorem exactOps_tryFromSecs_eq_some {x : ℚ} {e : Duration} (h : exactOps.tryFromSecs x = some e) :
    0 ≤ x ∧ e = ⌊x * 10 ^ 9 + 1 / 2⌋₊ := by
  simp only [exactOps, Option.ite_none_left_eq_some, not_or, not_lt] at h
  exact ⟨h.1.1, (Option.some.inj h.2).symm⟩

theorem exactOps_lawful : exactOps.Lawful where
  asSecs_isFinite _ := rfl
  asSecs_mono h := by simpa [exactOps] using exactOps_asSecs_le h
  mul_oneAndHalf {d e} h := by
    have hLe : (d : ℚ) / 10 ^ 9 ≤ (e : ℚ) / 10 ^ 9 := exactOps_asSecs_le h
    have hPos : (0 : ℚ) ≤ (e : ℚ) / 10 ^ 9 := by positivity
    simp only [exactOps, decide_eq_true_eq, not_lt]
    linarith
  min_isFinite _ _ := rfl
  le_min hx hy := by
    simp only [exactOps, decide_eq_true_eq, not_lt] at *
    exact le_min hx hy
  le_max _ h := by
    simp only [exactOps, decide_eq_true_eq, not_lt] at *
    exact le_max_of_le_left h
  le_tryFromSecs {d e x} _ hx h := by
    obtain ⟨-, rfl⟩ := exactOps_tryFromSecs_eq_some h
    simp only [exactOps, decide_eq_true_eq, not_lt] at hx
    apply Nat.le_floor
    linarith
  tryFromSecs_le {d e x} _ hx h := by
    obtain ⟨hPos, rfl⟩ := exactOps_tryFromSecs_eq_some h
    simp only [exactOps, decide_eq_true_eq, not_lt] at hx
    apply Nat.le_of_lt_succ
    apply (Nat.floor_lt (by positivity)).mpr
    push_cast
    linarith
  tryFromSecs_isSome {d} hd := by
    have hLe : (d : ℚ) ≤ 10 ^ 6 := by exact_mod_cast hd
    have hPos : (0 : ℚ) ≤ d := by positivity
    have hRange : ¬ ((d : ℚ) / 10 ^ 9 < 0 ∨ 2 ^ 64 ≤ (d : ℚ) / 10 ^ 9) := by
      push Not
      constructor
      · positivity
      · linarith
    simp [exactOps, hRange]

/-- The delays of a send are the documented ones exactly where the documented delay before an
attempt is that of the attempt before, or zero before the second attempt. -/
theorem delays_documented_iff (env : Env F) (laws : env.ops.Lawful)
    (requestPolicy clientPolicy : Option (RetryPolicy F)) (saved : Saved) (steps : List (Step F)) :
    (∀ policy ∈ loopPolicy requestPolicy clientPolicy saved.body,
      (sendWithRetry env requestPolicy clientPolicy saved steps).rounds.IsChain
        (DelayDocumented env policy saved)) ↔
    ∀ policy ∈ loopPolicy requestPolicy clientPolicy saved.body,
      (sendWithRetry env requestPolicy clientPolicy saved steps).rounds.IsChain
        (DelayUnchanged env policy saved) := by
  apply forall₂_congr
  intro policy hPolicy
  exact isChain_congr (sendWithRetry_isChain hPolicy) (delayDocumented_iff laws)

def exampleEnv : Env ℚ := ⟨exactOps, fun _ => none⟩

def examplePolicy : RetryPolicy ℚ where
  maxAttempts := 3
  maxElapsed := none
  backoff := ⟨2, 30 * 10 ^ 9, 500 * 10 ^ 6⟩
  methods := [utf8 "GET"]
  statuses := [503]
  respectRetryAfter := true

def exampleSaved : Saved := ⟨utf8 "GET", .empty, none⟩

def exampleSteps : List (Step ℚ) :=
  [⟨0, some (.error .connect), 0, some (1 / 2), 0, 0⟩, ⟨0, none, 0, none, 0, 0⟩]

theorem first_retry_not_delayed :
    ¬ ∀ policy ∈ loopPolicy (some examplePolicy) none exampleSaved.body,
      (sendWithRetry exampleEnv (some examplePolicy) none exampleSaved exampleSteps).rounds.IsChain
        (DelayDocumented exampleEnv policy exampleSaved) := by
  intro h
  have hLoop : loopPolicy (some examplePolicy) none exampleSaved.body = some examplePolicy := rfl
  have hRounds : (sendWithRetry exampleEnv (some examplePolicy) none exampleSaved exampleSteps).rounds =
      exampleSteps.mapIdx fun i step => ⟨i + 1, 0, none, step, none⟩ := rfl
  have hChain := h examplePolicy hLoop
  rw [hRounds] at hChain
  have hDelay := (List.isChain_cons_cons.mp hChain).1 .transportError ⟨.error .connect, none, rfl, rfl, rfl⟩
  exact absurd hDelay.1 (by decide +kernel)

theorem delays_documented_iff_example :
    (∀ policy ∈ loopPolicy (some examplePolicy) none exampleSaved.body,
      (sendWithRetry exampleEnv (some examplePolicy) none exampleSaved exampleSteps).rounds.IsChain
        (DelayDocumented exampleEnv policy exampleSaved)) ↔
    ∀ policy ∈ loopPolicy (some examplePolicy) none exampleSaved.body,
      (sendWithRetry exampleEnv (some examplePolicy) none exampleSaved exampleSteps).rounds.IsChain
        (DelayUnchanged exampleEnv policy exampleSaved) :=
  delays_documented_iff exampleEnv exactOps_lawful (some examplePolicy) none exampleSaved exampleSteps

end Eggfetch.Retry
