import Eggfetch.Body.Timeout
import Eggfetch.Transport.Representable

/-! Write timeouts of request bodies: `WriteTimeoutStream` of `stream/write_timeout.rs` and `NativeRequestBody` of
`body.rs`, over the same producer. -/
namespace Eggfetch.Body
open Polling
open Pipeline (Duration TimeoutPhase)

variable {E C : Type}

def handed : Poll (Option (Except E C)) → Poll (Option (Except (BodyError E) C))
  | .pending => .pending
  | .ready none => .ready none
  | .ready (some (.ok chunk)) => .ready (some (.ok chunk))
  | .ready (some (.error e)) => .ready (some (.error (.inner e)))

def writeTimeout (duration : Duration) : Poll (Option (Except (BodyError E) C)) :=
  .ready (some (.error (.timeout .write duration)))

structure WriteTimeoutStream where
  deadline : Option Instant := none
  started : Bool := false
  timedOut : Bool := false
  /-- How often the inner stream was polled. -/
  polls : Nat := 0

namespace WriteTimeoutStream

def start (instantMax now : Instant) (duration : Duration) (me : WriteTimeoutStream) : WriteTimeoutStream :=
  if me.started then me else { me with started := true, deadline := some (sleep instantMax now duration) }

/-- `now` is read when the poll begins, and `later` when the inner stream has answered. -/
def pollNext (instantMax : Instant) (duration : Duration) (inner : Answers E C) (now later : Instant)
    (me : WriteTimeoutStream) : Poll (Option (Except (BodyError E) C)) × WriteTimeoutStream :=
  if me.timedOut then (.ready none, me)
  else
    let me := me.start instantMax now duration
    let item := inner me.polls
    let me := { me with polls := me.polls + 1 }
    match item with
    | .ready (some (.ok _)) =>
      (handed item, { me with deadline := me.deadline.map fun _ => saturatingTokioNowPlus instantMax later duration })
    | .ready (some (.error _)) => (handed item, { me with deadline := none })
    | .ready none => (handed item, { me with deadline := none })
    | .pending =>
      match me.deadline with
      | some deadline =>
        if deadline ≤ later then (writeTimeout duration, { me with deadline := none, timedOut := true })
        else (.pending, me)
      | none => (.pending, me)

end WriteTimeoutStream

structure NativeRequestBody where
  writeTimeout : Option Duration
  timer : Instant
  started : Bool := false
  done : Bool := false
  polls : Nat := 0

namespace NativeRequestBody

def new (instantMax now : Instant) (writeTimeout : Option Duration) : NativeRequestBody where
  writeTimeout := writeTimeout
  timer := sleep instantMax now Transport.durationMax

def start (instantMax now : Instant) (me : NativeRequestBody) : NativeRequestBody :=
  match me.writeTimeout with
  | some timeout =>
    if me.started then me else { me with started := true, timer := saturatingTokioNowPlus instantMax now timeout }
  | none => me

def pollFrame (instantMax : Instant) (inner : Answers E C) (now later : Instant) (me : NativeRequestBody) :
    Poll (Option (Except (BodyError E) C)) × NativeRequestBody :=
  if me.done then (.ready none, me)
  else
    let me := me.start instantMax now
    let item := inner me.polls
    let me := { me with polls := me.polls + 1 }
    match item with
    | .ready (some (.ok _)) =>
      match me.writeTimeout with
      | some timeout => (handed item, { me with timer := saturatingTokioNowPlus instantMax later timeout })
      | none => (handed item, me)
    | .ready (some (.error _)) => (handed item, { me with done := true })
    | .ready none => (handed item, { me with done := true })
    | .pending =>
      match me.writeTimeout with
      | some timeout =>
        if me.timer ≤ later then (Body.writeTimeout timeout, { me with done := true }) else (.pending, me)
      | none => (.pending, me)

end NativeRequestBody

/-- What the polls of a consumer read off the clock. -/
structure Clock (instantMax : Instant) where
  start : Nat → Instant
  later : Nat → Instant
  start_le : ∀ n, start n ≤ later n
  later_le : ∀ n, later n ≤ start (n + 1)
  bounded : ∀ n, later n ≤ instantMax

section
variable {σ : Type} {instantMax : Instant}

/-- The state before the poll after `n` others. -/
def stateAt (poll : Instant → Instant → σ → Poll (Option (Except (BodyError E) C)) × σ) (clock : Clock instantMax) (init : σ) :
    Nat → σ
  | 0 => init
  | n + 1 => (poll (clock.start n) (clock.later n) (stateAt poll clock init n)).2

def answerAt (poll : Instant → Instant → σ → Poll (Option (Except (BodyError E) C)) × σ) (clock : Clock instantMax) (init : σ)
    (n : Nat) : Poll (Option (Except (BodyError E) C)) :=
  (poll (clock.start n) (clock.later n) (stateAt poll clock init n)).1

variable (clock : Clock instantMax) (duration : Duration) (inner : Answers E C)

/-- The poll that first asked for the chunk that the poll after `n` others asks for. -/
def asked : Nat → Nat
  | 0 => 0
  | n + 1 => if (inner n).isChunk then n + 1 else asked n

/-- What a write timeout promises of a wrapper's answers and of its polls of the producer. -/
structure WriteTimed (answer : Nat → Poll (Option (Except (BodyError E) C))) (polls : Nat → Nat) : Prop where
  justified : ∀ n, answer n = writeTimeout duration → (∀ i, asked inner n ≤ i → i ≤ n → inner i = .pending) ∧
    clock.start (asked inner n) + duration ≤ clock.later n
  ended : ∀ n, answer n = writeTimeout duration → ∀ m > n, answer m = .ready none ∧ polls (m + 1) = polls (n + 1)
  unchanged : ∀ n, (∀ i ≤ n, answer i ≠ writeTimeout duration) → answer n = handed (inner n)

def armedAt (n : Nat) : Instant := if asked inner n = 0 then clock.start 0 else clock.later (asked inner n - 1)

/-- The timer has gone off at a poll that finds the producer pending. -/
def Expires (deadline : Nat → Instant) (n : Nat) : Prop := inner n = .pending ∧ deadline n ≤ clock.later n

/-- No earlier poll found an error, the end or the timer gone off. -/
def Reached (deadline : Nat → Instant) (n : Nat) : Prop :=
  ∀ i < n, (inner i).goesOn = true ∧ ¬ Expires clock inner deadline i

def nativeDeadline (n : Nat) : Instant := saturatingTokioNowPlus instantMax (armedAt clock inner n) duration

def streamDeadline (n : Nat) : Instant :=
  if asked inner n = 0 then sleep instantMax (clock.start 0) duration
  else saturatingTokioNowPlus instantMax (clock.later (asked inner n - 1)) duration

/-- A timer that has gone off since it was set has also gone off since the chunk was asked for, and the producer only ends after
an error or an end. -/
structure Fair : Prop where
  prompt : ∀ n, Reached clock inner (nativeDeadline clock duration inner) n →
    Expires clock inner (nativeDeadline clock duration inner) n → clock.start (asked inner n) + duration ≤ clock.later n
  fused : ∀ n, Reached clock inner (nativeDeadline clock duration inner) n → (inner n).goesOn = false →
    ∀ m > n, inner m = .ready none

/-- A wrapper's answers and polls by the deadline in force at each poll, and by what follows an error or the end. -/
structure Wrapped (deadline : Nat → Instant) (rest : Nat → Poll (Option (Except (BodyError E) C)))
    (answer : Nat → Poll (Option (Except (BodyError E) C))) (polls : Nat → Nat) : Prop where
  expired : ∀ n, Reached clock inner deadline n → Expires clock inner deadline n → answer n = writeTimeout duration ∧
    ∀ m > n, answer m = .ready none ∧ polls (m + 1) = polls (n + 1)
  alive : ∀ n, Reached clock inner deadline n → ¬ Expires clock inner deadline n → answer n = handed (inner n)
  stopped : ∀ n, Reached clock inner deadline n → (inner n).goesOn = false → ∀ m > n, answer m = rest m

variable {clock duration inner} {n : Nat} {deadline : Nat → Instant}

theorem asked_succ_chunk (h : (inner n).isChunk = true) : asked inner (n + 1) = n + 1 := if_pos h

theorem asked_succ_other (h : (inner n).isChunk = false) : asked inner (n + 1) = asked inner n :=
  if_neg (by rw [h]; exact Bool.false_ne_true)

theorem Reached.pred (h : Reached clock inner deadline (n + 1)) : Reached clock inner deadline n :=
  fun i hi => h i (Nat.lt_succ_of_lt hi)

/-- What has happened before a poll. -/
theorem reached_or (clock : Clock instantMax) (inner : Answers E C) (deadline : Nat → Instant) (n : Nat) :
    Reached clock inner deadline n ∨
      ∃ k < n, Reached clock inner deadline k ∧ ((inner k).goesOn = false ∨ Expires clock inner deadline k) := by
  induction n with
  | zero => exact Or.inl fun i hi => absurd hi (Nat.not_lt_zero i)
  | succ n ih =>
    rcases ih with hReached | ⟨k, hk, hStop⟩
    · by_cases hStop : (inner n).goesOn = false ∨ Expires clock inner deadline n
      · exact Or.inr ⟨n, Nat.lt_succ_self n, hReached, hStop⟩
      · obtain ⟨hGoes, hQuiet⟩ := not_or.mp hStop
        refine Or.inl fun i hi => ?_
        rcases Nat.lt_succ_iff_lt_or_eq.mp hi with hi | rfl
        · exact hReached i hi
        · exact ⟨(Bool.not_eq_false _).mp hGoes, hQuiet⟩
    · exact Or.inr ⟨k, Nat.lt_succ_of_lt hk, hStop⟩

/-- The two kinds of answers after which the producer goes on. -/
theorem goesOn_cases {item : Poll (Option (Except E C))} (h : item.goesOn = true) :
    item = .pending ∨ ∃ chunk, item = .ready (some (.ok chunk)) := by
  cases item with
  | pending => exact Or.inl rfl
  | ready item =>
    cases item with
    | none => cases h
    | some item =>
      cases item with
      | error e => cases h
      | ok chunk => exact Or.inr ⟨chunk, rfl⟩

namespace WriteTimeoutStream

/-- While nothing has stopped the stream, each of its polls has polled the producer once, and the timer runs. -/
theorem stateAt_start (h : Reached clock inner (streamDeadline clock duration inner) n) :
    (stateAt (pollNext instantMax duration inner) clock {} n).timedOut = false ∧
    (stateAt (pollNext instantMax duration inner) clock {} n).start instantMax (clock.start n) duration =
      ⟨some (streamDeadline clock duration inner n), true, false, n⟩ := by
  induction n with
  | zero => exact ⟨rfl, rfl⟩
  | succ n ih =>
    obtain ⟨hAlive, hStart⟩ := ih h.pred
    obtain ⟨hGoes, hQuiet⟩ := h n (Nat.lt_succ_self n)
    have hNext : (stateAt (pollNext instantMax duration inner) clock {} (n + 1)) =
        ⟨some (streamDeadline clock duration inner (n + 1)), true, false, n + 1⟩ := by
      rw [stateAt, pollNext, if_neg (by rw [hAlive]; exact Bool.false_ne_true), hStart]
      rcases goesOn_cases hGoes with hPending | ⟨chunk, hChunk⟩
      · have hLater : ¬ streamDeadline clock duration inner n ≤ clock.later n := fun hLate => hQuiet ⟨hPending, hLate⟩
        have hSame : streamDeadline clock duration inner (n + 1) = streamDeadline clock duration inner n := by
          rw [streamDeadline, asked_succ_other (by rw [hPending]; rfl), streamDeadline]
        simp only [hPending, if_neg hLater, hSame]
      · have hArmed : streamDeadline clock duration inner (n + 1) =
            saturatingTokioNowPlus instantMax (clock.later n) duration := by
          rw [streamDeadline, asked_succ_chunk (by rw [hChunk]; rfl), if_neg (Nat.succ_ne_zero n), Nat.add_sub_cancel]
        simp only [hChunk, hArmed, Option.map_some]
    rw [hNext]
    exact ⟨rfl, rfl⟩

private theorem stateAt_timedOut (h : (stateAt (pollNext instantMax duration inner) clock {} (n + 1)).timedOut = true) :
    ∀ m > n, stateAt (pollNext instantMax duration inner) clock {} m =
    stateAt (pollNext instantMax duration inner) clock {} (n + 1) := by
  intro m hm
  induction m, hm using Nat.le_induction with
  | base => rfl
  | succ m hm ih =>
    rw [stateAt, ih, pollNext, if_pos h]

private theorem stateAt_stopped (h : (stateAt (pollNext instantMax duration inner) clock {} (n + 1)) =
    ⟨none, true, false, n + 1⟩) :
    ∀ m > n, stateAt (pollNext instantMax duration inner) clock {} m = ⟨none, true, false, m⟩ := by
  intro m hm
  induction m, hm using Nat.le_induction with
  | base => exact h
  | succ m hm ih =>
    rw [stateAt, ih, pollNext, start, if_neg Bool.false_ne_true, if_pos rfl]
    cases hItem : inner m with
    | pending => simp only [hItem]
    | ready item => rcases item with _ | (e | chunk) <;> simp only [hItem, Option.map_none]

private theorem pollNext_expired (hReached : Reached clock inner (streamDeadline clock duration inner) n)
    (hExpires : Expires clock inner (streamDeadline clock duration inner) n) :
    pollNext instantMax duration inner (clock.start n) (clock.later n) (stateAt (pollNext instantMax duration inner) clock {} n) =
      (writeTimeout duration, ⟨none, true, true, n + 1⟩) := by
  obtain ⟨hAlive, hStart⟩ := stateAt_start hReached
  rw [pollNext, if_neg (by rw [hAlive]; exact Bool.false_ne_true), hStart]
  simp only [hExpires.1, if_pos hExpires.2]

theorem wrapped (clock : Clock instantMax) (duration : Duration) (inner : Answers E C) :
    Wrapped clock duration inner (streamDeadline clock duration inner) (fun m => handed (inner m))
      (answerAt (pollNext instantMax duration inner) clock {})
      (fun n => (stateAt (pollNext instantMax duration inner) clock {} n).polls) where
  expired n hReached hExpires := by
    have hPoll := pollNext_expired hReached hExpires
    have hOver : stateAt (pollNext instantMax duration inner) clock {} (n + 1) = ⟨none, true, true, n + 1⟩ := by
      rw [stateAt, hPoll]
    have hStays := stateAt_timedOut (by rw [hOver])
    refine ⟨by rw [answerAt, hPoll], fun m hm => ⟨?_, congrArg polls (hStays (m + 1) (Nat.lt_succ_of_lt hm))⟩⟩
    rw [answerAt, hStays m hm, hOver, pollNext, if_pos rfl]
  alive n hReached hQuiet := by
    obtain ⟨hAlive, hStart⟩ := stateAt_start hReached
    rw [answerAt, pollNext, if_neg (by rw [hAlive]; exact Bool.false_ne_true), hStart]
    cases hItem : inner n with
    | pending =>
      have hLater : ¬ streamDeadline clock duration inner n ≤ clock.later n := fun hLate => hQuiet ⟨hItem, hLate⟩
      simp only [hItem, if_neg hLater, handed]
    | ready item => rcases item with _ | (e | chunk) <;> simp only [hItem]
  stopped n hReached hStop := by
    obtain ⟨hAlive, hStart⟩ := stateAt_start hReached
    have hStopped : stateAt (pollNext instantMax duration inner) clock {} (n + 1) = ⟨none, true, false, n + 1⟩ := by
      rw [stateAt, pollNext, if_neg (by rw [hAlive]; exact Bool.false_ne_true), hStart]
      cases hItem : inner n with
      | pending =>
        rw [hItem] at hStop
        cases hStop
      | ready item =>
        rcases item with _ | (e | chunk)
        · simp only [hItem]
        · simp only [hItem]
        · rw [hItem] at hStop
          cases hStop
    intro m hm
    rw [answerAt, stateAt_stopped hStopped m hm, pollNext, start, if_neg Bool.false_ne_true, if_pos rfl]
    cases hItem : inner m with
    | pending => simp only [hItem, handed]
    | ready item => rcases item with _ | (e | chunk) <;> simp only [hItem]

end WriteTimeoutStream

namespace NativeRequestBody
variable {created : Instant}

/-- While nothing has stopped the body, each of its polls has polled the producer once, and the timer runs. -/
theorem stateAt_start (h : Reached clock inner (nativeDeadline clock duration inner) n) :
    (stateAt (pollFrame instantMax inner) clock (new instantMax created (some duration)) n).done = false ∧
    (stateAt (pollFrame instantMax inner) clock (new instantMax created (some duration)) n).start instantMax (clock.start n) =
      ⟨some duration, nativeDeadline clock duration inner n, true, false, n⟩ := by
  induction n with
  | zero => exact ⟨rfl, rfl⟩
  | succ n ih =>
    obtain ⟨hAlive, hStart⟩ := ih h.pred
    obtain ⟨hGoes, hQuiet⟩ := h n (Nat.lt_succ_self n)
    have hNext : stateAt (pollFrame instantMax inner) clock (new instantMax created (some duration)) (n + 1) =
        ⟨some duration, nativeDeadline clock duration inner (n + 1), true, false, n + 1⟩ := by
      rw [stateAt, pollFrame, if_neg (by rw [hAlive]; exact Bool.false_ne_true), hStart]
      rcases goesOn_cases hGoes with hPending | ⟨chunk, hChunk⟩
      · have hLater : ¬ nativeDeadline clock duration inner n ≤ clock.later n := fun hLate => hQuiet ⟨hPending, hLate⟩
        have hSame : nativeDeadline clock duration inner (n + 1) = nativeDeadline clock duration inner n := by
          rw [nativeDeadline, armedAt, asked_succ_other (by rw [hPending]; rfl), nativeDeadline, armedAt]
        simp only [hPending, if_neg hLater, hSame]
      · have hArmed : nativeDeadline clock duration inner (n + 1) =
            saturatingTokioNowPlus instantMax (clock.later n) duration := by
          rw [nativeDeadline, armedAt, asked_succ_chunk (by rw [hChunk]; rfl), if_neg (Nat.succ_ne_zero n), Nat.add_sub_cancel]
        simp only [hChunk, hArmed]
    rw [hNext]
    exact ⟨rfl, rfl⟩

private theorem stateAt_done (h : (stateAt (pollFrame instantMax inner) clock (new instantMax created (some duration))
    (n + 1)).done = true) :
    ∀ m > n, stateAt (pollFrame instantMax inner) clock (new instantMax created (some duration)) m =
      stateAt (pollFrame instantMax inner) clock (new instantMax created (some duration)) (n + 1) := by
  intro m hm
  induction m, hm using Nat.le_induction with
  | base => rfl
  | succ m hm ih =>
    rw [stateAt, ih, pollFrame, if_pos h]

theorem answerAt_done (h : (stateAt (pollFrame instantMax inner) clock (new instantMax created (some duration)) (n + 1)).done =
    true) :
    ∀ m > n, answerAt (pollFrame instantMax inner) clock (new instantMax created (some duration)) m = .ready none ∧
      (stateAt (pollFrame instantMax inner) clock (new instantMax created (some duration)) (m + 1)).polls =
        (stateAt (pollFrame instantMax inner) clock (new instantMax created (some duration)) (n + 1)).polls := by
  intro m hm
  refine ⟨?_, congrArg polls (stateAt_done h (m + 1) (Nat.lt_succ_of_lt hm))⟩
  rw [answerAt, stateAt_done h m hm, pollFrame, if_pos h]

theorem wrapped (clock : Clock instantMax) (duration : Duration) (inner : Answers E C) (created : Instant) :
    Wrapped clock duration inner (nativeDeadline clock duration inner) (fun _ => .ready none)
      (answerAt (pollFrame instantMax inner) clock (new instantMax created (some duration)))
      (fun n => (stateAt (pollFrame instantMax inner) clock (new instantMax created (some duration)) n).polls) where
  expired n hReached hExpires := by
    obtain ⟨hAlive, hStart⟩ := @stateAt_start _ _ _ _ _ _ _ created hReached
    have hPoll : pollFrame instantMax inner (clock.start n) (clock.later n)
        (stateAt (pollFrame instantMax inner) clock (new instantMax created (some duration)) n) =
        (Body.writeTimeout duration, ⟨some duration, nativeDeadline clock duration inner n, true, true, n + 1⟩) := by
      rw [pollFrame, if_neg (by rw [hAlive]; exact Bool.false_ne_true), hStart]
      simp only [hExpires.1, if_pos hExpires.2]
    exact ⟨by rw [answerAt, hPoll], answerAt_done (by rw [stateAt, hPoll])⟩
  alive n hReached hQuiet := by
    obtain ⟨hAlive, hStart⟩ := @stateAt_start _ _ _ _ _ _ _ created hReached
    rw [answerAt, pollFrame, if_neg (by rw [hAlive]; exact Bool.false_ne_true), hStart]
    cases hItem : inner n with
    | pending =>
      have hLater : ¬ nativeDeadline clock duration inner n ≤ clock.later n := fun hLate => hQuiet ⟨hItem, hLate⟩
      simp only [hItem, if_neg hLater, handed]
    | ready item => rcases item with _ | (e | chunk) <;> simp only [hItem]
  stopped n hReached hStop := by
    obtain ⟨hAlive, hStart⟩ := @stateAt_start _ _ _ _ _ _ _ created hReached
    have hDone : (stateAt (pollFrame instantMax inner) clock (new instantMax created (some duration)) (n + 1)).done = true := by
      rw [stateAt, pollFrame, if_neg (by rw [hAlive]; exact Bool.false_ne_true), hStart]
      cases hItem : inner n with
      | pending =>
        rw [hItem] at hStop
        cases hStop
      | ready item =>
        rcases item with _ | (e | chunk)
        · simp only [hItem]
        · simp only [hItem]
        · rw [hItem] at hStop
          cases hStop
    exact fun m hm => (answerAt_done hDone m hm).1

end NativeRequestBody

theorem handed_ne_writeTimeout (item : Poll (Option (Except E C))) : handed item ≠ writeTimeout duration := by
  intro h
  rcases item with _ | (_ | (e | chunk)) <;> cases h

private theorem pending_since_asked (h : Reached clock inner deadline n) (hPending : inner n = .pending) :
    ∀ i, asked inner n ≤ i → i ≤ n → inner i = .pending := by
  induction n with
  | zero =>
    intro i _ hi
    rw [Nat.le_zero.mp hi]
    exact hPending
  | succ n ih =>
    intro i hAsked hi
    rcases Nat.le_succ_iff.mp hi with hi | rfl
    · rcases goesOn_cases (h n (Nat.lt_succ_self n)).1 with hBefore | ⟨chunk, hChunk⟩
      · rw [asked_succ_other (by rw [hBefore]; rfl)] at hAsked
        exact ih h.pred hBefore i hAsked hi
      · rw [asked_succ_chunk (by rw [hChunk]; rfl)] at hAsked
        omega
    · exact hPending

section
variable {rest answer : Nat → Poll (Option (Except (BodyError E) C))} {polls : Nat → Nat}

private theorem Wrapped.reached_of_timeout (h : Wrapped clock duration inner deadline rest answer polls)
    (hRest : ∀ m, rest m ≠ writeTimeout duration) (hTimeout : answer n = writeTimeout duration) :
    Reached clock inner deadline n ∧ Expires clock inner deadline n := by
  rcases reached_or clock inner deadline n with hReached | ⟨k, hk, hReached, hStop | hExpires⟩
  · refine ⟨hReached, ?_⟩
    by_contra hQuiet
    rw [h.alive n hReached hQuiet] at hTimeout
    exact handed_ne_writeTimeout _ hTimeout
  · rw [h.stopped k hReached hStop n hk] at hTimeout
    exact absurd hTimeout (hRest n)
  · rw [((h.expired k hReached hExpires).2 n hk).1] at hTimeout
    cases hTimeout

theorem Wrapped.writeTimed (h : Wrapped clock duration inner deadline rest answer polls)
    (hRest : ∀ m, rest m ≠ writeTimeout duration)
    (hPrompt : ∀ n, Reached clock inner deadline n → Expires clock inner deadline n →
      clock.start (asked inner n) + duration ≤ clock.later n)
    (hFused : ∀ n, Reached clock inner deadline n → (inner n).goesOn = false → ∀ m > n, rest m = handed (inner m)) :
    WriteTimed clock duration inner answer polls where
  justified n hTimeout := by
    obtain ⟨hReached, hExpires⟩ := h.reached_of_timeout hRest hTimeout
    exact ⟨pending_since_asked hReached hExpires.1, hPrompt n hReached hExpires⟩
  ended n hTimeout := by
    obtain ⟨hReached, hExpires⟩ := h.reached_of_timeout hRest hTimeout
    exact (h.expired n hReached hExpires).2
  unchanged n hNone := by
    rcases reached_or clock inner deadline n with hReached | ⟨k, hk, hReached, hStop | hExpires⟩
    · by_cases hExpires : Expires clock inner deadline n
      · exact absurd (h.expired n hReached hExpires).1 (hNone n (Nat.le_refl n))
      · exact h.alive n hReached hExpires
    · rw [h.stopped k hReached hStop n hk, hFused k hReached hStop n hk]
    · exact absurd (h.expired k hReached hExpires).1 (hNone k (Nat.le_of_lt hk))

end

private theorem years_mono {m n : Nat} (h : m ≤ n) : years m ≤ years n := Nat.mul_le_mul_right _ (Nat.mul_le_mul_left _ h)

private theorem saturating_le_sleep (instantMax now : Instant) (duration : Duration) :
    saturatingTokioNowPlus instantMax now duration ≤ sleep instantMax now duration := by
  have hYears : now + years 10 ≤ now + years 30 := Nat.add_le_add_left (years_mono (by decide)) now
  rw [saturatingTokioNowPlus, sleep]
  cases hFits : checkedAdd instantMax now duration with
  | some deadline => rw [Option.getD_some, Option.getD_some]
  | none =>
    rw [Option.getD_none, Option.getD_none, checkedAdd]
    split
    · rw [Option.getD_some]
      exact hYears
    · rw [Option.getD_none]
      exact Nat.le_add_right now _

private theorem nativeDeadline_le (n : Nat) : nativeDeadline clock duration inner n ≤ streamDeadline clock duration inner n := by
  rw [nativeDeadline, armedAt, streamDeadline]
  split
  · exact saturating_le_sleep _ _ _
  · exact Nat.le_refl _

private theorem streamDeadline_eq (h : clock.start (asked inner n) + duration ≤ clock.later n) :
    streamDeadline clock duration inner n = nativeDeadline clock duration inner n := by
  rw [nativeDeadline, armedAt, streamDeadline]
  split
  case isTrue hFirst =>
    rw [hFirst] at h
    have hFits : clock.start 0 + duration ≤ instantMax := h.trans (clock.bounded n)
    rw [sleep, saturatingTokioNowPlus, checkedAdd, if_pos hFits, Option.getD_some, Option.getD_some]
  · rfl

theorem Fair.expires_iff (hFair : Fair clock duration inner)
    (hReached : Reached clock inner (nativeDeadline clock duration inner) n) :
    Expires clock inner (streamDeadline clock duration inner) n ↔
    Expires clock inner (nativeDeadline clock duration inner) n := by
  constructor
  · rintro ⟨hPending, hLate⟩
    exact ⟨hPending, (nativeDeadline_le n).trans hLate⟩
  · intro hExpires
    have hSame := streamDeadline_eq (hFair.prompt n hReached hExpires)
    exact ⟨hExpires.1, hSame.trans_le hExpires.2⟩

theorem Fair.reached_iff (hFair : Fair clock duration inner) :
    Reached clock inner (streamDeadline clock duration inner) n ↔
    Reached clock inner (nativeDeadline clock duration inner) n := by
  induction n with
  | zero => exact ⟨fun _ i hi => absurd hi (Nat.not_lt_zero i), fun _ i hi => absurd hi (Nat.not_lt_zero i)⟩
  | succ n ih =>
    constructor
    · intro h i hi
      have hNative := ih.mp h.pred
      rcases Nat.lt_succ_iff_lt_or_eq.mp hi with hBefore | rfl
      · exact hNative i hBefore
      · exact ⟨(h i hi).1, mt (hFair.expires_iff hNative).mpr (h i hi).2⟩
    · intro h i hi
      rcases Nat.lt_succ_iff_lt_or_eq.mp hi with hBefore | rfl
      · exact ih.mpr h.pred i hBefore
      · exact ⟨(h i hi).1, mt (hFair.expires_iff h.pred).mp (h i hi).2⟩

/-- Both wrappers keep the promise and agree exactly when no timer goes off early and the producer is fused. -/
theorem writeTimed_iff (clock : Clock instantMax) (duration : Duration) (inner : Answers E C) (created : Instant) :
    (WriteTimed clock duration inner (answerAt (WriteTimeoutStream.pollNext instantMax duration inner) clock {})
        (fun n => (stateAt (WriteTimeoutStream.pollNext instantMax duration inner) clock {} n).polls) ∧
      WriteTimed clock duration inner
        (answerAt (NativeRequestBody.pollFrame instantMax inner) clock (.new instantMax created (some duration)))
        (fun n => (stateAt (NativeRequestBody.pollFrame instantMax inner) clock
          (.new instantMax created (some duration)) n).polls) ∧
      ∀ n, answerAt (WriteTimeoutStream.pollNext instantMax duration inner) clock {} n =
        answerAt (NativeRequestBody.pollFrame instantMax inner) clock (.new instantMax created (some duration)) n) ↔
    Fair clock duration inner := by
  have hStream := WriteTimeoutStream.wrapped clock duration inner
  have hNative := NativeRequestBody.wrapped clock duration inner created
  constructor
  · rintro ⟨-, hTimed, -⟩
    refine ⟨fun n hReached hExpires => (hTimed.justified n (hNative.expired n hReached hExpires).1).2, ?_⟩
    intro n hReached hStop m hm
    have hQuiet : ¬ Expires clock inner (nativeDeadline clock duration inner) n := by
      rintro ⟨hPending, -⟩
      rw [hPending] at hStop
      cases hStop
    have hNone : ∀ i ≤ m, answerAt (NativeRequestBody.pollFrame instantMax inner) clock
      (.new instantMax created (some duration)) i ≠
        writeTimeout duration := by
      intro i _ hTimeout
      rcases Nat.lt_trichotomy i n with hBefore | rfl | hAfter
      · rw [hNative.alive i (fun j hj => hReached j (hj.trans hBefore)) (hReached i hBefore).2] at hTimeout
        exact handed_ne_writeTimeout _ hTimeout
      · rw [hNative.alive i hReached hQuiet] at hTimeout
        exact handed_ne_writeTimeout _ hTimeout
      · rw [hNative.stopped n hReached hStop i hAfter] at hTimeout
        cases hTimeout
    have hSame := hTimed.unchanged m hNone
    rw [hNative.stopped n hReached hStop m hm] at hSame
    rcases hItem : inner m with _ | (_ | (e | chunk))
    · rw [hItem] at hSame
      cases hSame
    · rfl
    · rw [hItem] at hSame
      cases hSame
    · rw [hItem] at hSame
      cases hSame
  · intro hFair
    refine ⟨hStream.writeTimed (fun m => handed_ne_writeTimeout _) ?_ (fun _ _ _ _ _ => rfl),
      hNative.writeTimed (fun m h => by cases h) hFair.prompt ?_, ?_⟩
    · intro n hReached hExpires
      have hBoth := hFair.reached_iff.mp hReached
      exact hFair.prompt n hBoth ((hFair.expires_iff hBoth).mp hExpires)
    · intro n hReached hStop m hm
      rw [hFair.fused n hReached hStop m hm]
      rfl
    · intro n
      rcases reached_or clock inner (nativeDeadline clock duration inner) n with hReached | ⟨k, hk, hReached, hStop | hExpires⟩
      · have hBoth := hFair.reached_iff.mpr hReached
        by_cases hExpires : Expires clock inner (nativeDeadline clock duration inner) n
        · rw [(hNative.expired n hReached hExpires).1, (hStream.expired n hBoth ((hFair.expires_iff hReached).mpr hExpires)).1]
        · rw [hNative.alive n hReached hExpires, hStream.alive n hBoth (mt (hFair.expires_iff hReached).mp hExpires)]
      · have hBoth := hFair.reached_iff.mpr hReached
        rw [hNative.stopped k hReached hStop n hk, hStream.stopped k hBoth hStop n hk, hFair.fused k hReached hStop n hk]
        rfl
      · have hBoth := hFair.reached_iff.mpr hReached
        rw [((hNative.expired k hReached hExpires).2 n hk).1,
          ((hStream.expired k hBoth ((hFair.expires_iff hReached).mpr hExpires)).2 n hk).1]

end

def platformInstantMax : Instant := 9223372036854775808000000000

/-- A consumer that asks at 0, gets a chunk, and asks again at 10. -/
def slowConsumer : Clock platformInstantMax where
  start n := if n = 0 then 0 else 10
  later n := if n = 0 then 0 else 10
  start_le _ := Nat.le_refl _
  later_le n := by
    rw [if_neg (Nat.succ_ne_zero n)]
    split <;> decide
  bounded n := by split <;> decide

def oneChunk : Answers Empty Unit
  | 0 => .ready (some (.ok ()))
  | _ => .pending

/-- The producer of the second chunk has no time at all. -/
theorem not_writeTimed : ¬ ∀ (clock : Clock platformInstantMax) (duration : Duration) (inner : Answers Empty Unit),
    WriteTimed clock duration inner (answerAt (WriteTimeoutStream.pollNext platformInstantMax duration inner) clock {})
      (fun n => (stateAt (WriteTimeoutStream.pollNext platformInstantMax duration inner) clock {} n).polls) := by
  intro h
  have hTimeout : answerAt (WriteTimeoutStream.pollNext platformInstantMax 5 oneChunk) slowConsumer {} 1 = writeTimeout 5 := rfl
  have hLate := ((h slowConsumer 5 oneChunk).justified 1 hTimeout).2
  exact absurd hLate (by decide)

end Eggfetch.Body
