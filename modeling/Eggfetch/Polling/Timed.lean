import Eggfetch.Polling.Source
import Mathlib.Order.Monotone.Basic

/-! Futures polled at the instants of a clock, with timeouts around them. -/
namespace Eggfetch.Polling

/-- A poll is told the instant and how many polls came before; it ends with a result or goes on. -/
structure Future (R : Type) where
  State : Type
  init : State
  poll : Nat → Nat → State → R ⊕ State

namespace Future
variable {R : Type} (t : Future R) (clock : Nat → Nat)

/-- The state after `n` polls; `none` when one of them has ended the task. -/
def after : Nat → Option t.State
  | 0 => some t.init
  | n + 1 => (after n).bind fun s => (t.poll (clock n) n s).getRight?

/-- One of the polls up to the `n`-th has ended the task. -/
def Over (n : Nat) : Prop := t.after clock (n + 1) = none

/-- The `n`-th poll ends the task. -/
def EndsAt (n : Nat) (r : R) : Prop := ∃ s, t.after clock n = some s ∧ t.poll (clock n) n s = .inl r

/-- `tokio::time::timeout`: the task is polled first, the timer only when it goes on. -/
def timeout (limit : Option Nat) (expired : R) : Future R where
  State := Option Nat × t.State
  init := (none, t.init)
  poll now n s :=
    let started := s.1.getD now
    match t.poll now n s.2 with
    | .inl r => .inl r
    | .inr next => if limit.any (started + · ≤ now) then .inl expired else .inr (some started, next)

variable {t clock} {n : Nat} {r : R}

theorem after_succ {s : t.State} (h : t.after clock (n + 1) = some s) :
    ∃ before, t.after clock n = some before ∧ t.poll (clock n) n before = .inr s := by
  obtain ⟨before, hBefore, hPoll⟩ := Option.bind_eq_some_iff.mp h
  exact ⟨before, hBefore, Sum.getRight?_eq_some_iff.mp hPoll⟩

/-- What each poll keeps holds whenever the task goes on. -/
theorem invariant {P : Nat → t.State → Prop} (hInit : P 0 t.init)
    (hPoll : ∀ n s next, P n s → t.poll (clock n) n s = .inr next → P (n + 1) next) :
    ∀ n s, t.after clock n = some s → P n s := by
  intro n
  induction n with
  | zero =>
    intro s h
    obtain rfl := Option.some.inj h
    exact hInit
  | succ n ih =>
    intro s h
    obtain ⟨before, hBefore, hNext⟩ := after_succ h
    exact hPoll n before s (ih before hBefore) hNext

/-- A task whose polls from some state on do not go on is over. -/
theorem over_of_ends (h : ∀ s, t.after clock n = some s → ∀ next, t.poll (clock n) n s ≠ .inr next) :
    t.Over clock n := by
  rw [Over, after, Option.bind_eq_none_iff]
  intro s hs
  rw [Sum.getRight?_eq_none_iff, Sum.isLeft_iff]
  cases hPoll : t.poll (clock n) n s with
  | inl r => exact ⟨r, rfl⟩
  | inr next => exact absurd hPoll (h s hs next)

/-- A task that is over by the `n`-th poll and not before ends with it. -/
theorem exists_endsAt (hAfter : t.after clock n ≠ none) (hOver : t.Over clock n) : ∃ r, t.EndsAt clock n r := by
  obtain ⟨s, hs⟩ := Option.ne_none_iff_exists'.mp hAfter
  rw [Over, after, hs, Option.bind_some, Sum.getRight?_eq_none_iff, Sum.isLeft_iff] at hOver
  obtain ⟨r, hPoll⟩ := hOver
  exact ⟨r, s, hs, hPoll⟩

section timeout
variable {limit : Option Nat} {expired : R}

theorem timeout_inr {now : Nat} {s next : Option Nat × t.State} (h : (t.timeout limit expired).poll now n s = .inr next) :
    t.poll now n s.2 = .inr next.2 ∧ next.1 = some (s.1.getD now) ∧ limit.any (s.1.getD now + · ≤ now) = false := by
  simp only [timeout] at h
  cases hPoll : t.poll now n s.2 with
  | inl r =>
    rw [hPoll] at h
    cases h
  | inr inner =>
    rw [hPoll] at h
    simp only at h
    split_ifs at h with hLimit
    obtain rfl := Sum.inr.inj h
    exact ⟨rfl, rfl, by simpa using hLimit⟩

/-- The timer runs from the first poll, and the task inside goes on with the timeout. -/
theorem timeout_after {s : Option Nat × t.State} (h : (t.timeout limit expired).after clock n = some s) :
    t.after clock n = some s.2 ∧ s.1.getD (clock n) = clock 0 := by
  suffices hAll : t.after clock n = some s.2 ∧ (n = 0 ∧ s.1 = none ∨ s.1 = some (clock 0)) by
    obtain ⟨hAfter, ⟨rfl, hNone⟩ | hStart⟩ := hAll
    · rw [hNone]
      exact ⟨hAfter, rfl⟩
    · rw [hStart]
      exact ⟨hAfter, rfl⟩
  induction n generalizing s with
  | zero =>
    obtain rfl := Option.some.inj h
    exact ⟨rfl, .inl ⟨rfl, rfl⟩⟩
  | succ n ih =>
    obtain ⟨before, hBefore, hPoll⟩ := after_succ h
    obtain ⟨hInner, hStarted, _⟩ := timeout_inr hPoll
    obtain ⟨hAfter, hFirst⟩ := ih hBefore
    refine ⟨?_, .inr ?_⟩
    · rw [after, hAfter, Option.bind_some, hInner]
      rfl
    · obtain ⟨rfl, hNone⟩ | hFirst := hFirst
      · rw [hStarted, hNone]
        rfl
      · rw [hStarted, hFirst]
        rfl

/-- Every poll at or after the limit ends the task. -/
theorem timeout_over {d : Nat} (hLimit : limit = some d) (h : clock 0 + d ≤ clock n) :
    (t.timeout limit expired).Over clock n := by
  apply over_of_ends
  intro s hs next hPoll
  obtain ⟨_, _, hNot⟩ := timeout_inr hPoll
  rw [(timeout_after hs).2, hLimit] at hNot
  simp only [Option.any_some, decide_eq_false_iff_not] at hNot
  exact hNot h

theorem timeout_endsAt (h : (t.timeout limit expired).EndsAt clock n r) :
    t.EndsAt clock n r ∨ r = expired ∧ ∃ d ∈ limit, clock 0 + d ≤ clock n := by
  obtain ⟨s, hs, hPoll⟩ := h
  obtain ⟨hAfter, hStarted⟩ := timeout_after hs
  simp only [timeout] at hPoll
  cases hInner : t.poll (clock n) n s.2 with
  | inl result =>
    rw [hInner] at hPoll
    obtain rfl := Sum.inl.inj hPoll
    exact .inl ⟨s.2, hAfter, hInner⟩
  | inr next =>
    rw [hInner] at hPoll
    simp only at hPoll
    split_ifs at hPoll with hLimit
    obtain rfl := Sum.inl.inj hPoll
    rw [hStarted] at hLimit
    cases limit with
    | none => cases hLimit
    | some d => exact .inr ⟨rfl, d, rfl, by simpa using hLimit⟩

/-- As long as neither the task nor the timer has ended, the timeout goes on. -/
theorem timeout_after_ne_none (expired : R) (hInner : t.after clock n ≠ none) (h : ∀ d ∈ limit, ∀ m < n, clock m < clock 0 + d) :
    (t.timeout limit expired).after clock n ≠ none := by
  induction n with
  | zero => simp [after]
  | succ n ih =>
    obtain ⟨next, hNext⟩ := Option.ne_none_iff_exists'.mp hInner
    obtain ⟨before, hBefore, hPoll⟩ := after_succ hNext
    obtain ⟨s, hs⟩ := Option.ne_none_iff_exists'.mp
      (ih (by rw [hBefore]; exact Option.some_ne_none _) fun d hd m hm => h d hd m (hm.trans (Nat.lt_succ_self n)))
    obtain ⟨hAfter, hStarted⟩ := timeout_after hs
    obtain rfl : before = s.2 := Option.some.inj (hBefore.symm.trans hAfter)
    have hLimit : limit.any (clock 0 + · ≤ clock n) = false := by
      cases limit with
      | none => rfl
      | some d => simpa using h d rfl n (Nat.lt_succ_self n)
    have hGoesOn : (t.timeout limit expired).poll (clock n) n s = .inr (some (clock 0), next) := by
      simp [timeout, hPoll, hStarted, hLimit]
    rw [after, hs, Option.bind_some, hGoesOn]
    exact Option.some_ne_none _

/-- A task that ends before the timer does ends the timeout. -/
theorem timeout_endsAt_of_endsAt (hEnds : t.EndsAt clock n r) (h : ∀ d ∈ limit, ∀ m < n, clock m < clock 0 + d) :
    (t.timeout limit expired).EndsAt clock n r := by
  obtain ⟨inner, hInner, hPoll⟩ := hEnds
  obtain ⟨s, hs⟩ := Option.ne_none_iff_exists'.mp
    (timeout_after_ne_none expired (by rw [hInner]; exact Option.some_ne_none _) h)
  obtain rfl : inner = s.2 := Option.some.inj (hInner.symm.trans (timeout_after hs).1)
  refine ⟨s, hs, ?_⟩
  simp [timeout, hPoll]

theorem after_of_never (hNever : ∀ m r, ¬t.EndsAt clock m r) : ∀ n, t.after clock n ≠ none := by
  intro n
  induction n with
  | zero => simp [after]
  | succ n ih =>
    intro hOver
    obtain ⟨r, hEnds⟩ := exists_endsAt ih hOver
    exact hNever n r hEnds

/-- Around a task that never ends by itself the timer alone decides. -/
theorem timeout_after_of_never (expired : R) (hNever : ∀ m r, ¬t.EndsAt clock m r)
    (h : ∀ d ∈ limit, ∀ m < n, clock m < clock 0 + d) : (t.timeout limit expired).after clock n ≠ none :=
  timeout_after_ne_none expired (after_of_never hNever n) h

theorem timeout_ends_of_never {d : Nat} (hNever : ∀ m r, ¬t.EndsAt clock m r) (hLimit : limit = some d)
    (h : ∀ m < n, clock m < clock 0 + d) (hn : clock 0 + d ≤ clock n) :
    (t.timeout limit expired).EndsAt clock n expired := by
  have hBefore : ∀ x ∈ limit, ∀ m < n, clock m < clock 0 + x := by
    intro x hx
    rw [hLimit] at hx
    obtain rfl := Option.some.inj hx
    exact h
  obtain ⟨s, hs⟩ := Option.ne_none_iff_exists'.mp (timeout_after_of_never expired hNever hBefore)
  obtain ⟨hAfter, hStarted⟩ := timeout_after hs
  refine ⟨s, hs, ?_⟩
  cases hInner : t.poll (clock n) n s.2 with
  | inl r => exact absurd ⟨s.2, hAfter, hInner⟩ (hNever n r)
  | inr next => simp [timeout, hInner, hStarted, hLimit, hn]

end timeout

/-- When the stage runs out of time, by the instant it begins; what that results in; what its
polls are answered. -/
structure Stage (R : Type) where
  expiry : Nat → Except R (Option Nat)
  expired : R
  answer : Nat → Poll (Except R Unit)

/-- A stage that is done hands over to the next one in the same poll. -/
def pollStages (done : R) (now n : Nat) : List (Stage R) → Option (Option Nat) → R ⊕ (List (Stage R) × Option (Option Nat))
  | [], _ => .inl done
  | stage :: rest, begun =>
    match begun.elim (stage.expiry now) Except.ok with
    | .error r => .inl r
    | .ok expiry =>
      match stage.answer n with
      | .ready (.ok ()) => pollStages done now n rest none
      | .ready (.error r) => .inl r
      | .pending => if expiry.any (· ≤ now) then .inl stage.expired else .inr (stage :: rest, some expiry)

def stages (done : R) (all : List (Stage R)) : Future R where
  State := List (Stage R) × Option (Option Nat)
  init := (all, none)
  poll now n s := pollStages done now n s.1 s.2

/-- The stage gives a result only at instants at which it is allowed. -/
structure Stage.Keeps (A : R → Nat → Prop) (start : Nat) (stage : Stage R) : Prop where
  answer : ∀ n r, stage.answer n = .ready (.error r) → ∀ now, A r now
  refused : ∀ began r, stage.expiry began = .error r → A r began
  expired : ∀ began ≥ start, ∀ x, stage.expiry began = .ok (some x) → ∀ now ≥ x, A stage.expired now

section stages
variable {done : R} {A : R → Nat → Prop} {start : Nat}

/-- The first stage may still run out of time when it is allowed to. -/
structure Staged (A : R → Nat → Prop) (start : Nat) (s : List (Stage R) × Option (Option Nat)) : Prop where
  keeps : ∀ stage ∈ s.1, stage.Keeps A start
  begun : ∀ stage ∈ s.1.head?, ∀ x, s.2 = some (some x) → ∀ now ≥ x, A stage.expired now

theorem pollStages_keeps {now n : Nat} {all : List (Stage R)} {begun : Option (Option Nat)} (hDone : A done now)
    (hNow : start ≤ now) (h : Staged A start (all, begun)) :
    (∀ r, pollStages done now n all begun = .inl r → A r now) ∧
    ∀ s, pollStages done now n all begun = .inr s → Staged A start s := by
  induction all generalizing begun with
  | nil =>
    refine ⟨?_, ?_⟩
    · intro r hr
      obtain rfl := Sum.inl.inj hr
      exact hDone
    · intro s hs
      cases hs
  | cons stage rest ih =>
    have hStage := h.keeps stage List.mem_cons_self
    have hRest : Staged A start (rest, none) :=
      ⟨fun other hOther => h.keeps other (List.mem_cons_of_mem _ hOther), by simp⟩
    rw [pollStages]
    cases hExpiry : begun.elim (stage.expiry now) Except.ok with
    | error r =>
      cases begun with
      | none =>
        refine ⟨?_, by simp⟩
        intro r' hr
        obtain rfl := Sum.inl.inj hr
        exact hStage.refused now r hExpiry
      | some expiry => cases hExpiry
    | ok expiry =>
      have hExpired : ∀ x, expiry = some x → ∀ later ≥ x, A stage.expired later := by
        intro x hx
        cases begun with
        | none => exact hStage.expired now hNow x (by rw [← hx]; exact hExpiry)
        | some l =>
          obtain rfl := Except.ok.inj hExpiry
          exact h.begun stage rfl x (by rw [hx])
      cases hAnswer : stage.answer n with
      | pending =>
        simp only
        split_ifs with hElapsed
        · refine ⟨?_, by simp⟩
          intro r hr
          obtain rfl := Sum.inl.inj hr
          cases expiry with
          | none => cases hElapsed
          | some x => exact hExpired x rfl now (by simpa using hElapsed)
        · refine ⟨by simp, ?_⟩
          intro s hs
          obtain rfl := Sum.inr.inj hs
          refine ⟨h.keeps, ?_⟩
          intro first hFirst x hx
          obtain rfl := Option.some.inj hFirst
          exact hExpired x (Option.some.inj hx)
      | ready answer =>
        cases answer with
        | ok =>
          exact ih hRest
        | error r =>
          refine ⟨?_, by simp⟩
          intro r' hr
          obtain rfl := Sum.inl.inj hr
          exact hStage.answer n r hAnswer now

theorem stages_endsAt {all : List (Stage R)} (hClock : Monotone clock) (hDone : ∀ now, A done now)
    (h : ∀ stage ∈ all, stage.Keeps A (clock 0)) (hEnds : (stages done all).EndsAt clock n r) : A r (clock n) := by
  obtain ⟨s, hs, hPoll⟩ := hEnds
  have hStaged : Staged A (clock 0) s := by
    refine invariant (P := fun _ => Staged A (clock 0)) ⟨h, by simp [stages]⟩ ?_ n s hs
    intro n s next hStaged hNext
    exact (pollStages_keeps (hDone _) (hClock (Nat.zero_le n)) hStaged).2 next hNext
  exact (pollStages_keeps (hDone _) (hClock (Nat.zero_le n)) hStaged).1 r hPoll

theorem pollStages_ready {stage : Stage R} {rest : List (Stage R)} {now n : Nat} {expiry : Option Nat}
    (hExpiry : stage.expiry now = .ok expiry) (hAnswer : stage.answer n = .ready (.ok ())) :
    pollStages done now n (stage :: rest) none = pollStages done now n rest none := by
  simp only [pollStages, Option.elim_none, hExpiry, hAnswer]

/-- A stage that has no limit and is never answered is never left. -/
theorem not_endsAt_stages {stage : Stage R} {rest : List (Stage R)} (hAnswer : ∀ n, stage.answer n = .pending)
    (hExpiry : ∀ began, stage.expiry began = .ok none) (n : Nat) (r : R) : ¬(stages done (stage :: rest)).EndsAt clock n r := by
  have hPoll : ∀ now n begun, begun = none ∨ begun = some none →
      pollStages done now n (stage :: rest) begun = .inr (stage :: rest, some none) := by
    intro now n begun hBegun
    obtain rfl | rfl := hBegun
    · simp [pollStages, hExpiry, hAnswer]
    · simp [pollStages, hAnswer]
  rintro ⟨s, hs, hEnds⟩
  have hState : s.1 = stage :: rest ∧ (s.2 = none ∨ s.2 = some none) := by
    refine invariant (t := stages done (stage :: rest))
      (P := fun _ s => s.1 = stage :: rest ∧ (s.2 = none ∨ s.2 = some none)) ⟨rfl, .inl rfl⟩ ?_ n s hs
    rintro n ⟨all, begun⟩ next ⟨rfl, hBegun⟩ hNext
    have hStay := hNext.symm.trans (hPoll (clock n) n begun hBegun)
    rw [Sum.inr.inj hStay]
    exact ⟨rfl, .inr rfl⟩
  obtain ⟨all, begun⟩ := s
  obtain ⟨rfl, hBegun⟩ := hState
  have hStay := hEnds.symm.trans (hPoll (clock n) n begun hBegun)
  cases hStay

section expires
variable {stage : Stage R} {all rest : List (Stage R)} {x : Nat}

/-- The first poll gets to a stage that is never answered. -/
structure Stuck (done : R) (clock : Nat → Nat) (all : List (Stage R)) (stage : Stage R) (rest : List (Stage R)) (x : Nat) :
    Prop where
  passed : pollStages done (clock 0) 0 all none = pollStages done (clock 0) 0 (stage :: rest) none
  answer : ∀ n, stage.answer n = .pending
  expiry : stage.expiry (clock 0) = .ok (some x)

variable (h : Stuck done clock all stage rest x)
include h

theorem Stuck.poll {s : List (Stage R) × Option (Option Nat)}
    (hState : n = 0 ∧ s = (all, none) ∨ s = (stage :: rest, some (some x))) :
    (stages done all).poll (clock n) n s = if x ≤ clock n then .inl stage.expired else .inr (stage :: rest, some (some x)) := by
  obtain ⟨rfl, rfl⟩ | rfl := hState
  · change pollStages done (clock 0) 0 all none = _
    rw [h.passed]
    simp only [pollStages, Option.elim_none, h.answer, h.expiry, Option.any_some, decide_eq_true_eq]
    rfl
  · change pollStages done (clock n) n (stage :: rest) (some (some x)) = _
    simp only [pollStages, Option.elim_some, h.answer, Option.any_some, decide_eq_true_eq]
    rfl

theorem Stuck.state {s : List (Stage R) × Option (Option Nat)} (hs : (stages done all).after clock n = some s) :
    n = 0 ∧ s = (all, none) ∨ s = (stage :: rest, some (some x)) := by
  refine invariant (t := stages done all)
    (P := fun n s => n = 0 ∧ s = (all, none) ∨ s = (stage :: rest, some (some x))) (.inl ⟨rfl, rfl⟩) ?_ n s hs
  intro n s next hState hPoll
  rw [h.poll hState] at hPoll
  split_ifs at hPoll
  exact .inr (Sum.inr.inj hPoll).symm

/-- Only its own limit ends it. -/
theorem Stuck.eq_expired (hEnds : (stages done all).EndsAt clock n r) : r = stage.expired := by
  obtain ⟨s, hs, hPoll⟩ := hEnds
  rw [h.poll (h.state hs)] at hPoll
  split_ifs at hPoll
  exact (Sum.inl.inj hPoll).symm

theorem Stuck.endsAt (hBefore : ∀ m < n, clock m < x) (hElapsed : x ≤ clock n) :
    (stages done all).EndsAt clock n stage.expired := by
  have hAfter : ∀ m ≤ n, (stages done all).after clock m ≠ none := by
    intro m
    induction m with
    | zero => simp [after]
    | succ m ih =>
      intro hm
      obtain ⟨s, hs⟩ := Option.ne_none_iff_exists'.mp (ih (by omega))
      rw [after, hs, Option.bind_some, h.poll (h.state hs), if_neg (not_le.mpr (hBefore m hm))]
      exact Option.some_ne_none _
  obtain ⟨s, hs⟩ := Option.ne_none_iff_exists'.mp (hAfter n le_rfl)
  refine ⟨s, hs, ?_⟩
  rw [h.poll (h.state hs), if_pos hElapsed]

end expires
end stages
end Future
end Eggfetch.Polling
