import Mathlib.Data.Nat.Find
import Mathlib.Order.WellFounded
import Eggfetch.Transition.Runs

/-! Infinite runs, and what weak fairness to some of the actions gives. -/
namespace Eggfetch.Transition
variable {S A C : Type*}

/-- An infinite run. At any time nothing may happen. -/
structure Trace (step : S → A → Option S) where
  state : Nat → S
  action : Nat → Option A
  idle : ∀ n, action n = none → state (n + 1) = state n
  acts : ∀ n a, action n = some a → step (state n) a = some (state (n + 1))

def Enabled (step : S → A → Option S) (mine : A → Prop) (s : S) : Prop :=
  ∃ a s', mine a ∧ step s a = some s'

variable {step : S → A → Option S} {mine : A → Prop}

namespace Trace

def Fair (trace : Trace step) (mine : A → Prop) : Prop :=
  ∀ n, (∀ m, n ≤ m → Enabled step mine (trace.state m)) →
    ∃ m a, n ≤ m ∧ trace.action m = some a ∧ mine a

theorem reachable (trace : Trace step) {init : S} (h : Reachable step init (trace.state 0)) (n : Nat) :
    Reachable step init (trace.state n) := by
  induction n with
  | zero => exact h
  | succ n ih =>
    cases hAction : trace.action n with
    | none => rw [trace.idle n hAction]; exact ih
    | some a => exact ih.step trivial (trace.acts n a hAction)

/-- What every step keeps holds from its first time on. -/
theorem always (trace : Trace step) {inv : S → Prop}
    (hStep : ∀ {s a s'}, inv s → step s a = some s' → inv s') {n m : Nat} (hLe : n ≤ m)
    (h : inv (trace.state n)) : inv (trace.state m) := by
  induction m, hLe using Nat.le_induction with
  | base => exact h
  | succ m _ ih =>
    cases hAction : trace.action m with
    | none => rw [trace.idle m hAction]; exact ih
    | some a => exact hStep ih (trace.acts m a hAction)

/-- A component that only some actions move, each of them downwards in a well-founded order,
comes to rest. -/
theorem rests (trace : Trace step) {below : C → C → Prop} (hWf : WellFounded below) (part : S → C)
    {inv : S → Prop} (hInv : ∀ {s a s'}, inv s → step s a = some s' → inv s')
    (hOther : ∀ {s a s'}, ¬ mine a → inv s → step s a = some s' → part s' = part s)
    (hMine : ∀ {s a s'}, mine a → inv s → step s a = some s' → below (part s') (part s))
    {n : Nat} (h : inv (trace.state n)) :
    ∃ m, n ≤ m ∧ ∀ k a, m ≤ k → trace.action k = some a → ¬ mine a := by
  suffices hAll : ∀ c n, inv (trace.state n) → part (trace.state n) = c →
      ∃ m, n ≤ m ∧ ∀ k a, m ≤ k → trace.action k = some a → ¬ mine a from hAll _ n h rfl
  intro c
  induction c using hWf.induction with
  | _ c ih =>
    intro n hStart hPart
    by_cases hQuiet : ∀ k a, n ≤ k → trace.action k = some a → ¬ mine a
    · exact ⟨n, le_refl n, hQuiet⟩
    · -- The first of these actions from `n` on moves the component below `c`.
      have hSome : ∃ k, n ≤ k ∧ ∃ a, trace.action k = some a ∧ mine a := by
        by_contra hNone
        exact hQuiet fun k a hk ha hm => hNone ⟨k, hk, a, ha, hm⟩
      classical
      obtain ⟨hLe, a, ha, hm⟩ := Nat.find_spec hSome
      have hSame : ∀ k, n ≤ k → k ≤ Nat.find hSome → part (trace.state k) = c := by
        intro k hk
        induction k, hk using Nat.le_induction with
        | base => intro _; exact hPart
        | succ k hk ihk =>
          intro hBefore
          have hEarlier := ihk (Nat.le_of_succ_le hBefore)
          cases hAction : trace.action k with
          | none => rw [trace.idle k hAction]; exact hEarlier
          | some b =>
            have hNot : ¬ mine b := fun hb =>
              Nat.find_min hSome hBefore ⟨hk, b, hAction, hb⟩
            rw [hOther hNot (trace.always hInv hk hStart) (trace.acts k b hAction), hEarlier]
      have hAt := trace.always hInv hLe hStart
      have hBelow := hMine hm hAt (trace.acts _ a ha)
      rw [hSame _ hLe (le_refl _)] at hBelow
      have hNext := hInv hAt (trace.acts _ a ha)
      obtain ⟨m, hm, hRest⟩ := ih _ hBelow _ hNext rfl
      exact ⟨m, Nat.le_trans hLe (Nat.le_of_succ_le hm), hRest⟩

/-- Fair actions that are taken finitely often are not enabled for ever. -/
theorem Fair.disabled {trace : Trace step} (hFair : trace.Fair mine) {n : Nat}
    (hRest : ∀ k a, n ≤ k → trace.action k = some a → ¬ mine a) :
    ∃ m, n ≤ m ∧ ¬ Enabled step mine (trace.state m) := by
  by_contra hNone
  have hAll : ∀ m, n ≤ m → Enabled step mine (trace.state m) := by
    intro m hm
    by_contra hNot
    exact hNone ⟨m, hm, hNot⟩
  obtain ⟨m, a, hm, ha, hMine⟩ := hFair n hAll
  exact hRest m a hm ha hMine

def once {s s' : S} {a : A} (h : step s a = some s') : Trace step where
  state n := if n = 0 then s else s'
  action n := if n = 0 then some a else none
  idle n hNone := by
    by_cases hn : n = 0
    · simp [hn] at hNone
    · simp [hn]
  acts n b hSome := by
    by_cases hn : n = 0
    · obtain rfl : a = b := by simpa [hn] using hSome
      simpa [hn] using h
    · simp [hn] at hSome

@[simp] theorem once_start {s s' : S} {a : A} (h : step s a = some s') : (once h).state 0 = s := rfl

theorem once_later {s s' : S} {a : A} (h : step s a = some s') {n : Nat} (hn : n ≠ 0) :
    (once h).state n = s' := if_neg hn

/-- Nothing is unfair that cannot go on after the step. -/
theorem once_fair {s s' : S} {a : A} (h : step s a = some s') (hStopped : ¬ Enabled step mine s') :
    (once h).Fair mine := by
  intro n hEnabled
  have hNext := hEnabled (n + 1) (Nat.le_succ n)
  rw [once_later h (Nat.succ_ne_zero n)] at hNext
  exact absurd hNext hStopped

end Trace
end Eggfetch.Transition
