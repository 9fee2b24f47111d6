import Mathlib.Algebra.Order.Ring.Nat

/-! Finite runs of partial labelled transitions. A machine is a partial step
function; an action label resolves every nondeterministic choice. -/
namespace Eggfetch.Transition
variable {S A : Type*}

/-- Execute a list of actions; `none` when one of them is not enabled. -/
def run (step : S → A → Option S) : S → List A → Option S
  | s, [] => some s
  | s, a :: rest => (step s a).bind fun s' => run step s' rest

/-- States reached from `init` by steps that each meet `ok` in the state before. -/
inductive Reaches (step : S → A → Option S) (ok : S → A → Prop) (init : S) : S → Prop
  | start : Reaches step ok init init
  | step {s s' : S} {a : A} : Reaches step ok init s → ok s a → step s a = some s' →
      Reaches step ok init s'

abbrev Reachable (step : S → A → Option S) (init : S) : S → Prop :=
  Reaches step (fun _ _ => True) init

variable {step : S → A → Option S} {ok : S → A → Prop} {init s s' : S}

/-- An inductive invariant holds in every state reached under the condition. -/
theorem Reaches.invariant {inv : S → Prop} (h : Reaches step ok init s) (hinit : inv init)
    (hstep : ∀ {s a s'}, Reaches step ok init s → inv s → ok s a → step s a = some s' → inv s') :
    inv s := by
  induction h with
  | start => exact hinit
  | step hr hok hs ih => exact hstep hr ih hok hs

theorem Reaches.mono {ok' : S → A → Prop} (h : Reaches step ok init s)
    (himp : ∀ s a, ok s a → ok' s a) : Reaches step ok' init s := by
  induction h with
  | start => exact .start
  | step _ hok hs ih => exact .step ih (himp _ _ hok) hs

theorem Reaches.reachable (h : Reaches step ok init s) : Reachable step init s :=
  h.mono fun _ _ _ => trivial

theorem Reaches.trans {u : S} (h : Reaches step ok init s) (hNext : Reaches step ok s u) :
    Reaches step ok init u := by
  induction hNext with
  | start => exact h
  | step _ hok hs ih => exact ih.step hok hs

/-- Steps that keep an invariant and bring a measure down end in a goal. -/
theorem exists_reaches_of_measure {inv goal : S → Prop} (measure : S → Nat)
    (hDown : ∀ {s}, inv s → ¬ goal s → ∃ a s', ok s a ∧ step s a = some s' ∧ inv s' ∧
      measure s' < measure s) (h : inv s) : ∃ s', Reaches step ok s s' ∧ inv s' ∧ goal s' := by
  induction hn : measure s using Nat.strong_induction_on generalizing s with
  | _ n ih =>
    by_cases hGoal : goal s
    · exact ⟨s, .start, h, hGoal⟩
    · obtain ⟨a, t, hok, hs, hInv, hLess⟩ := hDown h hGoal
      rw [hn] at hLess
      obtain ⟨s', hReach, hEnd⟩ := ih _ hLess hInv rfl
      exact ⟨s', (Reaches.start.step hok hs).trans hReach, hEnd⟩

@[simp] theorem run_nil : run step s [] = some s := rfl

theorem run_cons (a : A) (rest : List A) :
    run step s (a :: rest) = (step s a).bind fun s' => run step s' rest := rfl

theorem run_append (xs ys : List A) :
    run step s (xs ++ ys) = (run step s xs).bind fun s' => run step s' ys := by
  induction xs generalizing s with
  | nil => rfl
  | cons a xs ih =>
    simp only [List.cons_append, run_cons]
    cases hs : step s a with
    | none => rfl
    | some s' => simpa using ih

/-- Every state of a run is reached. -/
theorem Reaches.run {acts : List A} (h : Reachable step init s)
    (hr : run step s acts = some s') : Reachable step init s' := by
  induction acts generalizing s with
  | nil =>
    obtain rfl : s = s' := by simpa using hr
    exact h
  | cons a rest ih =>
    rw [run_cons] at hr
    obtain ⟨t, ht, hrest⟩ := Option.bind_eq_some_iff.mp hr
    exact ih (h.step trivial ht) hrest

/-- The actions can be executed from `s`, and every step of that run meets `P`. -/
def Along (step : S → A → Option S) (P : S → A → S → Prop) : S → List A → Prop
  | _, [] => True
  | s, a :: rest => ∃ s', step s a = some s' ∧ P s a s' ∧ Along step P s' rest

theorem along_cons {P : S → A → S → Prop} {a : A} {rest : List A} :
    Along step P s (a :: rest) ↔ ∃ s', step s a = some s' ∧ P s a s' ∧ Along step P s' rest := Iff.rfl

/-- A run whose steps all meet the condition reaches its end under it. -/
theorem Reaches.along {acts : List A} (h : Reaches step ok init s)
    (hAlong : Along step (fun s a _ => ok s a) s acts) (hr : Transition.run step s acts = some s') :
    Reaches step ok init s' := by
  induction acts generalizing s with
  | nil =>
    obtain rfl : s = s' := by simpa using hr
    exact h
  | cons a rest ih =>
    obtain ⟨t, ht, hok, hrest⟩ := hAlong
    rw [run_cons, ht, Option.bind_some] at hr
    exact ih (h.step hok ht) hrest hr

theorem Along.mono {P Q : S → A → S → Prop} {acts : List A} (h : Along step P s acts)
    (himp : ∀ s a s', P s a s' → Q s a s') : Along step Q s acts := by
  induction acts generalizing s with
  | nil => trivial
  | cons a rest ih =>
    obtain ⟨s', hs, hP, hrest⟩ := h
    exact ⟨s', hs, himp s a s' hP, ih hrest⟩

theorem Along.of_append {P : S → A → S → Prop} {xs ys : List A} (h : Along step P s (xs ++ ys))
    (hr : run step s xs = some s') : Along step P s' ys := by
  induction xs generalizing s with
  | nil =>
    obtain rfl : s = s' := by simpa using hr
    exact h
  | cons a xs ih =>
    obtain ⟨t, ht, -, hrest⟩ := h
    rw [run_cons, ht, Option.bind_some] at hr
    exact ih hrest hr

/-- What the start has and every step keeps, the end of a run has. -/
theorem Along.invariant (inv : S → Prop) {P : S → A → S → Prop} {acts : List A} (h : Along step P s acts)
    (hr : run step s acts = some s') (hinit : inv s)
    (hstep : ∀ {s a s'}, inv s → P s a s' → step s a = some s' → inv s') : inv s' := by
  induction acts generalizing s with
  | nil =>
    obtain rfl : s = s' := by simpa using hr
    exact hinit
  | cons a rest ih =>
    obtain ⟨t, ht, hP, hrest⟩ := h
    rw [run_cons, ht, Option.bind_some] at hr
    exact ih hrest hr (hstep hinit hP ht)

theorem run_invariant (inv : S → Prop) {acts : List A} (hr : run step s acts = some s') (hinit : inv s)
    (hstep : ∀ {s a s'}, inv s → step s a = some s' → inv s') : inv s' := by
  induction acts generalizing s with
  | nil =>
    obtain rfl : s = s' := by simpa using hr
    exact hinit
  | cons a rest ih =>
    rw [run_cons] at hr
    obtain ⟨t, ht, hrest⟩ := Option.bind_eq_some_iff.mp hr
    exact ih hrest (hstep hinit ht)

/-- A run whose steps do not all meet a condition has a step that does not. -/
theorem exists_of_not_along {P : S → A → S → Prop} {acts : List A} (h : ¬ Along step P s acts)
    (hr : run step s acts = some s') : ∃ xs a ys t t', run step s xs = some t ∧ step t a = some t' ∧ ¬ P t a t' ∧
      run step t' ys = some s' := by
  induction acts generalizing s with
  | nil => exact absurd trivial h
  | cons a rest ih =>
    rw [run_cons] at hr
    obtain ⟨t, ht, hrest⟩ := Option.bind_eq_some_iff.mp hr
    by_cases hP : P s a t
    · have hNot : ¬ Along step P t rest := fun hAlong => h ⟨t, ht, hP, hAlong⟩
      obtain ⟨xs, b, ys, u, u', hxs, hb, hPb, hys⟩ := ih hNot hrest
      exact ⟨a :: xs, b, ys, u, u', by rw [run_cons, ht, Option.bind_some, hxs], hb, hPb, hys⟩
    · exact ⟨[], a, rest, s, t, rfl, ht, hP, hrest⟩

/-- Conditions on steps that agree wherever an invariant holds agree along runs. -/
theorem along_congr {P Q : S → A → S → Prop} (inv : S → Prop) {on : A → Prop} {acts : List A}
    (hinit : inv s) (hacts : ∀ a ∈ acts, on a)
    (hinv : ∀ {s a s'}, inv s → on a → step s a = some s' → inv s')
    (hiff : ∀ {s a s'}, inv s → on a → step s a = some s' → (P s a s' ↔ Q s a s')) :
    Along step P s acts ↔ Along step Q s acts := by
  induction acts generalizing s with
  | nil => exact Iff.rfl
  | cons a rest ih =>
    refine exists_congr fun s' => and_congr_right fun hs => ?_
    have ha := hacts a List.mem_cons_self
    exact and_congr (hiff hinit ha hs)
      (ih (hinv hinit ha hs) fun b hb => hacts b (List.mem_cons_of_mem a hb))

/-- Where a condition says of each step whether the next state is good, it says so of each run. -/
theorem along_iff_of_good {P : S → A → S → Prop} (good : S → Prop) {acts : List A} (hGood : good s)
    (hNext : ∀ {s a s'}, good s → step s a = some s' → P s a s' → good s')
    (hStep : ∀ {s a s'}, good s → step s a = some s' → (P s a s' ↔ ok s a)) :
    Along step P s acts ↔ Along step (fun s a _ => ok s a) s acts := by
  induction acts generalizing s with
  | nil => exact Iff.rfl
  | cons a rest ih =>
    refine exists_congr fun s' => and_congr_right fun hs => ?_
    constructor
    · rintro ⟨hP, hRest⟩
      exact ⟨(hStep hGood hs).mp hP, (ih (hNext hGood hs hP)).mp hRest⟩
    · rintro ⟨hok, hRest⟩
      have hP := (hStep hGood hs).mpr hok
      exact ⟨hP, (ih (hNext hGood hs hP)).mpr hRest⟩

/-- Execute a list of actions while a decidable condition holds before each. -/
def runWhile (step : S → A → Option S) (ok : S → A → Bool) : S → List A → Option S
  | s, [] => some s
  | s, a :: rest => if ok s a then (step s a).bind fun s' => runWhile step ok s' rest else none

theorem Reaches.runWhile {check : S → A → Bool} {acts : List A} (h : Reaches step ok init s)
    (himp : ∀ s a, check s a = true → ok s a)
    (hr : runWhile step check s acts = some s') : Reaches step ok init s' := by
  induction acts generalizing s with
  | nil =>
    obtain rfl : s = s' := by simpa [Transition.runWhile] using hr
    exact h
  | cons a rest ih =>
    unfold Transition.runWhile at hr
    split at hr
    · rename_i hc
      obtain ⟨t, ht, hrest⟩ := Option.bind_eq_some_iff.mp hr
      exact ih (h.step (himp _ _ hc) ht) hrest
    · cases hr

theorem along_runWhile {check : S → A → Bool} {acts : List A}
    (h : (runWhile step check s acts).isSome = true) :
    Along step (fun s a _ => check s a = true) s acts := by
  induction acts generalizing s with
  | nil => trivial
  | cons a rest ih =>
    unfold Transition.runWhile at h
    split at h
    · rename_i hc
      obtain ⟨t, hrun⟩ := Option.isSome_iff_exists.mp h
      obtain ⟨s', hs, hrest⟩ := Option.bind_eq_some_iff.mp hrun
      exact ⟨s', hs, hc, ih (Option.isSome_iff_exists.mpr ⟨t, hrest⟩)⟩
    · cases h

end Eggfetch.Transition
