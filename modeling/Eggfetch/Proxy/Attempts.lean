import Mathlib.Data.List.Infix

/-! Candidates that are tried in turn, until one succeeds or fails for good. -/
namespace Eggfetch.Attempts
variable {α ε ρ : Type} {retries : ε → Bool} {attempt : Nat → α → Except ε ρ} {start : Nat} {a : α} {rest : List α}
  {tried : List (α × Except ε ρ)} {result : Except ε ρ}

/-- The candidates and outcomes of a run, whose first attempt is number `start`. -/
structure FallsBack (retries : ε → Bool) (attempt : Nat → α → Except ε ρ) (start : Nat) (candidates : List α)
    (tried : List (α × Except ε ρ)) (result : Except ε ρ) : Prop where
  order : tried.map Prod.fst <+: candidates
  outcomes : ∀ i entry, tried[i]? = some entry → entry.2 = attempt (start + i) entry.1
  some : tried ≠ []
  returns : tried.getLast?.map Prod.snd = Option.some result
  goesOn : ∀ entry ∈ tried.dropLast, ∃ e, entry.2 = .error e ∧ retries e = true
  stops : tried.length < candidates.length → ∀ e, result = .error e → retries e = false

theorem FallsBack.one (hOutcome : attempt start a = result) (h : rest ≠ [] → ∀ e, result = .error e → retries e = false) :
    FallsBack retries attempt start (a :: rest) [(a, result)] result where
  order := List.prefix_append [a] rest
  outcomes := by
    intro i entry hEntry
    cases i with
    | zero =>
      obtain rfl := Option.some.inj hEntry
      exact hOutcome.symm
    | succ i => cases hEntry
  some := List.cons_ne_nil _ _
  returns := rfl
  goesOn := fun _ hMem => absurd hMem List.not_mem_nil
  stops := by
    intro hLess
    refine h ?_
    rintro rfl
    exact absurd hLess (lt_irrefl _)

/-- The run ends with its first attempt, which succeeds or fails for good. -/
theorem FallsBack.stop (hOutcome : attempt start a = result) (h : ∀ e, result = .error e → retries e = false) :
    FallsBack retries attempt start (a :: rest) [(a, result)] result := .one hOutcome fun _ => h

/-- The run ends with its last candidate. -/
theorem FallsBack.last (hOutcome : attempt start a = result) : FallsBack retries attempt start [a] [(a, result)] result :=
  .one hOutcome fun hNe => absurd rfl hNe

/-- The first attempt fails, and the others are a run. -/
theorem FallsBack.next {e : ε} (hError : attempt start a = .error e) (hRetries : retries e = true)
    (h : FallsBack retries attempt (start + 1) rest tried result) :
    FallsBack retries attempt start (a :: rest) ((a, .error e) :: tried) result where
  order := by
    rw [List.map_cons]
    exact List.prefix_cons_inj a |>.mpr h.order
  outcomes := by
    intro i entry hEntry
    cases i with
    | zero =>
      obtain rfl := Option.some.inj hEntry
      exact hError.symm
    | succ i =>
      have hOutcome := h.outcomes i entry hEntry
      rwa [Nat.add_right_comm, Nat.add_assoc] at hOutcome
  some := List.cons_ne_nil _ _
  returns := by
    rw [List.getLast?_cons_of_ne_nil h.some]
    exact h.returns
  goesOn := by
    rw [List.dropLast_cons_of_ne_nil h.some]
    exact List.forall_mem_cons.mpr ⟨⟨e, rfl, hRetries⟩, h.goesOn⟩
  stops := fun hLess => h.stops (Nat.lt_of_succ_lt_succ hLess)

end Eggfetch.Attempts
