import Mathlib.Algebra.Order.Ring.Nat
import Mathlib.Algebra.BigOperators.Group.List.Basic

/-! Tallies of what the members of a list hold. Replacing one member moves the
tally by exactly the difference of what the two members hold. -/
namespace Eggfetch.Transition
variable {T : Type*}

def tally (f : T → Nat) (l : List T) : Nat := (l.map f).sum

@[simp] theorem tally_nil (f : T → Nat) : tally f [] = 0 := rfl

@[simp] theorem tally_cons (f : T → Nat) (t : T) (l : List T) :
    tally f (t :: l) = f t + tally f l := by
  simp [tally]

@[simp] theorem tally_append (f : T → Nat) (l m : List T) :
    tally f (l ++ m) = tally f l + tally f m := by
  simp [tally]

theorem tally_set (f : T → Nat) {l : List T} {i : Nat} {t : T} (t' : T) (h : l[i]? = some t) :
    tally f (l.set i t') + f t = tally f l + f t' := by
  induction l generalizing i with
  | nil => simp at h
  | cons a l ih =>
    cases i with
    | zero =>
      obtain rfl : a = t := by simpa using h
      simp
      omega
    | succ i =>
      have := ih (by simpa using h)
      simp
      omega

theorem le_tally (f : T → Nat) {l : List T} {t : T} (h : t ∈ l) : f t ≤ tally f l := by
  induction l with
  | nil => simp at h
  | cons a l ih =>
    rcases List.mem_cons.mp h with rfl | h
    · simp
    · have := ih h
      simp
      omega

theorem tally_eq_zero {f : T → Nat} {l : List T} (h : ∀ t ∈ l, f t = 0) : tally f l = 0 := by
  induction l with
  | nil => rfl
  | cons a l ih => simp [h a (by simp), ih fun t ht => h t (by simp [ht])]

theorem tally_mono {f g : T → Nat} {l : List T} (h : ∀ t ∈ l, f t ≤ g t) : tally f l ≤ tally g l := by
  induction l with
  | nil => simp
  | cons a l ih =>
    have ha := h a (by simp)
    have hl := ih fun t ht => h t (by simp [ht])
    simp
    omega

/-- A tally splits into that of the members picked by `p` and that of the others. -/
theorem tally_split (p : T → Bool) (f : T → Nat) (l : List T) :
    tally (fun t => if p t then f t else 0) l + tally (fun t => if p t then 0 else f t) l =
      tally f l := by
  induction l with
  | nil => rfl
  | cons a l ih =>
    simp only [tally_cons]
    cases p a <;> simp <;> omega

end Eggfetch.Transition
