import Mathlib.Algebra.Order.Ring.Nat

/-! Machines that read one symbol at a time, write a list for each symbol and a last list
at the end. What a machine writes over a whole input does not depend on where the input
is cut. -/
namespace Eggfetch.Text

structure Transducer (σ α β : Type*) where
  step : σ → α → List β × σ
  finish : σ → List β

namespace Transducer
variable {σ α β : Type*} (m : Transducer σ α β)

/-- What the machine writes over an input, and the state it is left in. -/
def scan : σ → List α → List β × σ
  | q, [] => ([], q)
  | q, x :: xs =>
    let here := m.step q x
    let rest := scan here.2 xs
    (here.1 ++ rest.1, rest.2)

def total (q : σ) (xs : List α) : List β := (m.scan q xs).1 ++ m.finish (m.scan q xs).2

@[simp] theorem scan_nil (q : σ) : m.scan q [] = ([], q) := rfl

@[simp] theorem scan_cons (q : σ) (x : α) (xs : List α) :
    m.scan q (x :: xs) = ((m.step q x).1 ++ (m.scan (m.step q x).2 xs).1,
      (m.scan (m.step q x).2 xs).2) := rfl

theorem scan_append (q : σ) (xs ys : List α) :
    m.scan q (xs ++ ys) = ((m.scan q xs).1 ++ (m.scan (m.scan q xs).2 ys).1,
      (m.scan (m.scan q xs).2 ys).2) := by
  induction xs generalizing q with
  | nil => simp
  | cons x xs ih => simp [ih]

theorem scan_concat (q : σ) (xs : List α) (x : α) :
    m.scan q (xs ++ [x]) =
      ((m.scan q xs).1 ++ (m.step (m.scan q xs).2 x).1, (m.step (m.scan q xs).2 x).2) := by
  rw [scan_append, scan_cons, scan_nil, List.append_nil]

theorem scan_then {q q' q'' : σ} {xs ys : List α} {os os' : List β} (h : m.scan q xs = (os, q'))
    (h' : m.scan q' ys = (os', q'')) : m.scan q (xs ++ ys) = (os ++ os', q'') := by
  rw [scan_append, h, h']

@[simp] theorem total_nil (q : σ) : m.total q [] = m.finish q := rfl

theorem total_append (q : σ) (xs ys : List α) :
    m.total q (xs ++ ys) = (m.scan q xs).1 ++ m.total (m.scan q xs).2 ys := by
  simp [total, scan_append]

theorem total_cons (q : σ) (x : α) (xs : List α) :
    m.total q (x :: xs) = (m.step q x).1 ++ m.total (m.step q x).2 xs := by
  simp [total]

/-- A scan does not look at what the machine writes at the end. -/
theorem scan_congr {m m' : Transducer σ α β} (h : m.step = m'.step) (q : σ) (xs : List α) :
    m.scan q xs = m'.scan q xs := by
  induction xs generalizing q with
  | nil => rfl
  | cons x xs ih => simp only [scan_cons, h, ih]

/-- What every step keeps, a whole scan keeps. -/
theorem scan_invariant {P : σ → Prop} (hstep : ∀ q x, P q → P (m.step q x).2)
    (xs : List α) {q : σ} (hq : P q) : P (m.scan q xs).2 := by
  induction xs generalizing q with
  | nil => exact hq
  | cons x xs ih => exact ih (hstep q x hq)

end Transducer
end Eggfetch.Text
