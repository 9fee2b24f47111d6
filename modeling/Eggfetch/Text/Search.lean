import Eggfetch.Text.Lines
import Eggfetch.Text.Split
import Mathlib.Data.List.Infix

/-! Where a text occurs in another one, and what stands behind the last of a symbol. -/
namespace Eggfetch.Text

section
variable {α : Type*} [DecidableEq α] {pattern s x y : List α} {a : α}

/-- `str::find` of a text. -/
def find (pattern s : List α) : Option Nat := s.tails.findIdx? (pattern.isPrefixOf ·)

theorem find_eq_none : find pattern s = none ↔ ¬ pattern <:+: s := by
  rw [find, List.findIdx?_eq_none_iff, List.infix_iff_prefix_suffix]
  constructor
  · rintro h ⟨t, hPrefix, hSuffix⟩
    have hNot := h t ((List.mem_tails t s).mpr hSuffix)
    rw [List.isPrefixOf_iff_prefix.mpr hPrefix] at hNot
    cases hNot
  · intro h t hSuffix
    refine Bool.eq_false_iff.mpr fun hPrefix => h ⟨t, List.isPrefixOf_iff_prefix.mp hPrefix, (List.mem_tails t s).mp hSuffix⟩

theorem find_cons (b : α) (hNot : ¬ pattern <+: b :: s) : find pattern (b :: s) = (find pattern s).map (· + 1) := by
  have hFalse : pattern.isPrefixOf (b :: s) = false := Bool.eq_false_iff.mpr fun h => hNot (List.isPrefixOf_iff_prefix.mp h)
  rw [find, List.tails_cons, List.findIdx?_cons, hFalse, if_neg Bool.false_ne_true, find]

/-- A pattern is found where its first symbol first stands. -/
theorem find_append (h : a ∉ x) : find (a :: pattern) (x ++ (a :: pattern ++ y)) = some x.length := by
  induction x with
  | nil =>
    have hTrue : (a :: pattern).isPrefixOf (a :: pattern ++ y) = true := List.isPrefixOf_iff_prefix.mpr (List.prefix_append _ _)
    rw [List.nil_append, find, List.cons_append, List.tails_cons, List.findIdx?_cons, ← List.cons_append, hTrue, if_pos rfl,
      List.length_nil]
  | cons b x ih =>
    obtain ⟨hb, hx⟩ := List.ne_and_not_mem_of_not_mem_cons h
    rw [List.cons_append, find_cons b fun hPrefix => hb (List.cons_prefix_cons.mp hPrefix).1, ih hx, Option.map_some,
      List.length_cons]

omit [DecidableEq α] in
theorem prefix_of_append_cons (h : a ∉ pattern) (hPrefix : pattern <+: x ++ a :: y) : pattern <+: x := by
  rcases List.prefix_or_prefix_of_prefix hPrefix (List.prefix_append x (a :: y)) with hx | ⟨t, rfl⟩
  · exact hx
  · cases t with
    | nil => exact ⟨[], by rw [List.append_nil, List.append_nil]⟩
    | cons c t =>
      obtain ⟨rfl, -⟩ := List.cons_prefix_cons.mp ((List.prefix_append_right_inj x).mp hPrefix)
      exact absurd (List.mem_append_right x List.mem_cons_self) h

omit [DecidableEq α] in
/-- A symbol that the pattern lacks parts what contains it. -/
theorem infix_of_append_cons (h : a ∉ pattern) (hInfix : pattern <:+: x ++ a :: y) : pattern <:+: x ∨ pattern <:+: y := by
  induction x with
  | nil =>
    rw [List.nil_append] at hInfix
    rcases List.infix_cons_iff.mp hInfix with hPrefix | hy
    · exact Or.inl (prefix_of_append_cons h hPrefix).isInfix
    · exact Or.inr hy
  | cons c x ih =>
    rw [List.cons_append] at hInfix
    rcases List.infix_cons_iff.mp hInfix with hPrefix | hRest
    · exact Or.inl (prefix_of_append_cons h hPrefix).isInfix
    · exact (ih hRest).imp_left fun hx => hx.trans (List.suffix_cons c x).isInfix

omit [DecidableEq α] in
theorem takeWhile_until {p : α → Bool} (hx : ∀ a ∈ x, p a = true) (hy : ∀ a ∈ y.head?, p a = false) :
    (x ++ y).takeWhile p = x := by
  rw [List.takeWhile_append_of_pos hx]
  cases y with
  | nil => rw [List.takeWhile_nil, List.append_nil]
  | cons a y => rw [List.takeWhile_cons, hy a rfl, if_neg Bool.false_ne_true, List.append_nil]

end

/-- What stands behind the last `b`, if there is one. -/
def afterLast (b : UInt8) (s : Str) : Str := (rfind b s).elim s fun i => s.drop (i + 1)

section
variable {b : UInt8} {s x y : Str}

theorem afterLast_of_not_mem (h : b ∉ s) : afterLast b s = s := by
  have hNone : rfind b s = none := by
    rw [rfind, List.idxOf?_eq_none_iff.mpr (mt List.mem_reverse.mp h), Option.map_none]
  rw [afterLast, hNone, Option.elim_none]

theorem afterLast_suffix (b : UInt8) (s : Str) : afterLast b s <:+ s := by
  rw [afterLast]
  cases rfind b s with
  | none => exact List.suffix_rfl
  | some i => exact List.drop_suffix _ _

private theorem afterLast_eq (b : UInt8) (s : Str) : afterLast b s = (s.reverse.takeWhile (· != b)).reverse := by
  rw [afterLast]
  cases hFound : rfind b s with
  | none =>
    rw [takeWhile_whole (mt List.mem_reverse.mp (rfind_eq_none hFound)), List.reverse_reverse, Option.elim_none]
  | some i =>
    have hReverse : s.reverse = (s.drop (i + 1)).reverse ++ b :: (s.take i).reverse := by
      conv_lhs => rw [← rfind_append hFound]
      rw [List.reverse_append, List.reverse_cons, List.append_assoc, List.singleton_append]
    rw [hReverse, takeWhile_cut (mt List.mem_reverse.mp (rfind_eq_some hFound).2), List.reverse_reverse, Option.elim_some]

/-- What stands before a `b` does not matter. -/
theorem afterLast_append_cons (x y : Str) : afterLast b (x ++ b :: y) = afterLast b y := by
  rw [afterLast_eq, afterLast_eq, List.reverse_append, List.reverse_cons, List.append_assoc, List.singleton_append]
  by_cases hMem : b ∈ y
  · obtain ⟨p, q, hSplit, hp⟩ := List.eq_append_cons_of_mem (List.mem_reverse.mpr hMem)
    rw [hSplit, List.append_assoc, List.cons_append, takeWhile_cut hp, takeWhile_cut hp]
  · have hReverse : b ∉ y.reverse := mt List.mem_reverse.mp hMem
    rw [takeWhile_cut hReverse, takeWhile_whole hReverse]

theorem afterLast_append (h : b ∉ y) : afterLast b (x ++ y) = afterLast b x ++ y := by
  by_cases hMem : b ∈ x
  · obtain ⟨i, hFound⟩ : ∃ i, rfind b x = some i := by
      cases hFound : rfind b x with
      | none => exact absurd hMem (rfind_eq_none hFound)
      | some i => exact ⟨i, rfl⟩
    have hBare := (rfind_eq_some hFound).2
    rw [← rfind_append hFound, List.append_assoc, List.cons_append, afterLast_append_cons, afterLast_append_cons,
      afterLast_of_not_mem hBare, afterLast_of_not_mem (List.not_mem_append hBare h)]
  · rw [afterLast_of_not_mem hMem, afterLast_of_not_mem (List.not_mem_append hMem h)]

end
end Eggfetch.Text
