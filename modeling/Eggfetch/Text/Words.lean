import Mathlib.Data.List.DropRight

/-! Words between separators. -/
namespace Eggfetch.Text

section
variable {α : Type*} (p : α → Bool) {q : α → Bool}

def words (s : List α) : List (List α) := (s.splitOnP p).filter fun word => word ≠ []

variable {p}

private theorem flatMap_splitOnP (h : ∀ a, q a = true → p a = true) (s : List α) :
    (s.splitOnP q).flatMap (List.splitOnP p) = s.splitOnP p := by
  induction s with
  | nil => rfl
  | cons a s ih =>
    rw [List.splitOnP_cons_eq_if_modifyHead, List.splitOnP_cons_eq_if_modifyHead]
    by_cases hq : q a = true
    · rw [if_pos hq, if_pos (h a hq), List.flatMap_cons, ih]
      rfl
    · obtain ⟨first, rest, hSplit⟩ := List.exists_cons_of_ne_nil (List.splitOnP_ne_nil q s)
      rw [hSplit, List.flatMap_cons] at ih
      rw [if_neg hq, hSplit, List.modifyHead_cons, List.flatMap_cons, List.splitOnP_cons_eq_if_modifyHead, ← ih]
      by_cases hp : p a = true
      · rw [if_pos hp, if_pos hp, List.cons_append]
      · obtain ⟨word, others, hFirst⟩ := List.exists_cons_of_ne_nil (List.splitOnP_ne_nil p first)
        rw [if_neg hp, if_neg hp, hFirst, List.modifyHead_cons, List.cons_append, List.cons_append, List.modifyHead_cons]

theorem flatMap_words (h : ∀ a, q a = true → p a = true) (s : List α) : (s.splitOnP q).flatMap (words p) = words p s := by
  rw [words, ← flatMap_splitOnP h, List.filter_flatMap]
  rfl

private theorem words_cons {a : α} (h : p a = true) (s : List α) : words p (a :: s) = words p s := by
  rw [words, List.splitOnP_cons_eq_if_modifyHead, if_pos h]
  rfl

private theorem words_concat {a : α} (h : p a = true) (s : List α) : words p (s ++ [a]) = words p s := by
  have hSplit : (s ++ [a]).splitOnP p = s.splitOnP p ++ [[]] := by
    induction s with
    | nil => rw [List.nil_append, List.splitOnP_cons_eq_if_modifyHead, if_pos h]; rfl
    | cons b s ih =>
      rw [List.cons_append, List.splitOnP_cons_eq_if_modifyHead, List.splitOnP_cons_eq_if_modifyHead, ih]
      split
      · rfl
      · obtain ⟨first, rest, hs⟩ := List.exists_cons_of_ne_nil (List.splitOnP_ne_nil p s)
        rw [hs]
        rfl
  rw [words, hSplit, List.filter_append]
  exact List.append_nil _

theorem words_dropWhile (s : List α) : words p (s.dropWhile p) = words p s := by
  induction s with
  | nil => rfl
  | cons a s ih =>
    by_cases h : p a = true
    · rw [List.dropWhile_cons_of_pos h, ih, words_cons h]
    · rw [List.dropWhile_cons_of_neg h]

theorem words_rdropWhile (s : List α) : words p (s.rdropWhile p) = words p s := by
  induction s using List.reverseRecOn with
  | nil => rfl
  | append_singleton s a ih =>
    by_cases h : p a = true
    · rw [List.rdropWhile_concat_pos p s a h, ih, words_concat h]
    · rw [List.rdropWhile_concat_neg p s a h]

end
end Eggfetch.Text
