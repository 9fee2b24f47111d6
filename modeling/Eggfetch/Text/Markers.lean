import Eggfetch.Text.Search

/-! Markers that no part of themselves can start or end: where the first of them stands, and what stands between them. -/
namespace Eggfetch.Text
variable {α : Type*}

def Unbordered (marker : List α) : Prop := ∀ i < marker.length, 0 < i → ¬ marker.drop i <+: marker

instance [DecidableEq α] (marker : List α) : Decidable (Unbordered marker) :=
  inferInstanceAs (Decidable (∀ i < marker.length, 0 < i → ¬ marker.drop i <+: marker))

def marked (marker : List α) (pieces : List (List α)) : List α := pieces.flatMap (marker ++ ·)

variable {marker x y x' y' : List α} {pieces pieces' : List (List α)}

theorem marked_cons (piece : List α) (pieces : List (List α)) :
    marked marker (piece :: pieces) = marker ++ (piece ++ marked marker pieces) := by
  rw [marked, List.flatMap_cons, List.append_assoc, ← marked]

private theorem not_prefix_of_unbordered (hMarker : Unbordered marker) (a : α) (hx : ¬ marker <:+: a :: x) :
    ¬ marker <+: a :: (x ++ (marker ++ y)) := by
  intro hPrefix
  rw [← List.cons_append] at hPrefix
  rcases List.prefix_or_prefix_of_prefix hPrefix (List.prefix_append (a :: x) _) with hInside | ⟨rest, hRest⟩
  · exact hx hInside.isInfix
  · have hLength : (a :: x).length ≤ marker.length := by rw [← hRest, List.length_append]; exact Nat.le_add_right _ _
    have hDrop : marker.drop (a :: x).length = rest := by rw [← hRest, List.drop_left]
    have hBehind : rest <+: marker ++ y := by
      rw [← hRest, List.prefix_append_right_inj, hRest] at hPrefix
      exact hPrefix
    have hBorder : rest <+: marker := by
      refine List.prefix_of_prefix_length_le hBehind (List.prefix_append marker y) ?_
      rw [← hDrop, List.length_drop]
      exact Nat.sub_le _ _
    rcases hLength.lt_or_eq with hLess | hEq
    · exact hMarker _ hLess (Nat.succ_pos _) (hDrop ▸ hBorder)
    · have hWhole : a :: x = marker := List.IsPrefix.eq_of_length ⟨rest, hRest⟩ hEq
      exact hx (hWhole ▸ List.infix_rfl)

section
variable [DecidableEq α]

theorem find_start (h : marker <+: x) : find marker x = some 0 := by
  have hHere : marker.isPrefixOf x = true := List.isPrefixOf_iff_prefix.mpr h
  cases x with
  | nil => rw [find, List.tails, List.findIdx?_cons, hHere, if_pos rfl]
  | cons a x => rw [find, List.tails_cons, List.findIdx?_cons, hHere, if_pos rfl]

/-- The first marker stands where the text before it ends. -/
theorem find_marker (hMarker : Unbordered marker) (hx : ¬ marker <:+: x) : find marker (x ++ (marker ++ y)) = some x.length := by
  induction x with
  | nil => exact find_start (List.prefix_append marker y)
  | cons a x ih =>
    rw [List.cons_append, find_cons a (not_prefix_of_unbordered hMarker a hx),
      ih fun hInfix => hx (hInfix.trans (List.suffix_cons a x).isInfix), Option.map_some, List.length_cons]

theorem find_eq_some {i : Nat} (hMarker : marker ≠ []) (h : find marker x = some i) :
    ∃ before after, x = before ++ (marker ++ after) ∧ before.length = i ∧ ¬ marker <:+: before := by
  have hNil : ¬ marker <:+: [] := fun hInfix => hMarker (List.infix_nil.mp hInfix)
  induction x generalizing i with
  | nil => exact absurd (find_eq_none.mpr hNil) (h ▸ Option.some_ne_none i)
  | cons a x ih =>
    by_cases hHere : marker <+: a :: x
    · rw [find_start hHere] at h
      obtain ⟨after, hAfter⟩ := hHere
      exact ⟨[], after, hAfter.symm, Option.some.inj h, hNil⟩
    · rw [find_cons a hHere] at h
      obtain ⟨j, hFound, rfl⟩ := Option.map_eq_some_iff.mp h
      obtain ⟨before, after, rfl, hLength, hFree⟩ := ih hFound
      refine ⟨a :: before, after, rfl, by rw [List.length_cons, hLength], fun hInfix => ?_⟩
      rcases List.infix_cons_iff.mp hInfix with hPrefix | hBehind
      · exact hHere (hPrefix.trans (List.prefix_append (a :: before) _))
      · exact hFree hBehind

theorem find_marked (hMarker : Unbordered marker) (hx : ¬ marker <:+: x) :
    find marker (x ++ marked marker pieces) = pieces.head?.map fun _ => x.length := by
  cases pieces with
  | nil => rw [marked, List.flatMap_nil, List.append_nil, find_eq_none.mpr hx, List.head?_nil, Option.map_none]
  | cons piece pieces => rw [marked_cons, find_marker hMarker hx, List.head?_cons, Option.map_some]

end

private theorem length_le_of_marked (hMarker : Unbordered marker) (hx : ¬ marker <:+: x) (hx' : ¬ marker <:+: x')
    (h : x ++ marked marker pieces = x' ++ marked marker pieces') : x.length = x'.length := by
  classical
  have hFound := @find_marked _ _ _ pieces _ hMarker hx
  rw [h, find_marked hMarker hx'] at hFound
  cases pieces with
  | nil =>
    cases pieces' with
    | nil => rw [marked, List.flatMap_nil, List.append_nil, List.append_nil] at h; rw [h]
    | cons piece' pieces' => cases hFound
  | cons piece pieces =>
    cases pieces' with
    | nil => cases hFound
    | cons piece' pieces' => exact (Option.some.inj hFound).symm

/-- A text is cut at its markers in one way only. -/
theorem marked_inj (hMarker : Unbordered marker) (hNonempty : marker ≠ []) (hx : ¬ marker <:+: x) (hx' : ¬ marker <:+: x')
    (hPieces : ∀ piece ∈ pieces, ¬ marker <:+: piece) (hPieces' : ∀ piece ∈ pieces', ¬ marker <:+: piece)
    (h : x ++ marked marker pieces = x' ++ marked marker pieces') : x = x' ∧ pieces = pieces' := by
  induction pieces generalizing x x' pieces' with
  | nil =>
    obtain ⟨rfl, hRest⟩ := List.append_inj h (length_le_of_marked hMarker hx hx' h)
    cases pieces' with
    | nil => exact ⟨rfl, rfl⟩
    | cons piece' pieces' =>
      rw [marked_cons] at hRest
      exact absurd (List.append_eq_nil_iff.mp hRest.symm).1 hNonempty
  | cons piece pieces ih =>
    obtain ⟨rfl, hRest⟩ := List.append_inj h (length_le_of_marked hMarker hx hx' h)
    cases pieces' with
    | nil =>
      rw [marked_cons] at hRest
      exact absurd (List.append_eq_nil_iff.mp hRest).1 hNonempty
    | cons piece' pieces' =>
      rw [marked_cons, marked_cons, List.append_cancel_left_eq] at hRest
      obtain ⟨hPiece, hPieces⟩ := List.forall_mem_cons.mp hPieces
      obtain ⟨hPiece', hPieces'⟩ := List.forall_mem_cons.mp hPieces'
      obtain ⟨rfl, rfl⟩ := ih hPiece hPiece' hPieces hPieces' hRest
      exact ⟨rfl, rfl⟩

/-- Every text is cut at its markers. -/
theorem exists_marked (hNonempty : marker ≠ []) (s : List α) :
    ∃ x pieces, s = x ++ marked marker pieces ∧ ¬ marker <:+: x ∧ ∀ piece ∈ pieces, ¬ marker <:+: piece := by
  classical
  cases hFound : find marker s with
  | none => exact ⟨s, [], (List.append_nil s).symm, find_eq_none.mp hFound, List.forall_mem_nil _⟩
  | some i =>
    obtain ⟨before, after, hSplit, -, hFree⟩ := find_eq_some hNonempty hFound
    have hShorter : after.length < s.length := by
      rw [hSplit, List.length_append, List.length_append]
      have hPositive := List.length_pos_of_ne_nil hNonempty
      omega
    obtain ⟨x, pieces, rfl, hx, hPieces⟩ := exists_marked hNonempty after
    exact ⟨before, x :: pieces, by rw [hSplit, marked_cons], hFree, List.forall_mem_cons.mpr ⟨hx, hPieces⟩⟩
termination_by s.length

end Eggfetch.Text
