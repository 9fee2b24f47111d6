import Mathlib.Algebra.Order.Ring.Nat
import Mathlib.Data.List.TakeWhile

/-! Splitting a text at its separators. Joining undoes a split, and a split undoes a join of pieces that the
separator's first symbol does not occur in. -/
namespace Eggfetch.Text
variable {α : Type*} [DecidableEq α]

/-- Split at every occurrence of the two symbols `a`, `b`, from the left. -/
def splitOnPair (a b : α) : List α → List (List α)
  | [] => [[]]
  | [x] => [[x]]
  | x :: y :: rest =>
    if x = a ∧ y = b then [] :: splitOnPair a b rest
    else (splitOnPair a b (y :: rest)).modifyHead (x :: ·)

/-- Split at the first `a`; the second part is empty when there is none. -/
def splitOnce (a : α) : List α → List α × List α
  | [] => ([], [])
  | x :: rest =>
    if x = a then ([], rest)
    else ((x :: (splitOnce a rest).1), (splitOnce a rest).2)

theorem splitOnPair_cons_of_ne {a b x : α} (hx : x ≠ a) (rest : List α) :
    splitOnPair a b (x :: rest) = (splitOnPair a b rest).modifyHead (x :: ·) := by
  cases rest with
  | nil => rfl
  | cons y rest => rw [splitOnPair, if_neg fun h => hx h.1]

theorem splitOnPair_of_not_mem {a : α} (b : α) {piece : List α} (h : a ∉ piece) :
    splitOnPair a b piece = [piece] := by
  induction piece with
  | nil => rfl
  | cons x rest ih =>
    obtain ⟨hx, hrest⟩ := List.ne_and_not_mem_of_not_mem_cons h
    rw [splitOnPair_cons_of_ne hx.symm, ih hrest]
    rfl

theorem splitOnPair_append {a : α} (b : α) {piece : List α} (h : a ∉ piece) (rest : List α) :
    splitOnPair a b (piece ++ a :: b :: rest) = piece :: splitOnPair a b rest := by
  induction piece with
  | nil => simp [splitOnPair]
  | cons x piece ih =>
    obtain ⟨hx, hpiece⟩ := List.ne_and_not_mem_of_not_mem_cons h
    rw [List.cons_append, splitOnPair_cons_of_ne hx.symm, ih hpiece]
    rfl

theorem splitOnPair_intercalate {a : α} (b : α) {pieces : List (List α)} (hne : pieces ≠ [])
    (h : ∀ piece ∈ pieces, a ∉ piece) : splitOnPair a b ([a, b].intercalate pieces) = pieces := by
  induction pieces with
  | nil => exact absurd rfl hne
  | cons piece pieces ih =>
    cases pieces with
    | nil => simpa using splitOnPair_of_not_mem b (h piece (by simp))
    | cons next pieces =>
      have hrest := ih (by simp) fun p hp => h p (List.mem_cons_of_mem _ hp)
      rw [List.intercalate_cons_cons, List.append_assoc, List.cons_append, List.cons_append,
        List.nil_append, splitOnPair_append b (h piece (by simp)), hrest]

section pairs
variable {a b : α}

theorem splitOnPair_ne_nil (s : List α) : splitOnPair a b s ≠ [] := by
  fun_induction splitOnPair a b s with
  | case1 | case2 | case3 => exact List.cons_ne_nil _ _
  | case4 x y rest _ ih =>
    cases h : splitOnPair a b (y :: rest) with
    | nil => exact absurd h ih
    | cons piece pieces => exact List.cons_ne_nil _ _

theorem splitOnPair_of_not_mem_append {s : List α} (h : a ∉ s) (t : List α) :
    splitOnPair a b (s ++ t) = (splitOnPair a b t).modifyHead (s ++ ·) := by
  induction s with
  | nil =>
    rw [List.nil_append]
    cases splitOnPair a b t <;> rfl
  | cons x s ih =>
    obtain ⟨hx, hs⟩ := List.ne_and_not_mem_of_not_mem_cons h
    rw [List.cons_append, splitOnPair_cons_of_ne hx.symm, ih hs, List.modifyHead_modifyHead]
    rfl

/-- The pieces of both sides of a separator. -/
theorem splitOnPair_append_pair (hab : a ≠ b) (s t : List α) :
    splitOnPair a b (s ++ a :: b :: t) = splitOnPair a b s ++ splitOnPair a b t := by
  fun_induction splitOnPair a b s with
  | case1 => simp [splitOnPair]
  | case2 x => simp [splitOnPair, hab]
  | case3 x y rest hxy ih =>
    simp only [List.cons_append, splitOnPair, if_pos hxy]
    rw [ih]
  | case4 x y rest hxy ih =>
    simp only [List.cons_append, splitOnPair, if_neg hxy]
    rw [← List.cons_append, ih]
    cases h : splitOnPair a b (y :: rest) with
    | nil => exact absurd h (splitOnPair_ne_nil _)
    | cons piece pieces => rfl

theorem splitOnPair_of_not_infix {s : List α} (h : ¬ [a, b] <:+: s) : splitOnPair a b s = [s] := by
  fun_induction splitOnPair a b s with
  | case1 | case2 => rfl
  | case3 x y rest hxy => exact absurd ⟨[], rest, by simp [hxy]⟩ h
  | case4 x y rest _ ih =>
    rw [ih fun hRest => h (hRest.trans (List.suffix_cons x _).isInfix)]
    rfl

theorem intercalate_splitOnPair (s : List α) : [a, b].intercalate (splitOnPair a b s) = s := by
  fun_induction splitOnPair a b s with
  | case1 | case2 => simp
  | case3 x y rest hxy ih =>
    cases h : splitOnPair a b rest with
    | nil => exact absurd h (splitOnPair_ne_nil _)
    | cons piece pieces =>
      rw [List.intercalate_cons_cons, ← h, ih, hxy.1, hxy.2]
      rfl
  | case4 x y rest _ ih =>
    cases h : splitOnPair a b (y :: rest) with
    | nil => exact absurd h (splitOnPair_ne_nil _)
    | cons piece pieces =>
      rw [h] at ih
      rw [List.modifyHead_cons, ← ih]
      cases pieces with
      | nil => simp
      | cons next pieces => simp [List.intercalate_cons_cons]

omit [DecidableEq α] in
theorem prefix_intercalate_cons (sep piece : List α) (pieces : List (List α)) :
    piece <+: sep.intercalate (piece :: pieces) := by
  cases pieces with
  | nil => simp
  | cons next pieces =>
    rw [List.intercalate_cons_cons, List.append_assoc]
    exact List.prefix_append _ _

omit [DecidableEq α] in
theorem infix_intercalate_of_mem (sep : List α) {piece : List α} {pieces : List (List α)} (h : piece ∈ pieces) :
    piece <:+: sep.intercalate pieces := by
  induction pieces with
  | nil => cases h
  | cons first pieces ih =>
    obtain rfl | h := List.mem_cons.mp h
    · exact (prefix_intercalate_cons sep piece pieces).isInfix
    · cases pieces with
      | nil => cases h
      | cons next pieces =>
        rw [List.intercalate_cons_cons]
        exact (ih h).trans (List.suffix_append _ _).isInfix

/-- A piece is a part of the text, and the first piece begins it. -/
theorem infix_of_mem_splitOnPair {s piece : List α} (h : piece ∈ splitOnPair a b s) : piece <:+: s := by
  have hPart := infix_intercalate_of_mem [a, b] h
  rwa [intercalate_splitOnPair] at hPart

theorem prefix_of_splitOnPair_eq_cons {s piece : List α} {pieces : List (List α)}
    (h : splitOnPair a b s = piece :: pieces) : piece <+: s := by
  have hPart := prefix_intercalate_cons [a, b] piece pieces
  rwa [← h, intercalate_splitOnPair] at hPart

end pairs

theorem splitOnce_append {a : α} {name : List α} (h : a ∉ name) (value : List α) :
    splitOnce a (name ++ a :: value) = (name, value) := by
  induction name with
  | nil => simp [splitOnce]
  | cons x name ih =>
    obtain ⟨hx, hname⟩ := List.ne_and_not_mem_of_not_mem_cons h
    rw [List.cons_append, splitOnce, if_neg hx.symm, ih hname]

/-- The parts between separators hold none. -/
theorem not_mem_of_mem_splitOn {a : α} {s part : List α} (h : part ∈ s.splitOn a) : a ∉ part := by
  induction s generalizing part with
  | nil =>
    rw [List.splitOn_nil, List.mem_singleton] at h
    rw [h]
    exact List.not_mem_nil
  | cons x s ih =>
    rw [List.splitOn_cons_eq_if_modifyHead] at h
    split_ifs at h with hx
    · rcases List.mem_cons.mp h with rfl | h
      · exact List.not_mem_nil
      · exact ih h
    · obtain ⟨first, rest, hParts⟩ := List.exists_cons_of_ne_nil (List.splitOn_ne_nil a s)
      rw [hParts] at h ih
      rcases List.mem_cons.mp h with rfl | h
      · have hNe : a ≠ x := fun hEq => hx (by rw [hEq]; exact beq_self_eq_true x)
        exact List.not_mem_cons_of_ne_of_not_mem hNe (ih List.mem_cons_self)
      · exact ih (List.mem_cons_of_mem _ h)

section
variable {β : Type*} [BEq β] [LawfulBEq β] {a : β}

theorem takeWhile_cut {x : List β} (h : a ∉ x) (y : List β) : (x ++ a :: y).takeWhile (· != a) = x := by
  have hAll : ∀ b ∈ x, (b != a) = true := fun b hb => bne_iff_ne.mpr fun hEq => h (hEq ▸ hb)
  rw [List.takeWhile_append_of_pos hAll, List.takeWhile_cons_of_neg (by rw [bne_self_eq_false]; exact Bool.false_ne_true),
    List.append_nil]

theorem dropWhile_cut {x : List β} (h : a ∉ x) (y : List β) : (x ++ a :: y).dropWhile (· != a) = a :: y := by
  have hAll : ∀ b ∈ x, (b != a) = true := fun b hb => bne_iff_ne.mpr fun hEq => h (hEq ▸ hb)
  rw [List.dropWhile_append_of_pos hAll, List.dropWhile_cons_of_neg (by rw [bne_self_eq_false]; exact Bool.false_ne_true)]

theorem takeWhile_whole {s : List β} (h : a ∉ s) : s.takeWhile (· != a) = s :=
  List.takeWhile_eq_self_iff.mpr fun _ hb => bne_iff_ne.mpr fun hEq => h (hEq ▸ hb)

theorem dropWhile_whole {s : List β} (h : a ∉ s) : s.dropWhile (· != a) = [] :=
  List.dropWhile_eq_nil_iff.mpr fun _ hb => bne_iff_ne.mpr fun hEq => h (hEq ▸ hb)

/-- A list around the first `a` of it. -/
theorem takeWhile_append_tail {s : List β} (h : a ∈ s) :
    s.takeWhile (· != a) ++ a :: (s.dropWhile (· != a)).tail = s := by
  obtain ⟨x, y, rfl, hx⟩ := List.eq_append_cons_of_mem h
  rw [takeWhile_cut hx, dropWhile_cut hx, List.tail_cons]

theorem not_mem_takeWhile (a : β) (s : List β) : a ∉ s.takeWhile (· != a) := by
  intro hMem
  have hNe := List.mem_takeWhile_imp hMem
  rw [bne_self_eq_false] at hNe
  cases hNe

end

end Eggfetch.Text
