import Eggfetch.Text.Bytes
import Eggfetch.Text.Transducer

/-! Texts cut into lines: by a machine that holds back the line it is in, and by the
standard library's search for separators. -/
namespace Eggfetch.Text
variable {α β : Type*} [DecidableEq α]

/-- `str::split_inclusive` of one symbol. -/
def splitInclusive (a : α) : List α → List (List α)
  | [] => []
  | x :: rest =>
    if x = a then [x] :: splitInclusive a rest
    else
      match splitInclusive a rest with
      | [] => [[x]]
      | piece :: pieces => (x :: piece) :: pieces

/-- `str::strip_suffix` of one symbol, or the text itself. -/
def stripSuffix (a : α) (s : List α) : List α := if s.getLast? = some a then s.dropLast else s

/-- The machine that writes `line` of each part that `a` ends, and `tail` of what is left. -/
def lineMachine (a : α) (line : List α → β) (tail : List α → List β) :
    Transducer (List α) α β where
  step held x := if x = a then ([line held], []) else ([], held ++ [x])
  finish := tail

section machine
variable {a : α} {line : List α → β} {tail : List α → List β}

theorem scan_line_of_not_mem {s : List α} (h : a ∉ s) (held : List α) :
    (lineMachine a line tail).scan held s = ([], held ++ s) := by
  induction s generalizing held with
  | nil => simp
  | cons x s ih =>
    obtain ⟨hx, hs⟩ := List.ne_and_not_mem_of_not_mem_cons h
    have hstep : (lineMachine a line tail).step held x = ([], held ++ [x]) := if_neg hx.symm
    rw [Transducer.scan_cons, hstep, ih hs]
    simp

theorem scan_line_append {s : List α} (h : a ∉ s) (held rest : List α) :
    (lineMachine a line tail).scan held (s ++ a :: rest) =
      (line (held ++ s) :: ((lineMachine a line tail).scan [] rest).1,
        ((lineMachine a line tail).scan [] rest).2) := by
  have hstep : (lineMachine a line tail).step (held ++ s) a = ([line (held ++ s)], []) :=
    if_pos rfl
  rw [Transducer.scan_append, scan_line_of_not_mem h, Transducer.scan_cons, hstep]
  rfl

/-- What is held back is the part after the last separator. -/
theorem scan_line_held (held s : List α) :
    ∃ lines, held ++ s = lines ++ ((lineMachine a line tail).scan held s).2 ∧
      (lines = [] ∨ lines.getLast? = some a) := by
  induction s generalizing held with
  | nil => exact ⟨[], by simp, Or.inl rfl⟩
  | cons x s ih =>
    rw [Transducer.scan_cons]
    by_cases hx : x = a
    · have hstep : (lineMachine a line tail).step held x = ([line held], []) := if_pos hx
      obtain ⟨lines, hsplit, hlast⟩ := ih []
      refine ⟨held ++ a :: lines, ?_, Or.inr ?_⟩
      · rw [List.nil_append] at hsplit
        rw [hstep, hx, List.append_assoc, List.cons_append, ← hsplit]
      · rcases hlast with hnil | hlast
        · simp [hnil]
        · rw [List.getLast?_append, List.getLast?_cons, hlast]
          rfl
    · have hstep : (lineMachine a line tail).step held x = ([], held ++ [x]) := if_neg hx
      obtain ⟨lines, hsplit, hlast⟩ := ih (held ++ [x])
      refine ⟨lines, ?_, hlast⟩
      rw [hstep, ← hsplit]
      simp

theorem not_mem_scan_line {held : List α} (h : a ∉ held) (s : List α) :
    a ∉ ((lineMachine a line tail).scan held s).2 := by
  refine Transducer.scan_invariant _ (P := (a ∉ ·)) ?_ s h
  intro held x hheld
  simp only [lineMachine]
  split_ifs with hx
  · exact List.not_mem_nil
  · simpa [hheld] using Ne.symm hx

/-- Cutting after each separator gives the lines of a text that ends with one. -/
theorem scan_line_splitInclusive (held s : List α) :
    (lineMachine a line tail).scan held (s ++ [a]) =
      (((splitInclusive a (s ++ [a])).modifyHead (held ++ ·)).map fun piece =>
        line (stripSuffix a piece), []) := by
  induction s generalizing held with
  | nil =>
    have hstep : (lineMachine a line tail).step held a = ([line held], []) := if_pos rfl
    simp [Transducer.scan_cons, hstep, splitInclusive, stripSuffix]
  | cons x s ih =>
    rw [List.cons_append, Transducer.scan_cons, splitInclusive]
    by_cases hx : x = a
    · have hstep : (lineMachine a line tail).step held x = ([line held], []) := if_pos hx
      have hid : (splitInclusive a (s ++ [a])).modifyHead (([] : List α) ++ ·) =
          splitInclusive a (s ++ [a]) := by
        cases splitInclusive a (s ++ [a]) <;> rfl
      rw [hstep, ih, hid, if_pos hx, hx]
      simp [stripSuffix]
    · have hstep : (lineMachine a line tail).step held x = ([], held ++ [x]) := if_neg hx
      rw [hstep, ih, if_neg hx]
      cases hsplit : splitInclusive a (s ++ [a]) with
      | nil =>
        cases s with
        | nil => simp [splitInclusive] at hsplit
        | cons y s =>
          rw [List.cons_append, splitInclusive] at hsplit
          split_ifs at hsplit
          split at hsplit <;> contradiction
      | cons piece pieces => simp

end machine

theorem rfind_eq_none {b : UInt8} {s : Str} (h : rfind b s = none) : b ∉ s := by
  simpa [rfind] using h

/-- The first separator, with what stands before and after it. -/
theorem idxOf?_eq_some_append {a : α} {s : List α} {k : Nat} (h : s.idxOf? a = some k) :
    s.take k ++ a :: s.drop (k + 1) = s ∧ a ∉ s.take k ∧ k < s.length := by
  obtain ⟨hk, hat, hbefore⟩ := List.idxOf?_eq_some_iff.mp h
  refine ⟨?_, ?_, hk⟩
  · have hcut : s.drop k = a :: s.drop (k + 1) := by
      rw [List.drop_eq_getElem_cons hk, hat]
    rw [← hcut, List.take_append_drop]
  · intro hmem
    obtain ⟨i, hi, hia⟩ := List.mem_take_iff_getElem.mp hmem
    exact hbefore i (by omega) hia

theorem idxOf?_append_cons {a : α} {s : List α} (h : a ∉ s) (t : List α) :
    (s ++ a :: t).idxOf? a = some s.length := by
  induction s with
  | nil => simp [List.idxOf?_cons]
  | cons x s ih =>
    obtain ⟨hx, hs⟩ := List.ne_and_not_mem_of_not_mem_cons h
    rw [List.cons_append, List.idxOf?_cons, ih hs]
    simp [hx.symm]

/-- `rfind` cuts a text after its last separator. -/
theorem rfind_eq_some {b : UInt8} {s : Str} {pos : Nat} (h : rfind b s = some pos) :
    (∃ t, s.take (pos + 1) = t ++ [b]) ∧ b ∉ s.drop (pos + 1) := by
  simp only [rfind, Option.map_eq_some_iff] at h
  obtain ⟨k, hfirst, hpos⟩ := h
  obtain ⟨hcut, hnot, hk⟩ := idxOf?_eq_some_append hfirst
  rw [List.length_reverse] at hk
  have hs : s = (s.reverse.drop (k + 1)).reverse ++ [b] ++ (s.reverse.take k).reverse := by
    simpa using (congrArg List.reverse hcut).symm
  have hlen : ((s.reverse.drop (k + 1)).reverse ++ [b]).length = pos + 1 := by
    simp only [List.length_append, List.length_reverse, List.length_drop, List.length_singleton]
    omega
  refine ⟨⟨(s.reverse.drop (k + 1)).reverse, ?_⟩, ?_⟩
  · conv_lhs => rw [hs]
    exact List.take_left' hlen
  · rw [hs, List.drop_left' hlen, List.mem_reverse]
    exact hnot

/-- The text around its last separator. -/
theorem rfind_append {b : UInt8} {s : Str} {pos : Nat} (h : rfind b s = some pos) : s.take pos ++ b :: s.drop (pos + 1) = s := by
  simp only [rfind, Option.map_eq_some_iff] at h
  obtain ⟨k, hfirst, hpos⟩ := h
  obtain ⟨hcut, hnot, hk⟩ := idxOf?_eq_some_append hfirst
  rw [List.length_reverse] at hk
  have hs : s = (s.reverse.drop (k + 1)).reverse ++ b :: (s.reverse.take k).reverse := by
    simpa using (congrArg List.reverse hcut).symm
  have hlen : ((s.reverse.drop (k + 1)).reverse).length = pos := by
    simp only [List.length_reverse, List.length_drop]
    omega
  have htake : s.take pos = (s.reverse.drop (k + 1)).reverse := by
    conv_lhs => rw [hs]
    exact List.take_left' hlen
  have hdrop : s.drop (pos + 1) = (s.reverse.take k).reverse := by
    conv_lhs => rw [hs, ← List.drop_drop, List.drop_left' hlen]
    rfl
  rw [htake, hdrop, ← hs]

end Eggfetch.Text
