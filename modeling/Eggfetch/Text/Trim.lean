import Eggfetch.Text.Bytes
import Mathlib.Data.List.Find
import Mathlib.Data.List.Infix

/-! What `trim` takes from a text, and what it leaves. -/
namespace Eggfetch.Text

section
variable {chars : List Str} {s : Str}

theorem dropChars_eq (n : Nat) (h : ∀ c ∈ chars, c.isPrefixOf s = false) : dropChars chars n s = s := by
  cases n with
  | zero => rfl
  | succ n =>
    have hnone : chars.find? (·.isPrefixOf s) = none := List.find?_eq_none.mpr fun c hc => by simp [h c hc]
    rw [dropChars, hnone]

/-- A round takes the first member that stands in front, if there is one. -/
theorem dropChars_cases (chars : List Str) (s : Str) :
    (∃ c rest, c ∈ chars ∧ s = c ++ rest ∧ ∀ n, dropChars chars (n + 1) s = dropChars chars n rest) ∨
      ∀ c ∈ chars, c.isPrefixOf s = false := by
  cases hFind : chars.find? (·.isPrefixOf s) with
  | none => exact Or.inr fun c hc => Bool.eq_false_iff.mpr (List.find?_eq_none.mp hFind c hc)
  | some c =>
    have hPrefix : c.isPrefixOf s = true := List.find?_some (p := fun c : Str => c.isPrefixOf s) hFind
    obtain ⟨rest, rfl⟩ := List.isPrefixOf_iff_prefix.mp hPrefix
    refine Or.inl ⟨c, rest, List.mem_of_find?_eq_some hFind, rfl, fun n => ?_⟩
    rw [dropChars, hFind]
    exact congrArg _ List.drop_left

theorem dropChars_suffix (n : Nat) : dropChars chars n s <:+ s := by
  induction n generalizing s with
  | zero => exact List.suffix_rfl
  | succ n ih =>
    rcases dropChars_cases chars s with ⟨c, rest, -, rfl, hDrop⟩ | hNone
    · rw [hDrop]
      exact ih.trans (List.suffix_append c rest)
    · rw [dropChars_eq _ hNone]

/-- A byte of no member is a barrier. -/
theorem dropChars_barrier {b : UInt8} (h : ∀ c ∈ chars, b ∉ c) (n : Nat) (x u : Str) :
    dropChars chars n (x ++ b :: u) = dropChars chars n x ++ b :: u := by
  have hPrefix : ∀ c ∈ chars, ∀ x : Str, c <+: x ++ b :: u → c <+: x := by
    intro c hc x hx
    rcases List.prefix_or_prefix_of_prefix hx (List.prefix_append x (b :: u)) with hx' | ⟨t, rfl⟩
    · exact hx'
    · cases t with
      | nil => exact ⟨[], by rw [List.append_nil, List.append_nil]⟩
      | cons d t =>
        obtain ⟨rfl, -⟩ := List.cons_prefix_cons.mp ((List.prefix_append_right_inj x).mp hx)
        exact absurd (List.mem_append_right x List.mem_cons_self) (h _ hc)
  induction n generalizing x with
  | zero => rfl
  | succ n ih =>
    have hFind : chars.find? (·.isPrefixOf (x ++ b :: u)) = chars.find? (·.isPrefixOf x) := by
      refine List.find?_congr fun c hc => Bool.eq_iff_iff.mpr ?_
      rw [List.isPrefixOf_iff_prefix, List.isPrefixOf_iff_prefix]
      exact ⟨hPrefix c hc x, fun hx => hx.trans (List.prefix_append x _)⟩
    rw [dropChars, hFind, dropChars]
    cases hFound : chars.find? (·.isPrefixOf x) with
    | none => rfl
    | some c =>
      have hFront : c.isPrefixOf x = true := List.find?_some (p := fun c : Str => c.isPrefixOf x) hFound
      obtain ⟨rest, rfl⟩ := List.isPrefixOf_iff_prefix.mp hFront
      simp only [List.append_assoc, List.drop_left]
      exact ih rest

theorem clean_nil (hChars : ∀ c ∈ chars, c ≠ []) : ∀ c ∈ chars, c.isPrefixOf ([] : Str) = false := by
  intro c hc
  cases c with
  | nil => exact absurd rfl (hChars [] hc)
  | cons b c => rfl

theorem dropChars_clean (hChars : ∀ c ∈ chars, c ≠ []) {n : Nat} (hn : s.length ≤ n) :
    ∀ c ∈ chars, c.isPrefixOf (dropChars chars n s) = false := by
  induction n generalizing s with
  | zero =>
    rw [List.eq_nil_of_length_eq_zero (Nat.le_zero.mp hn)]
    exact clean_nil hChars
  | succ n ih =>
    rcases dropChars_cases chars s with ⟨c, rest, hc, rfl, hDrop⟩ | hNone
    · rw [hDrop]
      have hLength : 0 < c.length := List.length_pos_of_ne_nil (hChars c hc)
      refine ih ?_
      rw [List.length_append] at hn
      omega
    · rwa [dropChars_eq _ hNone]

/-- Rounds enough for every byte are enough. -/
theorem dropChars_fuel (hChars : ∀ c ∈ chars, c ≠ []) {n m : Nat} (hn : s.length ≤ n) (hm : s.length ≤ m) :
    dropChars chars n s = dropChars chars m s := by
  induction n generalizing s m with
  | zero =>
    have hNil : s = [] := List.eq_nil_of_length_eq_zero (Nat.le_zero.mp hn)
    rw [hNil, dropChars_eq _ (clean_nil hChars), dropChars_eq _ (clean_nil hChars)]
  | succ n ih =>
    rcases dropChars_cases chars s with ⟨c, rest, hc, rfl, hDrop⟩ | hNone
    · have hLength : 0 < c.length := List.length_pos_of_ne_nil (hChars c hc)
      rw [List.length_append] at hn hm
      obtain ⟨m, rfl⟩ : ∃ k, m = k + 1 := ⟨m - 1, by omega⟩
      rw [hDrop, hDrop]
      exact ih (by omega) (by omega)
    · rw [dropChars_eq _ hNone, dropChars_eq _ hNone]

end

/-- A blank overlaps no other: a rest of one begins one only as the whole of it. -/
theorem whitespace_ne_nil : ∀ c ∈ whitespace, c ≠ [] := by decide

def charWidth (b : UInt8) : Nat := if b < 0x80 then 1 else if b < 0xe0 then 2 else 3

private theorem whitespace_shape : ∀ c ∈ whitespace, (∀ b ∈ c.head?, charWidth b = c.length ∧ (b < 0x80 ∨ 0xc0 ≤ b)) ∧
    ∀ b ∈ c.tail, 0x80 ≤ b ∧ b < 0xc0 := by
  decide +kernel

/-- The first byte of a character tells its length, and no other byte can be a first one. -/
theorem whitespace_overlap : ∀ c ∈ whitespace, ∀ c' ∈ whitespace, ∀ u ∈ c.tails, u ≠ [] → u <+: c' → u = c ∧ c = c' := by
  intro c hc c' hc' u hu hNe hPrefix
  obtain ⟨b, u, rfl⟩ := List.exists_cons_of_ne_nil hNe
  obtain ⟨rest, rfl⟩ := hPrefix
  obtain ⟨hWidth', hFirst'⟩ := (whitespace_shape _ hc').1 b rfl
  obtain ⟨d, t, rfl⟩ := List.exists_cons_of_ne_nil (whitespace_ne_nil c hc)
  rcases List.suffix_cons_iff.mp ((List.mem_tails _ _).mp hu) with hWhole | hTail
  · obtain ⟨rfl, rfl⟩ := List.cons.inj hWhole
    have hWidth := ((whitespace_shape _ hc).1 b rfl).1
    rw [hWidth', List.length_append] at hWidth
    have hRest : rest = [] := List.eq_nil_of_length_eq_zero (by omega)
    rw [hRest, List.append_nil]
    exact ⟨rfl, rfl⟩
  · obtain ⟨hLow, hHigh⟩ := (whitespace_shape _ hc).2 b (hTail.subset List.mem_cons_self)
    rcases hFirst' with hAscii | hLead
    · exact absurd hAscii (UInt8.not_lt.mpr hLow)
    · exact absurd hHigh (UInt8.not_lt.mpr hLead)

theorem reversed_ne_nil : ∀ c ∈ whitespace.map List.reverse, c ≠ [] := by decide

variable {c s : Str}

private theorem eq_of_prefixes {c' : Str} (hc : c ∈ whitespace) (hc' : c' ∈ whitespace) (h : c <+: s)
    (h' : c' <+: s) : c = c' := by
  rcases List.prefix_or_prefix_of_prefix h h' with hPrefix | hPrefix
  · exact (whitespace_overlap c hc c' hc' c ((List.mem_tails _ _).mpr List.suffix_rfl) (whitespace_ne_nil c hc) hPrefix).2
  · exact (whitespace_overlap c' hc' c hc c' ((List.mem_tails _ _).mpr List.suffix_rfl) (whitespace_ne_nil c' hc') hPrefix).2.symm

theorem eq_of_suffixes {c' : Str} (hc : c ∈ whitespace) (hc' : c' ∈ whitespace) (h : c <:+ s) (h' : c' <:+ s) : c = c' := by
  rcases List.suffix_or_suffix_of_suffix h h' with hSuffix | hSuffix
  · exact (whitespace_overlap c' hc' c hc c ((List.mem_tails _ _).mpr hSuffix) (whitespace_ne_nil c hc) List.prefix_rfl).2.symm
  · exact (whitespace_overlap c hc c' hc' c' ((List.mem_tails _ _).mpr hSuffix) (whitespace_ne_nil c' hc') List.prefix_rfl).2

theorem trimStart_suffix (s : Str) : trimStart s <:+ s := dropChars_suffix _

theorem trimEnd_isPrefix (s : Str) : trimEnd s <+: s := by
  rw [← List.reverse_suffix, trimEnd, List.reverse_reverse]
  exact dropChars_suffix _

theorem trimStart_cases (s : Str) :
    (∃ c rest, c ∈ whitespace ∧ s = c ++ rest ∧ trimStart s = trimStart rest) ∨
      (∀ c ∈ whitespace, ¬ c <+: s) ∧ trimStart s = s := by
  rcases dropChars_cases whitespace s with ⟨c, rest, hc, rfl, hDrop⟩ | hNone
  · refine Or.inl ⟨c, rest, hc, rfl, ?_⟩
    have hLength := List.length_pos_of_ne_nil (whitespace_ne_nil c hc)
    rw [trimStart, dropChars_fuel whitespace_ne_nil le_rfl (Nat.le_succ _), hDrop]
    refine dropChars_fuel whitespace_ne_nil ?_ le_rfl
    rw [List.length_append]
    omega
  · refine Or.inr ⟨fun c hc hPrefix => ?_, dropChars_eq _ hNone⟩
    rw [← List.isPrefixOf_iff_prefix, hNone c hc] at hPrefix
    cases hPrefix

theorem trimEnd_cases (s : Str) :
    (∃ c rest, c ∈ whitespace ∧ s = rest ++ c ∧ trimEnd s = trimEnd rest) ∨
      (∀ c ∈ whitespace, ¬ c <:+ s) ∧ trimEnd s = s := by
  rcases dropChars_cases (whitespace.map List.reverse) s.reverse with ⟨d, rest, hd, hReverse, hDrop⟩ | hNone
  · obtain ⟨c, hc, rfl⟩ := List.mem_map.mp hd
    have hs : s = rest.reverse ++ c := by
      rw [← List.reverse_reverse s, hReverse, List.reverse_append, List.reverse_reverse]
    refine Or.inl ⟨c, rest.reverse, hc, hs, ?_⟩
    have hLength := List.length_pos_of_ne_nil (whitespace_ne_nil c hc)
    have hFuel : s.reverse.length ≤ s.length + 1 := by rw [List.length_reverse]; omega
    rw [trimEnd, dropChars_fuel reversed_ne_nil List.length_reverse.le hFuel, hDrop, trimEnd, List.reverse_reverse]
    refine congrArg _ (dropChars_fuel reversed_ne_nil ?_ List.length_reverse.ge)
    rw [hs, List.length_append, List.length_reverse]
    omega
  · refine Or.inr ⟨fun c hc hSuffix => ?_, ?_⟩
    · have hPrefix : c.reverse.isPrefixOf s.reverse = true :=
        List.isPrefixOf_iff_prefix.mpr (List.reverse_prefix.mpr hSuffix)
      rw [hNone c.reverse (List.mem_map_of_mem hc)] at hPrefix
      cases hPrefix
    · rw [trimEnd, dropChars_eq _ hNone, List.reverse_reverse]

theorem trimStart_append (hc : c ∈ whitespace) (s : Str) : trimStart (c ++ s) = trimStart s := by
  rcases trimStart_cases (c ++ s) with ⟨c', rest, hc', hEq, hTrim⟩ | ⟨hNone, -⟩
  · obtain rfl : c = c' := eq_of_prefixes hc hc' (List.prefix_append c s) (hEq ▸ List.prefix_append c' rest)
    rw [hTrim, List.append_cancel_left hEq]
  · exact absurd (List.prefix_append c s) (hNone c hc)

theorem trimEnd_append (hc : c ∈ whitespace) (s : Str) : trimEnd (s ++ c) = trimEnd s := by
  rcases trimEnd_cases (s ++ c) with ⟨c', rest, hc', hEq, hTrim⟩ | ⟨hNone, -⟩
  · obtain rfl : c = c' := eq_of_suffixes hc hc' (List.suffix_append s c) (hEq ▸ List.suffix_append rest c')
    rw [hTrim, List.append_cancel_right hEq]
  · exact absurd (List.suffix_append s c) (hNone c hc)

/-- What `trimEnd` leaves ends in no blank. -/
theorem trimEnd_clean (s : Str) : ∀ c ∈ whitespace, ¬ c <:+ trimEnd s := by
  intro c hc hSuffix
  have hClean := dropChars_clean reversed_ne_nil (s := s.reverse) List.length_reverse.le c.reverse (List.mem_map_of_mem hc)
  rw [trimEnd, ← List.reverse_prefix, List.reverse_reverse, ← List.isPrefixOf_iff_prefix, hClean] at hSuffix
  cases hSuffix

theorem trimEnd_of_clean (h : ∀ c ∈ whitespace, ¬ c <:+ s) : trimEnd s = s := by
  rcases trimEnd_cases s with ⟨c, rest, hc, rfl, -⟩ | ⟨-, hTrim⟩
  · exact absurd (List.suffix_append rest c) (h c hc)
  · exact hTrim

theorem trimStart_of_clean (h : ∀ c ∈ whitespace, ¬ c <+: s) : trimStart s = s := by
  rcases trimStart_cases s with ⟨c, rest, hc, rfl, -⟩ | ⟨-, hTrim⟩
  · exact absurd (List.prefix_append c rest) (h c hc)
  · exact hTrim

theorem trimEnd_idem (s : Str) : trimEnd (trimEnd s) = trimEnd s := trimEnd_of_clean (trimEnd_clean s)

private theorem trimEnd_append_trimEnd (x s : Str) : trimEnd (x ++ trimEnd s) = trimEnd (x ++ s) := by
  induction hLength : s.length using Nat.strong_induction_on generalizing s with
  | _ n ih =>
    rcases trimEnd_cases s with ⟨c, rest, hc, rfl, hTrim⟩ | ⟨-, hTrim⟩
    · have hShort : rest.length < n := by
        have hPos := List.length_pos_of_ne_nil (whitespace_ne_nil c hc)
        rw [← hLength, List.length_append]
        omega
      rw [hTrim, ih _ hShort rest rfl, ← List.append_assoc, trimEnd_append hc]
    · rw [hTrim]

private theorem trimEnd_blank_append (hc : c ∈ whitespace) (hs : s ≠ []) (hClean : ∀ c ∈ whitespace, ¬ c <:+ s) :
    trimEnd (c ++ s) = c ++ s := by
  refine trimEnd_of_clean fun c' hc' hSuffix => ?_
  rcases List.suffix_or_suffix_of_suffix hSuffix (List.suffix_append c s) with h | ⟨u, rfl⟩
  · exact hClean c' hc' h
  · by_cases hu : u = []
    · exact hClean _ hc' (hu ▸ List.suffix_rfl)
    · obtain ⟨v, hv⟩ := hSuffix
      have hTail : u <:+ c := ⟨v, List.append_cancel_right ((List.append_assoc v u s).trans hv)⟩
      have hSame := whitespace_overlap c hc (u ++ s) hc' u ((List.mem_tails _ _).mpr hTail) hu (List.prefix_append u s)
      have hWhole : u ++ s = u := hSame.2.symm.trans hSame.1.symm
      exact hs (List.append_cancel_left (hWhole.trans (List.append_nil u).symm))

/-- The two ends of a text are trimmed in either order. -/
theorem trimStart_trimEnd (s : Str) : trimStart (trimEnd s) = trim s := by
  induction hLength : s.length using Nat.strong_induction_on generalizing s with
  | _ n ih =>
    rcases trimStart_cases s with ⟨c, rest, hc, rfl, hTrim⟩ | ⟨hNone, hTrim⟩
    · have hShort : rest.length < n := by
        have hPos := List.length_pos_of_ne_nil (whitespace_ne_nil c hc)
        rw [← hLength, List.length_append]
        omega
      rw [trim, hTrim, ← trim, ← ih _ hShort rest rfl, ← trimEnd_append_trimEnd c rest]
      by_cases hBlank : trimEnd rest = []
      · rw [hBlank, List.append_nil]
        have hGone : trimEnd c = [] := trimEnd_append hc []
        rw [hGone]
      · rw [trimEnd_blank_append hc hBlank (trimEnd_clean rest), trimStart_append hc]
    · rw [trim, hTrim]
      exact trimStart_of_clean fun c hc hPrefix => hNone c hc (hPrefix.trans (trimEnd_isPrefix s))

private theorem trimStart_idem (s : Str) : trimStart (trimStart s) = trimStart s :=
  trimStart_of_clean fun c hc hPrefix => by
    have hClean := dropChars_clean whitespace_ne_nil (s := s) le_rfl c hc
    rw [← List.isPrefixOf_iff_prefix, trimStart, hClean] at hPrefix
    cases hPrefix

theorem trim_trimStart (s : Str) : trim (trimStart s) = trim s := by
  rw [trim, trimStart_idem, trim]

theorem trim_trimEnd (s : Str) : trim (trimEnd s) = trim s := by
  rw [trim, trimStart_trimEnd, trim, trimEnd_idem]

theorem trim_idem (s : Str) : trim (trim s) = trim s := by
  rw [← trimStart_trimEnd s, trim_trimStart, trim_trimEnd, trimStart_trimEnd]

section
variable {b : UInt8} (h : ∀ c ∈ whitespace, b ∉ c)
include h

theorem trimStart_barrier (x u : Str) : trimStart (x ++ b :: u) = trimStart x ++ b :: u := by
  rw [trimStart, dropChars_barrier h, trimStart]
  refine congrArg (· ++ b :: u) (dropChars_fuel whitespace_ne_nil ?_ le_rfl)
  rw [List.length_append]
  exact Nat.le_add_right _ _

theorem trimEnd_barrier (u x : Str) : trimEnd (u ++ b :: x) = u ++ b :: trimEnd x := by
  have hReversed : ∀ c ∈ whitespace.map List.reverse, b ∉ c := by
    intro d hd
    obtain ⟨c, hc, rfl⟩ := List.mem_map.mp hd
    exact fun hb => h c hc (List.mem_reverse.mp hb)
  have hSplit : (u ++ b :: x).reverse = x.reverse ++ b :: u.reverse := by
    rw [List.reverse_append, List.reverse_cons, List.append_assoc, List.singleton_append]
  have hFuel : dropChars (whitespace.map List.reverse) (u ++ b :: x).length x.reverse =
      dropChars (whitespace.map List.reverse) x.length x.reverse := by
    refine dropChars_fuel reversed_ne_nil ?_ List.length_reverse.le
    rw [List.length_reverse, List.length_append, List.length_cons]
    omega
  rw [trimEnd, hSplit, dropChars_barrier hReversed, hFuel, List.reverse_append, List.reverse_cons, List.reverse_reverse,
    List.append_assoc, List.singleton_append, trimEnd]

theorem mem_trim_iff (s : Str) : b ∈ trim s ↔ b ∈ s := by
  refine ⟨fun hb => ?_, fun hb => ?_⟩
  · exact (trimStart_suffix s).subset ((trimEnd_isPrefix _).subset hb)
  · obtain ⟨x, u, rfl⟩ := List.append_of_mem hb
    rw [trim, trimStart_barrier h, trimEnd_barrier h]
    exact List.mem_append_right _ List.mem_cons_self

end

/-- Nothing is trimmed from a text without a byte of a blank. -/
theorem trim_of_all {P : UInt8 → Bool} (hBlank : ∀ c ∈ whitespace, c.all (fun b => !P b) = true) (h : s.all P = true) :
    trim s = s := by
  have hNone : ∀ c ∈ whitespace, ¬ c ⊆ s := by
    intro c hc hSubset
    obtain ⟨b, hb⟩ := List.exists_mem_of_ne_nil c (whitespace_ne_nil c hc)
    have hNot := List.all_eq_true.mp (hBlank c hc) b hb
    rw [List.all_eq_true.mp h b (hSubset hb)] at hNot
    cases hNot
  rw [trim, trimStart_of_clean fun c hc hPrefix => hNone c hc hPrefix.subset,
    trimEnd_of_clean fun c hc hSuffix => hNone c hc hSuffix.subset]

end Eggfetch.Text
