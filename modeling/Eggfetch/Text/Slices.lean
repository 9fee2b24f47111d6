import Eggfetch.Text.Chars
import Eggfetch.Text.Trim

/-! Slices that fall between the characters of a text. -/
namespace Eggfetch.Text

/-- The bytes of a `str`. -/
def IsText (s : Str) : Prop := ∃ t : String, utf8 t = s

def encode (chars : List Char) : Str := chars.flatMap String.utf8EncodeChar

variable {s x y : Str} {a : UInt8}

theorem isText_iff : IsText s ↔ ∃ chars, encode chars = s := by
  refine ⟨fun ⟨t, ht⟩ => ⟨t.toList, ?_⟩, fun ⟨chars, hs⟩ => ⟨String.ofList chars, ?_⟩⟩
  · rw [← ht, utf8_toList, encode]
  · rw [← hs, utf8_ofList, encode]

theorem IsText.nil : IsText [] := isText_iff.mpr ⟨[], rfl⟩

theorem IsText.append (hx : IsText x) (hy : IsText y) : IsText (x ++ y) := by
  obtain ⟨s, rfl⟩ := hx
  obtain ⟨t, rfl⟩ := hy
  exact ⟨s ++ t, utf8_append s t⟩

private theorem eq_of_mem_ascii {c : Char} (ha : a < 0x80) (h : a ∈ String.utf8EncodeChar c) : String.utf8EncodeChar c = [a] := by
  by_cases hAscii : c.toNat < 0x80
  · rw [utf8EncodeChar_ascii hAscii] at h ⊢
    rw [List.mem_singleton.mp h]
  · have hle := le_of_mem_utf8EncodeChar hAscii h
    rw [UInt8.le_iff_toNat_le] at hle
    rw [UInt8.lt_iff_toNat_lt] at ha
    omega

/-- An ASCII byte is a character of its own, with texts on both sides. -/
theorem IsText.cut (ha : a < 0x80) (h : IsText (x ++ a :: y)) : IsText x ∧ IsText y := by
  obtain ⟨chars, hChars⟩ := isText_iff.mp h
  clear h
  induction chars generalizing x with
  | nil => exact absurd hChars.symm (by simp [encode])
  | cons c chars ih =>
    rw [encode, List.flatMap_cons, ← encode] at hChars
    rcases List.append_eq_append_iff.mp hChars with ⟨x', rfl, hRest⟩ | ⟨v, hEncode, hRest⟩
    · obtain ⟨hx, hy⟩ := ih hRest
      exact ⟨IsText.append (isText_iff.mpr ⟨[c], List.flatMap_singleton _ _⟩) hx, hy⟩
    · cases v with
      | nil =>
        rw [List.append_nil] at hEncode
        exact ⟨isText_iff.mpr ⟨[c], hEncode ▸ List.flatMap_singleton _ _⟩, (ih (x := []) hRest.symm).2⟩
      | cons b v =>
        obtain ⟨rfl, rfl⟩ := List.cons.inj hRest
        have hSingle := eq_of_mem_ascii ha (hEncode ▸ List.mem_append_right x List.mem_cons_self)
        rw [hSingle] at hEncode
        obtain ⟨rfl, rfl⟩ : x = [] ∧ v = [] := by
          have hLength := congrArg List.length hEncode
          rw [List.length_append, List.length_cons, List.length_cons, List.length_nil] at hLength
          exact ⟨List.eq_nil_of_length_eq_zero (by omega), List.eq_nil_of_length_eq_zero (by omega)⟩
        exact ⟨IsText.nil, isText_iff.mpr ⟨chars, rfl⟩⟩

def blanks : List Char :=
  [' ', '\t', '\n', '\x0b', '\x0c', '\r', '\u0085', '\u00a0', '\u1680', '\u2028', '\u2029', '\u202f', '\u205f', '\u3000'] ++
  (List.range 11).map fun n => Char.ofNat (0x2000 + n)

theorem whitespace_eq : whitespace = blanks.map String.utf8EncodeChar := by
  decide

theorem encode_first_inj {c d : Char} (h : String.utf8EncodeChar c ++ x = String.utf8EncodeChar d ++ y) : c = d := by
  have hDecode : ∀ (e : Char) (z : Str), ByteArray.utf8DecodeChar? (String.utf8EncodeChar e ++ z).toByteArray 0 = some e := by
    intro e z
    rw [List.toByteArray_append]
    exact ByteArray.utf8DecodeChar?_utf8EncodeChar_append
  have hBoth := hDecode c x
  rw [h, hDecode] at hBoth
  exact (Option.some.inj hBoth).symm

private theorem isTail_of_tail {c : Char} {b : UInt8} (h : b ∈ (String.utf8EncodeChar c).tail) : 0x80 ≤ b ∧ b < 0xc0 := by
  rw [String.utf8EncodeChar] at h
  rw [UInt8.le_iff_toNat_le, UInt8.lt_iff_toNat_lt]
  split_ifs at h <;> simp only [List.tail_cons, List.mem_cons, List.not_mem_nil, or_false] at h
  · rw [h]
    simp
    omega
  · obtain rfl | rfl := h <;> simp <;> omega
  · obtain rfl | rfl | rfl := h <;> simp <;> omega

private theorem blank_first : ∀ c ∈ whitespace, ∀ b ∈ c.head?, ¬ (0x80 ≤ b ∧ b < 0xc0) := by
  have hAll : whitespace.all (fun c => c.head?.all fun b => !decide (0x80 ≤ b ∧ b < 0xc0)) = true := by decide
  intro c hc b hb hTail
  have hFirst := List.all_eq_true.mp hAll c hc
  rw [Option.mem_def.mp hb, Option.all_some, decide_eq_true hTail] at hFirst
  cases hFirst

private theorem exists_blank {c : Str} (h : c ∈ whitespace) : ∃ d, String.utf8EncodeChar d = c := by
  rw [whitespace_eq] at h
  obtain ⟨d, -, hd⟩ := List.mem_map.mp h
  exact ⟨d, hd⟩

theorem IsText.of_blank_append {c : Str} (hc : c ∈ whitespace) (h : IsText (c ++ s)) : IsText s := by
  obtain ⟨d, rfl⟩ := exists_blank hc
  obtain ⟨chars, hChars⟩ := isText_iff.mp h
  cases chars with
  | nil => exact absurd hChars.symm (by simp [encode])
  | cons e chars =>
    rw [encode, List.flatMap_cons, ← encode] at hChars
    obtain rfl := encode_first_inj hChars
    exact isText_iff.mpr ⟨chars, List.append_cancel_left hChars⟩

theorem IsText.of_append_blank {c : Str} (hc : c ∈ whitespace) (h : IsText (s ++ c)) : IsText s := by
  obtain ⟨chars, hChars⟩ := isText_iff.mp h
  clear h
  induction chars generalizing s with
  | nil =>
    have hNil : s = [] := (List.append_eq_nil_iff.mp hChars.symm).1
    exact hNil ▸ IsText.nil
  | cons e chars ih =>
    rw [encode, List.flatMap_cons, ← encode] at hChars
    rcases List.append_eq_append_iff.mp hChars with ⟨s', rfl, hRest⟩ | ⟨v, hEncode, hRest⟩
    · exact IsText.append (isText_iff.mpr ⟨[e], List.flatMap_singleton _ _⟩) (ih hRest)
    · cases s with
      | nil => exact IsText.nil
      | cons b s =>
        -- the blank would begin inside the character
        cases v with
        | nil =>
          rw [List.append_nil] at hEncode
          exact isText_iff.mpr ⟨[e], hEncode ▸ List.flatMap_singleton _ _⟩
        | cons d v =>
          have hTail : d ∈ (String.utf8EncodeChar e).tail := by
            rw [hEncode]
            exact List.mem_append_right s List.mem_cons_self
          exact absurd (isTail_of_tail hTail) (blank_first c hc d (by rw [hRest]; rfl))

theorem IsText.trimStart (h : IsText s) : IsText (trimStart s) := by
  induction hLength : s.length using Nat.strong_induction_on generalizing s with
  | _ n ih =>
    rcases trimStart_cases s with ⟨c, rest, hc, rfl, hTrim⟩ | ⟨-, hTrim⟩
    · rw [hTrim]
      have hPos := List.length_pos_of_ne_nil (whitespace_ne_nil c hc)
      rw [List.length_append] at hLength
      exact ih _ (by omega) (h.of_blank_append hc) rfl
    · rwa [hTrim]

theorem IsText.trimEnd (h : IsText s) : IsText (trimEnd s) := by
  induction hLength : s.length using Nat.strong_induction_on generalizing s with
  | _ n ih =>
    rcases trimEnd_cases s with ⟨c, rest, hc, rfl, hTrim⟩ | ⟨-, hTrim⟩
    · rw [hTrim]
      have hPos := List.length_pos_of_ne_nil (whitespace_ne_nil c hc)
      rw [List.length_append] at hLength
      exact ih _ (by omega) (h.of_append_blank hc) rfl
    · rwa [hTrim]

theorem IsText.trim (h : IsText s) : IsText (trim s) := h.trimStart.trimEnd

/-- A split at an ASCII byte leaves texts. -/
theorem IsText.splitOn (ha : a < 0x80) (h : IsText s) : ∀ piece ∈ s.splitOn a, IsText piece := by
  induction hLength : s.length using Nat.strong_induction_on generalizing s with
  | _ n ih =>
    by_cases hMem : a ∈ s
    · obtain ⟨x, y, rfl, hx⟩ := List.eq_append_cons_of_mem hMem
      obtain ⟨hText, hRest⟩ := h.cut ha
      intro piece hPiece
      rw [List.splitOn_append_cons_self, List.splitOn_eq_singleton hx, List.singleton_append] at hPiece
      rcases List.mem_cons.mp hPiece with rfl | hPiece
      · exact hText
      · rw [List.length_append, List.length_cons] at hLength
        exact ih _ (by omega) hRest rfl piece hPiece
    · intro piece hPiece
      rw [List.splitOn_eq_singleton hMem, List.mem_singleton] at hPiece
      exact hPiece ▸ h

end Eggfetch.Text
