import Eggfetch.Text.Bytes

/-! The UTF-8 bytes of a string, character by character. -/
namespace Eggfetch.Text

theorem utf8_ofList (l : List Char) : utf8 (String.ofList l) = l.flatMap String.utf8EncodeChar := by
  simp [utf8, List.utf8Encode]

theorem utf8_toList (s : String) : utf8 s = s.toList.flatMap String.utf8EncodeChar := by
  rw [← utf8_ofList, String.ofList_toList]

theorem utf8_append (s t : String) : utf8 (s ++ t) = utf8 s ++ utf8 t := by
  simp [utf8_toList]

theorem utf8EncodeChar_ascii {c : Char} (h : c.toNat < 0x80) : String.utf8EncodeChar c = [UInt8.ofNat c.toNat] := by
  have hle : c.val.toNat ≤ 0x7f := Nat.le_of_lt_succ h
  rw [String.utf8EncodeChar]
  exact if_pos hle

/-- Every byte of another character has its high bit set. -/
theorem le_of_mem_utf8EncodeChar {c : Char} (h : ¬ c.toNat < 0x80) {b : UInt8}
    (hb : b ∈ String.utf8EncodeChar c) : 0x80 ≤ b := by
  have hle : ¬ c.val.toNat ≤ 0x7f := fun hle => h (Nat.lt_succ_of_le hle)
  rw [String.utf8EncodeChar] at hb
  simp only [if_neg hle] at hb
  rw [UInt8.le_iff_toNat_le]
  split_ifs at hb <;> simp only [List.mem_cons, List.not_mem_nil, or_false] at hb
  · obtain rfl | rfl := hb <;> simp <;> omega
  · obtain rfl | rfl | rfl := hb <;> simp <;> omega
  · obtain rfl | rfl | rfl | rfl := hb <;> simp <;> omega

/-- An ASCII byte stands for its own character. -/
theorem mem_utf8_ascii {s : String} {b : UInt8} (hb : b ∈ utf8 s) (h : b < 0x80) :
    ∃ c ∈ s.toList, c.toNat = b.toNat := by
  rw [utf8_toList, List.mem_flatMap] at hb
  obtain ⟨c, hc, hb⟩ := hb
  by_cases hAscii : c.toNat < 0x80
  · rw [utf8EncodeChar_ascii hAscii, List.mem_singleton] at hb
    refine ⟨c, hc, ?_⟩
    rw [hb, UInt8.toNat_ofNat']
    exact (Nat.mod_eq_of_lt (by omega)).symm
  · have hle := le_of_mem_utf8EncodeChar hAscii hb
    rw [UInt8.le_iff_toNat_le] at hle
    rw [UInt8.lt_iff_toNat_lt] at h
    omega

end Eggfetch.Text
