import Eggfetch.Text.Trim

/-! The texts that are read as numbers. -/
namespace Eggfetch.Text

theorem ne_of_isDigit {b c : UInt8} (h : isDigit b = true) (hc : isDigit c = false) : b ≠ c := by
  rintro rfl
  cases h.symm.trans hc

/-- What is read as a number is an optional `+` and digits. -/
theorem parseUnsigned_bytes {max n : Nat} {value : Str} (h : parseUnsigned max value = some n) :
    ∀ b ∈ value, b = 0x2b ∨ isDigit b = true := by
  unfold parseUnsigned at h
  split at h
  · dsimp only at h
    split_ifs at h with hbad hmax
    simp only [List.isEmpty_iff, not_or, not_not, List.all_eq_true] at hbad
    intro b hb
    rcases List.mem_cons.mp hb with rfl | hb
    · exact .inl rfl
    · exact .inr (hbad.2 b hb)
  · dsimp only at h
    split_ifs at h with hbad hmax
    simp only [List.isEmpty_iff, not_or, not_not, List.all_eq_true] at hbad
    exact fun b hb => .inr (hbad.2 b hb)

theorem parseUnsigned_le {max n : Nat} {value : Str} (h : parseUnsigned max value = some n) : n ≤ max := by
  unfold parseUnsigned at h
  dsimp only at h
  split_ifs at h with hDigits hMax
  rw [Option.some.injEq] at h
  exact h ▸ hMax

theorem trim_digits {s : Str} (h : s.all isDigit = true) : trim s = s := trim_of_all (by decide) h

theorem digits_ascii {s : Str} (h : s.all isDigit = true) : ∀ b ∈ s, b < 0x80 := by
  intro b hb
  have hdigit := List.all_eq_true.mp h b hb
  simp only [isDigit, Bool.and_eq_true, decide_eq_true_eq, UInt8.le_iff_toNat_le, UInt8.reduceToNat] at hdigit
  simp only [UInt8.lt_iff_toNat_lt, UInt8.reduceToNat]
  omega

end Eggfetch.Text
