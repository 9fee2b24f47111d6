import Eggfetch.Text.Chars
import Mathlib.Data.List.Basic

/-! Texts that can be read back in one way: parts behind separators, numerals, and digits of a
fixed width. -/
namespace Eggfetch.Text

theorem utf8_inj {s t : String} : utf8 s = utf8 t ↔ s = t := by
  refine ⟨fun h => ?_, fun h => h ▸ rfl⟩
  exact String.toByteArray_inj.mp (ByteArray.ext (Array.toList_inj.mp h))

section
variable {α : Type*} {a : α} {x y s t : List α}

/-- What comes before the first separator, and what comes after it. -/
theorem append_sep_inj (hx : a ∉ x) (hy : a ∉ y) : x ++ a :: s = y ++ a :: t ↔ x = y ∧ s = t := by
  refine ⟨fun h => ?_, fun ⟨hxy, hst⟩ => by rw [hxy, hst]⟩
  induction x generalizing y with
  | nil =>
    cases y with
    | nil => exact ⟨rfl, (List.cons.inj h).2⟩
    | cons b y => exact absurd (List.cons.inj h).1 (List.ne_and_not_mem_of_not_mem_cons hy).1
  | cons b x ih =>
    obtain ⟨hb, hx⟩ := List.ne_and_not_mem_of_not_mem_cons hx
    cases y with
    | nil => exact absurd (List.cons.inj h).1.symm hb
    | cons c y =>
      obtain ⟨rfl, htail⟩ := List.cons.inj h
      obtain ⟨rfl, rfl⟩ := ih hx (List.ne_and_not_mem_of_not_mem_cons hy).2 htail
      exact ⟨rfl, rfl⟩

/-- What comes before the last separator, and what comes after it. -/
theorem append_last_sep_inj (hs : a ∉ s) (ht : a ∉ t) : x ++ a :: s = y ++ a :: t ↔ x = y ∧ s = t := by
  have hreverse (u v : List α) : (u ++ a :: v).reverse = v.reverse ++ a :: u.reverse := by
    rw [List.reverse_append, List.reverse_cons, List.append_assoc, List.singleton_append]
  rw [← List.reverse_inj, hreverse, hreverse, append_sep_inj (by rwa [List.mem_reverse]) (by rwa [List.mem_reverse]),
    List.reverse_inj, List.reverse_inj, and_comm]

def terminated (a : α) (records : List (List α)) : List α := records.flatMap (· ++ [a])

theorem terminated_cons (record : List α) (records : List (List α)) :
    terminated a (record :: records) = record ++ a :: terminated a records := by
  rw [terminated, List.flatMap_cons, List.append_assoc]
  rfl

theorem terminated_inj {xs ys : List (List α)} (hxs : ∀ x ∈ xs, a ∉ x) (hys : ∀ y ∈ ys, a ∉ y) :
    terminated a xs = terminated a ys ↔ xs = ys := by
  refine ⟨fun h => ?_, fun h => h ▸ rfl⟩
  induction xs generalizing ys with
  | nil =>
    cases ys with
    | nil => rfl
    | cons y ys =>
      rw [terminated_cons] at h
      exact absurd h.symm (List.append_ne_nil_of_right_ne_nil _ (List.cons_ne_nil _ _))
  | cons x xs ih =>
    obtain ⟨hx, hxs⟩ := List.forall_mem_cons.mp hxs
    cases ys with
    | nil =>
      rw [terminated_cons] at h
      exact absurd h (List.append_ne_nil_of_right_ne_nil _ (List.cons_ne_nil _ _))
    | cons y ys =>
      obtain ⟨hy, hys⟩ := List.forall_mem_cons.mp hys
      rw [terminated_cons, terminated_cons, append_sep_inj hx hy] at h
      rw [h.1, ih hxs hys h.2]

/-- Pieces that a symbol joins. -/
theorem intercalate_inj {xs ys : List (List α)} (hx : xs ≠ []) (hy : ys ≠ []) (hxs : ∀ x ∈ xs, a ∉ x) (hys : ∀ y ∈ ys, a ∉ y) :
    [a].intercalate xs = [a].intercalate ys ↔ xs = ys := by
  have hjoin {zs : List (List α)} (hz : zs ≠ []) : terminated a zs = [a].intercalate zs ++ [a] := by
    induction zs with
    | nil => exact absurd rfl hz
    | cons z zs ih =>
      cases zs with
      | nil => rw [List.intercalate_singleton]; exact (terminated_cons _ _)
      | cons z' zs =>
        rw [terminated_cons, ih (List.cons_ne_nil _ _), List.intercalate_cons_cons, List.append_assoc, List.append_assoc]
        rfl
  rw [← terminated_inj hxs hys, hjoin hx, hjoin hy, List.append_cancel_right_eq]

theorem intercalate_append {xs ys : List (List α)} (hx : xs ≠ []) (hy : ys ≠ []) :
    [a].intercalate (xs ++ ys) = [a].intercalate xs ++ a :: [a].intercalate ys := by
  induction xs with
  | nil => exact absurd rfl hx
  | cons x xs ih =>
    cases xs with
    | nil =>
      obtain ⟨y, ys, rfl⟩ := List.exists_cons_of_ne_nil hy
      rw [List.singleton_append, List.intercalate_cons_cons, List.intercalate_singleton, List.append_assoc]
      rfl
    | cons x' xs =>
      rw [List.cons_append, List.cons_append, List.intercalate_cons_cons, ← List.cons_append, ih (List.cons_ne_nil _ _),
        List.intercalate_cons_cons, List.append_assoc, List.append_assoc, List.append_assoc]

end

private theorem digitChar_inj {m n : Nat} (hm : m < 16) (hn : n < 16) : m.digitChar = n.digitChar ↔ m = n := by
  have hall : ∀ m < 16, ∀ n < 16, m.digitChar = n.digitChar → m = n := by decide
  exact ⟨hall m hm n hn, fun h => h ▸ rfl⟩

/-- A numeral of some base tells the number. -/
theorem toDigits_inj {base m n : Nat} (hbase : 1 < base) (hhex : base ≤ 16) :
    Nat.toDigits base m = Nat.toDigits base n ↔ m = n := by
  refine ⟨fun h => ?_, fun h => h ▸ rfl⟩
  induction m using Nat.strongRecOn generalizing n with
  | _ m ih =>
    have hpos : 0 < base := Nat.zero_lt_of_lt hbase
    have hlast (k : Nat) : k % base < 16 := Nat.lt_of_lt_of_le (Nat.mod_lt k hpos) hhex
    rw [Nat.toDigits_eq_if hbase, Nat.toDigits_eq_if hbase (n := n)] at h
    split at h
    · rename_i hm
      split at h
      · rename_i hn
        exact (digitChar_inj (by omega) (by omega)).mp (List.singleton_inj.mp h)
      · have hlength := congrArg List.length h
        have hsome : 0 < (Nat.toDigits base (n / base)).length := Nat.length_toDigits_pos
        simp only [List.length_singleton, List.length_append] at hlength
        omega
    · rename_i hm
      split at h
      · have hlength := congrArg List.length h
        have hsome : 0 < (Nat.toDigits base (m / base)).length := Nat.length_toDigits_pos
        simp only [List.length_singleton, List.length_append] at hlength
        omega
      · obtain ⟨hdiv, hmod⟩ := List.append_inj' h rfl
        have hsame := (digitChar_inj (hlast m) (hlast n)).mp (List.singleton_inj.mp hmod)
        have hrest := ih (m / base) (Nat.div_lt_self (by omega) hbase) hdiv
        rw [← Nat.div_add_mod m base, ← Nat.div_add_mod n base, hsame, hrest]

/-- The bytes of a numeral are digits. -/
theorem mem_numeral {base n : Nat} (hbase : 1 < base) {b : UInt8} (hb : b ∈ utf8 (String.ofList (Nat.toDigits base n)))
    (hhex : base ≤ 16) : ∃ d < base, b = UInt8.ofNat d.digitChar.toNat := by
  rw [utf8_ofList, List.mem_flatMap] at hb
  obtain ⟨c, hc, hb⟩ := hb
  have hdigit : ∃ d < base, c = d.digitChar := by
    clear hb
    induction n using Nat.strongRecOn with
    | _ n ih =>
      rw [Nat.toDigits_eq_if hbase] at hc
      split at hc
      · rename_i hn
        exact ⟨n, hn, List.mem_singleton.mp hc⟩
      · rcases List.mem_append.mp hc with hc | hc
        · exact ih (n / base) (Nat.div_lt_self (by omega) hbase) hc
        · exact ⟨n % base, Nat.mod_lt n (by omega), List.mem_singleton.mp hc⟩
  obtain ⟨d, hd, rfl⟩ := hdigit
  have hascii : ∀ d < 16, d.digitChar.toNat < 0x80 := by decide
  rw [utf8EncodeChar_ascii (hascii d (Nat.lt_of_lt_of_le hd hhex)), List.mem_singleton] at hb
  exact ⟨d, hd, hb⟩

def digitsOf (base : Nat) : Nat → Nat → List Nat
  | 0, _ => []
  | width + 1, n => n % base :: digitsOf base width (n / base)

theorem length_digitsOf (base width n : Nat) : (digitsOf base width n).length = width := by
  induction width generalizing n with
  | zero => rfl
  | succ width ih => rw [digitsOf, List.length_cons, ih]

theorem digitsOf_lt {base width n : Nat} (hbase : 0 < base) : ∀ d ∈ digitsOf base width n, d < base := by
  induction width generalizing n with
  | zero => exact fun d hd => absurd hd List.not_mem_nil
  | succ width ih => exact List.forall_mem_cons.mpr ⟨Nat.mod_lt n hbase, ih⟩

theorem digitsOf_inj {base width m n : Nat} (hm : m < base ^ width) (hn : n < base ^ width) :
    digitsOf base width m = digitsOf base width n ↔ m = n := by
  refine ⟨fun h => ?_, fun h => h ▸ rfl⟩
  induction width generalizing m n with
  | zero =>
    rw [Nat.pow_zero] at hm hn
    omega
  | succ width ih =>
    rw [Nat.pow_succ, Nat.mul_comm] at hm hn
    obtain ⟨hlow, hhigh⟩ := List.cons.inj h
    have hrest := ih (Nat.div_lt_of_lt_mul hm) (Nat.div_lt_of_lt_mul hn) hhigh
    rw [← Nat.div_add_mod m base, ← Nat.div_add_mod n base, hlow, hrest]

end Eggfetch.Text
