import Eggfetch.Text.Bytes
import Eggfetch.Text.Unique

/-! IP literals as `std::net` reads them, and numbers in network order. -/
namespace Eggfetch.Text

def ofDigits (base : Nat) (digits : List Nat) : Nat := digits.foldl (fun n d => base * n + d) 0

def toBeBytes (width n : Nat) : Str := (digitsOf 256 width n).reverse.map UInt8.ofNat

/-- `from_be_bytes` -/
def ofBeBytes (bytes : Str) : Nat := ofDigits 256 (bytes.map UInt8.toNat)

theorem length_toBeBytes (width n : Nat) : (toBeBytes width n).length = width := by
  rw [toBeBytes, List.length_map, List.length_reverse, length_digitsOf]

private theorem ofDigits_concat (base : Nat) (digits : List Nat) (d : Nat) :
    ofDigits base (digits ++ [d]) = base * ofDigits base digits + d := by
  rw [ofDigits, List.foldl_append]
  rfl

private theorem ofDigits_reverse_digitsOf {base width n : Nat} (h : n < base ^ width) :
    ofDigits base (digitsOf base width n).reverse = n := by
  induction width generalizing n with
  | zero =>
    rw [Nat.pow_zero] at h
    obtain rfl : n = 0 := by omega
    rfl
  | succ width ih =>
    rw [Nat.pow_succ, Nat.mul_comm] at h
    rw [digitsOf, List.reverse_cons, ofDigits_concat, ih (Nat.div_lt_of_lt_mul h), Nat.div_add_mod]

theorem ofBeBytes_toBeBytes {width n : Nat} (h : n < 256 ^ width) : ofBeBytes (toBeBytes width n) = n := by
  have hBytes : (toBeBytes width n).map UInt8.toNat = (digitsOf 256 width n).reverse := by
    rw [toBeBytes, List.map_map]
    refine (List.map_congr_left ?_).trans (List.map_id _)
    intro d hd
    have hLess := digitsOf_lt (by decide : 0 < 256) d (List.mem_reverse.mp hd)
    exact (UInt8.toNat_ofNat' ).trans (Nat.mod_eq_of_lt hLess)
  rw [ofBeBytes, hBytes, ofDigits_reverse_digitsOf h]

/-- `to_digit` -/
def digitValue (radix : Nat) (b : UInt8) : Option Nat :=
  let value :=
    if isDigit b then b.toNat - 0x30
    else if 0x61 ≤ asciiLower b && asciiLower b ≤ 0x7a then (asciiLower b).toNat - 0x61 + 10
    else radix
  if value < radix then some value else none

namespace Ip

def point : UInt8 := 0x2e
def separator : UInt8 := 0x3a

/-- At most `maxDigits` digits of a number of at most `max`. -/
def readNumber (radix maxDigits : Nat) (allowZeroPrefix : Bool) (max : Nat) (s : Str) : Option (Nat × Str) :=
  let digits := s.takeWhile fun b => (digitValue radix b).isSome
  if digits = [] ∨ maxDigits < digits.length then none
  else if allowZeroPrefix = false ∧ digits.head? = some 0x30 ∧ 1 < digits.length then none
  else
    let value := ofDigits radix (digits.map fun b => (digitValue radix b).getD 0)
    if value ≤ max then some (value, s.drop digits.length) else none

def readSeparator {α : Type} (sep : UInt8) (index : Nat) (read : Str → Option (α × Str)) (s : Str) : Option (α × Str) :=
  if index = 0 then read s
  else
    match s with
    | [] => none
    | b :: rest => if b = sep then read rest else none

def readOctets : Nat → Nat → Str → Option (List Nat × Str)
  | 0, _, s => some ([], s)
  | n + 1, index, s =>
    match readSeparator point index (readNumber 10 3 false 255) s with
    | none => none
    | some (octet, s) =>
      match readOctets n (index + 1) s with
      | none => none
      | some (octets, s) => some (octet :: octets, s)

def readIpv4Addr (s : Str) : Option (List Nat × Str) := readOctets 4 0 s

def pairs : List Nat → List Nat
  | high :: low :: rest => (256 * high + low) :: pairs rest
  | _ => []

/-- The groups, whether the last two are an IPv4 address, and the rest; `n` groups are left. -/
def readGroups : Nat → Nat → Str → List Nat × Bool × Str
  | 0, _, s => ([], false, s)
  | n + 1, index, s =>
    match if 0 < n then readSeparator separator index readIpv4Addr s else none with
    | some (octets, s) => (pairs octets, true, s)
    | none =>
      match readSeparator separator index (readNumber 16 4 true 0xffff) s with
      | none => ([], false, s)
      | some (group, s) =>
        let (groups, ipv4, s) := readGroups n (index + 1) s
        (group :: groups, ipv4, s)

/-- `::` stands for at least one group of zeroes. -/
def readIpv6Addr (s : Str) : Option (List Nat × Str) :=
  let (head, headIpv4, s) := readGroups 8 0 s
  if head.length = 8 then some (head, s)
  else if headIpv4 then none
  else
    match s with
    | 0x3a :: 0x3a :: s =>
      let (tail, _, s) := readGroups (8 - (head.length + 1)) 0 s
      some (head ++ List.replicate (8 - head.length - tail.length) 0 ++ tail, s)
    | _ => none

end Ip

open Ip

def parseIpv4Addr (s : Str) : Option (BitVec 32) :=
  match readIpv4Addr s with
  | some (octets, []) => some (BitVec.ofNat 32 (ofDigits 256 octets))
  | _ => none

def parseIpv6Addr (s : Str) : Option (BitVec 128) :=
  match readIpv6Addr s with
  | some (groups, []) => some (BitVec.ofNat 128 (ofDigits 65536 groups))
  | _ => none

example : parseIpv6Addr (utf8 "fe80::1:192.0.2.1") = some 0xfe8000000000000000000001c0000201#128 := by decide

section
variable {s : Str} {b : UInt8} {rest : Str}

theorem readNumber_none {radix maxDigits max : Nat} {allowZeroPrefix : Bool} (h : digitValue radix b = none) :
    readNumber radix maxDigits allowZeroPrefix max (b :: rest) = none := by
  have hDigits : (b :: rest).takeWhile (fun b => (digitValue radix b).isSome) = [] := by
    rw [List.takeWhile_cons, h]
    rfl
  rw [readNumber, hDigits]
  rfl

theorem readOctets_none (h : digitValue 10 b = none) (n : Nat) : readOctets (n + 1) 0 (b :: rest) = none := by
  rw [readOctets, readSeparator, if_pos rfl, readNumber_none h]

theorem readSeparator_zero {α : Type} (sep : UInt8) (read : Str → Option (α × Str)) :
    readSeparator sep 0 read s = read s := rfl

private theorem readSeparator_none {α : Type} {sep : UInt8} {index : Nat} {read : Str → Option (α × Str)} (hIndex : index ≠ 0)
    (h : sep ∉ s) : readSeparator sep index read s = none := by
  unfold readSeparator
  rw [if_neg hIndex]
  cases s with
  | nil => rfl
  | cons b rest =>
    dsimp only
    rw [if_neg]
    rintro rfl
    exact h List.mem_cons_self

theorem readGroups_nil (hIndex : index ≠ 0) (h : separator ∉ s) (n : Nat) : readGroups n index s = ([], false, s) := by
  cases n with
  | zero => rfl
  | succ n => simp only [readGroups, readSeparator_none hIndex h, ite_self]

/-- No literal starts with something else than a digit or a colon. -/
theorem parseIpv4Addr_none (h : digitValue 10 b = none) : parseIpv4Addr (b :: rest) = none := by
  rw [parseIpv4Addr, readIpv4Addr, readOctets_none h]

theorem parseIpv6Addr_none (h : digitValue 16 b = none) (hDecimal : digitValue 10 b = none) (hColon : b ≠ separator) :
    parseIpv6Addr (b :: rest) = none := by
  have hGroups : readGroups 8 0 (b :: rest) = ([], false, b :: rest) := by
    simp only [readGroups, readSeparator, if_true, readNumber_none h, readIpv4Addr, readOctets_none hDecimal, ite_self]
  have hRead : readIpv6Addr (b :: rest) = none := by
    simp only [readIpv6Addr, hGroups, List.length_nil, Nat.reduceEqDiff, if_false, Bool.false_eq_true]
    split
    · rename_i hCons
      exact absurd (List.cons.inj hCons).1 hColon
    · rfl
  rw [parseIpv6Addr, hRead]

private theorem readNumber_rest {radix maxDigits max n : Nat} {allowZeroPrefix : Bool}
    (h : readNumber radix maxDigits allowZeroPrefix max s = some (n, rest)) : rest ⊆ s := by
  unfold readNumber at h
  dsimp only at h
  split_ifs at h
  obtain ⟨-, rfl⟩ := Prod.mk.inj (Option.some.inj h)
  exact List.drop_subset _ s

private theorem readOctets_succ {n index : Nat} {octets : List Nat}
    (h : readOctets (n + 1) index s = some (octets, rest)) :
    ∃ octet between more, readSeparator point index (readNumber 10 3 false 255) s = some (octet, between) ∧
      readOctets n (index + 1) between = some (more, rest) ∧ octets = octet :: more := by
  rw [readOctets] at h
  cases hOctet : readSeparator point index (readNumber 10 3 false 255) s with
  | none =>
    rw [hOctet] at h
    cases h
  | some first =>
    simp only [hOctet] at h
    cases hMore : readOctets n (index + 1) first.2 with
    | none =>
      rw [hMore] at h
      cases h
    | some more =>
      rw [hMore] at h
      obtain ⟨rfl, rfl⟩ := Prod.mk.inj (Option.some.inj h)
      exact ⟨_, _, _, rfl, hMore, rfl⟩

private theorem length_readOctets {n index : Nat} {octets : List Nat} (h : readOctets n index s = some (octets, rest)) :
    octets.length = n := by
  induction n generalizing index s octets rest with
  | zero =>
    obtain ⟨rfl, -⟩ := Prod.mk.inj (Option.some.inj h)
    rfl
  | succ n ih =>
    obtain ⟨octet, between, more, -, hMore, rfl⟩ := readOctets_succ h
    rw [List.length_cons, ih hMore]

private theorem length_pairs (a b c d : Nat) : (pairs [a, b, c, d]).length = 2 := rfl

private theorem readGroups_short (h : separator ∉ s) :
    (readGroups 8 0 s).1.length ≠ 8 ∧ ((readGroups 8 0 s).2.1 = true ∨ separator ∉ (readGroups 8 0 s).2.2) := by
  rw [readGroups, if_pos (by decide : 0 < 7), readSeparator_zero, readSeparator_zero]
  cases hIpv4 : readIpv4Addr s with
  | some read =>
    obtain ⟨octets, rest⟩ := read
    obtain ⟨a, b, c, d, rfl⟩ := List.length_eq_four.mp (length_readOctets hIpv4)
    exact ⟨by rw [length_pairs]; decide, .inl rfl⟩
  | none =>
    dsimp only
    cases hGroup : readNumber 16 4 true 0xffff s with
    | none => exact ⟨(by decide : 0 ≠ 8), .inr h⟩
    | some read =>
      obtain ⟨group, rest⟩ := read
      have hRest : separator ∉ rest := fun hMem => h (readNumber_rest hGroup hMem)
      dsimp only
      rw [readGroups_nil Nat.one_ne_zero hRest]
      exact ⟨(by decide : 1 ≠ 8), .inr hRest⟩

/-- Without a colon there is no IPv6 literal. -/
theorem parseIpv6Addr_colon (h : separator ∉ s) : parseIpv6Addr s = none := by
  obtain ⟨hLength, hRest⟩ := readGroups_short h
  have hRead : readIpv6Addr s = none := by
    rw [readIpv6Addr]
    cases hGroups : readGroups 8 0 s with
    | mk head more =>
      obtain ⟨ipv4, rest⟩ := more
      rw [hGroups] at hLength hRest
      dsimp only at hLength hRest ⊢
      rw [if_neg hLength]
      split_ifs with hIpv4
      · rfl
      · have hColon := hRest.resolve_left hIpv4
        split
        · exact absurd List.mem_cons_self hColon
        · rfl
  rw [parseIpv6Addr, hRead]

private theorem mem_of_readNumber {radix maxDigits max n : Nat} {allowZeroPrefix : Bool}
    (h : readNumber radix maxDigits allowZeroPrefix max s = some (n, rest)) (hb : b ∈ s) :
    (digitValue radix b).isSome = true ∨ b ∈ rest := by
  unfold readNumber at h
  dsimp only at h
  split_ifs at h
  obtain ⟨-, rfl⟩ := Prod.mk.inj (Option.some.inj h)
  have hRest : s.drop (s.takeWhile fun b => (digitValue radix b).isSome).length =
      s.dropWhile fun b => (digitValue radix b).isSome := by
    conv_lhs => enter [2]; rw [← List.takeWhile_append_dropWhile (p := fun b => (digitValue radix b).isSome) (l := s)]
    exact List.drop_left
  rw [hRest]
  rw [← List.takeWhile_append_dropWhile (p := fun b => (digitValue radix b).isSome) (l := s)] at hb
  rcases List.mem_append.mp hb with hDigit | hMore
  · left
    have hHolds := List.mem_takeWhile_imp hDigit
    exact hHolds
  · exact .inr hMore

private theorem mem_of_readOctets {n index : Nat} {octets : List Nat} (h : readOctets n index s = some (octets, rest))
    (hb : b ∈ s) :
    (digitValue 10 b).isSome = true ∨ b = point ∨ b ∈ rest := by
  induction n generalizing index s octets with
  | zero =>
    obtain ⟨-, rfl⟩ := Prod.mk.inj (Option.some.inj h)
    exact .inr (.inr hb)
  | succ n ih =>
    obtain ⟨octet, between, more, hOctet, hMore, -⟩ := readOctets_succ h
    have hRead : (digitValue 10 b).isSome = true ∨ b = point ∨ b ∈ between := by
      unfold readSeparator at hOctet
      split at hOctet
      · exact (mem_of_readNumber hOctet hb).imp_right .inr
      · split at hOctet
        · cases hOctet
        · split at hOctet
          · rename_i hSep
            rcases List.mem_cons.mp hb with rfl | hb
            · exact .inr (.inl hSep)
            · exact (mem_of_readNumber hOctet hb).imp_right .inr
          · cases hOctet
    rcases hRead with hDigit | hPoint | hRest
    · exact .inl hDigit
    · exact .inr (.inl hPoint)
    · exact ih hMore hRest

/-- An IPv4 literal has no colon. -/
theorem parseIpv4Addr_colon (h : separator ∈ s) : parseIpv4Addr s = none := by
  rw [parseIpv4Addr, readIpv4Addr]
  cases hRead : readOctets 4 0 s with
  | none => rfl
  | some read =>
    obtain ⟨octets, rest⟩ := read
    cases rest with
    | cons b rest => rfl
    | nil =>
      rcases mem_of_readOctets hRead h with hDigit | hPoint | hNil
      · exact absurd hDigit (by decide)
      · exact absurd hPoint (by decide)
      · cases hNil

end

end Eggfetch.Text
