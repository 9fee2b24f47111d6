import Eggfetch.Facade.Authority
import Eggfetch.Facade.Urls
import Eggfetch.Text.Chars

/-! The parameters of a query and their text (`urllib.parse.urlencode` and `urllib.parse.parse_qsl`). -/
namespace Eggfetch.Facade.Urls
open Text

abbrev Params := List (List Char × List Char)

/-- `_ALWAYS_SAFE`. -/
def isAlwaysSafe (c : Char) : Bool := c.isAlphanum || "_.-~".toList.contains c

def hexChar (n : Nat) : Char := "0123456789ABCDEF".toList.getD n '0'

def quotePlusByte (b : UInt8) : List Char :=
  if b = 0x20 then ['+']
  else if isAlwaysSafe (Char.ofNat b.toNat) then [Char.ofNat b.toNat]
  else ['%', hexChar (b.toNat / 16), hexChar (b.toNat % 16)]

def quotePlus (s : List Char) : List Char := (encode s).flatMap quotePlusByte

def urlencode (query : Params) : List Char :=
  ['&'].intercalate (query.map fun (k, v) => quotePlus k ++ '=' :: quotePlus v)

def hexDigit (c : Char) : Option Nat :=
  if c.isDigit then some (c.toNat - 48)
  else if 'A' ≤ c ∧ c ≤ 'F' then some (c.toNat - 55)
  else if 'a' ≤ c ∧ c ≤ 'f' then some (c.toNat - 87)
  else none

/-- `unquote_to_bytes` of ASCII characters. -/
def unquoteToBytes : List Char → List UInt8
  | '%' :: a :: b :: s =>
    match hexDigit a, hexDigit b with
    | some high, some low => UInt8.ofNat (16 * high + low) :: unquoteToBytes s
    | _, _ => UInt8.ofNat '%'.toNat :: unquoteToBytes (a :: b :: s)
  | c :: s => UInt8.ofNat c.toNat :: unquoteToBytes s
  | [] => []

section
variable (decode : List UInt8 → List Char)

/-- The runs of ASCII characters are decoded, the others stay. -/
def unquoteRuns : List Char → List Char → List Char
  | run, [] => decode (unquoteToBytes run)
  | run, c :: s => if c.toNat < 0x80 then unquoteRuns (run ++ [c]) s else decode (unquoteToBytes run) ++ c :: unquoteRuns [] s

def unquote (s : List Char) : List Char := if s.contains '%' then unquoteRuns decode [] s else s

def plusToSpace (s : List Char) : List Char := s.map fun c => if c = '+' then ' ' else c

/-- `parse_qsl` with `keep_blank_values`. -/
def parseQsl (qs : List Char) : Params :=
  (qs.splitOn '&').filterMap fun nameValue =>
    if nameValue = [] then none
    else
      let (name, _, value) := partition '=' nameValue
      some (unquote decode (plusToSpace name), unquote decode (plusToSpace value))

end

theorem hexChar_digit {n : Nat} (h : n < 16) : hexDigit (hexChar n) = some n := by
  have hAll : ∀ i : Fin 16, hexDigit (hexChar i) = some i.val := by decide
  exact hAll ⟨n, h⟩

theorem hexChar_not_plus {n : Nat} (h : n < 16) : hexChar n ≠ '+' := by
  have hAll : ∀ i : Fin 16, hexChar i ≠ '+' := by decide
  exact hAll ⟨n, h⟩

def isQuoted (c : Char) : Bool := isAlwaysSafe c || c == '%' || c == '+'

private theorem isQuoted_hexChar {n : Nat} (h : n < 16) : isQuoted (hexChar n) = true := by
  have hAll : ∀ i : Fin 16, isQuoted (hexChar i) = true := by decide
  exact hAll ⟨n, h⟩

private theorem isQuoted_byte {b : UInt8} {c : Char} (h : c ∈ quotePlusByte b) : isQuoted c = true := by
  have hSize := b.toNat_lt
  rw [quotePlusByte] at h
  split at h
  · rw [List.mem_singleton.mp h]
    rfl
  · split at h
    · next hSafe =>
      rw [List.mem_singleton.mp h, isQuoted, hSafe]
      rfl
    · rw [List.mem_cons, List.mem_cons, List.mem_singleton] at h
      rcases h with rfl | rfl | rfl
      · rfl
      · exact isQuoted_hexChar (by omega)
      · exact isQuoted_hexChar (by omega)

theorem isQuoted_text {s : List Char} {c : Char} (h : c ∈ quotePlus s) : isQuoted c = true := by
  obtain ⟨b, -, hMem⟩ := List.mem_flatMap.mp h
  exact isQuoted_byte hMem

theorem isAlwaysSafe_ascii {c : Char} (h : isAlwaysSafe c = true) : c.toNat < 0x80 ∧ c ≠ '+' ∧ c ≠ '%' := by
  refine ⟨?_, ?_, ?_⟩
  · rw [isAlwaysSafe, Bool.or_eq_true] at h
    rcases h with h | h
    · rw [Char.isAlphanum, Bool.or_eq_true] at h
      rcases h with h | h
      · rcases isAlpha_iff.mp h with hUpper | hLower <;> omega
      · have hDigit := isDigit_iff.mp h
        omega
    · rw [List.contains_iff_mem] at h
      have hAll : "_.-~".toList.all (·.toNat < 0x80) = true := by decide
      exact of_decide_eq_true (List.all_eq_true.mp hAll c h)
  · rintro rfl
    cases h
  · rintro rfl
    cases h

theorem isQuoted_ascii {c : Char} (h : isQuoted c = true) : c.toNat < 0x80 := by
  rw [isQuoted, Bool.or_eq_true, Bool.or_eq_true, beq_iff_eq, beq_iff_eq] at h
  rcases h with (hSafe | rfl) | rfl
  · exact (isAlwaysSafe_ascii hSafe).1
  · decide
  · decide

theorem not_mem_quotePlus {c : Char} (h : isQuoted c = false) (s : List Char) : c ∉ quotePlus s := by
  intro hMem
  rw [isQuoted_text hMem] at h
  cases h

private theorem plusToSpace_append (s t : List Char) : plusToSpace (s ++ t) = plusToSpace s ++ plusToSpace t := List.map_append

private theorem unquoteToBytes_byte (b : UInt8) (s : List Char) :
    unquoteToBytes (plusToSpace (quotePlusByte b) ++ s) = b :: unquoteToBytes s := by
  have hSize := b.toNat_lt
  rw [quotePlusByte]
  split
  · next hSpace =>
    rw [hSpace]
    rfl
  · split
    · next hSafe =>
      obtain ⟨hAscii, hPlus, hPercent⟩ := isAlwaysSafe_ascii hSafe
      obtain ⟨c, hc⟩ : ∃ c, Char.ofNat b.toNat = c := ⟨_, rfl⟩
      have hValid : b.toNat.isValidChar := Or.inl (by omega)
      have hNat : c.toNat = b.toNat := by
        rw [← hc, Char.ofNat, dif_pos hValid]
        rfl
      rw [hc] at hPlus hPercent ⊢
      rw [plusToSpace, List.map_singleton, if_neg hPlus, List.singleton_append, unquoteToBytes.eq_def]
      split
      · next hEq => exact absurd (List.cons.inj hEq).1 hPercent
      · next hEq =>
        obtain ⟨rfl, rfl⟩ := List.cons.inj hEq
        rw [hNat, UInt8.ofNat_toNat]
      · next hEq => cases hEq
    · have hHigh : b.toNat / 16 < 16 := by omega
      have hLow : b.toNat % 16 < 16 := by omega
      have hSame : plusToSpace ['%', hexChar (b.toNat / 16), hexChar (b.toNat % 16)] =
          ['%', hexChar (b.toNat / 16), hexChar (b.toNat % 16)] := by
        simp only [plusToSpace, List.map_cons, List.map_nil, if_neg (hexChar_not_plus hHigh), if_neg (hexChar_not_plus hLow)]
        rfl
      rw [hSame, List.cons_append, List.cons_append, List.cons_append, List.nil_append, unquoteToBytes, hexChar_digit hHigh,
        hexChar_digit hLow]
      simp only [Nat.div_add_mod, UInt8.ofNat_toNat]

theorem unquoteToBytes_quotePlus (s : List Char) : unquoteToBytes (plusToSpace (quotePlus s)) = encode s := by
  rw [quotePlus]
  induction encode s with
  | nil => rfl
  | cons b bytes ih => rw [List.flatMap_cons, plusToSpace_append, unquoteToBytes_byte, ih]

theorem unquoteToBytes_plain {s : List Char} (h : '%' ∉ s) : unquoteToBytes s = s.map fun c => UInt8.ofNat c.toNat := by
  induction s with
  | nil => rfl
  | cons c s ih =>
    obtain ⟨hHead, hRest⟩ := List.ne_and_not_mem_of_not_mem_cons h
    rw [unquoteToBytes.eq_def]
    split
    · next hEq => exact absurd (List.cons.inj hEq).1.symm hHead
    · next hEq =>
      obtain ⟨rfl, rfl⟩ := List.cons.inj hEq
      rw [ih hRest, List.map_cons]
    · next hEq => cases hEq

private theorem encode_ascii {s : List Char} (h : ∀ c ∈ s, c.toNat < 0x80) : encode s = s.map fun c => UInt8.ofNat c.toNat := by
  induction s with
  | nil => rfl
  | cons c s ih =>
    rw [encode, List.flatMap_cons, utf8EncodeChar_ascii (h c List.mem_cons_self), List.map_cons, List.singleton_append]
    exact congrArg _ (ih fun d hd => h d (List.mem_cons_of_mem c hd))

section
variable {decode : List UInt8 → List Char}

private theorem unquoteRuns_ascii {s : List Char} (h : ∀ c ∈ s, c.toNat < 0x80) (run : List Char) :
    unquoteRuns decode run s = decode (unquoteToBytes (run ++ s)) := by
  induction s generalizing run with
  | nil => rw [unquoteRuns, List.append_nil]
  | cons c s ih =>
    rw [unquoteRuns, if_pos (h c List.mem_cons_self), ih (fun d hd => h d (List.mem_cons_of_mem c hd)), List.append_assoc,
      List.singleton_append]

private theorem plusToSpace_ascii (s : List Char) : ∀ c ∈ plusToSpace (quotePlus s), c.toNat < 0x80 := by
  intro c hc
  obtain ⟨d, hd, rfl⟩ := List.mem_map.mp hc
  split
  · decide
  · exact isQuoted_ascii (isQuoted_text hd)

private theorem unquote_quotePlus (hDecode : ∀ s, decode (encode s) = s) (s : List Char) :
    unquote decode (plusToSpace (quotePlus s)) = s := by
  have hAscii := plusToSpace_ascii s
  have hBytes := unquoteToBytes_quotePlus s
  rw [unquote]
  split
  · rw [unquoteRuns_ascii hAscii, List.nil_append, hBytes, hDecode]
  · next hPercent =>
    -- the text stands for its own bytes
    rw [List.contains_iff_mem] at hPercent
    rw [unquoteToBytes_plain hPercent, ← encode_ascii hAscii] at hBytes
    rw [← hDecode (plusToSpace (quotePlus s)), hBytes, hDecode]

/-- The parameters are read from their text. -/
theorem parseQsl_urlencode (hDecode : ∀ s, decode (encode s) = s) (query : Params) :
    parseQsl decode (urlencode query) = query := by
  by_cases hNil : query = []
  · rw [hNil]
    rfl
  · have hPieces : ∀ piece ∈ query.map (fun (k, v) => quotePlus k ++ '=' :: quotePlus v), '&' ∉ piece := by
      intro piece hMem
      obtain ⟨⟨k, v⟩, -, rfl⟩ := List.mem_map.mp hMem
      rw [List.mem_append, List.mem_cons, not_or, not_or]
      exact ⟨not_mem_quotePlus rfl k, by decide, not_mem_quotePlus rfl v⟩
    rw [parseQsl, urlencode, List.splitOn_intercalate '&' hPieces (by rw [Ne, List.map_eq_nil_iff]; exact hNil),
      List.filterMap_map]
    have hEach : ∀ nameValue ∈ query, ((fun nameValue : List Char => if nameValue = [] then none
        else some (unquote decode (plusToSpace (partition '=' nameValue).1),
          unquote decode (plusToSpace (partition '=' nameValue).2.2))) ∘
          fun (k, v) => quotePlus k ++ '=' :: quotePlus v) nameValue = some nameValue := by
      rintro ⟨k, v⟩ -
      have hNe : quotePlus k ++ '=' :: quotePlus v ≠ [] := List.append_ne_nil_of_right_ne_nil _ (List.cons_ne_nil _ _)
      rw [Function.comp_apply, if_neg hNe, partition_cut (not_mem_quotePlus rfl k), unquote_quotePlus hDecode,
        unquote_quotePlus hDecode]
    rw [List.filterMap_congr hEach, List.filterMap_some]

private theorem mem_intercalate {c a : Char} {pieces : List (List Char)} (h : c ∈ [a].intercalate pieces) :
    c = a ∨ ∃ piece ∈ pieces, c ∈ piece := by
  induction pieces with
  | nil => cases h
  | cons piece pieces ih =>
    cases pieces with
    | nil =>
      rw [List.intercalate_singleton] at h
      exact Or.inr ⟨piece, List.mem_cons_self, h⟩
    | cons second pieces =>
      rw [List.intercalate_cons_cons, List.mem_append, List.mem_append, List.mem_singleton] at h
      rcases h with (hPiece | rfl) | hRest
      · exact Or.inr ⟨piece, List.mem_cons_self, hPiece⟩
      · exact Or.inl rfl
      · refine (ih hRest).imp_right ?_
        rintro ⟨other, hOther, hMem⟩
        exact ⟨other, List.mem_cons_of_mem piece hOther, hMem⟩

theorem urlencode_ascii (params : Params) : (urlencode params).all (·.toNat < 0x80) = true := by
  rw [List.all_eq_true]
  intro c hc
  rw [decide_eq_true_iff]
  rcases mem_intercalate hc with rfl | ⟨piece, hPiece, hMem⟩
  · decide
  · obtain ⟨⟨k, v⟩, -, rfl⟩ := List.mem_map.mp hPiece
    rw [List.mem_append, List.mem_cons] at hMem
    rcases hMem with hKey | rfl | hValue
    · exact isQuoted_ascii (isQuoted_text hKey)
    · decide
    · exact isQuoted_ascii (isQuoted_text hValue)

theorem urlencode_eq_nil {query : Params} : urlencode query = [] ↔ query = [] := by
  constructor
  · intro h
    cases query with
    | nil => rfl
    | cons nameValue query =>
      obtain ⟨k, v⟩ := nameValue
      have hMem := prefix_intercalate_cons ['&'] (quotePlus k ++ '=' :: quotePlus v) (query.map fun (k, v) => quotePlus k ++
        '=' :: quotePlus v)
      have hNil : quotePlus k ++ '=' :: quotePlus v = [] := by
        rw [← List.prefix_nil, ← h]
        exact hMem
      exact absurd hNil (List.append_ne_nil_of_right_ne_nil _ (List.cons_ne_nil _ _))
  · rintro rfl
    rfl

end
end Eggfetch.Facade.Urls
