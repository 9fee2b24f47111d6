import Eggfetch.Text.Bytes

/-! The standard base64 encoding with its padding, and a decoder that undoes it. -/
namespace Eggfetch.Text.Base64

def symbol (n : Nat) : Char :=
  if n < 26 then Char.ofNat (0x41 + n)
  else if n < 52 then Char.ofNat (0x61 + (n - 26))
  else if n < 62 then Char.ofNat (0x30 + (n - 52))
  else if n = 62 then '+'
  else '/'

def value (c : Char) : Nat :=
  if 'A' ≤ c ∧ c ≤ 'Z' then c.toNat - 0x41
  else if 'a' ≤ c ∧ c ≤ 'z' then c.toNat - 0x61 + 26
  else if '0' ≤ c ∧ c ≤ '9' then c.toNat - 0x30 + 52
  else if c = '+' then 62
  else 63

def encode : Str → List Char
  | [] => []
  | [a] => [symbol (a.toNat / 4), symbol (a.toNat % 4 * 16), '=', '=']
  | [a, b] => [symbol (a.toNat / 4), symbol (a.toNat % 4 * 16 + b.toNat / 16), symbol (b.toNat % 16 * 4), '=']
  | a :: b :: c :: rest =>
    symbol (a.toNat / 4) :: symbol (a.toNat % 4 * 16 + b.toNat / 16) :: symbol (b.toNat % 16 * 4 + c.toNat / 64) ::
      symbol (c.toNat % 64) :: encode rest

def decode : List Char → Str
  | w :: x :: y :: z :: rest =>
    let first := UInt8.ofNat (value w * 4 + value x / 16)
    if y = '=' then [first]
    else
      let second := UInt8.ofNat (value x % 16 * 16 + value y / 4)
      if z = '=' then [first, second]
      else first :: second :: UInt8.ofNat (value y % 4 * 64 + value z) :: decode rest
  | _ => []

theorem symbol_spec : ∀ n : Fin 64, value (symbol n) = n ∧ symbol n ≠ '=' := by decide

private theorem value_symbol {n : Nat} (h : n < 64) : value (symbol n) = n := (symbol_spec ⟨n, h⟩).1

private theorem symbol_ne {n : Nat} (h : n < 64) : symbol n ≠ '=' := (symbol_spec ⟨n, h⟩).2

private theorem ofNat_eq {n : Nat} (b : UInt8) (h : n = b.toNat) : UInt8.ofNat n = b := by rw [h, UInt8.ofNat_toNat]

theorem decode_encode (s : Str) : decode (encode s) = s := by
  induction s using encode.induct with
  | case1 => rfl
  | case2 a =>
    have ha := a.toNat_lt
    rw [encode, decode]
    dsimp only
    rw [if_pos rfl, value_symbol (by omega), value_symbol (by omega), ofNat_eq a (by omega)]
  | case3 a b =>
    have ha := a.toNat_lt
    have hb := b.toNat_lt
    rw [encode, decode]
    dsimp only
    rw [if_neg (symbol_ne (by omega)), if_pos rfl, value_symbol (by omega), value_symbol (by omega), value_symbol (by omega),
      ofNat_eq a (by omega), ofNat_eq b (by omega)]
  | case4 a b c rest ih =>
    have ha := a.toNat_lt
    have hb := b.toNat_lt
    have hc := c.toNat_lt
    rw [encode, decode]
    dsimp only
    rw [if_neg (symbol_ne (by omega)), if_neg (symbol_ne (by omega)), value_symbol (by omega), value_symbol (by omega),
      value_symbol (by omega), value_symbol (by omega), ih, ofNat_eq a (by omega), ofNat_eq b (by omega),
      ofNat_eq c (by omega)]

/-- Each character of an encoding is a symbol or the padding. -/
theorem forall_mem_encode {p : Char → Prop} (hSymbol : ∀ n : Fin 64, p (symbol n)) (hPadding : p '=') (s : Str) :
    ∀ c ∈ encode s, p c := by
  have hOf {n : Nat} (h : n < 64) : p (symbol n) := hSymbol ⟨n, h⟩
  induction s using encode.induct with
  | case1 => exact fun c h => absurd h List.not_mem_nil
  | case2 a =>
    have ha := a.toNat_lt
    simp only [encode, List.forall_mem_cons]
    exact ⟨hOf (by omega), hOf (by omega), hPadding, hPadding, fun c h => absurd h List.not_mem_nil⟩
  | case3 a b =>
    have ha := a.toNat_lt
    have hb := b.toNat_lt
    simp only [encode, List.forall_mem_cons]
    exact ⟨hOf (by omega), hOf (by omega), hOf (by omega), hPadding, fun c h => absurd h List.not_mem_nil⟩
  | case4 a b c rest ih =>
    have ha := a.toNat_lt
    have hb := b.toNat_lt
    have hc := c.toNat_lt
    simp only [encode, List.forall_mem_cons]
    exact ⟨hOf (by omega), hOf (by omega), hOf (by omega), hOf (by omega), ih⟩

def encodeBytes (s : Str) : Str := (encode s).map fun c => UInt8.ofNat c.toNat

/-- An encoding that stands in a text is decoded out of it. -/
theorem mem_of_infix {s : Str} {text : List Char} (h : encode s <:+: text) :
    ∃ i ≤ text.length, ∃ n ≤ text.length, decode ((text.drop i).take n) = s := by
  obtain ⟨front, back, rfl⟩ := h
  refine ⟨front.length, ?_, (encode s).length, ?_, ?_⟩
  · rw [List.length_append, List.length_append]
    omega
  · rw [List.length_append, List.length_append]
    omega
  · rw [List.append_assoc, List.drop_left, List.take_left, decode_encode]

end Eggfetch.Text.Base64
