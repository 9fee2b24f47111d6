import Mathlib.Algebra.Order.Ring.Nat
import Mathlib.Data.List.DropRight

/-! Strings as the UTF-8 bytes that the source works on. -/
namespace Eggfetch.Text

abbrev Str := List UInt8

instance decidableMem (s : Str) (names : List Str) : Decidable (s ∈ names) :=
  List.instDecidableMemOfLawfulBEq s names

def utf8 (s : String) : Str := s.toUTF8.data.toList

def asciiLower (b : UInt8) : UInt8 := if 65 ≤ b ∧ b ≤ 90 then b + 32 else b

def toAsciiLowercase (s : Str) : Str := s.map asciiLower

def eqIgnoreAsciiCase (s t : Str) : Bool := toAsciiLowercase s = toAsciiLowercase t

/-- The UTF-8 encodings of the `White_Space` characters. -/
def whitespace : List Str :=
  [[0x20], [0x09], [0x0a], [0x0b], [0x0c], [0x0d], [0xc2, 0x85], [0xc2, 0xa0], [0xe1, 0x9a, 0x80],
    [0xe2, 0x80, 0xa8], [0xe2, 0x80, 0xa9], [0xe2, 0x80, 0xaf], [0xe2, 0x81, 0x9f], [0xe3, 0x80, 0x80]] ++
  (List.range 11).map fun n => [0xe2, 0x80, 0x80 + UInt8.ofNat n]

/-- Drop leading members of `chars`, at most `fuel` of them. -/
def dropChars (chars : List Str) : Nat → Str → Str
  | 0, s => s
  | fuel + 1, s =>
    match chars.find? (·.isPrefixOf s) with
    | some c => dropChars chars fuel (s.drop c.length)
    | none => s

def trimStart (s : Str) : Str := dropChars whitespace s.length s

/-- `str::trim_end`; no encoding is a proper suffix of another character's. -/
def trimEnd (s : Str) : Str :=
  (dropChars (whitespace.map List.reverse) s.length s.reverse).reverse

def trim (s : Str) : Str := trimEnd (trimStart s)

/-- `trim_matches` of one byte. -/
def trimMatches (b : UInt8) (s : Str) : Str := (s.dropWhile (· == b)).rdropWhile (· == b)

def isDigit (b : UInt8) : Bool := 0x30 ≤ b && b ≤ 0x39

/-- `str::parse` of an unsigned integer of at most `max`: an optional `+`, then digits. -/
def parseUnsigned (max : Nat) (s : Str) : Option Nat :=
  let digits := match s with
    | 0x2b :: rest => rest
    | _ => s
  if digits.isEmpty ∨ ¬ digits.all isDigit then none
  else
    let n := digits.foldl (fun n b => 10 * n + (b.toNat - 0x30)) 0
    if n ≤ max then some n else none

/-- `rfind` of one byte. -/
def rfind (b : UInt8) (s : Str) : Option Nat := (s.reverse.idxOf? b).map (s.length - 1 - ·)

end Eggfetch.Text
