import Eggfetch.Text.Bytes
import Mathlib.Logic.Function.Basic

/-! The header container of `headers.rs` over `http::HeaderMap`. -/
namespace Eggfetch.Http
open Text

/-- Accepted by `validate_header_value` and by `HeaderValue::try_from`. -/
def validateHeaderValue (value : Str) : Bool :=
  !value.any fun byte => (byte < 0x20 && byte != 0x09) || byte == 0x7f

/-- Accepted by `validate_header_name` and by `HeaderName::try_from`: a non-empty token. -/
def validateHeaderName (name : Str) : Bool :=
  !name.isEmpty && name.all fun b =>
    isDigit b || (0x41 ≤ b && b ≤ 0x5a) || (0x61 ≤ b && b ≤ 0x7a) || (utf8 "!#$%&'*+-.^_\x60|~").contains b

/-- `HeaderValue::to_str` succeeds. -/
def isVisibleAscii (value : Str) : Bool :=
  value.all fun b => (0x20 ≤ b && b < 0x7f) || b == 0x09

inductive HeaderError where
  | invalidHeaderName
  | invalidHeaderValue
  deriving DecidableEq, Repr

/-- The values of each lower-case name, in order. The map has no order of names. -/
@[ext] structure Headers where
  getAll : Str → List Str

namespace Headers

def empty : Headers := ⟨fun _ => []⟩

def get (h : Headers) (name : Str) : Option Str := (h.getAll name).head?

def contains (h : Headers) (name : Str) : Bool := !(h.getAll name).isEmpty

def set (h : Headers) (name : Str) (values : List Str) : Headers :=
  ⟨Function.update h.getAll name values⟩

def remove (h : Headers) (name : Str) : Headers := h.set name []

def removeAll (h : Headers) (names : List Str) : Headers := names.foldl remove h

def insertRaw (h : Headers) (name value : Str) : Headers := h.set name [value]

def insert (h : Headers) (name value : Str) : Except HeaderError Headers :=
  if !validateHeaderName name then .error .invalidHeaderName
  else if !validateHeaderValue value then .error .invalidHeaderValue
  else .ok (h.insertRaw (toAsciiLowercase name) value)

def append (h : Headers) (name value : Str) : Headers := h.set name (h.getAll name ++ [value])

/-- `remove` each name of `other`, then `extend` with it. -/
def replaceBy (h other : Headers) : Headers :=
  ⟨fun name => if other.contains name then other.getAll name else h.getAll name⟩

variable {h : Headers} {name name' value : Str} {values : List Str}

@[simp] theorem getAll_set_self : (h.set name values).getAll name = values :=
  Function.update_self ..

@[simp] theorem getAll_set_of_ne (hne : name' ≠ name) : (h.set name values).getAll name' = h.getAll name' :=
  Function.update_of_ne hne ..

@[simp] theorem getAll_remove_self : (h.remove name).getAll name = [] := getAll_set_self

@[simp] theorem getAll_insertRaw_self : (h.insertRaw name value).getAll name = [value] := getAll_set_self

theorem getAll_removeAll (h : Headers) (names : List Str) (name : Str) :
    (h.removeAll names).getAll name = if name ∈ names then [] else h.getAll name := by
  induction names generalizing h with
  | nil => rfl
  | cons first rest ih =>
    rw [removeAll, List.foldl_cons, ← removeAll, ih]
    by_cases hrest : name ∈ rest
    · simp [hrest]
    · by_cases hfirst : name = first
      · simp [hfirst]
      · simp [hrest, hfirst, remove]

theorem insert_ok {h' : Headers} (hins : h.insert name value = .ok h') :
    h' = h.insertRaw (toAsciiLowercase name) value := by
  unfold insert at hins
  split at hins
  · cases hins
  · split at hins
    · cases hins
    · exact (Except.ok.inj hins).symm

end Headers
end Eggfetch.Http
