import Eggfetch.Http.Headers
import Eggfetch.Text.Chars

/-! The builders of `multipart.rs`: boundaries, parts, and the checks on their way into a
multipart body. -/
namespace Eggfetch.Multipart
open Text Http

inductive Error where
  | requestBuild (message : String)
  | invalidHeaderName (message : String)
  | invalidHeaderValue (message : String)
  /-- Any other error, of a part's stream. -/
  | other (message : String)
  deriving DecidableEq, Repr

def isControl (ch : Char) : Bool := ch.toNat < 0x20 || (0x7f ≤ ch.toNat && ch.toNat < 0xa0)

/-- `{ch:?}` of a character that the checks reject. -/
def debugChar (ch : Char) : String :=
  let text :=
    if ch = '\x00' then "\\0"
    else if ch = '\t' then "\\t"
    else if ch = '\r' then "\\r"
    else if ch = '\n' then "\\n"
    else if isControl ch then "\\u\x7b" ++ String.ofList (Nat.toDigits 16 ch.toNat) ++ "\x7d"
    else String.ofList [ch]
  "'" ++ text ++ "'"

def boundaryChars : Str := utf8 "ABCDEFGHIJKLMNOPQRSTUVWXYZabcdefghijklmnopqrstuvwxyz0123456789_-"

structure Boundary where
  bytes : Str
  nonempty : bytes ≠ []
  length_le : bytes.length ≤ 69
  valid : ∀ b ∈ bytes, b ∈ boundaryChars
  deriving DecidableEq

theorem boundaryChars_eq : boundaryChars =
    (List.range' 0x41 26 ++ List.range' 0x61 26 ++ List.range' 0x30 10 ++ [0x5f, 0x2d]).map UInt8.ofNat := by
  decide

namespace Boundary

/-- `Boundary::random` of what the random number generator has filled its buffer with. -/
def random (bytes : Vector UInt8 50) : Boundary where
  bytes := bytes.toList.map fun byte => boundaryChars.getD (byte.toNat % 64) 0
  nonempty := by
    intro h
    have hLength := congrArg List.length h
    simp at hLength
  length_le := by simp
  valid := by
    intro b hb
    obtain ⟨byte, -, rfl⟩ := List.mem_map.mp hb
    have hLength : boundaryChars.length = 64 := by
      rw [boundaryChars_eq, List.length_map]
      rfl
    have hLt : byte.toNat % 64 < boundaryChars.length := hLength ▸ Nat.mod_lt _ (by decide)
    rw [List.getD_eq_getElem?_getD, List.getElem?_eq_getElem hLt]
    exact List.getElem_mem hLt

end Boundary

/-- `http::HeaderName`: a token in lower case. -/
@[ext] structure HeaderName where
  bytes : Str
  valid : validateHeaderName bytes
  lower : toAsciiLowercase bytes = bytes

instance : DecidableEq HeaderName := fun _ _ => decidable_of_iff _ HeaderName.ext_iff.symm

/-- `http::HeaderValue`. -/
@[ext] structure HeaderValue where
  bytes : Str
  valid : validateHeaderValue bytes

instance : DecidableEq HeaderValue := fun _ _ => decidable_of_iff _ HeaderValue.ext_iff.symm

def HeaderValue.fromStr (s : String) : Option HeaderValue :=
  if h : validateHeaderValue (utf8 s) then some ⟨utf8 s, h⟩ else none

/-- A body of bytes, or a stream of them with the length that it declares. -/
inductive PartBody (S : Type) where
  | bytes (data : Str)
  | stream (stream : S) (length : Option Nat)
  deriving DecidableEq, Repr

structure Part (S : Type) where
  name : String
  filename : Option String
  contentType : Option HeaderValue
  /-- In the order in which their names were first inserted. -/
  headers : List (HeaderName × HeaderValue)
  body : PartBody S
  deriving DecidableEq

variable {S : Type}

namespace PartBody

def len : PartBody S → Option Nat
  | bytes data => some data.length
  | stream _ length => length

def isStream : PartBody S → Bool
  | bytes _ => false
  | stream _ _ => true

end PartBody

namespace Part
variable (p : Part S)

def new (name : String) (body : PartBody S) : Part S where
  name
  filename := none
  contentType := none
  headers := []
  body

def withFilename (filename : String) : Part S := { p with filename := some filename }

end Part

def validateQuoted (what : String) (value : String) : Except Error Unit :=
  if value = "" then .error (.requestBuild ("multipart " ++ what ++ " must not be empty"))
  else
    match value.toList.find? fun ch => ch == '"' || isControl ch with
    | some ch => .error (.requestBuild ("multipart " ++ what ++ " contains invalid character: " ++ debugChar ch))
    | none => .ok ()

def validateFieldName : String → Except Error Unit := validateQuoted "field name"

def validateFilename : String → Except Error Unit := validateQuoted "filename"

end Eggfetch.Multipart

namespace Eggfetch
open Text Multipart

structure Multipart (S : Type) where
  boundary : Boundary
  parts : List (Multipart.Part S)
  deriving DecidableEq

namespace Multipart
variable {S : Type} (mp : Multipart S)

def withBoundary (boundary : Boundary) : Multipart S := ⟨boundary, []⟩

def text (name value : String) : Except Error (Multipart S) := do
  validateFieldName name
  return { mp with parts := mp.parts ++ [Part.new name (.bytes (utf8 value))] }

/-- `bytes` and `stream` differ in the body only. -/
def file (name filename contentType : String) (body : PartBody S) : Except Error (Multipart S) := do
  validateFieldName name
  validateFilename filename
  match HeaderValue.fromStr contentType with
  | none => .error (.requestBuild "invalid content type: failed to parse header value")
  | some ct => .ok { mp with parts := mp.parts ++
      [{ Part.new name body with filename := some filename, contentType := some ct }] }

def bytes (name filename contentType : String) (data : Str) : Except Error (Multipart S) :=
  mp.file name filename contentType (.bytes data)

def stream (name filename contentType : String) (stream : S) (length : Option Nat) : Except Error (Multipart S) :=
  mp.file name filename contentType (.stream stream length)

def part (part : Part S) : Except Error (Multipart S) := do
  validateFieldName part.name
  return { mp with parts := mp.parts ++ [part] }

/-- What the builders build without an error; `new` begins with a random boundary. -/
inductive Built : Multipart S → Prop
  | withBoundary (boundary : Boundary) : Built (withBoundary boundary)
  | text {mp mp' : Multipart S} {name value : String} : Built mp → mp.text name value = .ok mp' → Built mp'
  | bytes {mp mp' : Multipart S} {name filename contentType : String} {data : Str} :
      Built mp → mp.bytes name filename contentType data = .ok mp' → Built mp'
  | stream {mp mp' : Multipart S} {name filename contentType : String} {stream : S} {length : Option Nat} :
      Built mp → mp.stream name filename contentType stream length = .ok mp' → Built mp'
  | part {mp mp' : Multipart S} {p : Part S} : Built mp → mp.part p = .ok mp' → Built mp'

theorem bind_eq_ok {α β : Type} {x : Except Error α} {f : α → Except Error β} {b : β} :
    (x >>= f) = .ok b ↔ ∃ a, x = .ok a ∧ f a = .ok b := by
  cases x <;> simp [bind, Except.bind]

section
variable {mp mp' : Multipart S} (h : ∀ p ∈ mp.parts, validateFieldName p.name = .ok ())
include h

theorem validName_push {p : Part S} (hp : validateFieldName p.name = .ok ()) :
    ∀ q ∈ mp.parts ++ [p], validateFieldName q.name = .ok () := by
  intro q hq
  obtain hq | hq := List.mem_append.mp hq
  · exact h q hq
  · exact List.mem_singleton.mp hq ▸ hp

theorem validName_text {name value : String} (hAdd : mp.text name value = .ok mp') :
    ∀ p ∈ mp'.parts, validateFieldName p.name = .ok () := by
  obtain ⟨_, hName, hAdd⟩ := bind_eq_ok.mp hAdd
  obtain rfl := Except.ok.inj hAdd
  exact validName_push h hName

theorem validName_file {name filename contentType : String} {body : PartBody S}
    (hAdd : mp.file name filename contentType body = .ok mp') :
    ∀ p ∈ mp'.parts, validateFieldName p.name = .ok () := by
  obtain ⟨_, hName, hAdd⟩ := bind_eq_ok.mp hAdd
  obtain ⟨_, -, hAdd⟩ := bind_eq_ok.mp hAdd
  cases hType : HeaderValue.fromStr contentType with
  | none =>
    rw [hType] at hAdd
    cases hAdd
  | some ct =>
    rw [hType] at hAdd
    obtain rfl := Except.ok.inj hAdd
    exact validName_push h hName

theorem validName_part {p : Part S} (hAdd : mp.part p = .ok mp') :
    ∀ p ∈ mp'.parts, validateFieldName p.name = .ok () := by
  obtain ⟨_, hName, hAdd⟩ := bind_eq_ok.mp hAdd
  obtain rfl := Except.ok.inj hAdd
  exact validName_push h hName

end

/-- Every part's name is checked, on each of the builders' paths. -/
theorem Built.validName {mp : Multipart S} (h : mp.Built) : ∀ p ∈ mp.parts, validateFieldName p.name = .ok () := by
  induction h with
  | withBoundary => exact fun p hp => absurd hp List.not_mem_nil
  | text _ hAdd ih => exact validName_text ih hAdd
  | bytes _ hAdd ih => exact validName_file ih hAdd
  | stream _ hAdd ih => exact validName_file ih hAdd
  | part _ hAdd ih => exact validName_part ih hAdd

end Multipart
end Eggfetch
