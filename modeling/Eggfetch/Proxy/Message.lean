import Eggfetch.Proxy.Response

/-! Well-formed responses and their bodies, from RFC 9112: the head, what frames the body, and
a decoder of the chunked coding. -/
namespace Eggfetch.Proxy
open Text Http

def digit (n : Nat) : UInt8 := UInt8.ofNat (0x30 + n)

/-- `1*DIGIT` -/
def decimal (value : Str) : Nat := value.foldl (fun n b => 10 * n + (b.toNat - 0x30)) 0

/-- `field-name ":" OWS field-value OWS` -/
structure FieldLine where
  name : Str
  before : Str
  value : Str
  after : Str
  name_token : validateHeaderName name = true
  before_ows : ∀ b ∈ before, isOws b = true
  value_valid : validateHeaderValue value = true
  value_trimmed : trimOws value = value
  after_ows : ∀ b ∈ after, isOws b = true

def FieldLine.text (field : FieldLine) : Str :=
  field.name ++ colon :: (field.before ++ field.value ++ field.after)

inductive Framing where
  | chunked
  | length (n : Nat)
  | close

def afterComma (value : Str) : Str :=
  match rfind 0x2c value with
  | none => value
  | some i => value.drop (i + 1)

def valuesOf (fields : List FieldLine) (name : Str) : List Str :=
  (fields.filter fun field => eqIgnoreAsciiCase field.name name).map FieldLine.value

def framingOf (fields : List FieldLine) : Framing :=
  match (valuesOf fields (utf8 "transfer-encoding")).getLast? with
  | some value => if eqIgnoreAsciiCase (trimOws (afterComma value)) (utf8 "chunked") then .chunked else .close
  | none =>
    match valuesOf fields (utf8 "content-length") with
    | value :: _ => .length (decimal value)
    | [] => .close

/-- The head of a response with a body. `Content-Length` stands at most once, as digits, and
not with `Transfer-Encoding`. -/
structure Head where
  status : Nat
  reason : Str
  fields : List FieldLine
  status_digits : 200 ≤ status ∧ status ≤ 999
  status_body : status ≠ 204 ∧ status ≠ 304
  reason_valid : validateHeaderValue reason = true
  length_once : (valuesOf fields (utf8 "content-length")).length ≤ 1
  length_digits : ∀ value ∈ valuesOf fields (utf8 "content-length"), value ≠ [] ∧ value.all isDigit = true
  length_alone : valuesOf fields (utf8 "transfer-encoding") ≠ [] → valuesOf fields (utf8 "content-length") = []

namespace Head

def statusCode (head : Head) : Str :=
  [digit (head.status / 100), digit (head.status / 10 % 10), digit (head.status % 10)]

def statusLine (head : Head) : Str := utf8 "HTTP/1.1" ++ 0x20 :: head.statusCode ++ 0x20 :: head.reason

def lines (head : Head) : List Str := head.statusLine :: head.fields.map FieldLine.text

def text (head : Head) : Str := head.lines.flatMap (· ++ crlf) ++ crlf

def framing (head : Head) : Framing := framingOf head.fields

end Head

def hexDigit? (b : UInt8) : Option Nat :=
  if isDigit b then some (b.toNat - 0x30)
  else if 0x41 ≤ b ∧ b ≤ 0x46 then some (b.toNat - 0x37)
  else if 0x61 ≤ b ∧ b ≤ 0x66 then some (b.toNat - 0x57)
  else none

/-- Where a decoder is within the chunked coding. -/
inductive ChunkState where
  | size (seen : Bool) (n : Nat)
  | extension (n : Nat)
  | sizeLf (n : Nat)
  /-- `left + 1` bytes of the chunk are to come. -/
  | data (left : Nat)
  | dataCr
  | dataLf
  | trailerStart
  | trailer
  | trailerLf
  | lastLf
  | done
  | malformed
  deriving DecidableEq, Repr

namespace ChunkState

def afterSize (n : Nat) (b : UInt8) : ChunkState :=
  if b = cr then .sizeLf n else if b = lf then .malformed else .extension n

/-- Section 7.1: the sizes, extensions, line ends and trailers are read, the data is given on. -/
def next : ChunkState → UInt8 → ChunkState
  | size seen n, b =>
    match hexDigit? b with
    | some d => size true (16 * n + d)
    | none => if !seen then malformed else if b = cr ∨ b = 0x3b ∨ isOws b then afterSize n b else malformed
  | extension n, b => afterSize n b
  | sizeLf n, b => if b ≠ lf then malformed else match n with
    | 0 => trailerStart
    | n + 1 => data n
  | data 0, _ => dataCr
  | data (left + 1), _ => data left
  | dataCr, b => if b = cr then dataLf else malformed
  | dataLf, b => if b = lf then size false 0 else malformed
  | trailerStart, b => if b = cr then lastLf else if b = lf then malformed else trailer
  | trailer, b => if b = cr then trailerLf else if b = lf then malformed else trailer
  | trailerLf, b => if b = lf then trailerStart else malformed
  | lastLf, b => if b = lf then done else malformed
  | done, _ => done
  | malformed, _ => malformed

def emits : ChunkState → UInt8 → Str
  | data _, b => [b]
  | _, _ => []

end ChunkState

def chunkDecoder : Transducer ChunkState UInt8 UInt8 where
  step state b := (state.emits b, state.next b)
  finish _ := []

/-- The data of the chunks in `received`, and where the coding stands after it. -/
def dechunk (received : Str) : Str × ChunkState := chunkDecoder.scan (.size false 0) received

/-- A response as it arrives: all of its head, and `rest` after it. -/
structure Arrived where
  head : Head
  rest : Str
  connection : Connection
  data_eq : connection.data = head.text ++ rest
  chunks_valid : head.framing = .chunked → (dechunk rest).2 ≠ .malformed

namespace Arrived

def body (a : Arrived) : Str :=
  match a.head.framing with
  | .chunked => (dechunk a.rest).1
  | .length n => a.rest.take n
  | .close => a.rest

def Complete (a : Arrived) : Prop :=
  match a.head.framing with
  | .chunked => (dechunk a.rest).2 = .done
  | .length n => n ≤ a.rest.length
  | .close =>
    match a.connection.ending with
    | .closed => True
    | .aborted _ => True
    | .failed _ => False
    | .staysOpen => False

end Arrived

/-- The message body is received, and nothing else. -/
structure BodyExact (path : Path) (a : Arrived) : Prop where
  /-- Neither framing nor bytes after the body are ever given. -/
  only : ∀ n, (path.receive n a.connection).1 <+: a.body
  /-- A complete body is given and ends, also on a connection that stays open. -/
  complete : a.Complete → ∃ n, path.receive n a.connection = (a.body, some (.ok ()))
  /-- A connection that ends before is an error. -/
  interrupted : ¬ a.Complete → a.connection.ending ≠ .staysOpen →
    ∃ n e, (path.receive n a.connection).2 = some (.error e)
  waits : ¬ a.Complete → a.connection.ending = .staysOpen → ∀ n, (path.receive n a.connection).2 = none

/-- `chunk-size [ chunk-ext ] CRLF chunk-data CRLF` -/
structure Chunk where
  size : Str
  extension : Str
  data : Str
  size_hex : ∀ b ∈ size, (hexDigit? b).isSome
  size_eq : size.foldl (fun n b => 16 * n + (hexDigit? b).getD 0) 0 = data.length
  data_nonempty : data ≠ []
  extension_start : ∀ b ∈ extension.head?, b = 0x3b ∨ isOws b
  extension_clean : ∀ b ∈ extension, b ≠ cr ∧ b ≠ lf

def Chunk.text (chunk : Chunk) : Str := chunk.size ++ chunk.extension ++ crlf ++ chunk.data ++ crlf

theorem scan_size {digits : Str} (h : ∀ b ∈ digits, (hexDigit? b).isSome) (seen : Bool) (n : Nat) :
    chunkDecoder.scan (.size seen n) digits =
      ([], .size (seen || !digits.isEmpty) (digits.foldl (fun n b => 16 * n + (hexDigit? b).getD 0) n)) := by
  induction digits generalizing seen n with
  | nil => simp
  | cons b digits ih =>
    obtain ⟨d, hd⟩ := Option.isSome_iff_exists.mp (h b List.mem_cons_self)
    have hstep : chunkDecoder.step (.size seen n) b = ([], .size true (16 * n + d)) := by
      simp [chunkDecoder, ChunkState.next, ChunkState.emits, hd]
    rw [Transducer.scan_cons, hstep, ih fun c hc => h c (List.mem_cons_of_mem _ hc)]
    simp [hd]

private theorem scan_extension {extension : Str} (h : ∀ b ∈ extension, b ≠ cr ∧ b ≠ lf) (n : Nat) :
    chunkDecoder.scan (.extension n) extension = ([], .extension n) := by
  induction extension with
  | nil => rfl
  | cons b extension ih =>
    obtain ⟨hcr, hlf⟩ := h b List.mem_cons_self
    have hstep : chunkDecoder.step (.extension n) b = ([], .extension n) := by
      simp [chunkDecoder, ChunkState.next, ChunkState.emits, ChunkState.afterSize, hcr, hlf]
    rw [Transducer.scan_cons, hstep, ih fun c hc => h c (List.mem_cons_of_mem _ hc)]
    rfl

private theorem scan_data {data : Str} {left : Nat} (h : data.length = left + 1) :
    chunkDecoder.scan (.data left) data = (data, .dataCr) := by
  induction left generalizing data with
  | zero =>
    obtain ⟨b, rfl⟩ := List.length_eq_one_iff.mp h
    rfl
  | succ left ih =>
    obtain ⟨b, rest, rfl⟩ := List.exists_cons_of_length_eq_add_one h
    rw [Transducer.scan_cons]
    simp only [chunkDecoder, ChunkState.next, ChunkState.emits] at ih ⊢
    rw [ih (Nat.succ.inj h)]
    rfl

private theorem scan_line_end (chunk : Chunk) (n : Nat) :
    chunkDecoder.scan (.size true n) (chunk.extension ++ [cr]) = ([], .sizeLf n) := by
  have hclean := chunk.extension_clean
  have hstart := chunk.extension_start
  cases hextension : chunk.extension with
  | nil => rfl
  | cons b extension =>
    rw [hextension] at hclean hstart
    obtain ⟨hcr, hlf⟩ := hclean b List.mem_cons_self
    have hb : b = 0x3b ∨ isOws b = true := hstart b rfl
    have hdigit : hexDigit? b = none := by
      simp only [isOws, Bool.or_eq_true, beq_iff_eq] at hb
      rcases hb with rfl | rfl | rfl <;> decide
    have hstep : chunkDecoder.step (.size true n) b = ([], .extension n) := by
      rcases hb with rfl | hows
      · rfl
      · simp [chunkDecoder, ChunkState.next, ChunkState.emits, ChunkState.afterSize, hdigit, hows, hcr, hlf]
    rw [List.cons_append, Transducer.scan_cons, hstep, Transducer.scan_append,
      scan_extension fun c hc => hclean c (List.mem_cons_of_mem _ hc)]
    rfl

/-- A chunk gives its data, and the decoder is where it was. -/
theorem scan_chunk (chunk : Chunk) : dechunk chunk.text = (chunk.data, .size false 0) := by
  obtain ⟨left, hleft⟩ := Nat.exists_eq_succ_of_ne_zero (List.length_pos_iff.mpr chunk.data_nonempty).ne'
  have hsize : chunkDecoder.scan (.size false 0) chunk.size = ([], .size true (left + 1)) := by
    have hne : chunk.size.isEmpty = false := by
      cases hdigits : chunk.size with
      | nil =>
        have heq := chunk.size_eq
        rw [hdigits, hleft] at heq
        cases heq
      | cons b digits => rfl
    rw [scan_size chunk.size_hex, chunk.size_eq, hne, hleft]
    rfl
  have hlf : chunkDecoder.scan (.sizeLf (left + 1)) [lf] = ([], .data left) := rfl
  have hend : chunkDecoder.scan .dataCr [cr, lf] = ([], .size false 0) := rfl
  have hdata := chunkDecoder.scan_then hlf (chunkDecoder.scan_then (scan_data hleft) hend)
  have hchunk := chunkDecoder.scan_then hsize (chunkDecoder.scan_then (scan_line_end chunk (left + 1)) hdata)
  have htext : chunk.text = chunk.size ++ ((chunk.extension ++ [cr]) ++ ([lf] ++ (chunk.data ++ [cr, lf]))) := by
    simp [Chunk.text, crlf]
  rw [dechunk, htext, hchunk]
  simp

end Eggfetch.Proxy
