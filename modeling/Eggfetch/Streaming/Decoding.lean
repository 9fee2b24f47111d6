import Eggfetch.Text.Lines
import Eggfetch.Text.Utf8

/-! Streamed text: `streaming/decoding.rs`, the producers of the text and line iterators,
and the line iterator of a buffered response. `encoding_rs` is a parameter, and a body is
the list of what its stream yields. -/
namespace Eggfetch.Streaming
open Text

/-- `encoding_rs::CoderResult`. -/
inductive CoderResult where
  | inputEmpty
  | outputFull
  deriving DecidableEq, Repr

/-- What a call of `Decoder::decode_to_string` returns, writes and leaves. -/
structure Decoded (D : Type*) where
  result : CoderResult
  read : Nat
  output : Str
  decoder : D

/-- The functions of `encoding_rs` that the decoder calls; `decodeToString` is told the
capacity that the output string still has. -/
structure EncodingRs (E D : Type*) where
  forLabel : Str → Option E
  decode : E → Str → Str
  newDecoder : E → D
  decodeToString : D → (src : Str) → (capacity : Nat) → (last : Bool) → Decoded D

/-- What `encoding_rs` documents, where `remaining d src` is the text that a decoder still
owes when `src` is all that follows. -/
structure EncodingRs.Lawful {E D : Type*} (lib : EncodingRs E D) (remaining : D → Str → Str) :
    Prop where
  /-- Decoding in steps is decoding at once. -/
  fresh : ∀ e src, remaining (lib.newDecoder e) src = lib.decode e src
  output_le : ∀ d src capacity last,
    (lib.decodeToString d src capacity last).output.length ≤ capacity
  read_le : ∀ d src capacity last, (lib.decodeToString d src capacity last).read ≤ src.length
  /-- The text written and the text still owed, when the unread bytes are given again. -/
  more : ∀ d src capacity rest,
    let call := lib.decodeToString d src capacity false
    call.output ++ remaining call.decoder (src.drop call.read ++ rest) = remaining d (src ++ rest)
  /-- A last call that reports `InputEmpty` has written everything. -/
  finished : ∀ d capacity, (lib.decodeToString d [] capacity true).result = .inputEmpty →
    (lib.decodeToString d [] capacity true).output = remaining d []
  /-- A last call that reports `OutputFull` has another character to write. -/
  full : ∀ d capacity, (lib.decodeToString d [] capacity true).result = .outputFull →
    (lib.decodeToString d [] capacity true).output ≠ remaining d []

variable {E D ε : Type*} (lib : EncodingRs E D)

def decodeBytes (encodingName : Option Str) (bytes : Str) : Str :=
  match encodingName with
  | some name =>
    match lib.forLabel name with
    | some enc => lib.decode enc bytes
    | none => Utf8.fromUtf8Lossy bytes
  | none => Utf8.fromUtf8Lossy bytes

structure IncrementalDecoder (D : Type*) where
  decoder : Option D
  utf8Pending : Str

def maxInitialDecodeCapacity : Nat := 64 * 1024

/-- `bytes.len().saturating_mul(3).clamp(4, MAX_INITIAL_DECODE_CAPACITY)`. -/
def decodeCapacity (bytes : Str) : Nat := max 4 (min (bytes.length * 3) maxInitialDecodeCapacity)

namespace IncrementalDecoder

def new (encodingName : Option Str) : IncrementalDecoder D where
  decoder := (encodingName.bind lib.forLabel).map lib.newDecoder
  utf8Pending := []

/-- The result that says whether the output was full, and how much was read, is ignored. -/
def decode (self : IncrementalDecoder D) (bytes : Str) (last : Bool) :
    Str × IncrementalDecoder D :=
  match self.decoder with
  | some decoder =>
    let call := lib.decodeToString decoder bytes (decodeCapacity bytes) last
    (call.output, { self with decoder := some call.decoder })
  | none =>
    let pending := self.utf8Pending ++ bytes
    match Utf8.fromUtf8 pending with
    | none => (pending, { self with utf8Pending := [] })
    | some error =>
      if error.errorLen = none ∧ ¬ last then
        (Utf8.fromUtf8Lossy (pending.take error.validUpTo),
          { self with utf8Pending := pending.drop error.validUpTo })
      else (Utf8.fromUtf8Lossy pending, { self with utf8Pending := [] })

def finish (self : IncrementalDecoder D) : Str := (self.decode lib [] true).1

def unread (self : IncrementalDecoder D) (bytes : Str) (last : Bool) : Str :=
  match self.decoder with
  | some decoder => bytes.drop (lib.decodeToString decoder bytes (decodeCapacity bytes) last).read
  | none => []

def dropped (self : IncrementalDecoder D) : List Str → Str
  | [] => []
  | chunk :: rest => self.unread lib chunk false ++ dropped (self.decode lib chunk false).2 rest

end IncrementalDecoder

def newline : UInt8 := 0x0a

def carriageReturn : UInt8 := 0x0d

/-- The complete lines of a buffer, and the buffer after they are taken. -/
def completeLines (buffer : Str) : List Str × Str :=
  match rfind newline buffer with
  | none => ([], buffer)
  | some lastPos =>
    ((splitInclusive newline (buffer.take (lastPos + 1))).map fun line =>
      stripSuffix carriageReturn (stripSuffix newline line), buffer.drop (lastPos + 1))

def finalLine (buffer : Str) : Option Str :=
  if buffer = [] then none else some (stripSuffix carriageReturn buffer)

/-- What the producers of `PyTextChunkIterator` and `PyAsyncTextIterator` send. -/
def textItems (decoder : IncrementalDecoder D) :
    List (Except ε Str) → List (Except ε Str)
  | [] => tail decoder
  | .ok chunk :: rest =>
    .ok (decoder.decode lib chunk false).1 :: textItems (decoder.decode lib chunk false).2 rest
  | .error e :: _ => .error e :: tail decoder
where
  tail (decoder : IncrementalDecoder D) : List (Except ε Str) :=
    if decoder.finish lib = [] then [] else [.ok (decoder.finish lib)]

/-- What the producers of `PyLinesChunkIterator` and `PyAsyncLinesIterator` send. -/
def lineItems (decoder : IncrementalDecoder D) (lineBuffer : Str) :
    List (Except ε Str) → List (Except ε Str)
  | [] => tail decoder lineBuffer
  | .ok chunk :: rest =>
    let lines := completeLines (lineBuffer ++ (decoder.decode lib chunk false).1)
    lines.1.map .ok ++ lineItems (decoder.decode lib chunk false).2 lines.2 rest
  | .error e :: _ => .error e :: tail decoder lineBuffer
where
  tail (decoder : IncrementalDecoder D) (lineBuffer : Str) : List (Except ε Str) :=
    let lines := completeLines (lineBuffer ++ decoder.finish lib)
    (lines.1 ++ (finalLine lines.2).toList).map .ok

/-- `PyResponseLinesIterator::__next__`: the line and the cursor after it. -/
def nextLine (text : Str) (byteCursor : Nat) : Option (Str × Nat) :=
  if text.length ≤ byteCursor then none
  else
    let rest := text.drop byteCursor
    match rest.idxOf? newline with
    | some offset =>
      some (stripSuffix carriageReturn (rest.take offset), byteCursor + offset + 1)
    | none => some (rest, text.length)

private theorem lt_of_nextLine {text line : Str} {cursor next : Nat}
    (h : nextLine text cursor = some (line, next)) : cursor < next ∧ cursor < text.length := by
  simp only [nextLine] at h
  split_ifs at h with hend
  split at h <;> simp only [Option.some.injEq, Prod.mk.injEq] at h <;> omega

/-- The lines that `PyResponseLinesIterator` yields from a cursor on. -/
def bufferedLines (text : Str) (byteCursor : Nat) : List Str :=
  match _next : nextLine text byteCursor with
  | none => []
  | some (line, next) => line :: bufferedLines text next
termination_by text.length - byteCursor
decreasing_by
  have := lt_of_nextLine _next
  omega

end Eggfetch.Streaming
