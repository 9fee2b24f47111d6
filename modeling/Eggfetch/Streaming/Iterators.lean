import Eggfetch.Streaming.Decoding
import Eggfetch.Transition.Runs

/-! The iterators over a streaming response (`sync_iterators.rs`, `async_iterators.rs`): what their producers
send, and the calls of `__next__` and `__anext__` that take it, from any number of threads or tasks. -/
namespace Eggfetch.Streaming.Iterators
open Text

inductive Kind
  | bytes
  | raw
  | text
  | lines
  deriving DecidableEq

/-- One of the eight iterators with its `chunk_size`; only the raw ones may have none. -/
structure Config where
  kind : Kind
  isAsync : Bool
  chunkSize : Option Nat

namespace Config

def ofBytes (cfg : Config) : Bool := cfg.kind = .bytes || cfg.kind = .raw

/-- What the consumers cut the chunks to; text and lines are not cut. -/
def limit (cfg : Config) : Option Nat := if cfg.ofBytes then cfg.chunkSize else none

end Config

inductive BodyState
  | streaming
  | buffered
  | consumed
  | closed
  deriving DecidableEq

inductive NewError
  | streamConsumed
  | streamClosed
  | zeroChunkSize
  deriving DecidableEq

/-- `ensure_streaming` and `take_stream` -/
def takeStream : BodyState → Except NewError BodyState
  | .streaming => .ok .consumed
  | .buffered | .consumed => .error .streamConsumed
  | .closed => .error .streamClosed

/-- `new`: only the synchronous iterator over bytes looks at the chunk size, when it has taken the stream. -/
def new (cfg : Config) (state : BodyState) : BodyState × Except NewError Unit :=
  match takeStream state with
  | .error e => (state, .error e)
  | .ok taken =>
    if cfg.kind = .bytes ∧ cfg.isAsync = false ∧ cfg.chunkSize = some 0 then (taken, .error .zeroChunkSize) else (taken, .ok ())

/-- A chunk size of zero is refused, and the body stays where it is. -/
def RefusesZero (cfg : Config) (state : BodyState) : Prop :=
  cfg.chunkSize = some 0 → (new cfg state).1 = state ∧ ∃ e, (new cfg state).2 = .error e

/-- It is exactly if there is no stream to take. -/
theorem refusesZero_iff (cfg : Config) (state : BodyState) :
    RefusesZero cfg state ↔ (cfg.chunkSize = some 0 → state ≠ .streaming) := by
  refine imp_congr_right fun _ => ?_
  cases state with
  | streaming =>
    refine iff_of_false (fun h => ?_) (fun h => h rfl)
    have hTaken := h.1
    rw [new, takeStream] at hTaken
    dsimp only at hTaken
    split at hTaken <;> cases hTaken
  | buffered => exact iff_of_true ⟨rfl, _, rfl⟩ BodyState.noConfusion
  | consumed => exact iff_of_true ⟨rfl, _, rfl⟩ BodyState.noConfusion
  | closed => exact iff_of_true ⟨rfl, _, rfl⟩ BodyState.noConfusion

/-- What the stream of a body yields when it is polled until it ends; a failure need not be the last item. -/
abbrev Body (ε : Type) := List (Except ε Str)

namespace Body
variable {ε : Type}

def chunks : Body ε → List Str
  | [] => []
  | .ok chunk :: rest => chunk :: chunks rest
  | .error _ :: _ => []

def failure : Body ε → Option ε
  | [] => none
  | .ok _ :: rest => failure rest
  | .error e :: _ => some e

/-- What is still yielded when the stream is polled after its first failure. -/
def afterFailure : Body ε → Body ε
  | [] => []
  | .ok _ :: rest => afterFailure rest
  | .error _ :: rest => rest

def content : Body ε → Str
  | [] => []
  | .ok chunk :: rest => chunk ++ content rest
  | .error _ :: rest => content rest

end Body

def maxBridgeChunkBytes : Nat := 64 * 1024

/-- A network chunk in pieces that the bridge takes; `fuel` is the length of the chunk. -/
def pieces : (fuel : Nat) → Str → List Str
  | 0, bytes => [bytes]
  | fuel + 1, bytes =>
    if maxBridgeChunkBytes < bytes.length then bytes.take maxBridgeChunkBytes :: pieces fuel (bytes.drop maxBridgeChunkBytes)
    else [bytes]

section
variable {E D ε : Type} (lib : EncodingRs E D)

/-- What the producer of an iterator over bytes sends for an item of the stream. -/
def byteMessages (isAsync : Bool) : Except ε Str → List (Except ε Str)
  | .ok bytes => if isAsync then [.ok bytes] else (pieces bytes.length bytes).map .ok
  | .error e => [.error e]

def decoderAfter (decoder : IncrementalDecoder D) : List Str → IncrementalDecoder D
  | [] => decoder
  | chunk :: rest => decoderAfter (decoder.decode lib chunk false).2 rest

/-- The decoder and the line buffer behind the chunks of a body. -/
def linesAfter (decoder : IncrementalDecoder D) (lineBuffer : Str) : List Str → IncrementalDecoder D × Str
  | [] => (decoder, lineBuffer)
  | chunk :: rest =>
    linesAfter (decoder.decode lib chunk false).2 (completeLines (lineBuffer ++ (decoder.decode lib chunk false).1)).2 rest

def messages (cfg : Config) (encodingName : Option Str) (body : Body ε) : List (Except ε Str) :=
  match cfg.kind with
  | .bytes | .raw => body.flatMap (byteMessages cfg.isAsync)
  | .text => textItems lib (.new lib encodingName) body
  | .lines => lineItems lib (.new lib encodingName) [] body

end

/-- A thread or task: between calls, past the look into the slot, or with a chunk to return and its rest to
store. `late` calls began after an error had been raised. -/
inductive Call
  | idle
  | checked (late : Bool)
  | holding (late : Bool) (chunk rest : Str)
  deriving DecidableEq

def Call.isHolding : Call → Bool
  | .holding _ _ _ => true
  | _ => false

inductive Result (ε : Type)
  | data (chunk : Str)
  | error (e : ε)
  | stop
  deriving DecidableEq

/-- An iterator: the queue, what the producer has yet to send and whether it has sent an error, the slot for the
rest of a chunk, and what the calls have returned. -/
structure Iterator (ε : Type) where
  queue : List (Except ε Str)
  sends : List (Except ε Str)
  failed : Bool
  closed : Bool
  slot : Option Str
  calls : List Call
  raised : Bool
  log : List (Bool × Result ε)

inductive Action
  | send
  /-- The producer is cancelled; a text decoder may flush something. -/
  | cancel (flush : List Str)
  | close
  | begin (i : Nat)
  | receive (i : Nat)
  | store (i : Nat)

namespace Iterator
variable {ε : Type}

def capacity : Nat := 16

def returns (s : Iterator ε) (i : Nat) (late : Bool) (result : Result ε) : Iterator ε :=
  { s with calls := s.calls.set i .idle, log := s.log ++ [(late, result)] }

/-- The first critical section of a call: a part of what is in the slot, if there is anything. -/
def look (cfg : Config) (s : Iterator ε) (i : Nat) : Iterator ε :=
  match s.slot with
  | none => { s with calls := s.calls.set i (.checked s.raised) }
  | some bytes =>
    match cfg.limit with
    | none => { s.returns i s.raised (.data bytes) with slot := if cfg.isAsync then some [] else none }
    | some size =>
      { s.returns i s.raised (.data (bytes.take size)) with
        slot := if (bytes.drop size).isEmpty then none else some (bytes.drop size) }

def take (cfg : Config) (s : Iterator ε) (i : Nat) (late : Bool) : Except ε Str → Iterator ε
  | .error e => { s.returns i late (.error e) with raised := true }
  | .ok bytes =>
    match cfg.limit with
    | none => s.returns i late (.data bytes)
    | some size =>
      if size < bytes.length then { s with calls := s.calls.set i (.holding late (bytes.take size) (bytes.drop size)) }
      else s.returns i late (.data bytes)

/-- One step; asynchronous calls hold the lock of the receiver until they return. -/
def step (cfg : Config) (s : Iterator ε) : Action → Option (Iterator ε)
  | .send =>
    match s.sends with
    | [] => none
    | m :: rest =>
      if s.closed = false ∧ s.queue.length < capacity then
        some { s with queue := s.queue ++ [m], sends := rest, failed := s.failed || !m.isOk }
      else none
  | .cancel flush =>
    -- the producers of text and lines have left their loop after an error, those of bytes poll on
    if s.closed = false ∧ (cfg.ofBytes = false → s.failed = false) ∧ (cfg.ofBytes = true → flush = []) then
      some { s with sends := flush.map .ok }
    else none
  | .close => if s.sends = [] then some { s with closed := true } else none
  | .begin i =>
    match s.calls[i]? with
    | some .idle => some (s.look cfg i)
    | _ => none
  | .receive i =>
    match s.calls[i]? with
    | some (.checked late) =>
      if cfg.isAsync = true ∧ s.calls.any Call.isHolding = true then none
      else
        match s.queue with
        | m :: rest => some ({ s with queue := rest }.take cfg i late m)
        | [] => if s.closed then some (s.returns i late .stop) else none
    | _ => none
  | .store i =>
    match s.calls[i]? with
    | some (.holding late chunk rest) => some { s.returns i late (.data chunk) with slot := some rest }
    | _ => none

end Iterator

section
variable {E D ε : Type} (lib : EncodingRs E D)

/-- An iterator as it is made, for a number of threads or tasks. -/
def start (cfg : Config) (encodingName : Option Str) (body : Body ε) (callers : Nat) : Iterator ε where
  queue := []
  sends := messages lib cfg encodingName body
  failed := false
  closed := false
  slot := none
  calls := List.replicate callers .idle
  raised := false
  log := []

end

section
variable {ε : Type}

def returned : List (Bool × Result ε) → Str
  | [] => []
  | (_, .data chunk) :: rest => chunk ++ returned rest
  | _ :: rest => returned rest

/-- Chunks of bytes make up a prefix of the body in the order of their return, and once an error was raised a call finds the
end. -/
structure Lawful (cfg : Config) (body : Body ε) (s : Iterator ε) : Prop where
  chunks : cfg.ofBytes = true → returned s.log <+: body.content
  quiet : ∀ entry ∈ s.log, entry.1 = true → entry.2 = .stop

/-- Nothing follows the failure of a body: an iterator over bytes polls no further item out of the stream, the
others have no incomplete character and no unfinished line to flush. -/
def OwesNothing {E D : Type} (lib : EncodingRs E D) (cfg : Config) (encodingName : Option Str) (body : Body ε) : Prop :=
  body.failure.isSome = true →
    match cfg.kind with
    | .bytes | .raw => body.afterFailure = []
    | .text => (decoderAfter lib (.new lib encodingName) body.chunks).finish lib = []
    | .lines =>
      let (decoder, lineBuffer) := linesAfter lib (.new lib encodingName) [] body.chunks
      lineBuffer ++ decoder.finish lib = []

/-- A call takes a message only while no part of an earlier one is held back, in the slot or by another call. -/
def InTurn (s : Iterator ε) : Action → Prop
  | .receive _ => s.slot = none ∧ s.calls.any Call.isHolding = false
  | _ => True

end

end Eggfetch.Streaming.Iterators
