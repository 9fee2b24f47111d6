import Eggfetch.Text.Bytes
import Eggfetch.Text.Chunks

/-! The body of the facade's `Response` (`_response.py`), over a stream of the caller or a native streaming response
(`streaming.rs`). -/
namespace Eggfetch.Facade.Bodies
open Text

/-- What a source yields. -/
inductive Event
  | chunk (bytes : Str)
  | error
deriving DecidableEq

def chunksOf : List Event → List Str
  | .chunk bytes :: events => bytes :: chunksOf events
  | _ => []

def afterError : List Event → Option (List Event)
  | .chunk _ :: events => afterError events
  | .error :: events => some events
  | [] => none

def bytesOf : List Event → Str
  | .chunk bytes :: events => bytes ++ bytesOf events
  | .error :: events => bytesOf events
  | [] => []

/-- The object that the caller passed as a stream. -/
structure Stream where
  events : List Event
  left : List Event
  /-- `__iter__` and `__aiter__`. -/
  sync : Bool
  async : Bool
  /-- Every iteration starts anew, as that of a list does. -/
  restarts : Bool
  /-- After an error the rest follows, which a generator never does. -/
  resumes : Bool
  /-- Closing ends it. -/
  closes : Bool

namespace Stream

def current (t : Stream) : List Event := if t.restarts then t.events else t.left

def spend (t : Stream) : Stream :=
  { t with left := match afterError t.current with
      | none => []
      | some rest => if t.resumes then rest else [] }

def close (t : Stream) : Stream := if t.closes then { t with left := [] } else t

end Stream

/-- `body_state`. -/
inductive NativeState
  | streaming
  | consumed
  | buffered
  | closed
deriving DecidableEq

/-- A `StreamingResponse`: the decoded body, the body as it was sent. -/
structure Native where
  decoded : List Event
  raw : List Event
  state : NativeState

inductive Outcome
  | returned (body : Str)
  | ended (chunks : List Str)
  | raised (chunks : List Str)
  | endless
deriving DecidableEq

def Outcome.ofEvents (chunks : List Str) (events : List Event) : Outcome :=
  if afterError events = none then .ended chunks else .raised chunks

def MAX_BRIDGE_CHUNK_BYTES : Nat := 64 * 1024

namespace Native

/-- `read` and `aread`. -/
def read (n : Native) : Outcome × Native :=
  if n.state = .streaming then
    if afterError n.decoded = none then (.returned (chunksOf n.decoded).flatten, { n with state := .buffered })
    else (.raised [], { n with state := .consumed })
  else (.raised [], n)

/-- What an iterator is fed: a synchronous one is given large chunks in parts. -/
def bridge (isAsync : Bool) (events : List Event) : List Event :=
  if isAsync then events
  else events.flatMap fun
    | .chunk bytes => (split MAX_BRIDGE_CHUNK_BYTES bytes).map .chunk
    | .error => [.error]

/-- `iter_bytes` and `aiter_bytes`. A size that is no `usize` is refused before the stream is taken. -/
def iterBytes (n : Native) (isAsync : Bool) (chunkSize : Option Int) : Outcome × Native :=
  match chunkSize with
  | none => (.raised [], n)
  | some size =>
    if size < 0 then (.raised [], n)
    else if n.state = .streaming then
      let taken := { n with state := .consumed }
      if size = 0 then
        if isAsync then
          (if (chunksOf n.decoded).all (·.isEmpty) then .ofEvents (chunksOf n.decoded) n.decoded else .endless, taken)
        else (.raised [], taken)
      else (.ofEvents ((chunksOf (bridge isAsync n.decoded)).flatMap (split size.toNat)) n.decoded, taken)
    else (.raised [], n)

/-- `iter_raw` and `aiter_raw` without a size. -/
def iterRaw (n : Native) (isAsync : Bool) : Option (List Event) × Native :=
  if n.state = .streaming then (some (bridge isAsync n.raw), { n with state := .consumed }) else (none, n)

/-- `drain_and_close`. -/
def close (n : Native) : Native := { n with state := .closed }

end Native

structure Response where
  content : Option Str
  stream : Option Stream
  native : Option Native
  consumed : Bool
  closed : Bool

/-- What a response is built from. -/
inductive Source
  | content (bytes : Str)
  | stream (events : List Event) (sync async restarts resumes closes : Bool)
  | native (decoded raw : List Event)

def Source.response : Source → Response
  | .content bytes => ⟨some bytes, none, none, true, true⟩
  | .stream events sync async restarts resumes closes =>
      ⟨none, some ⟨events, events, sync, async, restarts, resumes, closes⟩, none, false, false⟩
  | .native decoded raw => ⟨none, none, some ⟨decoded, raw, .streaming⟩, false, false⟩

def Source.whole : Source → Str
  | .content bytes => bytes
  | .stream events .. => bytesOf events
  | .native decoded _ => bytesOf decoded

/-- The chunks of an iteration over a stream of the caller, none of which may come where the size is not positive. -/
def pieces (chunkSize : Option Int) (events : List Event) : Outcome :=
  let chunks := chunksOf events
  match chunkSize with
  | none => .ofEvents chunks events
  | some size =>
    if size ≤ 0 then if chunks = [] then .ofEvents [] events else .endless
    else
      let pieces := rechunk size.toNat [] chunks
      if afterError events = none then .ended (withRest pieces) else .raised pieces.1

/-- `chunk_size or 8192`. -/
def sizeOr : Option Int → Int
  | none => 8192
  | some size => if size = 0 then 8192 else size

/-- The slices over `range(0, len(data), chunk_size or 8192)`; a negative size has none. -/
def slices (chunkSize : Option Int) (data : Str) : List Str :=
  if sizeOr chunkSize < 0 then [] else withRest (cut (sizeOr chunkSize).toNat data)

/-- `_RawByteChunker` over the chunks of a source. A size that is not positive fails at the first chunk. -/
def rawPieces (chunkSize : Option Int) (events : List Event) : Outcome :=
  let chunks := chunksOf events
  match chunkSize with
  | none => .ofEvents (chunks.filter (!·.isEmpty)) events
  | some size =>
    if size ≤ 0 then if chunks = [] then .ofEvents [] events else .raised []
    else
      let pieces := rechunk size.toNat [] chunks
      if afterError events = none then .ended (withRest pieces) else .raised pieces.1

namespace Response

/-- `close` and `aclose`. -/
def close (r : Response) : Response :=
  if r.closed then r else { r with closed := true, native := r.native.map Native.close, stream := r.stream.map Stream.close }

def usable (t : Stream) (isAsync : Bool) : Bool := if isAsync then t.async else t.sync

/-- `read` and `aread`. -/
def read (r : Response) (isAsync : Bool) : Outcome × Response :=
  if r.consumed then
    match r.content with
    | some content => (.returned content, r)
    | none => (.raised [], r)
  else
    match r.native, r.stream with
    | some native, _ =>
      match native.read with
      | (.returned body, native) => (.returned body,
          close { r with native := some native, content := some body, consumed := true })
      | (outcome, native) => (outcome, { r with native := some native })
    | none, some t =>
      if usable t isAsync then
        let body := (chunksOf t.current).flatten
        if afterError t.current = none then
          (.returned body, close { r with stream := some t.spend, content := some body, consumed := true })
        else (.raised [], { r with stream := some t.spend })
      else (.raised [], r)
    | none, none => (.returned (r.content.getD []), close { r with content := some (r.content.getD []), consumed := true })

/-- The source that `iter_bytes` and `aiter_bytes` read: a stream stands before the content in the one and behind it in the
other. -/
def iterate (r : Response) (isAsync : Bool) (chunkSize : Option Int) : Outcome × Response :=
  let ofContent : Outcome × Response := (.ended (slices chunkSize (r.content.getD [])), r)
  match r.native, r.stream with
  | some native, _ =>
    let (outcome, native) := native.iterBytes isAsync chunkSize
    (outcome, { r with native := some native })
  | none, some t =>
    if isAsync && r.content.isSome then ofContent
    else if usable t isAsync || isAsync && t.sync then (pieces chunkSize t.current, { r with stream := some t.spend })
    else (.raised [], r)
  | none, none => ofContent

/-- `iter_bytes` and `aiter_bytes`, driven to their end. -/
def iterBytes (r : Response) (isAsync : Bool) (chunkSize : Option Int) : Outcome × Response :=
  if (r.consumed || r.closed) && r.content.isNone then (.raised [], r)
  else
    let (outcome, r) := r.iterate isAsync chunkSize
    (outcome, close { r with consumed := true })

/-- `iter_raw` closes behind its last chunk only. -/
def closeAtEnd : Outcome × Response → Outcome × Response
  | (.ended chunks, r) => (.ended chunks, close r)
  | result => result

/-- `iter_raw` and `aiter_raw`, driven to their end. -/
def iterRaw (r : Response) (isAsync : Bool) (chunkSize : Option Int) : Outcome × Response :=
  if r.consumed || r.closed then (.raised [], r)
  else
    match r.native, r.stream with
    | some native, _ =>
      match native.iterRaw isAsync with
      | (some raw, native) => closeAtEnd (rawPieces chunkSize raw, { r with consumed := true, native := some native })
      | (none, native) => (.raised [], { r with consumed := true, native := some native })
    | none, some t =>
      if usable t isAsync then closeAtEnd (rawPieces chunkSize t.current, { r with consumed := true, stream := some t.spend })
      else (.raised [], r)
    | none, none => (.raised [], { r with consumed := true })

end Response

inductive Call
  | read (isAsync : Bool)
  | iterBytes (isAsync : Bool) (chunkSize : Option Int)
  | iterRaw (isAsync : Bool) (chunkSize : Option Int)

def Response.call (r : Response) : Call → Outcome × Response
  | .read isAsync => r.read isAsync
  | .iterBytes isAsync chunkSize => r.iterBytes isAsync chunkSize
  | .iterRaw isAsync chunkSize => r.iterRaw isAsync chunkSize

end Eggfetch.Facade.Bodies
