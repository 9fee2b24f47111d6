import Eggfetch.Body.Deadlines
import Eggfetch.Compression.Model

/-! Response bodies and the pool lease they carry: how `body.rs` hands it from the body to the
stream that is read, and when it is released. -/
namespace Eggfetch.Body
open Text Polling
open Compression (DecompressionLimit alreadyConsumed)
open Pipeline (Duration)

abbrev Stream := Answers Compression.Error Str

abbrev Answer := Poll (Option (Except (BodyError Compression.Error) Str))

/-- What a response keeps of the guard behind its lease. -/
structure Lease where
  read : Option Duration
  total : Option ResponseDeadline

inductive ResponseBody where
  | buffered (bytes : Str)
  | streaming (stream : Stream) (lease : Option Lease)
  | encodedStreaming (stream : Stream) (lease : Option Lease) (contentEncoding : Str) (limit : DecompressionLimit)
  | consumed

def count (lease : Option Lease) : Nat := if lease.isSome then 1 else 0

namespace ResponseBody

def lease : ResponseBody → Option Lease
  | streaming _ lease => lease
  | encodedStreaming _ lease _ _ => lease
  | _ => none

def unread : ResponseBody → Bool
  | consumed => false
  | _ => true

def attachLease (lease : Lease) : ResponseBody → ResponseBody × Nat
  | streaming stream old => (streaming stream (some lease), count old)
  | encodedStreaming stream old ce limit => (encodedStreaming stream (some lease) ce limit, count old)
  | other => (other, 1)

end ResponseBody

structure Limited where
  polled : Nat := 0
  decodedBytes : Nat := 0
  limitExceeded : Bool := false

def Limited.pollNext (max : Nat) (inner : Stream) (s : Limited) : Poll (Option (Except Compression.Error Str)) × Limited :=
  if s.limitExceeded then (.ready none, s)
  else
    match inner s.polled with
    | .ready (some (.ok chunk)) =>
      let decodedBytes := min (s.decodedBytes + chunk.length) Compression.usizeMax
      if max < decodedBytes then (.ready (some (.error .decodedBodyTooLarge)), ⟨s.polled + 1, decodedBytes, true⟩)
      else (.ready (some (.ok chunk)), ⟨s.polled + 1, decodedBytes, false⟩)
    | other => (other, { s with polled := s.polled + 1 })

def Limited.after (max : Nat) (inner : Stream) : Nat → Limited
  | 0 => {}
  | n + 1 => ((Limited.after max inner n).pollNext max inner).2

def limitedResponseStream (max : Nat) (inner : Stream) : Stream :=
  fun n => ((Limited.after max inner n).pollNext max inner).1

def ResponseBody.limitDecodedSize (max : Nat) : ResponseBody → Except Compression.Error ResponseBody
  | buffered bytes => if max < bytes.length then .error .decodedBodyTooLarge else .ok (buffered bytes)
  | streaming stream lease => .ok (streaming (limitedResponseStream max stream) lease)
  | encodedStreaming stream lease ce limit =>
    .ok (encodedStreaming stream lease ce
      { limit with maxDecodedBodySize := some (limit.maxDecodedBodySize.elim max (min · max)) })
  | consumed => .ok consumed

/-- A stream that was handed out: the selected stream in the timeout wrapper, if there is one,
and in `LeasedResponseStream`. -/
structure Reader where
  stream : Stream
  timeouts : Option Timeouts
  lease : Option Lease
  timed : TimedBody := {}

def passOn {E C : Type} : Poll (Option (Except E C)) → Poll (Option (Except (BodyError E) C))
  | .ready (some (.ok chunk)) => .ready (some (.ok chunk))
  | .ready (some (.error e)) => .ready (some (.error (.inner e)))
  | .ready none => .ready none
  | .pending => .pending

namespace Reader

def pollTimed (rd : Reader) (r : Readings) : Answer × TimedBody :=
  match rd.timeouts with
  | some t => pollNext t rd.stream r rd.timed
  | none => (passOn (rd.stream rd.timed.polled), rd.timed.next)

/-- `LeasedResponseStream::poll_next` -/
def poll (rd : Reader) (r : Readings) : Answer × Reader :=
  ((rd.pollTimed r).1,
    { rd with timed := (rd.pollTimed r).2, lease := if (rd.pollTimed r).1.goesOn then rd.lease else none })

def once (bytes : Str) : Reader where
  stream
    | 0 => .ready (some (.ok bytes))
    | _ => .ready none
  timeouts := none
  lease := none

/-- `body_timeout_stream` leaves the stream as it is without timeouts. -/
def new (instantMax : Instant) (stream : Stream) (lease : Option Lease) : Reader where
  stream
  timeouts := lease.bind fun lease =>
    if lease.read.isNone && lease.total.isNone then none else some ⟨instantMax, lease.read, lease.total⟩
  lease

/-- The loop of `bytes()` over its polls; `none` while none has ended it. -/
def collect (rd : Reader) : List Readings → Str → Option (Except (BodyError Compression.Error) Str)
  | [], _ => none
  | r :: rest, buf =>
    match (rd.poll r).1 with
    | .ready (some (.ok chunk)) => (rd.poll r).2.collect rest (buf ++ chunk)
    | .ready (some (.error e)) => some (.error e)
    | .ready none => some (.ok buf)
    | .pending => (rd.poll r).2.collect rest buf

end Reader

section
variable (instantMax : Instant) (decompress : Stream → Str → DecompressionLimit → Except Compression.Error Stream)

def ResponseBody.takeStream (raw : Bool) : ResponseBody → Except Compression.Error Reader
  | buffered bytes => .ok (.once bytes)
  | streaming stream lease => .ok (.new instantMax stream lease)
  | encodedStreaming stream lease ce limit =>
    (if raw then .ok stream else decompress stream ce limit).map (Reader.new instantMax · lease)
  | consumed => .error alreadyConsumed

/-- What has come of a response. -/
inductive Event where
  /-- A try to read the body, whether it was unread, and the error. -/
  | attempt (unread : Bool) (failure : Option Compression.Error)
  | answer (a : Answer)
  | droppedReader
  | droppedBody (unread : Bool)

structure Custody where
  body : Option ResponseBody
  reader : Option Reader := none
  released : Nat := 0
  log : List Event := []

inductive Action where
  /-- `bytes_stream()`, or with `raw` `raw_bytes_stream()`. -/
  | takeStream (raw : Bool)
  /-- `bytes()` or `text()` up to its loop. -/
  | bytes
  | poll (r : Readings)
  | dropReader
  | dropBody

namespace Custody

def takeStream (raw : Bool) (s : Custody) (body : ResponseBody) : Custody :=
  match body.takeStream instantMax decompress raw with
  | .ok reader => { s with body := some .consumed, reader := some reader, log := s.log ++ [.attempt body.unread none] }
  | .error e =>
    { s with
      body := some .consumed
      released := s.released + count body.lease
      log := s.log ++ [.attempt body.unread (some e)] }

def bytes (s : Custody) : ResponseBody → Custody
  | .buffered _ => { s with body := some .consumed, log := s.log ++ [.attempt true none] }
  | body => s.takeStream instantMax decompress false body

def step (s : Custody) : Action → Custody
  | .takeStream raw => s.body.elim s (s.takeStream instantMax decompress raw)
  | .bytes => s.body.elim s (s.bytes instantMax decompress)
  | .poll r => s.reader.elim s fun rd =>
    { s with
      reader := some (rd.poll r).2
      released := s.released + (count rd.lease - count (rd.poll r).2.lease)
      log := s.log ++ [.answer (rd.poll r).1] }
  | .dropReader => s.reader.elim s fun rd =>
    { s with reader := none, released := s.released + count rd.lease, log := s.log ++ [.droppedReader] }
  | .dropBody => s.body.elim s fun body =>
    { s with body := none, released := s.released + count body.lease, log := s.log ++ [.droppedBody body.unread] }

def run (s : Custody) (actions : List Action) : Custody := actions.foldl (step instantMax decompress) s

end Custody

def ResponseBody.bytes (body : ResponseBody) (rs : List Readings) : Option (Except (BodyError Compression.Error) Str) :=
  match body with
  | .buffered bytes => some (.ok bytes)
  | body =>
    match body.takeStream instantMax decompress false with
    | .ok reader => reader.collect rs []
    | .error e => some (.error (.inner e))

end

structure NativeResponseBody where
  timed : TimedBody := {}
  lease : Option Lease

def NativeResponseBody.pollFrame {E C : Type} (t : Timeouts) (inner : Answers E C) (r : Readings) (s : NativeResponseBody) :
    Poll (Option (Except (BodyError E) C)) × NativeResponseBody :=
  ((Body.pollFrame t inner r s.timed).1,
    { timed := (Body.pollFrame t inner r s.timed).2
      lease := if (Body.pollFrame t inner r s.timed).2.done then none else s.lease })

def NativeResponseBody.run {E C : Type} (t : Timeouts) (inner : Answers E C) (s : NativeResponseBody) :
    List Readings → List (Poll (Option (Except (BodyError E) C))) × NativeResponseBody
  | [] => ([], s)
  | r :: rest => ((s.pollFrame t inner r).1 :: ((s.pollFrame t inner r).2.run t inner rest).1,
      ((s.pollFrame t inner r).2.run t inner rest).2)

end Eggfetch.Body
