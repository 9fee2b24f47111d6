import Eggfetch.Pipeline.Request
import Eggfetch.Polling.Source

/-! The response bodies with a read timeout and a total deadline: `BodyTimeoutStream` of
`stream/body_timeout.rs` and `NativeResponseBody` of `body.rs`. -/
namespace Eggfetch.Body
open Polling
open Pipeline (Duration TimeoutPhase)

abbrev Instant := Nat

/-- `instantMax` is the last instant the platform represents. -/
def checkedAdd (instantMax now : Instant) (duration : Duration) : Option Instant :=
  if now + duration ≤ instantMax then some (now + duration) else none

def years (n : Nat) : Duration := 86400 * 365 * n * 10 ^ 9

/-- When a new `tokio::time::sleep` ends. -/
def sleep (instantMax now : Instant) (duration : Duration) : Instant :=
  (checkedAdd instantMax now duration).getD (now + years 30)

def saturatingTokioNowPlus (instantMax now : Instant) (duration : Duration) : Instant :=
  (checkedAdd instantMax now duration).getD ((checkedAdd instantMax now (years 10)).getD now)

structure ResponseDeadline where
  deadline : Instant
  total : Duration

namespace ResponseDeadline

def isExpired (d : ResponseDeadline) (now : Instant) : Bool := d.deadline ≤ now

def elapsed (d : ResponseDeadline) (now : Instant) : Duration :=
  now - if d.total ≤ d.deadline then d.deadline - d.total else d.deadline

end ResponseDeadline

/-- The timeouts of a body. -/
structure Timeouts where
  instantMax : Instant
  read : Option Duration
  total : Option ResponseDeadline

def Timeouts.expired (t : Timeouts) (now : Instant) : Bool := t.total.any (·.isExpired now)

/-- What one poll reads off the clock: at its start if it is the first, when it sets the
timers up, before and after it polls the inner body, and at last. -/
structure Readings where
  start : Instant
  armed : Instant
  before : Instant
  after : Instant
  later : Instant

inductive BodyError (E : Type) where
  | inner (e : E)
  | timeout (phase : TimeoutPhase) (elapsed : Duration)

/-- The state of both bodies: how often the inner one was polled, the ends of the two sleeps,
and the flags `started` and `timed_out` or `done`. -/
structure TimedBody where
  polled : Nat := 0
  readDeadline : Option Instant := none
  totalSleep : Option Instant := none
  started : Bool := false
  done : Bool := false
  deriving DecidableEq

variable {E C : Type}

def totalTimeout (t : Timeouts) (r : Readings) : Poll (Option (Except (BodyError E) C)) :=
  .ready (some (.error (.timeout .total ((t.total.map (·.elapsed r.later)).getD 0))))

def readTimeout (t : Timeouts) : Poll (Option (Except (BodyError E) C)) :=
  .ready (some (.error (.timeout .read (t.read.getD 0))))

namespace TimedBody

def stop (s : TimedBody) : TimedBody := { s with readDeadline := none, totalSleep := none, done := true }

def arm (t : Timeouts) (r : Readings) (s : TimedBody) : TimedBody :=
  if s.started then s
  else
    { s with
      started := true
      totalSleep := t.total.map ResponseDeadline.deadline
      readDeadline := t.read.map (sleep t.instantMax r.armed) }

def restart (t : Timeouts) (r : Readings) (s : TimedBody) : TimedBody :=
  match s.readDeadline, t.read with
  | some _, some read => { s with readDeadline := some (saturatingTokioNowPlus t.instantMax r.later read) }
  | _, _ => s

/-- The sleeps, once the inner body is pending: the total one goes first. -/
def pollTimers (t : Timeouts) (r : Readings) (s : TimedBody) : Poll (Option (Except (BodyError E) C)) × TimedBody :=
  if s.totalSleep.any (· ≤ r.after) then (totalTimeout t r, s.stop)
  else if s.readDeadline.any (· ≤ r.later) then (readTimeout t, s.stop)
  else (.pending, s)

def next (s : TimedBody) : TimedBody := { s with polled := s.polled + 1 }

/-- A poll once the timers are set up; `settle` is what an error or the end of the inner body
does to the state. -/
def pollInner (settle : TimedBody → TimedBody) (t : Timeouts) (inner : Answers E C) (r : Readings) (s : TimedBody) :
    Poll (Option (Except (BodyError E) C)) × TimedBody :=
  if t.expired r.before then (totalTimeout t r, s.stop)
  else
    match inner s.polled with
    | .ready (some (.ok chunk)) =>
      if t.expired r.after then (totalTimeout t r, s.next.stop) else (.ready (some (.ok chunk)), s.next.restart t r)
    | .ready (some (.error e)) => (.ready (some (.error (.inner e))), settle s.next)
    | .ready none => (.ready none, settle s.next)
    | .pending => s.next.pollTimers t r

def poll (settle : TimedBody → TimedBody) (t : Timeouts) (inner : Answers E C) (r : Readings) (s : TimedBody) :
    Poll (Option (Except (BodyError E) C)) × TimedBody :=
  if s.done then (.ready none, s)
  else if !s.started && t.expired r.start then (totalTimeout t r, { s with started := true, done := true })
  else (s.arm t r).pollInner settle t inner r

end TimedBody

/-- `BodyTimeoutStream::poll_next` drops the sleeps at an error or the end of the inner stream. -/
def pollNext (t : Timeouts) (inner : Answers E C) : Readings → TimedBody → Poll (Option (Except (BodyError E) C)) × TimedBody :=
  TimedBody.poll (fun s => { s with readDeadline := none, totalSleep := none }) t inner

/-- `NativeResponseBody::poll_frame` is done after them. -/
def pollFrame (t : Timeouts) (inner : Answers E C) : Readings → TimedBody → Poll (Option (Except (BodyError E) C)) × TimedBody :=
  TimedBody.poll (fun s => { s with done := true }) t inner

/-- One poll of a run. -/
structure Polled (E C : Type) where
  readings : Readings
  before : TimedBody
  answer : Poll (Option (Except (BodyError E) C))
  after : TimedBody

def runPolls (poll : Readings → TimedBody → Poll (Option (Except (BodyError E) C)) × TimedBody) :
    TimedBody → List Readings → List (Polled E C)
  | _, [] => []
  | s, r :: rest => ⟨r, s, (poll r s).1, (poll r s).2⟩ :: runPolls poll (poll r s).2 rest

def items (ps : List (Polled E C)) : List (Except (BodyError E) C) := ps.filterMap (·.answer.item)

end Eggfetch.Body
