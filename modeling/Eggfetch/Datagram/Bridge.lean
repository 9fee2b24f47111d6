import Eggfetch.Retry.Policy
import Eggfetch.Transition.Runs

/-! The datagram bridge of `transport/datagram.rs`: the two workers of a route, and the polls
of its socket. Each queue operation, each locked access and each wake of a set is one
action. -/
namespace Eggfetch.Datagram
open Text Retry

def routeQueueDepth : Nat := 64
def maxRouteWakers : Nat := 8

/-- A waker, by the task that it wakes; `will_wake` is equality. -/
abbrev Waker := Nat

def register (wakers : List Waker) (w : Waker) : List Waker :=
  if w ∈ wakers then wakers else if wakers.length < maxRouteWakers then wakers ++ [w] else wakers

/-- `record_failure`, before each of its three sections. -/
inductive Recording where
  | record (kind : DialErrorKind)
  | wakeTx
  | wakeRx
  deriving DecidableEq, Repr

inductive SendWorker where
  | receive
  | wakeTx
  | send
  | failing (r : Recording)
  | stopped
  deriving DecidableEq, Repr

inductive RecvWorker where
  | reserve
  | receive
  | wakeRx
  | failing (r : Recording)
  | stopped
  deriving DecidableEq, Repr

/-- A `poll_recv` or a `poll_writable` before each of its three sections. -/
inductive Poll where
  | tryRecv (w : Waker)
  | recvFailure (w : Waker)
  | recvRegister (w : Waker)
  | writableFailure (w : Waker)
  | capacity (w : Waker)
  | writableRegister (w : Waker)
  | ready
  | pending
  deriving DecidableEq, Repr

/-- The state that workers and socket share; `parkedRecv` and `parkedWritable` are the wakers
of polls that have returned `Pending` and have not been woken since. -/
structure Bridge where
  failure : Option DialErrorKind
  txQueue : List Str
  rxQueue : List Str
  txWakers : List Waker
  rxWakers : List Waker
  sendWorker : SendWorker
  recvWorker : RecvWorker
  polls : List Poll
  parkedRecv : List Waker
  parkedWritable : List Waker
  deriving DecidableEq, Repr

inductive Action where
  /-- Quinn sends a datagram. -/
  | trySend (datagram : Str)
  | pollRecv (w : Waker)
  | pollWritable (w : Waker)
  /-- The next section of poll `i`. -/
  | poll (i : Nat)
  /-- The next step of a worker; `failure` is the error of the route, if it fails there. -/
  | sendWorker (failure : Option DialErrorKind)
  | recvWorker (received : Except DialErrorKind Str)

namespace Bridge

def init : Bridge where
  failure := none
  txQueue := []
  rxQueue := []
  txWakers := []
  rxWakers := []
  sendWorker := .receive
  recvWorker := .reserve
  polls := []
  parkedRecv := []
  parkedWritable := []

variable (s : Bridge)

/-- `tx.capacity() > 0`. -/
def HasCapacity : Prop := s.txQueue.length < routeQueueDepth

instance : Decidable s.HasCapacity := inferInstanceAs (Decidable (_ < _))

def woken (wakers : List Waker) : Bridge :=
  { s with
    parkedRecv := s.parkedRecv.filter (· ∉ wakers)
    parkedWritable := s.parkedWritable.filter (· ∉ wakers) }

/-- `wake_all` of either set. -/
def wakeTx : Bridge := { s.woken s.txWakers with txWakers := [] }
def wakeRx : Bridge := { s.woken s.rxWakers with rxWakers := [] }

/-- A section of `record_failure`, and what is left of it. -/
def recordFailure : Recording → Bridge × Option Recording
  | .record kind => ({ s with failure := s.failure <|> some kind }, some .wakeTx)
  | .wakeTx => (s.wakeTx, some .wakeRx)
  | .wakeRx => (s.wakeRx, none)

/-- A send worker that stops drops its end of the queue, and with it what is queued. -/
def stopSend : Bridge := { s with sendWorker := .stopped, txQueue := [] }

def stepSend (failure : Option DialErrorKind) : Option Bridge :=
  match s.sendWorker with
  | .receive =>
    match s.txQueue with
    | [] => none
    | _ :: queue => some { s with txQueue := queue, sendWorker := .wakeTx }
  | .wakeTx => some { s.wakeTx with sendWorker := .send }
  | .send =>
    match failure with
    | none => some { s with sendWorker := .receive }
    | some kind => some { s with sendWorker := .failing (.record kind) }
  | .failing r =>
    match s.recordFailure r with
    | (s', some rest) => some { s' with sendWorker := .failing rest }
    | (s', none) => some s'.stopSend
  | .stopped => none

def stepRecv (received : Except DialErrorKind Str) : Option Bridge :=
  match s.recvWorker with
  | .reserve => if s.rxQueue.length < routeQueueDepth then some { s with recvWorker := .receive } else none
  | .receive =>
    match received with
    | .ok datagram => some { s with rxQueue := s.rxQueue ++ [datagram], recvWorker := .wakeRx }
    | .error kind => some { s with recvWorker := .failing (.record kind) }
  | .wakeRx => some { s.wakeRx with recvWorker := .reserve }
  | .failing r =>
    match s.recordFailure r with
    | (s', some rest) => some { s' with recvWorker := .failing rest }
    | (s', none) => some { s' with recvWorker := .stopped }
  | .stopped => none

def setPoll (i : Nat) (p : Poll) : Bridge := { s with polls := s.polls.set i p }

/-- The next section of poll `i`, which is at `p`. -/
def stepPoll (i : Nat) : Poll → Option Bridge
  | .tryRecv w =>
    match s.rxQueue with
    | _ :: queue => some { s with rxQueue := queue, polls := s.polls.set i .ready }
    | [] =>
      -- the sender is gone with its worker
      if s.recvWorker = .stopped then some (s.setPoll i .ready) else some (s.setPoll i (.recvFailure w))
  | .recvFailure w => some (s.setPoll i (if s.failure.isSome then .ready else .recvRegister w))
  | .recvRegister w =>
    some { s with
      rxWakers := register s.rxWakers w
      parkedRecv := w :: s.parkedRecv
      polls := s.polls.set i .pending }
  | .writableFailure w => some (s.setPoll i (if s.failure.isSome then .ready else .capacity w))
  | .capacity w => some (s.setPoll i (if s.HasCapacity then .ready else .writableRegister w))
  | .writableRegister w =>
    some { s with
      txWakers := register s.txWakers w
      parkedWritable := w :: s.parkedWritable
      polls := s.polls.set i .pending }
  | .ready | .pending => none

/-- A task that polls again no longer waits for the poll before. -/
def step : Action → Option Bridge
  | .trySend datagram =>
    if s.HasCapacity ∧ s.sendWorker ≠ .stopped then some { s with txQueue := s.txQueue ++ [datagram] } else none
  | .pollRecv w =>
    some { s with polls := s.polls ++ [.tryRecv w], parkedRecv := s.parkedRecv.filter (· ≠ w) }
  | .pollWritable w =>
    some { s with polls := s.polls ++ [.writableFailure w], parkedWritable := s.parkedWritable.filter (· ≠ w) }
  | .poll i => (s.polls[i]?).bind (s.stepPoll i)
  | .sendWorker failure => s.stepSend failure
  | .recvWorker received => s.stepRecv received

end Bridge
end Eggfetch.Datagram
