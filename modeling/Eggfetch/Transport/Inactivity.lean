import Eggfetch.Body.Timeout

/-! The inactivity limits of a connection (`LifecycleConnection` of `transport/lifecycle.rs`). -/
namespace Eggfetch.Transport
open Polling Text
open Body (Instant)
open Pipeline (Duration)

inductive TransportIoDirection where
  | read
  | write
  deriving DecidableEq

structure TransportIoTimeout where
  read : Option Duration
  write : Option Duration

def TransportIoTimeout.of (timeout : TransportIoTimeout) : TransportIoDirection → Option Duration
  | .read => timeout.read
  | .write => timeout.write

/-- An error of the connection inside, or the `TimedOut` error of a limit. -/
inductive TransportIoError (E : Type) where
  | inner (e : E)
  | timedOut (direction : TransportIoDirection) (elapsed : Duration)

/-- When a sleep that starts now ends; it lasts for its duration at least. Instants have no bound here: where tokio's own clock
cannot hold the end, it sleeps for thirty years. -/
structure Sleep where
  deadline : Instant → Duration → Instant
  elapsed : ∀ now duration, now + duration ≤ deadline now duration

/-- What one poll reads off the clock: when it starts a sleep, and when it polls one. -/
structure IoReadings where
  armed : Instant
  polled : Instant

structure LifecycleConnection where
  ioTimeout : TransportIoTimeout
  readTimer : Option Instant := none
  writeTimer : Option Instant := none
  readInactivityTimeouts : Nat := 0
  writeInactivityTimeouts : Nat := 0

/-- One poll of Hyper and what the connection inside answers to it. A reader fills the buffer at most, and a writer takes no
more than it is given. -/
inductive IoPoll (E : Type) where
  | read (capacity : Nat) (answer : Poll (Except E Str)) (fits : ∀ bytes, answer = .ready (.ok bytes) → bytes.length ≤ capacity)
  | write (size : Nat) (answer : Poll (Except E Nat)) (fits : ∀ n, answer = .ready (.ok n) → n ≤ size)
  | writeVectored (sizes : List Nat) (answer : Poll (Except E Nat)) (fits : ∀ n, answer = .ready (.ok n) → n ≤ sizes.sum)
  | flush (answer : Poll (Except E Unit))
  | shutdown (answer : Poll (Except E Unit))

inductive IoAnswer (E : Type) where
  | read (answer : Poll (Except (TransportIoError E) Str))
  | written (answer : Poll (Except (TransportIoError E) Nat))
  | completed (answer : Poll (Except (TransportIoError E) Unit))

variable {E α β : Type}

def passed : Poll (Except E α) → Poll (Except (TransportIoError E) α)
  | .pending => .pending
  | .ready (.ok a) => .ready (.ok a)
  | .ready (.error e) => .ready (.error (.inner e))

def inPlace (a : α) : Poll (Except (TransportIoError E) Unit) → Poll (Except (TransportIoError E) α)
  | .pending => .pending
  | .ready (.ok ()) => .ready (.ok a)
  | .ready (.error e) => .ready (.error e)

namespace LifecycleConnection

def timer (me : LifecycleConnection) : TransportIoDirection → Option Instant
  | .read => me.readTimer
  | .write => me.writeTimer

def setTimer (me : LifecycleConnection) (timer : Option Instant) : TransportIoDirection → LifecycleConnection
  | .read => { me with readTimer := timer }
  | .write => { me with writeTimer := timer }

def recordTransportIoTimeout (me : LifecycleConnection) : TransportIoDirection → LifecycleConnection
  | .read => { me with readInactivityTimeouts := me.readInactivityTimeouts + 1 }
  | .write => { me with writeInactivityTimeouts := me.writeInactivityTimeouts + 1 }

def pollTimer (sleep : Sleep) (now : IoReadings) (timeout : Option Duration) (direction : TransportIoDirection)
    (me : LifecycleConnection) : Poll (Except (TransportIoError E) Unit) × LifecycleConnection :=
  match timeout with
  | none => (.pending, me)
  | some timeout =>
    let deadline := (me.timer direction).getD (sleep.deadline now.armed timeout)
    if deadline ≤ now.polled then
      (.ready (.error (.timedOut direction timeout)), (me.setTimer none direction).recordTransportIoTimeout direction)
    else (.pending, me.setTimer (some deadline) direction)

def pollRead (sleep : Sleep) (now : IoReadings) (capacity : Nat) (answer : Poll (Except E Str)) (me : LifecycleConnection) :
    Poll (Except (TransportIoError E) Str) × LifecycleConnection :=
  match me.ioTimeout.read with
  | none => (passed answer, me)
  | some timeout =>
    if capacity = 0 then (passed answer, me)
    else
      match answer with
      | .ready (.ok bytes) =>
        if bytes.length > 0 then (.ready (.ok bytes), me.setTimer none .read)
        else if me.readTimer.isSome then
          match me.pollTimer sleep now (some timeout) .read with
          | (.ready (.error e), me) => (.ready (.error e), me)
          | (.ready (.ok _), me) => (.ready (.ok bytes), me)
          | (.pending, me) => (.ready (.ok bytes), me)
        else (.ready (.ok bytes), me)
      | .ready (.error e) => (.ready (.error (.inner e)), me.setTimer none .read)
      | .pending => ((me.pollTimer sleep now (some timeout) .read).map (inPlace []) id)

/-- `poll_write` and `poll_write_vectored`. -/
def pollWriteWith (sleep : Sleep) (now : IoReadings) (empty : Bool) (answer : Poll (Except E Nat)) (me : LifecycleConnection) :
    Poll (Except (TransportIoError E) Nat) × LifecycleConnection :=
  if empty then (passed answer, me)
  else
    match answer with
    | .ready (.ok written) => (.ready (.ok written), if written > 0 then me.setTimer none .write else me)
    | .ready (.error e) => (.ready (.error (.inner e)), me.setTimer none .write)
    | .pending => ((me.pollTimer sleep now me.ioTimeout.write .write).map (inPlace 0) id)

def pollWrite (sleep : Sleep) (now : IoReadings) (size : Nat) (answer : Poll (Except E Nat)) (me : LifecycleConnection) :
    Poll (Except (TransportIoError E) Nat) × LifecycleConnection :=
  me.pollWriteWith sleep now (size == 0) answer

def pollWriteVectored (sleep : Sleep) (now : IoReadings) (sizes : List Nat) (answer : Poll (Except E Nat))
    (me : LifecycleConnection) : Poll (Except (TransportIoError E) Nat) × LifecycleConnection :=
  me.pollWriteWith sleep now (sizes.all (· == 0)) answer

/-- `poll_flush` and `poll_shutdown`. -/
def pollCompletion (sleep : Sleep) (now : IoReadings) (answer : Poll (Except E Unit)) (me : LifecycleConnection) :
    Poll (Except (TransportIoError E) Unit) × LifecycleConnection :=
  match answer with
  | .ready result => (passed (.ready result), me.setTimer none .write)
  | .pending => me.pollTimer sleep now me.ioTimeout.write .write

def pollFlush (sleep : Sleep) (now : IoReadings) (answer : Poll (Except E Unit)) (me : LifecycleConnection) :
    Poll (Except (TransportIoError E) Unit) × LifecycleConnection := me.pollCompletion sleep now answer

def pollShutdown (sleep : Sleep) (now : IoReadings) (answer : Poll (Except E Unit)) (me : LifecycleConnection) :
    Poll (Except (TransportIoError E) Unit) × LifecycleConnection := me.pollCompletion sleep now answer

def poll (sleep : Sleep) (now : IoReadings) (me : LifecycleConnection) : IoPoll E → IoAnswer E × LifecycleConnection
  | .read capacity answer _ => (me.pollRead sleep now capacity answer).map .read id
  | .write size answer _ => (me.pollWrite sleep now size answer).map .written id
  | .writeVectored sizes answer _ => (me.pollWriteVectored sleep now sizes answer).map .written id
  | .flush answer => (me.pollFlush sleep now answer).map .completed id
  | .shutdown answer => (me.pollShutdown sleep now answer).map .completed id

end LifecycleConnection

namespace IoPoll

def innerAnswer : IoPoll E → IoAnswer E
  | .read _ answer _ => .read (passed answer)
  | .write _ answer _ => .written (passed answer)
  | .writeVectored _ answer _ => .written (passed answer)
  | .flush answer => .completed (passed answer)
  | .shutdown answer => .completed (passed answer)

def timeoutAnswer (op : IoPoll E) (direction : TransportIoDirection) (elapsed : Duration) : IoAnswer E :=
  match op with
  | .read _ _ _ => .read (.ready (.error (.timedOut direction elapsed)))
  | .write _ _ _ => .written (.ready (.error (.timedOut direction elapsed)))
  | .writeVectored _ _ _ => .written (.ready (.error (.timedOut direction elapsed)))
  | .flush _ => .completed (.ready (.error (.timedOut direction elapsed)))
  | .shutdown _ => .completed (.ready (.error (.timedOut direction elapsed)))

def direction : IoPoll E → TransportIoDirection
  | .read _ _ _ => .read
  | _ => .write

/-- The connection inside is not ready for a poll in this direction. -/
def pending : IoPoll E → Bool
  | .read _ answer _ => (answer matches .pending)
  | .write _ answer _ => (answer matches .pending)
  | .writeVectored _ answer _ => (answer matches .pending)
  | .flush answer => (answer matches .pending)
  | .shutdown answer => (answer matches .pending)

def progress : IoPoll E → Nat
  | .read _ (.ready (.ok bytes)) _ => bytes.length
  | .write _ (.ready (.ok written)) _ => written
  | .writeVectored _ (.ready (.ok written)) _ => written
  | _ => 0

def zeroProgress : IoPoll E → Bool
  | .read _ (.ready (.ok bytes)) _ => bytes.isEmpty
  | .write _ (.ready (.ok written)) _ => written == 0
  | .writeVectored _ (.ready (.ok written)) _ => written == 0
  | _ => false

end IoPoll

/-- The clock of a run never goes back. -/
structure IoClock where
  now : Nat → IoReadings
  armed_le : ∀ n, (now n).armed ≤ (now n).polled
  polled_le : ∀ n, (now n).polled ≤ (now (n + 1)).armed

namespace LifecycleConnection

/-- The connection before the poll after `n` others. -/
def after (sleep : Sleep) (clock : IoClock) (polls : Nat → IoPoll E) (me : LifecycleConnection) : Nat → LifecycleConnection
  | 0 => me
  | n + 1 => (poll sleep (clock.now n) (after sleep clock polls me n) (polls n)).2

def answer (sleep : Sleep) (clock : IoClock) (polls : Nat → IoPoll E) (me : LifecycleConnection) (n : Nat) : IoAnswer E :=
  (poll sleep (clock.now n) (me.after sleep clock polls n) (polls n)).1

def new (ioTimeout : TransportIoTimeout) : LifecycleConnection := { ioTimeout }

end LifecycleConnection

/-- No progress in the direction of the poll `n` for `elapsed`, and the connection inside was not ready when that began. -/
structure Stalled (clock : IoClock) (polls : Nat → IoPoll E) (n : Nat) (elapsed : Duration) : Prop where
  pending : ∃ k ≤ n, (polls k).direction = (polls n).direction ∧ (polls k).pending = true ∧
    (clock.now k).armed + elapsed ≤ (clock.now n).polled ∧
    ∀ i, k ≤ i → i ≤ n → (polls i).direction = (polls n).direction → (polls i).progress = 0
  quiet : ∀ i ≤ n, (polls i).direction = (polls n).direction → 0 < (polls i).progress →
    (clock.now i).polled + elapsed ≤ (clock.now n).polled

/-- What a poll answers and leaves. -/
inductive Polled (sleep : Sleep) (now : IoReadings) (op : IoPoll E) (me : LifecycleConnection) :
    IoAnswer E → LifecycleConnection → Prop
  | unlimited (hLimit : me.ioTimeout.of op.direction = none) : Polled sleep now op me op.innerAnswer me
  | kept (hProgress : op.progress = 0) : Polled sleep now op me op.innerAnswer me
  | cleared (hZero : op.zeroProgress = false) : Polled sleep now op me op.innerAnswer (me.setTimer none op.direction)
  | running (elapsed : Duration) (hLimit : me.ioTimeout.of op.direction = some elapsed)
    (hWaits : op.pending = true ∨ op.zeroProgress = true ∧ (me.timer op.direction).isSome = true) :
    Polled sleep now op me op.innerAnswer
      (me.setTimer (some ((me.timer op.direction).getD (sleep.deadline now.armed elapsed))) op.direction)
  | expired (elapsed : Duration) (hLimit : me.ioTimeout.of op.direction = some elapsed)
    (hWaits : op.pending = true ∨ op.zeroProgress = true ∧ (me.timer op.direction).isSome = true)
    (hLate : (me.timer op.direction).getD (sleep.deadline now.armed elapsed) ≤ now.polled) :
    Polled sleep now op me (op.timeoutAnswer op.direction elapsed)
      ((me.setTimer none op.direction).recordTransportIoTimeout op.direction)

theorem Polled.congr {sleep : Sleep} {now : IoReadings} {op op' : IoPoll E} {me me' : LifecycleConnection} {answer : IoAnswer E}
    (h : Polled sleep now op me answer me') (hInner : op.innerAnswer = op'.innerAnswer)
    (hDirection : op.direction = op'.direction)
    (hPending : op.pending = op'.pending) (hProgress : op.progress = op'.progress) (hZero : op.zeroProgress = op'.zeroProgress)
    (hTimeout : op.timeoutAnswer = op'.timeoutAnswer) : Polled sleep now op' me answer me' := by
  cases h with
  | unlimited hLimit =>
    rw [hInner]
    exact .unlimited (hDirection ▸ hLimit)
  | kept hNone =>
    rw [hInner]
    exact .kept (hProgress ▸ hNone)
  | cleared hSome =>
    rw [hInner, hDirection]
    exact .cleared (hZero ▸ hSome)
  | running elapsed hLimit hWaits =>
    rw [hDirection, hPending, hZero] at *
    rw [hInner]
    exact .running elapsed hLimit hWaits
  | expired elapsed hLimit hWaits hLate =>
    rw [hDirection, hPending, hZero] at *
    rw [hTimeout]
    exact .expired elapsed hLimit hWaits hLate

namespace LifecycleConnection
variable {sleep : Sleep} {now : IoReadings} {me : LifecycleConnection}

theorem pollTimer_late {direction : TransportIoDirection} {elapsed : Duration}
    (h : (me.timer direction).getD (sleep.deadline now.armed elapsed) ≤ now.polled) :
    me.pollTimer (E := E) sleep now (some elapsed) direction =
      (.ready (.error (.timedOut direction elapsed)), (me.setTimer none direction).recordTransportIoTimeout direction) := if_pos h

theorem pollTimer_runs {direction : TransportIoDirection} {elapsed : Duration}
    (h : ¬ (me.timer direction).getD (sleep.deadline now.armed elapsed) ≤ now.polled) :
    me.pollTimer (E := E) sleep now (some elapsed) direction =
      (.pending, me.setTimer (some ((me.timer direction).getD (sleep.deadline now.armed elapsed))) direction) := if_neg h

theorem pollRead_polled (capacity : Nat) (answer : Poll (Except E Str)) (fits) :
    Polled sleep now (.read capacity answer fits) me (.read (me.pollRead sleep now capacity answer).1)
      (me.pollRead sleep now capacity answer).2 := by
  rw [pollRead]
  cases hLimit : me.ioTimeout.read with
  | none => exact .unlimited hLimit
  | some timeout =>
    dsimp only
    split
    case isTrue hEmpty =>
      refine .kept ?_
      rcases answer with _ | (e | bytes)
      · rfl
      · rfl
      · have hFits := fits bytes rfl
        rw [hEmpty] at hFits
        exact Nat.le_zero.mp hFits
    case isFalse hRoom =>
      rcases answer with _ | (e | bytes)
      · by_cases hLate : (me.timer .read).getD (sleep.deadline now.armed timeout) ≤ now.polled
        · rw [pollTimer_late hLate]
          exact .expired timeout hLimit (Or.inl rfl) hLate
        · rw [pollTimer_runs hLate]
          exact .running timeout hLimit (Or.inl rfl)
      · exact .cleared rfl
      · dsimp only
        split
        case isTrue hBytes => exact .cleared (List.isEmpty_eq_false_iff.mpr (List.ne_nil_of_length_pos hBytes))
        case isFalse hBytes =>
          have hNil : bytes = [] := List.eq_nil_of_length_eq_zero (Nat.eq_zero_of_not_pos hBytes)
          subst hNil
          split
          case isTrue hTimer =>
            by_cases hLate : (me.timer .read).getD (sleep.deadline now.armed timeout) ≤ now.polled
            · rw [pollTimer_late hLate]
              exact .expired timeout hLimit (Or.inr ⟨rfl, hTimer⟩) hLate
            · rw [pollTimer_runs hLate]
              exact .running timeout hLimit (Or.inr ⟨rfl, hTimer⟩)
          case isFalse hTimer => exact .kept rfl

/-- A poll of the write side that finds the connection inside pending. -/
theorem pollTimer_polled {op : IoPoll E} (hDirection : op.direction = .write) (hPending : op.pending = true)
    {answered : Poll (Except (TransportIoError E) Unit) → IoAnswer E} (hPassed : answered .pending = op.innerAnswer)
    (hTimeout : ∀ elapsed, answered (.ready (.error (.timedOut .write elapsed))) = op.timeoutAnswer .write elapsed) :
    Polled sleep now op me (answered (me.pollTimer sleep now me.ioTimeout.write .write).1)
      (me.pollTimer (E := E) sleep now me.ioTimeout.write .write).2 := by
  cases hLimit : me.ioTimeout.write with
  | none =>
    have hNone : me.pollTimer (E := E) sleep now none .write = (.pending, me) := rfl
    rw [hNone, hPassed]
    exact .unlimited (by rw [hDirection]; exact hLimit)
  | some timeout =>
    have hOf : me.ioTimeout.of op.direction = some timeout := by rw [hDirection]; exact hLimit
    by_cases hLate : (me.timer .write).getD (sleep.deadline now.armed timeout) ≤ now.polled
    · rw [pollTimer_late hLate, hTimeout]
      have hExpired := @Polled.expired _ sleep now _ _ timeout hOf (Or.inl hPending) (by rw [hDirection]; exact hLate)
      rwa [hDirection] at hExpired
    · rw [pollTimer_runs hLate, hPassed]
      have hRunning := @Polled.running _ sleep now _ _ timeout hOf (Or.inl hPending)
      rwa [hDirection] at hRunning

theorem pollWrite_polled (size : Nat) (answer : Poll (Except E Nat)) (fits) :
    Polled sleep now (.write size answer fits) me (.written (me.pollWrite sleep now size answer).1)
      (me.pollWrite sleep now size answer).2 := by
  rw [pollWrite, pollWriteWith.eq_def]
  split
  case isTrue hEmpty =>
    refine .kept ?_
    rcases answer with _ | (e | written)
    · rfl
    · rfl
    · have hFits := fits written rfl
      rw [beq_iff_eq.mp hEmpty] at hFits
      exact Nat.le_zero.mp hFits
  case isFalse hRoom =>
    rcases answer with _ | (e | written)
    · exact @pollTimer_polled _ _ _ _ _ rfl rfl (fun answer => .written (inPlace 0 answer)) rfl fun _ => rfl
    · exact .cleared rfl
    · dsimp only
      split
      case isTrue hWritten => exact .cleared (beq_eq_false_iff_ne.mpr (Nat.ne_of_gt hWritten))
      case isFalse hWritten => exact .kept (Nat.eq_zero_of_not_pos hWritten)

private theorem pollWriteVectored_polled (sizes : List Nat) (answer : Poll (Except E Nat)) (fits) :
    Polled sleep now (.writeVectored sizes answer fits) me (.written (me.pollWriteVectored sleep now sizes answer).1)
      (me.pollWriteVectored sleep now sizes answer).2 := by
  have hEmpty : sizes.all (· == 0) = (sizes.sum == 0) := by
    rw [Bool.eq_iff_iff, List.all_eq_true, beq_iff_eq, List.sum_eq_zero_iff_forall_eq_nat]
    exact forall₂_congr fun size _ => beq_iff_eq
  have hWrite := @pollWrite_polled _ sleep now me sizes.sum answer fits
  rw [pollWrite, ← hEmpty] at hWrite
  refine hWrite.congr rfl rfl ?_ ?_ ?_ rfl
  · rcases answer with _ | (e | written) <;> rfl
  · rcases answer with _ | (e | written) <;> rfl
  · rcases answer with _ | (e | written) <;> rfl

theorem pollCompletion_polled {op : IoPoll E} (answer : Poll (Except E Unit)) (hOp : op = .flush answer ∨ op = .shutdown answer) :
    Polled sleep now op me (.completed (me.pollCompletion sleep now answer).1) (me.pollCompletion sleep now answer).2 := by
  cases answer with
  | pending =>
    obtain rfl | rfl := hOp
    · exact @pollTimer_polled _ _ _ _ _ rfl rfl .completed rfl fun _ => rfl
    · exact @pollTimer_polled _ _ _ _ _ rfl rfl .completed rfl fun _ => rfl
  | ready result =>
    obtain rfl | rfl := hOp
    · exact .cleared rfl
    · exact .cleared rfl

theorem poll_polled (sleep : Sleep) (now : IoReadings) (me : LifecycleConnection) (op : IoPoll E) :
    Polled sleep now op me (me.poll sleep now op).1 (me.poll sleep now op).2 := by
  cases op with
  | read capacity answer fits => exact pollRead_polled capacity answer fits
  | write size answer fits => exact pollWrite_polled size answer fits
  | writeVectored sizes answer fits => exact pollWriteVectored_polled sizes answer fits
  | flush answer => exact pollCompletion_polled answer (Or.inl rfl)
  | shutdown answer => exact pollCompletion_polled answer (Or.inr rfl)

@[simp] theorem ioTimeout_setTimer (me : LifecycleConnection) (timer : Option Instant) (direction : TransportIoDirection) :
    (me.setTimer timer direction).ioTimeout = me.ioTimeout := by cases direction <;> rfl

@[simp] theorem ioTimeout_record (me : LifecycleConnection) (direction : TransportIoDirection) :
    (me.recordTransportIoTimeout direction).ioTimeout = me.ioTimeout := by cases direction <;> rfl

@[simp] theorem timer_record (me : LifecycleConnection) (d direction : TransportIoDirection) :
    (me.recordTransportIoTimeout d).timer direction = me.timer direction := by cases d <;> cases direction <;> rfl

@[simp] theorem timer_setTimer (me : LifecycleConnection) (timer : Option Instant) (direction : TransportIoDirection) :
    (me.setTimer timer direction).timer direction = timer := by cases direction <;> rfl

theorem timer_setTimer_of_ne (me : LifecycleConnection) (timer : Option Instant) {d direction : TransportIoDirection}
    (h : d ≠ direction) : (me.setTimer timer d).timer direction = me.timer direction := by
  cases d <;> cases direction <;> first | exact absurd rfl h | rfl

end LifecycleConnection

section
variable {sleep : Sleep} {now : IoReadings} {op : IoPoll E} {me me' : LifecycleConnection} {answer : IoAnswer E}
  {direction : TransportIoDirection} {elapsed : Duration}

theorem progress_of_waits (h : op.pending = true ∨ op.zeroProgress = true) : op.progress = 0 := by
  cases op with
  | read capacity answer fits =>
    rcases answer with _ | (e | bytes)
    · rfl
    · rfl
    · exact List.length_eq_zero_iff.mpr (List.isEmpty_iff.mp (h.resolve_left Bool.false_ne_true))
  | write size answer fits =>
    rcases answer with _ | (e | written)
    · rfl
    · rfl
    · exact beq_iff_eq.mp (h.resolve_left Bool.false_ne_true)
  | writeVectored sizes answer fits =>
    rcases answer with _ | (e | written)
    · rfl
    · rfl
    · exact beq_iff_eq.mp (h.resolve_left Bool.false_ne_true)
  | flush answer => rfl
  | shutdown answer => rfl

theorem zeroProgress_not_pending (h : op.zeroProgress = true) : ¬ op.pending = true := by
  intro hPending
  cases op with
  | read capacity answer fits => rcases answer with _ | (e | bytes) <;> first | cases h | cases hPending
  | write size answer fits => rcases answer with _ | (e | written) <;> first | cases h | cases hPending
  | writeVectored sizes answer fits => rcases answer with _ | (e | written) <;> first | cases h | cases hPending
  | flush answer => cases h
  | shutdown answer => cases h

private theorem innerAnswer_ne_timeoutAnswer (op : IoPoll E) (direction : TransportIoDirection) (elapsed : Duration) :
    op.innerAnswer ≠ op.timeoutAnswer direction elapsed := by
  intro h
  cases op with
  | read capacity answer fits => rcases answer with _ | (e | bytes) <;> cases h
  | write size answer fits => rcases answer with _ | (e | bytes) <;> cases h
  | writeVectored sizes answer fits => rcases answer with _ | (e | bytes) <;> cases h
  | flush answer => rcases answer with _ | (e | bytes) <;> cases h
  | shutdown answer => rcases answer with _ | (e | bytes) <;> cases h

theorem timeoutAnswer_inj {d d' : TransportIoDirection} {elapsed elapsed' : Duration}
    (h : op.timeoutAnswer d elapsed = op.timeoutAnswer d' elapsed') : d = d' ∧ elapsed = elapsed' := by
  cases op <;> cases h <;> exact ⟨rfl, rfl⟩

theorem Polled.ioTimeout (h : Polled sleep now op me answer me') : me'.ioTimeout = me.ioTimeout := by
  cases h <;> simp

/-- A deadline that is set began to run at a pending poll, and no byte has moved since. -/
def Running (sleep : Sleep) (clock : IoClock) (polls : Nat → IoPoll E) (ioTimeout : TransportIoTimeout)
    (direction : TransportIoDirection) (n : Nat) (deadline : Instant) : Prop :=
  ∃ k < n, (polls k).direction = direction ∧ (polls k).pending = true ∧
    (∃ elapsed, ioTimeout.of direction = some elapsed ∧ deadline = sleep.deadline (clock.now k).armed elapsed) ∧
    ∀ i, k ≤ i → i < n → (polls i).direction = direction → (polls i).progress = 0

variable {clock : IoClock} {polls : Nat → IoPoll E} {ioTimeout : TransportIoTimeout} {n : Nat} {deadline : Instant}

theorem Running.succ (h : Running sleep clock polls ioTimeout direction n deadline)
    (hProgress : (polls n).direction = direction → (polls n).progress = 0) :
    Running sleep clock polls ioTimeout direction (n + 1) deadline := by
  obtain ⟨k, hk, hDirection, hPending, hDeadline, hQuiet⟩ := h
  refine ⟨k, Nat.lt_succ_of_lt hk, hDirection, hPending, hDeadline, fun i hki hi hSame => ?_⟩
  rcases Nat.lt_succ_iff_lt_or_eq.mp hi with hBefore | rfl
  · exact hQuiet i hki hBefore hSame
  · exact hProgress hSame

/-- A poll leaves the timer of the other direction alone. -/
theorem Polled.timer_of_ne (h : Polled sleep now op me answer me') (hOther : op.direction ≠ direction) :
    me'.timer direction = me.timer direction := by
  cases h with
  | unlimited hLimit => rfl
  | kept hProgress => rfl
  | cleared hZero => exact LifecycleConnection.timer_setTimer_of_ne me _ hOther
  | running elapsed hLimit hWaits => exact LifecycleConnection.timer_setTimer_of_ne me _ hOther
  | expired elapsed hLimit hWaits hLate =>
    rw [LifecycleConnection.timer_record]
    exact LifecycleConnection.timer_setTimer_of_ne me _ hOther

/-- A deadline that a poll waits for: it began at an earlier pending poll, or it begins here. -/
theorem running_getD (hLimit : me.ioTimeout.of direction = some elapsed) (hDirection : (polls n).direction = direction)
    (hWaits : (polls n).pending = true ∨ (polls n).zeroProgress = true ∧ (me.timer direction).isSome = true)
    (hRunning : ∀ deadline, me.timer direction = some deadline → Running sleep clock polls me.ioTimeout direction n deadline) :
    Running sleep clock polls me.ioTimeout direction (n + 1)
      ((me.timer direction).getD (sleep.deadline (clock.now n).armed elapsed)) := by
  have hProgress := progress_of_waits (hWaits.imp_right And.left)
  cases hTimer : me.timer direction with
  | some deadline => exact (hRunning deadline hTimer).succ fun _ => hProgress
  | none =>
    have hPending : (polls n).pending = true := by
      refine hWaits.resolve_right fun h => ?_
      rw [hTimer] at h
      cases h.2
    refine ⟨n, Nat.lt_succ_self n, hDirection, hPending, ⟨elapsed, hLimit, rfl⟩, fun i hni hi _ => ?_⟩
    rw [Nat.le_antisymm (Nat.le_of_lt_succ hi) hni]
    exact hProgress

private theorem Polled.running_succ (h : Polled sleep (clock.now n) (polls n) me answer me')
    (hRunning : ∀ deadline, me.timer direction = some deadline → Running sleep clock polls me.ioTimeout direction n deadline)
    (hTimer : me'.timer direction = some deadline) : Running sleep clock polls me.ioTimeout direction (n + 1) deadline := by
  by_cases hDirection : (polls n).direction = direction
  · subst hDirection
    cases h with
    | unlimited hLimit =>
      obtain ⟨-, -, -, -, ⟨elapsed, hSome, -⟩, -⟩ := hRunning deadline hTimer
      rw [hLimit] at hSome
      cases hSome
    | kept hProgress => exact (hRunning deadline hTimer).succ fun _ => hProgress
    | cleared hZero =>
      rw [LifecycleConnection.timer_setTimer] at hTimer
      cases hTimer
    | running elapsed hLimit hWaits =>
      rw [LifecycleConnection.timer_setTimer] at hTimer
      obtain rfl := Option.some.inj hTimer
      exact running_getD hLimit rfl hWaits hRunning
    | expired elapsed hLimit hWaits hLate =>
      rw [LifecycleConnection.timer_record, LifecycleConnection.timer_setTimer] at hTimer
      cases hTimer
  · rw [h.timer_of_ne hDirection] at hTimer
    exact (hRunning deadline hTimer).succ fun hSame => absurd hSame hDirection

namespace LifecycleConnection

theorem after_ioTimeout (sleep : Sleep) (clock : IoClock) (polls : Nat → IoPoll E) (ioTimeout : TransportIoTimeout) (n : Nat) :
    ((new ioTimeout).after sleep clock polls n).ioTimeout = ioTimeout := by
  induction n with
  | zero => rfl
  | succ n ih => exact (poll_polled _ _ _ _).ioTimeout.trans ih

theorem after_running (sleep : Sleep) (clock : IoClock) (polls : Nat → IoPoll E) (ioTimeout : TransportIoTimeout) (n : Nat) :
    ∀ deadline, ((new ioTimeout).after sleep clock polls n).timer direction = some deadline →
      Running sleep clock polls ioTimeout direction n deadline := by
  induction n with
  | zero =>
    intro deadline hTimer
    cases direction <;> cases hTimer
  | succ n ih =>
    intro deadline hTimer
    have hPolled := poll_polled sleep (clock.now n) ((new ioTimeout).after sleep clock polls n) (polls n)
    have hRunning := @Polled.running_succ _ _ _ _ _ direction _ _ _ deadline hPolled
    rw [after_ioTimeout] at hRunning
    exact hRunning ih hTimer

end LifecycleConnection

theorem IoClock.polled_le_armed (clock : IoClock) {i k : Nat} (h : i < k) : (clock.now i).polled ≤ (clock.now k).armed := by
  induction k, h using Nat.le_induction with
  | base => exact clock.polled_le i
  | succ k hk ih => exact (ih.trans (clock.armed_le k)).trans (clock.polled_le k)

private theorem Running.stalled (h : Running sleep clock polls ioTimeout (polls n).direction (n + 1) deadline)
    (hElapsed : ioTimeout.of (polls n).direction = some elapsed) (hLate : deadline ≤ (clock.now n).polled) :
    Stalled clock polls n elapsed := by
  obtain ⟨k, hk, hDirection, hPending, ⟨elapsed', hLimit, rfl⟩, hQuiet⟩ := h
  obtain rfl := Option.some.inj (hElapsed.symm.trans hLimit)
  have hSince := (sleep.elapsed (clock.now k).armed elapsed).trans hLate
  refine ⟨⟨k, Nat.le_of_lt_succ hk, hDirection, hPending, hSince, fun i hki hi => hQuiet i hki (Nat.lt_succ_of_le hi)⟩, ?_⟩
  intro i hi hSame hMoved
  rcases Nat.lt_or_ge i k with hBefore | hAfter
  · exact (Nat.add_le_add_right (clock.polled_le_armed hBefore) elapsed).trans hSince
  · have hNone := hQuiet i hAfter (Nat.lt_succ_of_le hi) hSame
    omega

end

/-- Every answer is that of the connection inside, or a timeout in its direction where no byte has moved; a timeout tells of a
stall of its length; and where no byte moves a deadline stays as it was. -/
theorem lifecycleConnection_inactivity (sleep : Sleep) (clock : IoClock) (polls : Nat → IoPoll E) (ioTimeout : TransportIoTimeout)
    (n : Nat) :
    (((LifecycleConnection.new ioTimeout).answer sleep clock polls n = (polls n).innerAnswer) ∨
      (polls n).progress = 0 ∧ ∃ elapsed, (LifecycleConnection.new ioTimeout).answer sleep clock polls n =
        (polls n).timeoutAnswer (polls n).direction elapsed) ∧
    (∀ direction elapsed, (LifecycleConnection.new ioTimeout).answer sleep clock polls n =
      (polls n).timeoutAnswer direction elapsed →
      direction = (polls n).direction ∧ ioTimeout.of direction = some elapsed ∧ Stalled clock polls n elapsed) ∧
    ((polls n).zeroProgress = true → ∀ direction,
      ((LifecycleConnection.new ioTimeout).after sleep clock polls (n + 1)).timer direction =
          ((LifecycleConnection.new ioTimeout).after sleep clock polls n).timer direction ∨
        ∃ elapsed, (LifecycleConnection.new ioTimeout).answer sleep clock polls n =
        (polls n).timeoutAnswer direction elapsed) := by
  have hPolled := LifecycleConnection.poll_polled sleep (clock.now n)
    ((LifecycleConnection.new ioTimeout).after sleep clock polls n)
    (polls n)
  have hLimits := LifecycleConnection.after_ioTimeout sleep clock polls ioTimeout n
  have hRunning := @LifecycleConnection.after_running _ (polls n).direction sleep clock polls ioTimeout n
  rw [LifecycleConnection.answer, LifecycleConnection.after]
  generalize (LifecycleConnection.new ioTimeout).after sleep clock polls n = me at hPolled hLimits hRunning
  generalize (me.poll sleep (clock.now n) (polls n)).1 = answer at hPolled
  generalize (me.poll sleep (clock.now n) (polls n)).2 = me' at hPolled
  subst hLimits
  refine ⟨?_, ?_, ?_⟩
  · cases hPolled with
    | unlimited hLimit => exact Or.inl rfl
    | kept hProgress => exact Or.inl rfl
    | cleared hZero => exact Or.inl rfl
    | running elapsed hLimit hWaits => exact Or.inl rfl
    | expired elapsed hLimit hWaits hLate => exact Or.inr ⟨progress_of_waits (hWaits.imp_right And.left), elapsed, rfl⟩
  · intro direction elapsed hAnswer
    cases hPolled with
    | unlimited hLimit => exact absurd hAnswer (innerAnswer_ne_timeoutAnswer _ _ _)
    | kept hProgress => exact absurd hAnswer (innerAnswer_ne_timeoutAnswer _ _ _)
    | cleared hZero => exact absurd hAnswer (innerAnswer_ne_timeoutAnswer _ _ _)
    | running elapsed' hLimit hWaits => exact absurd hAnswer (innerAnswer_ne_timeoutAnswer _ _ _)
    | expired elapsed' hLimit hWaits hLate =>
      obtain ⟨rfl, rfl⟩ := timeoutAnswer_inj hAnswer
      exact ⟨rfl, hLimit, (running_getD hLimit rfl hWaits hRunning).stalled hLimit hLate⟩
  · intro hZero direction
    by_cases hDirection : (polls n).direction = direction
    · subst hDirection
      cases hPolled with
      | unlimited hLimit => exact Or.inl rfl
      | kept hProgress => exact Or.inl rfl
      | cleared hSome =>
        rw [hZero] at hSome
        cases hSome
      | running elapsed hLimit hWaits =>
        have hRuns := hWaits.resolve_left fun hPending => zeroProgress_not_pending hZero hPending
        obtain ⟨deadline, hTimer⟩ := Option.isSome_iff_exists.mp hRuns.2
        rw [LifecycleConnection.timer_setTimer, hTimer, Option.getD_some]
        exact Or.inl rfl
      | expired elapsed hLimit hWaits hLate => exact Or.inr ⟨elapsed, rfl⟩
    · exact Or.inl (hPolled.timer_of_ne hDirection)

/-- A read that stays pending times out when its limit is over; the connection then takes a new one up. -/
example :
    let sleep : Sleep := ⟨fun now duration => now + duration, fun _ _ => Nat.le_refl _⟩
    let clock : IoClock := ⟨fun n => ⟨n, n⟩, fun _ => Nat.le_refl _, fun n => Nat.le_succ n⟩
    let answer := (LifecycleConnection.new ⟨some 2, none⟩).answer sleep clock fun _ =>
      .read 8 (.pending : Poll (Except Unit Str)) nofun
    [0, 1, 2, 3].map answer =
      [.read .pending, .read .pending, .read (.ready (.error (.timedOut .read 2))), .read .pending] := rfl

end Eggfetch.Transport
