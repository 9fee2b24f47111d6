import Eggfetch.Transport.Establish

/-! Request bodies as Hyper takes them, and how the end of a body is signalled to the task that
waits for the response head. -/
namespace Eggfetch.Transport
open Polling Transition
open Pipeline (Duration)

/-- `http_body::Body`. It is polled at an instant, the input tells what its producer has by then,
and a frame counts for the bytes of its data. -/
structure HttpBody (E : Type) where
  State : Type
  Input : Type
  init : State
  isEndStream : State → Bool
  pollFrame : Nat → Input → State → Poll (Option (Except (Failure E) Nat)) × State

variable {E : Type}

inductive RequestBody
  | empty
  | bytes (length : Nat)
  | stream (length : Option Nat)

structure WriteTimeoutStream where
  deadline : Option Nat := none
  started : Bool := false
  timedOut : Bool := false

def WriteTimeoutStream.start (duration : Duration) (now : Nat) (me : WriteTimeoutStream) : WriteTimeoutStream :=
  if me.started then me else { me with started := true, deadline := some (now + duration) }

/-- `item` is what the stream inside answers. -/
def WriteTimeoutStream.pollNext (duration : Duration) (now : Nat) (item : Poll (Option (Except (Failure E) Nat)))
    (me : WriteTimeoutStream) : Poll (Option (Except (Failure E) Nat)) × WriteTimeoutStream :=
  if me.timedOut then (.ready none, me)
  else
    let me := me.start duration now
    match item with
    | .ready (some (.ok _)) => (item, { me with deadline := me.deadline.map fun _ => now + duration })
    | .ready _ => (item, { me with deadline := none })
    | .pending =>
      if me.deadline.any (· ≤ now) then
        (.ready (some (.error (.timeout .write))), { me with deadline := none, timedOut := true })
      else (.pending, me)

def peerItem (item : Poll (Option (Except E Nat))) : Poll (Option (Except (Failure E) Nat)) :=
  match item with
  | .pending => .pending
  | .ready none => .ready none
  | .ready (some (.ok bytes)) => .ready (some (.ok bytes))
  | .ready (some (.error e)) => .ready (some (.error (.peer e)))

/-- `StreamBody` leaves `is_end_stream` at its default. -/
def streamBody (write : Option Duration) : HttpBody E where
  State := WriteTimeoutStream
  Input := Poll (Option (Except E Nat))
  init := {}
  isEndStream _ := false
  pollFrame now item me :=
    match write with
    | some duration => me.pollNext duration now (peerItem item)
    | none => (peerItem item, me)

/-- `Full`, which is empty from the start when it has no bytes. -/
def fullBody (length : Nat) : HttpBody E where
  State := Option Nat
  Input := Unit
  init := if length = 0 then none else some length
  isEndStream data := data.isNone
  pollFrame _ _ data := (.ready (data.map .ok), none)

def RequestBody.intoHttpBody (write : Option Duration) : RequestBody → HttpBody E
  | .empty => fullBody 0
  | .bytes length => fullBody length
  | .stream _ => streamBody write

/-- What `apply_content_length` puts into `Content-Length`. -/
def RequestBody.declared : RequestBody → Option Nat
  | .empty => some 0
  | .bytes length => some length
  | .stream length => length

structure NativeRequestBody (σ : Type) where
  inner : σ
  timer : Option Nat := none
  started : Bool := false
  done : Bool := false

def NativeRequestBody.start {σ : Type} (write : Option Duration) (now : Nat) (me : NativeRequestBody σ) : NativeRequestBody σ :=
  if me.started then me else { me with started := write.isSome, timer := write.map (now + ·) }

/-- A body of the caller. What the clock has to do with its answers is part of its input. -/
structure NativeBody (E : Type) where
  State : Type
  Input : Type
  init : State
  isEndStream : State → Bool
  pollFrame : Input → State → Poll (Option (Except E Nat)) × State

def NativeBody.intoHttpBody (write : Option Duration) (native : NativeBody E) : HttpBody E where
  State := NativeRequestBody native.State
  Input := native.Input
  init := { inner := native.init }
  isEndStream me := me.done || native.isEndStream me.inner
  pollFrame now input me :=
    if me.done then (.ready none, me)
    else
      let (item, inner) := native.pollFrame input me.inner
      let me := { me.start write now with inner }
      match item with
      | .ready (some (.ok bytes)) => (.ready (some (.ok bytes)), { me with timer := write.map (now + ·) })
      | .ready (some (.error e)) => (.ready (some (.error (.peer e))), { me with done := true })
      | .ready none => (.ready none, { me with done := true })
      | .pending =>
        if me.timer.any (· ≤ now) then (.ready (some (.error (.timeout .write))), { me with done := true })
        else (.pending, me)

/-- A body and what the request declares about it. -/
inductive SendBody (E : Type)
  | request (body : RequestBody)
  | native (body : NativeBody E) (declared : Option Nat)

def SendBody.intoHttpBody (write : Option Duration) : SendBody E → HttpBody E
  | .request body => body.intoHttpBody write
  | .native body _ => body.intoHttpBody write

def SendBody.declared : SendBody E → Option Nat
  | .request body => body.declared
  | .native _ declared => declared

/-- The channel between the body and the task that waits for the head. -/
inductive Completion
  | waiting
  | sent (at_ : Nat)
  | dropped
deriving DecidableEq

structure HyperRequestBody (σ : Type) where
  inner : σ
  completion : Completion := .waiting
  complete : Bool := false

namespace HyperRequestBody
variable {B : HttpBody E}

def send (completion : Completion) (now : Nat) : Completion :=
  match completion with
  | .waiting => .sent now
  | other => other

def dropSender (completion : Completion) : Completion :=
  match completion with
  | .waiting => .dropped
  | other => other

def markComplete (now : Nat) (this : HyperRequestBody B.State) : HyperRequestBody B.State :=
  if this.complete then this else { this with complete := true, completion := send this.completion now }

def pollFrame (now : Nat) (input : B.Input) (this : HyperRequestBody B.State) :
    Poll (Option (Except (Failure E) Nat)) × HyperRequestBody B.State :=
  let (answer, inner) := B.pollFrame now input this.inner
  let this := { this with inner }
  match answer with
  | .ready (some (.ok _)) => (answer, if B.isEndStream inner then this.markComplete now else this)
  | .ready none => (answer, this.markComplete now)
  | .ready (some (.error _)) => (answer, { this with completion := dropSender this.completion })
  | .pending => (answer, this)

def isEndStream (now : Nat) (this : HyperRequestBody B.State) : Bool × HyperRequestBody B.State :=
  if B.isEndStream this.inner then (true, this.markComplete now) else (false, this)

end HyperRequestBody

/-- What Hyper does with a body. -/
inductive Take (ι : Type)
  | isEndStream
  | pollFrame (input : ι)
  | drop

/-- What Hyper has got from a body. -/
structure Upload (B : HttpBody E) where
  body : HyperRequestBody B.State := { inner := B.init }
  now : Nat := 0
  /-- Hyper asks for the end of the stream before it writes the head. -/
  inspected : Bool := false
  delivered : Nat := 0
  /-- The body returned `None` or reported the end of the stream. -/
  ended : Bool := false
  failed : Option (Failure E) := none
  dropped : Bool := false
  /-- When the last byte was taken. -/
  taken : Option Nat := none
  /-- When the body yielded its last frame; before the first one, when it was first polled. -/
  asked : Option Nat := none

namespace Upload
variable {B : HttpBody E} (declared : Option Nat)

def Reached (delivered : Nat) : Bool := declared.any (· ≤ delivered)

/-- Hyper polls a body until it ends, fails or has delivered what is declared. -/
def finished (u : Upload B) : Bool := u.ended || u.failed.isSome || Reached declared u.delivered

def inspect (now : Nat) (u : Upload B) : Upload B :=
  let (isEnd, body) := u.body.isEndStream now
  let whole := isEnd || Reached declared u.delivered
  { u with
    now
    body
    inspected := true
    ended := u.ended || isEnd
    taken := if whole && u.failed.isNone then u.taken.or (some now) else u.taken }

def receive (now : Nat) (input : B.Input) (u : Upload B) : Upload B :=
  let (answer, body) := u.body.pollFrame now input
  let asked := some (u.asked.getD now)
  match answer with
  | .ready (some (.ok frame)) =>
    let whole := B.isEndStream body.inner || Reached declared (u.delivered + frame)
    { u with
      now
      body
      delivered := u.delivered + frame
      taken := if whole then u.taken.or (some now) else u.taken
      asked := some now }
  | .ready (some (.error e)) => { u with now, body, failed := some e, asked }
  | .ready none => { u with now, body, ended := true, taken := u.taken.or (some now), asked }
  | .pending => { u with now, body, asked }

def discard (now : Nat) (u : Upload B) : Upload B :=
  { u with
    now
    body := { u.body with completion := HyperRequestBody.dropSender u.body.completion }
    dropped := true }

def step (u : Upload B) (action : Nat × Take B.Input) : Option (Upload B) :=
  let (now, take) := action
  if now < u.now ∨ u.dropped then none
  else
    match take with
    | .isEndStream => some (u.inspect declared now)
    | .pollFrame input => if !u.inspected || u.finished declared then none else some (u.receive declared now input)
    | .drop => some (u.discard now)

end Upload
end Eggfetch.Transport
