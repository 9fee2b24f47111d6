import Mathlib.Logic.Function.Basic
import Eggfetch.Transition.Runs

/-! The synchronous `WebSocketSession`: what each method and each background thread does, as code
over the steps that other threads can see, and one atomic step at a time of any thread. -/
namespace Eggfetch.WebSocket
open Transition

/-- `wsproto.connection.ConnectionState`, from the handshake on. -/
inductive ConnectionState
  | opened
  | remoteClosing
  | localClosing
  | closed
deriving DecidableEq

/-- A close frame is out: `close` sends no other one. -/
def ConnectionState.ended : ConnectionState → Bool
  | .localClosing | .closed => true
  | .opened | .remoteClosing => false

/-- An event that `connection.send` frames. -/
inductive Outgoing
  | message (text : Bool) (data : List UInt8) (finished : Bool)
  | ping (payload : List UInt8)
  | pong (payload : List UInt8)
  | closeConnection (code : Nat) (reason : Option String)
deriving DecidableEq

def Outgoing.closes : Outgoing → Bool
  | .closeConnection _ _ => true
  | _ => false

/-- An event that `connection.events()` yields. The data of a text message is its UTF-8. -/
inductive Incoming
  | message (text : Bool) (data : List UInt8) (finished : Bool)
  | ping (payload : List UInt8)
  | pong (payload : List UInt8)
  | closeConnection (code : Nat)
  /-- The `CloseConnection` that stands for bytes the frame parser refused. -/
  | parseFailed (code : Nat)
deriving DecidableEq

/-- The `wsproto` connection, as far as its state goes: which events it frames and what they do
to the state. `none` is a `LocalProtocolError`. -/
structure Connection where
  send : ConnectionState → Outgoing → Option ConnectionState
  /-- The state once the event has been yielded. -/
  yielded : ConnectionState → Incoming → ConnectionState
  /-- `receive_data` takes bytes in this state. -/
  receives : ConnectionState → Bool

/-- The closing handshake, as its documentation has it: after a close frame nothing is sent, and
nothing that arrives changes that but a second close frame of the server. -/
structure Connection.Lawful (W : Connection) : Prop where
  close_ends : ∀ {st st' code reason}, W.send st (.closeConnection code reason) = some st' →
    st'.ended = true
  refuses : ∀ {st} event, st.ended = true → W.send st event = none
  yielded_localClosing : ∀ event, (W.yielded .localClosing event).ended = true
  yielded_closed : ∀ event, (∀ code, event ≠ .closeConnection code) →
    (W.yielded .closed event).ended = true

/-- What `connection.send(event)` and the write of its frame came to. -/
inductive Sent
  | refused
  | written
  | streamError
deriving DecidableEq

/-- What waiting for `_read_stream` came to. -/
inductive Read
  | shouldClose
  | endOfStream
  | streamError
  | data (events : List Incoming)
deriving DecidableEq

/-- What a background thread waits for besides the close flag. -/
inductive Callable
  | shouldClose
  | pong
deriving DecidableEq

inductive Waited
  | shouldClose
  | result (value : Bool)
deriving DecidableEq

/-- An entry of the `_events` queue. -/
inductive Item
  | message (text : Bool) (data : List UInt8)
  | closeConnection (code : Nat)
  | disconnect (code : Nat) (reason : String)
  | networkError
deriving DecidableEq

inductive Thread
  | receiver
  | keepalive
  | user (i : Nat)
deriving DecidableEq

/-- The unfinished message: `partial_message_buffer` and `partial_message_size`. -/
structure Fragments where
  buffer : Option (List UInt8)
  size : Nat
deriving DecidableEq

/-- The loops of the background threads. -/
inductive Loop
  | receive (held : Fragments)
  | keepalivePing
deriving DecidableEq

/-- What a thread still has to do. An exception that nothing catches ends it. -/
inductive Code
  | done
  | setShouldClose (next : Code)
  | connectionState (next : ConnectionState → Code)
  /-- `connection.send(event)`, then `stream.write` under the write lock. -/
  | send (event : Outgoing) (next : Sent → Code)
  | closeStream (next : Code)
  /-- `while not self._should_close.is_set()` -/
  | whileOpen (loop : Loop)
  | readStream (next : Read → Code)
  | receiveData (next : Bool → Code)
  | event (event : Incoming) (next : Code)
  | put (item : Item) (next : Code)
  | wait (callable : Callable) (next : Waited → Code)
  | pingId (next : List UInt8 → Code)
  | get (timed : Bool)
  | join (thread : Thread) (next : Code)

structure Config where
  /-- `queue.Queue(queue_size)`: no bound unless it is positive. -/
  queueSize : Int
  maxMessageSize : Nat
  /-- Whether the keepalive interval, and its timeout, are set. -/
  keepaliveInterval : Bool
  keepaliveTimeout : Bool

def internalError : Nat := 1011

def messageTooBig : Nat := 1009

/-- The rest of `close` once the state has been looked at. The check and the send are two steps,
so the send may be refused. -/
def closeAfterSend (next : Code) : Sent → Code
  | .refused => .done
  | .written | .streamError => .closeStream next

def closeInState (code : Nat) (reason : Option String) (next : Code) (state : ConnectionState) :
    Code :=
  if state.ended then .closeStream next
  else .send (.closeConnection code reason) (closeAfterSend next)

def close (code : Nat) (reason : Option String) (next : Code) : Code :=
  .setShouldClose (.connectionState (closeInState code reason next))

/-- The outcomes of the `try` in `send`. -/
def afterSend (next : Code) : Sent → Code
  | .refused => .done
  | .written => next
  | .streamError => close internalError (some "Stream write error") .done

def send (event : Outgoing) (next : Code) : Code := .send event (afterSend next)

/-- `_ping_manager.create`: an empty payload is replaced by a random one. -/
def ping (payload : List UInt8) (next : Code) : Code :=
  if payload = [] then .pingId fun id => send (.ping id) next else send (.ping payload) next

/-- The handler of a stream error, and of the end of the stream, in `_background_receive`. -/
def streamFailed : Code :=
  close internalError (some "Stream error") (.put .networkError .done)

def afterPong (next : Code) : Sent → Code
  | .refused => .done
  | .written => next
  | .streamError => streamFailed

def handleMessage (maxBytes : Nat) (text : Bool) (data : List UInt8) (finished : Bool)
    (held : Fragments) (next : Fragments → Code) : Code :=
  if maxBytes < held.size + data.length then
    close messageTooBig (some "Message too big")
      (.put (.disconnect messageTooBig "Message too big")
        (.whileOpen (.receive ⟨held.buffer, held.size + data.length⟩)))
  else if finished = false then
    next ⟨some (held.buffer.getD [] ++ data), held.size + data.length⟩
  else .put (.message text (held.buffer.getD [] ++ data)) (next ⟨none, 0⟩)

/-- The body of `for event in self.connection.events()`. A pong only moves the timer of the
keepalive thread. -/
def handleEvent (maxBytes : Nat) (held : Fragments) (next : Fragments → Code) : Incoming → Code
  | .ping payload => .send (.pong payload) (afterPong (next held))
  | .pong _ => next held
  | .closeConnection code => .setShouldClose (.put (.closeConnection code) (next held))
  | .parseFailed code => .setShouldClose (.put (.closeConnection code) (next held))
  | .message text data finished => handleMessage maxBytes text data finished held next

def handleEvents (maxBytes : Nat) : List Incoming → Fragments → Code
  | [], held => .whileOpen (.receive held)
  | event :: rest, held => .event event (handleEvent maxBytes held (handleEvents maxBytes rest) event)

def afterReceiveData (maxBytes : Nat) (held : Fragments) (events : List Incoming) : Bool → Code
  | false => .done
  | true => handleEvents maxBytes events held

def afterRead (maxBytes : Nat) (held : Fragments) : Read → Code
  | .shouldClose => .done
  | .endOfStream | .streamError => streamFailed
  | .data events => .receiveData (afterReceiveData maxBytes held events)

def afterPongWait : Waited → Code
  | .shouldClose => .done
  | .result true => .whileOpen .keepalivePing
  | .result false =>
      close internalError (some "Keepalive ping timeout")
        (.put .networkError (.whileOpen .keepalivePing))

def afterInterval (timeout : Bool) : Waited → Code
  | .shouldClose | .result true => .done
  | .result false =>
      ping [] (if timeout then .wait .pong afterPongWait else .whileOpen .keepalivePing)

def body (cfg : Config) : Loop → Code
  | .receive held => .readStream (afterRead cfg.maxMessageSize held)
  | .keepalivePing => .wait .shouldClose (afterInterval cfg.keepaliveTimeout)

def exit (cfg : Config) : Code :=
  close 1000 none
    (.join .receiver (if cfg.keepaliveInterval then .join .keepalive .done else .done))

/-- What a user thread may call. -/
inductive Method
  | send (event : Outgoing)
  | ping (payload : List UInt8)
  | receive (timed : Bool)
  | close (code : Nat) (reason : Option String)
  | exit
deriving DecidableEq

def Method.code (cfg : Config) : Method → Code
  | .send event => WebSocket.send event .done
  | .ping payload => WebSocket.ping payload .done
  | .receive timed => .get timed
  | .close code reason => WebSocket.close code reason .done
  | .exit => WebSocket.exit cfg

/-- A produced frame: the event and the bytes that `connection.send` returned for it. -/
structure Frame where
  event : Outgoing
  bytes : List UInt8
deriving DecidableEq

/-- A thread between two steps. -/
inductive Running
  | ready (code : Code)
  /-- It has produced a frame that it has not written yet. -/
  | writing (frame : Frame) (next : Sent → Code)

def Running.frame : Running → Option Frame
  | .ready _ => none
  | .writing frame _ => some frame

def Running.ended : Running → Bool
  | .ready .done => true
  | _ => false

structure Shared where
  connection : ConnectionState
  shouldClose : Bool
  events : List Item
  /-- The frames in the order in which `connection.send` returned them. -/
  produced : List Frame
  written : List Frame
  /-- After a failed write, which ends the stream: the bytes of that frame that got out. -/
  torn : Option (List UInt8)
  streamClosed : Bool
deriving DecidableEq

def Shared.wire (s : Shared) : List UInt8 := s.written.flatMap Frame.bytes ++ s.torn.getD []

structure Session where
  shared : Shared
  threads : Thread → Running

/-- What the state does not determine: the timing, the stream, the peer. -/
inductive Choice
  | go
  /-- The bytes of a frame, with its random mask, or of a random ping id. -/
  | bytes (data : List UInt8)
  /-- The write fails after so many bytes. -/
  | fails (n : Nat)
  | read (result : Read)
  | waited (result : Waited)
  | timeout
deriving DecidableEq

def hasRoom (cfg : Config) (events : List Item) : Bool :=
  cfg.queueSize ≤ 0 || events.length < cfg.queueSize

def onGo (s : Shared) (code : Code) : Choice → Option (Shared × Running)
  | .go => some (s, .ready code)
  | _ => none

/-- `connection.send(event)` -/
def produce (W : Connection) (s : Shared) (event : Outgoing) (next : Sent → Code) :
    Choice → Option (Shared × Running)
  | .bytes data =>
      match W.send s.connection event with
      | none => some (s, .ready (next .refused))
      | some state =>
          some ({ s with connection := state, produced := s.produced ++ [⟨event, data⟩] },
            .writing ⟨event, data⟩ next)
  | _ => none

/-- `stream.write(data)` under the write lock. A stream that has failed takes no more bytes. -/
def writeFrame (s : Shared) (frame : Frame) (next : Sent → Code) : Choice → Option (Shared × Running)
  | .go =>
      if s.torn = none then
        some ({ s with written := s.written ++ [frame] }, .ready (next .written))
      else none
  | .fails n =>
      some ({ s with torn := some (s.torn.getD (frame.bytes.take n)) }, .ready (next .streamError))
  | _ => none

/-- A wait for the executor's read. A set flag may still come after the data. -/
def waitRead (s : Shared) (next : Read → Code) : Choice → Option (Shared × Running)
  | .read result =>
      if result = .shouldClose ∧ s.shouldClose = false then none else some (s, .ready (next result))
  | _ => none

/-- The flag ends a wait, and `_should_close.wait` is true only of a set flag. -/
def allowed (s : Shared) : Callable → Waited → Bool
  | _, .shouldClose | .shouldClose, .result true => s.shouldClose
  | .shouldClose, .result false | .pong, .result _ => true

def waitFor (s : Shared) (callable : Callable) (next : Waited → Code) :
    Choice → Option (Shared × Running)
  | .waited result => if allowed s callable result then some (s, .ready (next result)) else none
  | _ => none

def generateId (s : Shared) (next : List UInt8 → Code) : Choice → Option (Shared × Running)
  | .bytes data => some (s, .ready (next data))
  | _ => none

/-- `_events.get` -/
def takeEvent (s : Shared) (timed : Bool) : Choice → Option (Shared × Running)
  | .go => if s.events = [] then none else some ({ s with events := s.events.tail }, .ready .done)
  | .timeout => if timed then some (s, .ready .done) else none
  | _ => none

def stepCode (W : Connection) (cfg : Config) (ended : Thread → Bool) (s : Shared) (choice : Choice) :
    Code → Option (Shared × Running)
  | .done => none
  | .setShouldClose next => onGo { s with shouldClose := true } next choice
  | .connectionState next => onGo s (next s.connection) choice
  | .send event next => produce W s event next choice
  | .closeStream next => onGo { s with streamClosed := true } next choice
  | .whileOpen loop => onGo s (if s.shouldClose then .done else body cfg loop) choice
  | .readStream next => waitRead s next choice
  | .receiveData next => onGo s (next (W.receives s.connection)) choice
  | .event event next => onGo { s with connection := W.yielded s.connection event } next choice
  | .put item next =>
      if hasRoom cfg s.events then onGo { s with events := s.events ++ [item] } next choice else none
  | .wait callable next => waitFor s callable next choice
  | .pingId next => generateId s next choice
  | .get timed => takeEvent s timed choice
  | .join thread next => if ended thread then onGo s next choice else none

def stepThread (W : Connection) (cfg : Config) (ended : Thread → Bool) (s : Shared) (choice : Choice) :
    Running → Option (Shared × Running)
  | .ready code => stepCode W cfg ended s choice code
  | .writing frame next => writeFrame s frame next choice

inductive Action
  /-- A user thread that is in no method calls one. -/
  | call (i : Nat) (method : Method)
  | run (thread : Thread) (choice : Choice)
deriving DecidableEq

def Session.ended (s : Session) (thread : Thread) : Bool := (s.threads thread).ended

def Session.resume (s : Session) (thread : Thread) (result : Shared × Running) : Session :=
  ⟨result.1, Function.update s.threads thread result.2⟩

def step (W : Connection) (cfg : Config) (s : Session) : Action → Option Session
  | .call i method =>
      if s.ended (.user i) then some (s.resume (.user i) (s.shared, .ready (method.code cfg)))
      else none
  | .run thread choice =>
      (stepThread W cfg s.ended s.shared choice (s.threads thread)).map (s.resume thread)

/-- What `__enter__` starts. -/
def startThread (cfg : Config) : Thread → Running
  | .receiver => .ready (.whileOpen (.receive ⟨none, 0⟩))
  | .keepalive => .ready (if cfg.keepaliveInterval then .whileOpen .keepalivePing else .done)
  | .user _ => .ready .done

def start (cfg : Config) : Session :=
  ⟨⟨.opened, false, [], [], [], none, false⟩, startThread cfg⟩

@[simp] theorem resume_shared (s : Session) (thread : Thread) (result : Shared × Running) :
    (s.resume thread result).shared = result.1 := rfl

@[simp] theorem resume_self (s : Session) (thread : Thread) (result : Shared × Running) :
    (s.resume thread result).threads thread = result.2 := by
  simp [Session.resume]

@[simp] theorem resume_other (s : Session) {thread other : Thread} (result : Shared × Running)
    (h : other ≠ thread) : (s.resume thread result).threads other = s.threads other := by
  simp [Session.resume, h]

/-- What one step of a thread without a frame can do, operation by operation. -/
inductive Steps (W : Connection) (cfg : Config) (ended : Thread → Bool) (s : Shared) :
    Code → Shared → Running → Prop
  | setShouldClose {next : Code} :
      Steps W cfg ended s (.setShouldClose next) { s with shouldClose := true } (.ready next)
  | connectionState {next : ConnectionState → Code} :
      Steps W cfg ended s (.connectionState next) s (.ready (next s.connection))
  | refused {event : Outgoing} {next : Sent → Code} (h : W.send s.connection event = none) :
      Steps W cfg ended s (.send event next) s (.ready (next .refused))
  | produced {event : Outgoing} {next : Sent → Code} (data : List UInt8) {state : ConnectionState}
      (h : W.send s.connection event = some state) :
      Steps W cfg ended s (.send event next)
        { s with connection := state, produced := s.produced ++ [⟨event, data⟩] }
        (.writing ⟨event, data⟩ next)
  | closeStream {next : Code} :
      Steps W cfg ended s (.closeStream next) { s with streamClosed := true } (.ready next)
  | closed {loop : Loop} (h : s.shouldClose = true) :
      Steps W cfg ended s (.whileOpen loop) s (.ready .done)
  | opened {loop : Loop} (h : s.shouldClose = false) :
      Steps W cfg ended s (.whileOpen loop) s (.ready (body cfg loop))
  | readStream {next : Read → Code} (result : Read)
      (h : result = .shouldClose → s.shouldClose = true) :
      Steps W cfg ended s (.readStream next) s (.ready (next result))
  | receiveData {next : Bool → Code} :
      Steps W cfg ended s (.receiveData next) s (.ready (next (W.receives s.connection)))
  | event {event : Incoming} {next : Code} :
      Steps W cfg ended s (.event event next)
        { s with connection := W.yielded s.connection event } (.ready next)
  | put {item : Item} {next : Code} (h : hasRoom cfg s.events = true) :
      Steps W cfg ended s (.put item next) { s with events := s.events ++ [item] } (.ready next)
  | wait {callable : Callable} {next : Waited → Code} (result : Waited)
      (h : allowed s callable result = true) :
      Steps W cfg ended s (.wait callable next) s (.ready (next result))
  | pingId {next : List UInt8 → Code} (data : List UInt8) :
      Steps W cfg ended s (.pingId next) s (.ready (next data))
  | get {timed : Bool} (h : s.events ≠ []) :
      Steps W cfg ended s (.get timed) { s with events := s.events.tail } (.ready .done)
  | timedOut {timed : Bool} (h : timed = true) : Steps W cfg ended s (.get timed) s (.ready .done)
  | join {thread : Thread} {next : Code} (h : ended thread = true) :
      Steps W cfg ended s (.join thread next) s (.ready next)

section Inversion
variable {W : Connection} {cfg : Config} {ended : Thread → Bool} {s s' : Shared} {choice : Choice}
  {code : Code} {r' : Running}

theorem onGo_eq (h : onGo s code choice = some (s', r')) : s' = s ∧ r' = .ready code := by
  cases choice <;> simp [onGo] at h
  exact ⟨h.1.symm, h.2.symm⟩

private theorem produce_steps {event : Outgoing} {next : Sent → Code}
    (h : produce W s event next choice = some (s', r')) :
    Steps W cfg ended s (.send event next) s' r' := by
  cases choice <;> simp only [produce, reduceCtorEq] at h
  rename_i data
  cases hSend : W.send s.connection event with
  | none =>
    rw [hSend] at h
    obtain ⟨rfl, rfl⟩ := Prod.mk.inj (Option.some.inj h)
    exact .refused hSend
  | some state =>
    rw [hSend] at h
    obtain ⟨rfl, rfl⟩ := Prod.mk.inj (Option.some.inj h)
    exact .produced data hSend

private theorem whileOpen_steps {loop : Loop}
    (h : onGo s (if s.shouldClose then .done else body cfg loop) choice = some (s', r')) :
    Steps W cfg ended s (.whileOpen loop) s' r' := by
  obtain ⟨rfl, rfl⟩ := onGo_eq h
  by_cases hClose : s'.shouldClose = true
  · rw [if_pos hClose]
    exact .closed hClose
  · rw [if_neg hClose]
    exact .opened (by simpa using hClose)

private theorem takeEvent_steps {timed : Bool} (h : takeEvent s timed choice = some (s', r')) :
    Steps W cfg ended s (.get timed) s' r' := by
  cases choice <;> simp only [takeEvent, reduceCtorEq, Option.ite_none_left_eq_some,
    Option.ite_none_right_eq_some, Option.some.injEq, Prod.mk.injEq] at h
  · obtain ⟨hEvents, rfl, rfl⟩ := h
    exact .get hEvents
  · obtain ⟨hTimed, rfl, rfl⟩ := h
    exact .timedOut hTimed

theorem stepCode_steps (h : stepCode W cfg ended s choice code = some (s', r')) :
    Steps W cfg ended s code s' r' := by
  cases code with
  | done => cases h
  | send event next => exact produce_steps h
  | whileOpen loop => exact whileOpen_steps h
  | get timed => exact takeEvent_steps h
  | setShouldClose next =>
    obtain ⟨rfl, rfl⟩ := onGo_eq h
    exact .setShouldClose
  | connectionState next =>
    obtain ⟨rfl, rfl⟩ := onGo_eq h
    exact .connectionState
  | closeStream next =>
    obtain ⟨rfl, rfl⟩ := onGo_eq h
    exact .closeStream
  | receiveData next =>
    obtain ⟨rfl, rfl⟩ := onGo_eq h
    exact .receiveData
  | event event next =>
    obtain ⟨rfl, rfl⟩ := onGo_eq h
    exact .event
  | put item next =>
    simp only [stepCode, Option.ite_none_right_eq_some] at h
    obtain ⟨rfl, rfl⟩ := onGo_eq h.2
    exact .put h.1
  | join thread next =>
    simp only [stepCode, Option.ite_none_right_eq_some] at h
    obtain ⟨rfl, rfl⟩ := onGo_eq h.2
    exact .join h.1
  | readStream next =>
    cases choice <;> simp only [stepCode, waitRead, reduceCtorEq, Option.ite_none_left_eq_some,
      Option.some.injEq, Prod.mk.injEq] at h
    rename_i result
    obtain ⟨hResult, rfl, rfl⟩ := h
    exact .readStream result fun hClose => by simpa [hClose] using hResult
  | wait callable next =>
    cases choice <;> simp only [stepCode, waitFor, reduceCtorEq, Option.ite_none_right_eq_some,
      Option.some.injEq, Prod.mk.injEq] at h
    rename_i result
    obtain ⟨hAllowed, rfl, rfl⟩ := h
    exact .wait result hAllowed
  | pingId next =>
    cases choice <;> simp only [stepCode, generateId, reduceCtorEq, Option.some.injEq,
      Prod.mk.injEq] at h
    rename_i data
    obtain ⟨rfl, rfl⟩ := h
    exact .pingId data

theorem stepThread_steps (h : stepThread W cfg ended s choice (.ready code) = some (s', r')) :
    Steps W cfg ended s code s' r' := stepCode_steps h

/-- The write of a frame takes all of it, or fails for good somewhere inside it. -/
theorem writeFrame_eq {frame : Frame} {next : Sent → Code}
    (h : writeFrame s frame next choice = some (s', r')) :
    (s.torn = none ∧ s' = { s with written := s.written ++ [frame] } ∧
      r' = .ready (next .written)) ∨
    ∃ n, s' = { s with torn := some (s.torn.getD (frame.bytes.take n)) } ∧
      r' = .ready (next .streamError) := by
  cases choice <;> simp only [writeFrame, reduceCtorEq, Option.ite_none_right_eq_some, Option.some.injEq,
    Prod.mk.injEq] at h
  · exact .inl ⟨h.1, h.2.1.symm, h.2.2.symm⟩
  · rename_i n
    exact .inr ⟨n, h.1.symm, h.2.symm⟩

end Inversion

section Actions
variable {W : Connection} {cfg : Config} {s s' : Session}

theorem step_call {i : Nat} {method : Method} (h : step W cfg s (.call i method) = some s') :
    s.ended (.user i) = true ∧ s' = s.resume (.user i) (s.shared, .ready (method.code cfg)) := by
  by_cases hEnded : s.ended (.user i) = true
  · exact ⟨hEnded, by simpa [step, hEnded] using h.symm⟩
  · simp [step, hEnded] at h

theorem step_run {thread : Thread} {choice : Choice}
    (h : step W cfg s (.run thread choice) = some s') :
    ∃ result, stepThread W cfg s.ended s.shared choice (s.threads thread) = some result ∧
      s' = s.resume thread result := by
  obtain ⟨result, hResult, hResume⟩ := Option.map_eq_some_iff.mp h
  exact ⟨result, hResult, hResume.symm⟩

end Actions

/-- The connection as `wsproto` documents it. -/
def wsproto : Connection where
  send
    | .opened, .closeConnection _ _ => some .localClosing
    | .remoteClosing, .closeConnection _ _ => some .closed
    | .opened, _ => some .opened
    | _, _ => none
  yielded
    | .localClosing, .closeConnection _ => .closed
    | _, .closeConnection _ => .remoteClosing
    | state, _ => state
  receives state := state != .closed

theorem wsproto_lawful : wsproto.Lawful where
  close_ends {st st' code reason} h := by
    cases st <;> simp [wsproto] at h <;> subst h <;> rfl
  refuses {st} event h := by
    cases st <;> cases event <;> first | rfl | cases h
  yielded_localClosing event := by cases event <;> rfl
  yielded_closed event h := by
    cases event
    case closeConnection code => exact absurd rfl (h code)
    all_goals rfl

end Eggfetch.WebSocket
