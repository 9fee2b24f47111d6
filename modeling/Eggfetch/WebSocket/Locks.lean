import Eggfetch.WebSocket.Session

/-! The session over the native stream. Each read, write and close of the stream holds its one
mutex for the whole socket operation; a write has the session's write lock around it. Reads run in
a worker of the executor. -/
namespace Eggfetch.WebSocket
open Transition

/-- Where a thread is with a write, or with a close of the stream. -/
inductive Phase
  | outside
  /-- It has the write lock and waits for the mutex. -/
  | writeLocked
  | writing
  /-- The socket write is over; it still has both. -/
  | written
  /-- It still has the write lock. -/
  | unlocked
  | closing
  /-- The socket is shut down; it still has the mutex. -/
  | shut
deriving DecidableEq

def Phase.inStream : Phase → Bool
  | .writing | .written | .closing | .shut => true
  | .outside | .writeLocked | .unlocked => false

def Phase.inWrite : Phase → Bool
  | .writeLocked | .writing | .written | .unlocked => true
  | .outside | .closing | .shut => false

/-- Where the read of the executor's worker is. -/
inductive Worker
  | idle
  | submitted
  /-- It has the mutex and waits for the peer. -/
  | reading
  /-- It still has the mutex. -/
  | read (result : Read)
  | finished (result : Read)
deriving DecidableEq

def Worker.inStream : Worker → Bool
  | .reading | .read _ => true
  | .idle | .submitted | .finished _ => false

inductive Owner
  | thread (thread : Thread)
  | worker
deriving DecidableEq

/-- A server: what it may send, given all frames it has got and all it has sent. -/
abbrev Server := List Frame → List Read → Read → Bool

structure Locked where
  session : Session
  phase : Thread → Phase
  worker : Worker
  mutex : Option Owner
  writeLock : Option Thread
  /-- What the server has sent and nobody has read, and all that it has sent. -/
  inbound : List Read
  sent : List Read

inductive LockAction
  | call (i : Nat) (method : Method)
  /-- A step that does not touch the stream. -/
  | run (thread : Thread) (choice : Choice)
  | lockWrite (thread : Thread)
  | lockStream (thread : Thread)
  /-- The socket write, or the shutdown, is completed. -/
  | socket (thread : Thread) (choice : Choice)
  | unlockStream (thread : Thread)
  | unlockWrite (thread : Thread)
  | submitRead
  | lockRead
  | socketRead
  | unlockRead
  | serve (message : Read)
deriving DecidableEq

def LockAction.client : LockAction → Bool
  | .serve _ => false
  | _ => true

def Locked.enter (s : Locked) (thread : Thread) (phase : Phase) : Locked :=
  { s with phase := Function.update s.phase thread phase }

/-- A wait for the read ends with its result, or with the flag. -/
def Worker.gives (worker : Worker) : Choice → Bool
  | .read .shouldClose => true
  | .read result => worker = .finished result
  | _ => true

def Worker.taken (worker : Worker) : Choice → Worker
  | .read .shouldClose => worker
  | .read _ => .idle
  | _ => worker

/-- The thread that waits for the read takes its result; writes and closes go through the locks. -/
def Locked.runThread (W : Connection) (cfg : Config) (s : Locked) (thread : Thread) (choice : Choice) :
    Option Locked :=
  match s.session.threads thread with
  | .writing _ _ | .ready (.closeStream _) => none
  | .ready (.readStream _) =>
      if s.worker.gives choice then
        (step W cfg s.session (.run thread choice)).map fun session =>
          { s with session := session, worker := s.worker.taken choice }
      else none
  | .ready _ => (step W cfg s.session (.run thread choice)).map fun session => { s with session := session }

/-- `with self._write_lock` -/
def Locked.lockWrite (s : Locked) (thread : Thread) : Option Locked :=
  match s.session.threads thread with
  | .writing _ _ =>
      if s.writeLock = none then
        some { s.enter thread .writeLocked with writeLock := some thread }
      else none
  | .ready _ => none

/-- `self.inner.lock()` of a thread that has the write lock, or that closes the stream. -/
def Locked.lockStream (s : Locked) (thread : Thread) : Option Locked :=
  if s.mutex = none then
    match s.phase thread, s.session.threads thread with
    | .writeLocked, _ => some { s.enter thread .writing with mutex := some (.thread thread) }
    | .outside, .ready (.closeStream _) =>
        some { s.enter thread .closing with mutex := some (.thread thread) }
    | _, _ => none
  else none

def Locked.socket (W : Connection) (cfg : Config) (s : Locked) (thread : Thread) (choice : Choice) :
    Option Locked :=
  match s.phase thread with
  | .writing =>
      (step W cfg s.session (.run thread choice)).map fun session =>
        { s.enter thread .written with session := session }
  | .closing =>
      (step W cfg s.session (.run thread choice)).map fun session =>
        { s.enter thread .shut with session := session }
  | _ => none

def Locked.unlockStream (s : Locked) (thread : Thread) : Option Locked :=
  match s.phase thread with
  | .written => some { s.enter thread .unlocked with mutex := none }
  | .shut => some { s.enter thread .outside with mutex := none }
  | _ => none

def Locked.unlockWrite (s : Locked) (thread : Thread) : Option Locked :=
  match s.phase thread with
  | .unlocked => some { s.enter thread .outside with writeLock := none }
  | _ => none

/-- `executor.submit` of the receive thread. -/
def Locked.submitRead (s : Locked) : Option Locked :=
  match s.session.threads .receiver with
  | .ready (.readStream _) => if s.worker = .idle then some { s with worker := .submitted } else none
  | _ => none

def Locked.lockRead (s : Locked) : Option Locked :=
  if s.worker = .submitted ∧ s.mutex = none then
    some { s with worker := .reading, mutex := some .worker }
  else none

def Locked.socketRead (s : Locked) : Option Locked :=
  match s.worker, s.inbound with
  | .reading, message :: rest => some { s with worker := .read message, inbound := rest }
  | _, _ => none

def Locked.unlockRead (s : Locked) : Option Locked :=
  match s.worker with
  | .read result => some { s with worker := .finished result, mutex := none }
  | _ => none

def Locked.serve (server : Server) (s : Locked) (message : Read) : Option Locked :=
  if message ≠ .shouldClose ∧ server s.session.shared.written s.sent message = true then
    some { s with inbound := s.inbound ++ [message], sent := s.sent ++ [message] }
  else none

/-- One atomic step of the client or of the server. A thread goes on with its code when it holds
nothing. -/
def Locked.step (W : Connection) (cfg : Config) (server : Server) (s : Locked) :
    LockAction → Option Locked
  | .call i method =>
      if s.phase (.user i) = .outside then
        (WebSocket.step W cfg s.session (.call i method)).map fun session => { s with session := session }
      else none
  | .run thread choice => if s.phase thread = .outside then s.runThread W cfg thread choice else none
  | .lockWrite thread => if s.phase thread = .outside then s.lockWrite thread else none
  | .lockStream thread => s.lockStream thread
  | .socket thread choice => s.socket W cfg thread choice
  | .unlockStream thread => s.unlockStream thread
  | .unlockWrite thread => s.unlockWrite thread
  | .submitRead => if s.phase .receiver = .outside then s.submitRead else none
  | .lockRead => s.lockRead
  | .socketRead => s.socketRead
  | .unlockRead => s.unlockRead
  | .serve message => s.serve server message

def Locked.start (cfg : Config) : Locked :=
  ⟨WebSocket.start cfg, fun _ => .outside, .idle, none, none, [], []⟩

end Eggfetch.WebSocket
