import Mathlib.Algebra.Order.Ring.Nat

/-! The connection pool of `pool.rs` as a machine whose actions are the atomic
operations of any number of concurrent acquires. Entries of the per-origin table
live in a heap of every entry ever created, so an evicted entry that somebody
still refers to keeps its semaphore. -/
namespace Eggfetch.Pool

/-- `usize::MAX` on a 64-bit target. -/
def usizeMax : Nat := 2 ^ 64 - 1

structure PoolConfig where
  maxConnections : Option Nat := none
  maxConnectionsPerHost : Option Nat := none
  maxInFlightRequests : Option Nat := none
  maxInFlightRequestsPerOrigin : Option Nat := none

def PoolConfig.effectiveMaxInFlight (c : PoolConfig) : Option Nat :=
  c.maxInFlightRequests <|> c.maxConnections

def PoolConfig.effectiveMaxInFlightPerOrigin (c : PoolConfig) : Option Nat :=
  c.maxInFlightRequestsPerOrigin <|> c.maxConnectionsPerHost

/-- Two keys share an entry exactly when every component agrees. -/
structure OriginKey where
  scheme : String
  host : String
  port : Nat
  proxyHost : Option String := none
  proxyPort : Option Nat := none
  proxyScheme : Option String := none
  isTunnel : Bool := false
  deriving DecidableEq, Repr

/-- A counting semaphore; `permits` is what `available_permits()` reads. Permits
handed to a queued waiter have already left it. -/
structure Semaphore where
  permits : Nat
  closed : Bool := false
  deriving DecidableEq, Repr

def Semaphore.tryAcquireOwned (s : Semaphore) : Option Semaphore :=
  if s.closed = false ∧ 0 < s.permits then some { s with permits := s.permits - 1 } else none

/-- Drop of an `OwnedSemaphorePermit`. -/
def Semaphore.release (s : Semaphore) : Semaphore := { s with permits := s.permits + 1 }

abbrev EntryId := Nat

/-- The shared entry behind an `Arc`; `origin` records the key it was created for. -/
structure PerOriginSemaphore (K : Type) where
  origin : K
  semaphore : Semaphore
  waiters : Nat
  deriving DecidableEq, Repr

def PerOriginSemaphore.new {K : Type} (origin : K) (maxPerOrigin : Nat) : PerOriginSemaphore K :=
  ⟨origin, ⟨maxPerOrigin, false⟩, 0⟩

structure PoolMetrics where
  acquisitionWaits : Nat := 0
  acquisitionCancellations : Nat := 0
  deriving DecidableEq, Repr

/-- Locals of `Pool::acquire` that live across its later suspension points. -/
structure Locals where
  globalPermit : Bool
  waited : Bool
  deriving DecidableEq, Repr

/-- Where an acquire is, with exactly what it owns there. `guard` is a returned
`PoolGuard`; `dropGuard` and `unwind` release what is left, one drop at a time. -/
inductive Task (K : Type) where
  | start (origin : Option K)
  | waitGlobal (origin : Option K)
  | grantedGlobal (origin : Option K)
  | lookupRead (a : Locals) (key : K)
  | lookupWrite (a : Locals) (key : K)
  | sweep (a : Locals) (key : K) (rest : List (K × EntryId))
  | sweepWaiters (a : Locals) (key : K) (victim : K × EntryId) (rest : List (K × EntryId))
  | tryOrigin (a : Locals) (entry : EntryId)
  | waitOrigin (a : Locals) (entry : EntryId)
  | grantedOrigin (a : Locals) (entry : EntryId)
  | takeWaiter (a : Locals) (entry : EntryId) (permit : Bool)
  | finish (a : Locals) (permit : Option EntryId)
  | guard (globalPermit : Bool) (permit : Option EntryId)
  | dropGuard (globalPermit : Bool) (permit : Option EntryId)
  | unwind (globalPermit : Bool) (waiter permit : Option EntryId)
  | done
  deriving DecidableEq, Repr

/-- What permits, registrations and table membership live in. `writer` is the task
inside the write-locked section of the table. -/
structure Resources (K : Type) where
  globalSemaphore : Option Semaphore
  entries : List (PerOriginSemaphore K)
  perOrigin : List (K × EntryId)
  writer : Option Nat
  deriving DecidableEq, Repr

structure PoolInner (K : Type) extends Resources K where
  poisoned : Bool
  metrics : PoolMetrics
  tasks : List (Task K)
  deriving DecidableEq, Repr

inductive Action (K : Type) where
  /-- A caller creates the acquire future for an origin. -/
  | spawn (origin : Option K)
  /-- The next atomic operation of task `i`. -/
  | advance (i : Nat)
  /-- The sweep of task `i` turns to the `j`-th entry it has not visited, in the
  arbitrary order of the hash map, and reads `available_permits()`. -/
  | visit (i j : Nat)
  /-- A semaphore hands a free permit to the queued task `i`. -/
  | grant (i : Nat)
  /-- The future of task `i` is dropped at a suspension point (cancel, timeout). -/
  | cancel (i : Nat)
  /-- The guard returned to task `i` is dropped. -/
  | dropGuard (i : Nat)
  /-- Task `i` panics inside the write-locked section. -/
  | panic (i : Nat)
  | closeGlobal
  | closeOrigin (entry : EntryId)

variable {K : Type}

def new (config : PoolConfig) : PoolInner K :=
  { globalSemaphore := config.effectiveMaxInFlight.map (⟨·, false⟩)
    entries := [], perOrigin := [], writer := none, poisoned := false, metrics := {}, tasks := [] }

namespace Resources

/-- An atomic operation on the shared entry behind an `Arc`. -/
def modifyEntry (r : Resources K) (e : EntryId)
    (f : PerOriginSemaphore K → PerOriginSemaphore K) : Resources K :=
  { r with entries := r.entries.modify e f }

def fetchAddWaiters (r : Resources K) (e : EntryId) : Resources K :=
  r.modifyEntry e fun x => { x with waiters := x.waiters + 1 }

/-- `fetch_sub`, run by the drop of a `WaiterGuard`. -/
def fetchSubWaiters (r : Resources K) (e : EntryId) : Resources K :=
  r.modifyEntry e fun x => { x with waiters := x.waiters - 1 }

def setOriginSemaphore (r : Resources K) (e : EntryId) (sem : Semaphore) : Resources K :=
  r.modifyEntry e fun x => { x with semaphore := sem }

def releaseOrigin (r : Resources K) (e : EntryId) : Resources K :=
  r.modifyEntry e fun x => { x with semaphore := x.semaphore.release }

def setGlobal (r : Resources K) (sem : Semaphore) : Resources K :=
  { r with globalSemaphore := some sem }

def releaseGlobal (r : Resources K) : Resources K :=
  { r with globalSemaphore := r.globalSemaphore.map Semaphore.release }

def lookup [DecidableEq K] (r : Resources K) (key : K) : Option EntryId :=
  (r.perOrigin.find? fun p => p.1 = key).map Prod.snd

/-- The entry that `retain` is at leaves the table. -/
def evict [DecidableEq K] (r : Resources K) (victim : K × EntryId) : Resources K :=
  { r with perOrigin := r.perOrigin.filter (· ≠ victim) }

/-- `HashMap::insert` of a fresh entry with its creator registered as a waiter. -/
def insertRegistered [DecidableEq K] (r : Resources K) (key : K) (maxPerOrigin : Nat) :
    Resources K :=
  { r with
    entries := r.entries ++ [{ PerOriginSemaphore.new key maxPerOrigin with waiters := 1 }]
    perOrigin := r.perOrigin.filter (fun p : K × EntryId => p.1 ≠ key) ++ [(key, r.entries.length)]
    writer := none }

end Resources

namespace PoolInner

def setTask (s : PoolInner K) (i : Nat) (t : Task K) : PoolInner K :=
  { s with tasks := s.tasks.set i t }

/-- One atomic operation: the shared resources change and task `i` moves to `t`. -/
def move (s : PoolInner K) (i : Nat) (r : Resources K) (t : Task K) : PoolInner K :=
  { s with toResources := r, tasks := s.tasks.set i t }

def countCancellation (s : PoolInner K) : PoolInner K :=
  { s with metrics.acquisitionCancellations := s.metrics.acquisitionCancellations + 1 }

def countWait (s : PoolInner K) (waited : Bool) : PoolInner K :=
  if waited then { s with metrics.acquisitionWaits := s.metrics.acquisitionWaits + 1 } else s

/-- An error return: the cancellation is counted and the locals are dropped. -/
def fail (s : PoolInner K) (i : Nat) (globalPermit : Bool) : PoolInner K :=
  s.countCancellation.setTask i (.unwind globalPermit none none)

/-- The table has grown past this length: sweep before the insert. -/
def sweepThreshold (maxPerOrigin : Nat) : Nat := max (min (maxPerOrigin * 16) usizeMax) 64

/-- The continuation of `acquire` once the global permit is settled. -/
def afterGlobal (config : PoolConfig) (a : Locals) (origin : Option K) : Task K :=
  match config.effectiveMaxInFlightPerOrigin, origin with
  | some _, some key => .lookupRead a key
  | _, _ => .finish a none

/-- The next atomic operation of task `i`, which is at `t`. `none`: it is blocked
on the table lock or on a semaphore, or it waits for its owner. -/
def advance [DecidableEq K] (config : PoolConfig) (s : PoolInner K) (i : Nat) :
    Task K → Option (PoolInner K)
  | .start origin =>
    match s.globalSemaphore with
    | none => some (s.setTask i (afterGlobal config ⟨false, false⟩ origin))
    | some sem =>
      match sem.tryAcquireOwned with
      | some sem' => some (s.move i (s.setGlobal sem') (afterGlobal config ⟨true, false⟩ origin))
      | none => some (s.setTask i (.waitGlobal origin))
  | .waitGlobal _ =>
    match s.globalSemaphore with
    | some ⟨_, true⟩ => some (s.fail i false)
    | _ => none
  | .grantedGlobal origin =>
    match s.globalSemaphore with
    | some ⟨_, true⟩ => some (s.fail i true)
    | _ => some (s.setTask i (afterGlobal config ⟨true, true⟩ origin))
  | .lookupRead a key =>
    if s.writer.isSome then none
    else if s.poisoned then some (s.fail i a.globalPermit)
    else match s.lookup key with
      | some e => some (s.move i (s.fetchAddWaiters e) (.tryOrigin a e))
      | none => some (s.setTask i (.lookupWrite a key))
  | .lookupWrite a key =>
    if s.writer.isSome then none
    else if s.poisoned then some (s.fail i a.globalPermit)
    else match s.lookup key, config.effectiveMaxInFlightPerOrigin with
      | some e, _ => some (s.move i (s.fetchAddWaiters e) (.tryOrigin a e))
      | none, none => none
      | none, some maxPerOrigin =>
        if sweepThreshold maxPerOrigin < s.perOrigin.length then
          some (s.move i { s.toResources with writer := some i } (.sweep a key s.perOrigin))
        else some (s.move i (s.insertRegistered key maxPerOrigin) (.tryOrigin a s.entries.length))
  | .sweep a key [] =>
    config.effectiveMaxInFlightPerOrigin.map fun maxPerOrigin =>
      s.move i (s.insertRegistered key maxPerOrigin) (.tryOrigin a s.entries.length)
  | .sweep _ _ (_ :: _) => none
  | .sweepWaiters a key victim rest =>
    match s.entries[victim.2]? with
    | none => none
    | some x =>
      -- `retain` erases this bucket exactly when the second read finds no waiter
      if 0 < x.waiters then some (s.setTask i (.sweep a key rest))
      else some (s.move i (s.evict victim) (.sweep a key rest))
  | .tryOrigin a e =>
    match s.entries[e]? with
    | none => none
    | some x =>
      match x.semaphore.tryAcquireOwned with
      | some sem => some (s.move i (s.setOriginSemaphore e sem) (.takeWaiter a e true))
      | none => some (s.setTask i (.waitOrigin a e))
  | .waitOrigin a e =>
    match s.entries[e]? with
    | none => none
    | some x => if x.semaphore.closed then some (s.setTask i (.takeWaiter a e false)) else none
  | .grantedOrigin a e =>
    match s.entries[e]? with
    | none => none
    | some x =>
      if x.semaphore.closed then some (s.move i (s.releaseOrigin e) (.takeWaiter a e false))
      else some (s.setTask i (.takeWaiter ⟨a.globalPermit, true⟩ e true))
  | .takeWaiter a e true => some (s.move i (s.fetchSubWaiters e) (.finish a (some e)))
  | .takeWaiter a e false =>
    some (s.countCancellation.move i (s.fetchSubWaiters e) (.unwind a.globalPermit none none))
  | .finish a permit => some ((s.countWait a.waited).setTask i (.guard a.globalPermit permit))
  | .guard _ _ => none
  | .dropGuard true permit => some (s.move i s.releaseGlobal (.dropGuard false permit))
  | .dropGuard false (some e) => some (s.move i (s.releaseOrigin e) (.dropGuard false none))
  | .dropGuard false none => some (s.setTask i .done)
  | .unwind g waiter (some e) => some (s.move i (s.releaseOrigin e) (.unwind g waiter none))
  | .unwind g (some e) none => some (s.move i (s.fetchSubWaiters e) (.unwind g none none))
  | .unwind true none none => some (s.move i s.releaseGlobal (.unwind false none none))
  | .unwind false none none => some (s.setTask i .done)
  | .done => none

/-- The first of the two reads of `retain`'s closure, on the chosen entry. -/
def visit (config : PoolConfig) (s : PoolInner K) (i j : Nat) : Task K → Option (PoolInner K)
  | .sweep a key rest =>
    match rest[j]?, config.effectiveMaxInFlightPerOrigin with
    | some victim, some maxPerOrigin =>
      match s.entries[victim.2]? with
      | none => none
      | some x =>
        if x.semaphore.permits < maxPerOrigin then
          some (s.setTask i (.sweep a key (rest.eraseIdx j)))
        else some (s.setTask i (.sweepWaiters a key victim (rest.eraseIdx j)))
    | _, _ => none
  | _ => none

def grant (s : PoolInner K) (i : Nat) : Task K → Option (PoolInner K)
  | .waitGlobal origin =>
    match s.globalSemaphore with
    | none => none
    | some sem => sem.tryAcquireOwned.map fun sem' =>
        s.move i (s.setGlobal sem') (.grantedGlobal origin)
  | .waitOrigin a e =>
    match s.entries[e]? with
    | none => none
    | some x => x.semaphore.tryAcquireOwned.map fun sem =>
        s.move i (s.setOriginSemaphore e sem) (.grantedOrigin a e)
  | _ => none

/-- Drop of a suspended future: a permit its queue slot was handed goes first, then
the waiter guard, then the global permit. -/
def cancel (s : PoolInner K) (i : Nat) : Task K → Option (PoolInner K)
  | .start _ => some (s.setTask i .done)
  | .waitGlobal _ => some (s.setTask i (.unwind false none none))
  | .grantedGlobal _ => some (s.setTask i (.unwind true none none))
  | .waitOrigin a e => some (s.setTask i (.unwind a.globalPermit (some e) none))
  | .grantedOrigin a e => some (s.setTask i (.unwind a.globalPermit (some e) (some e)))
  | _ => none

def dropGuard (s : PoolInner K) (i : Nat) : Task K → Option (PoolInner K)
  | .guard g permit => some (s.setTask i (.dropGuard g permit))
  | _ => none

def panic (s : PoolInner K) (i : Nat) : Task K → Option (PoolInner K)
  | .sweep a _ _ | .sweepWaiters a _ _ _ =>
    some ({ s with poisoned := true }.move i { s.toResources with writer := none }
      (.unwind a.globalPermit none none))
  | _ => none

def step [DecidableEq K] (config : PoolConfig) (s : PoolInner K) :
    Action K → Option (PoolInner K)
  | .spawn origin => some { s with tasks := s.tasks ++ [.start origin] }
  | .advance i => (s.tasks[i]?).bind (s.advance config i)
  | .visit i j => (s.tasks[i]?).bind (s.visit config i j)
  | .grant i => (s.tasks[i]?).bind (s.grant i)
  | .cancel i => (s.tasks[i]?).bind (s.cancel i)
  | .dropGuard i => (s.tasks[i]?).bind (s.dropGuard i)
  | .panic i => (s.tasks[i]?).bind (s.panic i)
  | .closeGlobal => some { s with globalSemaphore := s.globalSemaphore.map ({ · with closed := true }) }
  | .closeOrigin e => some { s with toResources := s.modifyEntry e fun x => { x with semaphore.closed := true } }

end PoolInner
end Eggfetch.Pool
