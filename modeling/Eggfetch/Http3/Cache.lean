import Eggfetch.Text.Bytes
import Eggfetch.Transition.Runs
import Mathlib.Data.List.AList
import Mathlib.Logic.Function.Basic

/-! The sender cache of `transport/http3.rs` as a machine. Each section under the lock, each
start and end of a `OnceCell` initialisation and each mark of a draining session is one
action; any number of requests and response bodies take turns. -/
namespace Eggfetch.Http3
open Text Transition

def h3CacheMaxEntries : Nat := 64

/-- `Arc<OnceCell<CachedH3Sender>>`, by its address. -/
abbrev CellId := Nat

/-- What the cache reads of a `CachedH3Sender`. -/
structure CachedH3Sender where
  altGeneration : Option Nat
  draining : Bool
  deriving DecidableEq, Repr

/-- A `OnceCell`; `initializing` is the task inside `get_or_try_init`, which has its only
permit. -/
structure Cell where
  value : Option CachedH3Sender
  initializing : Option Nat
  deriving DecidableEq, Repr

def Cell.new : Cell := ⟨none, none⟩

/-- What `send_request_inner` knows of its request: the cache key `host:port`, and the
Alt-Svc generation. -/
structure Dispatch where
  key : Str
  generation : Option Nat
  deriving DecidableEq, Repr

def cacheKey (host : Str) (port : Nat) : Str := host ++ utf8 ":" ++ utf8 (toString port)

/-- What `ensure_cache_bound` is followed by. -/
inductive AfterBound where
  | lookup
  | insert
  deriving DecidableEq, Repr

/-- What `evict_if_current` is followed by: the replacement of the cell, or the report of a
failure. -/
inductive AfterEvict where
  | replace
  | report
  deriving DecidableEq, Repr

/-- A request or a response body between two sections. -/
inductive Task where
  | ensureBound (d : Dispatch) (next : AfterBound)
  | evictVictim (d : Dispatch) (next : AfterBound) (victim : Str)
  /-- `h3_cache_get_or_insert_default`, under the read lock and under the write lock. -/
  | cacheGet (d : Dispatch)
  | getOrInsert (d : Dispatch)
  /-- With a cell in hand: is its session usable? -/
  | check (d : Dispatch) (cell : CellId)
  /-- `evict_if_current`, under the read lock and under the write lock. -/
  | evictRead (d : Dispatch) (cell : CellId) (next : AfterEvict)
  | evictWrite (d : Dispatch) (cell : CellId) (next : AfterEvict)
  | insert (d : Dispatch)
  /-- At `cell.get()`, then `get_or_try_init`. -/
  | acquire (d : Dispatch) (cell : CellId)
  | connecting (d : Dispatch) (cell : CellId)
  /-- Using the session, which has this generation. -/
  | sending (d : Dispatch) (cell : CellId) (altGeneration : Option Nat)
  | body (d : Dispatch) (cell : CellId)
  /-- A body that failed and found its cell current. -/
  | removeByKey (d : Dispatch) (cell : CellId)
  | done
  deriving DecidableEq, Repr

def AfterBound.task (d : Dispatch) : AfterBound → Task
  | .lookup => .cacheGet d
  | .insert => .insert d

def AfterEvict.task (d : Dispatch) : AfterEvict → Task
  | .replace => .ensureBound d .insert
  | .report => .done

structure Resources where
  cache : AList fun _ : Str => CellId
  cells : CellId → Cell
  created : Nat

structure System extends Resources where
  tasks : List Task

inductive Action where
  /-- A request arrives. -/
  | dispatch (d : Dispatch)
  /-- The read-locked section of `ensure_cache_bound`; `pick` is the position of the victim in
  the arbitrary order of the keys. -/
  | ensureBound (i pick : Nat)
  /-- The next section of task `i`. -/
  | advance (i : Nat)
  | established (i : Nat)
  /-- Task `i` ends without a section on the cache: its connection fails, it is dropped, or it
  is complete. -/
  | stop (i : Nat)
  /-- The transport fails under a request; `draining` when the connection is closing. -/
  | fail (i : Nat) (draining : Bool)
  | responded (i : Nat)
  | bodyFailed (i : Nat)
  /-- The driver of a session ends. -/
  | drain (cell : CellId)
  deriving DecidableEq, Repr

namespace Resources
variable (s : Resources)

def setCell (cell : CellId) (c : Cell) : Resources := { s with cells := Function.update s.cells cell c }

/-- `h3_cache_insert` of a new cell. -/
def install (key : Str) : Resources :=
  { cache := s.cache.insert key s.created
    cells := Function.update s.cells s.created .new
    created := s.created + 1 }

/-- `h3_cache_remove`. -/
def remove (key : Str) : Resources := { s with cache := s.cache.erase key }

def setInitializing (cell : CellId) (i : Option Nat) : Resources :=
  s.setCell cell { s.cells cell with initializing := i }

def establish (cell : CellId) (generation : Option Nat) : Resources :=
  s.setCell cell ⟨some ⟨generation, false⟩, none⟩

/-- `draining.store(true)`, where there is a session. -/
def drain (cell : CellId) : Resources :=
  s.setCell cell { s.cells cell with value := (s.cells cell).value.map ({ · with draining := true }) }

end Resources

def CachedH3Sender.unusable (session : CachedH3Sender) (d : Dispatch) : Bool :=
  session.altGeneration ≠ d.generation || session.draining

namespace System

def setTask (s : System) (i : Nat) (t : Task) : System := { s with tasks := s.tasks.set i t }

def move (s : System) (i : Nat) (r : Resources) (t : Task) : System := { r with tasks := s.tasks.set i t }

def ensureBound (s : System) (i pick : Nat) : Task → Option System
  | .ensureBound d next =>
    if s.cache.keys.length < h3CacheMaxEntries then some (s.setTask i (next.task d))
    else
      let others := s.cache.keys.filter (· ≠ d.key)
      match others[pick % others.length]? with
      | some victim => some (s.setTask i (.evictVictim d next victim))
      | none => some (s.setTask i (next.task d))
  | _ => none

/-- The next section of task `i`, which is at `t`. -/
def advance (s : System) (i : Nat) : Task → Option System
  | .evictVictim d next victim => some (s.move i (s.remove victim) (next.task d))
  | .cacheGet d =>
    match s.cache.lookup d.key with
    | some cell => some (s.setTask i (.check d cell))
    | none => some (s.setTask i (.getOrInsert d))
  | .getOrInsert d =>
    match s.cache.lookup d.key with
    | some cell => some (s.setTask i (.check d cell))
    | none => some (s.move i (s.install d.key) (.check d s.created))
  | .check d cell =>
    match (s.cells cell).value with
    | none => some (s.setTask i (.acquire d cell))
    | some session =>
      if session.unusable d then some (s.setTask i (.evictRead d cell .replace))
      else some (s.setTask i (.sending d cell session.altGeneration))
  | .evictRead d cell next =>
    if s.cache.lookup d.key = some cell then some (s.setTask i (.evictWrite d cell next))
    else some (s.setTask i (next.task d))
  | .evictWrite d cell next =>
    if s.cache.lookup d.key = some cell then some (s.move i (s.remove d.key) (next.task d))
    else some (s.setTask i (next.task d))
  | .insert d => some (s.move i (s.install d.key) (.acquire d s.created))
  | .acquire d cell =>
    match s.cells cell with
    | ⟨some session, _⟩ => some (s.setTask i (.sending d cell session.altGeneration))
    | ⟨none, none⟩ => some (s.move i (s.setInitializing cell (some i)) (.connecting d cell))
    | ⟨none, some _⟩ => none
  | .removeByKey d _ => some (s.move i (s.remove d.key) .done)
  | _ => none

def established (s : System) (i : Nat) : Task → Option System
  | .connecting d cell => some (s.move i (s.establish cell d.generation) (.sending d cell d.generation))
  | _ => none

/-- A connection attempt that fails or is dropped gives the permit of its cell back. -/
def stop (s : System) (i : Nat) : Task → Option System
  | .connecting _ cell => some (s.move i (s.setInitializing cell none) .done)
  | .acquire .. | .sending .. | .body .. => some (s.setTask i .done)
  | _ => none

def fail (s : System) (i : Nat) (draining : Bool) : Task → Option System
  | .sending d cell _ => some (s.move i (if draining then s.drain cell else s.toResources) (.evictRead d cell .report))
  | _ => none

def responded (s : System) (i : Nat) : Task → Option System
  | .sending d cell _ => some (s.setTask i (.body d cell))
  | _ => none

def bodyFailed (s : System) (i : Nat) : Task → Option System
  | .body d cell =>
    if s.cache.lookup d.key = some cell then some (s.setTask i (.removeByKey d cell))
    else some (s.setTask i .done)
  | _ => none

def step (s : System) : Action → Option System
  | .dispatch d => some { s with tasks := s.tasks ++ [.ensureBound d .lookup] }
  | .ensureBound i pick => (s.tasks[i]?).bind (s.ensureBound i pick)
  | .advance i => (s.tasks[i]?).bind (s.advance i)
  | .established i => (s.tasks[i]?).bind (s.established i)
  | .stop i => (s.tasks[i]?).bind (s.stop i)
  | .fail i draining => (s.tasks[i]?).bind (s.fail i draining)
  | .responded i => (s.tasks[i]?).bind (s.responded i)
  | .bodyFailed i => (s.tasks[i]?).bind (s.bodyFailed i)
  | .drain cell => some { s.drain cell with tasks := s.tasks }

end System

def System.init : System := { cache := ∅, cells := fun _ => .new, created := 0, tasks := [] }

end Eggfetch.Http3
