import Eggfetch.AltSvc.Header
import Mathlib.Data.List.AList

/-! The Alt-Svc cache and the broken-route suppressor of `alt_svc.rs`, one function for
each section under a lock. -/
namespace Eggfetch.AltSvc
open Text

def altSvcCacheMaxEntries : Nat := 64
def suppressionBase : Nat := secs 5
def suppressionMax : Nat := secs 300
def suppressionMaxEntries : Nat := 64
def u32Max : Nat := 2 ^ 32 - 1

/-- `HashMap<AltSvcOrigin, V>`. -/
abbrev Table (V : Type) := AList fun _ : AltSvcOrigin => V

/-- `ensure_bound_locked`: a full table loses one key other than `except`; `pick` is the
position of the victim in the arbitrary order of the keys. -/
def Table.ensureBound {V : Type} (max : Nat) (table : Table V) (except : AltSvcOrigin) (pick : Nat) :
    Table V :=
  if table.keys.length < max then table
  else
    let others := table.keys.filter (· ≠ except)
    match others[pick % others.length]? with
    | some victim => table.erase victim
    | none => table

structure AltSvcEntry where
  altHost : Str
  altPort : Nat
  expiresAt : Instant
  generation : Nat
  deriving DecidableEq, Repr

def AltSvcEntry.isExpired (e : AltSvcEntry) (now : Instant) : Bool := e.expiresAt ≤ now

structure AltSvcCache where
  entries : Table AltSvcEntry
  sequence : Nat
  deriving DecidableEq

inductive AltSvcLearnOutcome where
  | absent
  | learned
  | cleared
  | rejected
  deriving DecidableEq, Repr

namespace AltSvcCache

def new : AltSvcCache := ⟨∅, 1⟩

def ensureBoundLocked (table : Table AltSvcEntry) (except : AltSvcOrigin) (pick : Nat) :
    Table AltSvcEntry :=
  table.ensureBound altSvcCacheMaxEntries except pick

/-- The write-locked section of `clear`, and of `get_fresh` after an expired read. -/
def remove (cache : AltSvcCache) (origin : AltSvcOrigin) : AltSvcCache :=
  { cache with entries := cache.entries.erase origin }

/-- `clear`, with whether an entry existed. -/
def clear (cache : AltSvcCache) (origin : AltSvcOrigin) : Bool × AltSvcCache :=
  ((cache.entries.lookup origin).isSome, cache.remove origin)

/-- The write-locked section of `learn_counted`. -/
def store (cache : AltSvcCache) (origin : AltSvcOrigin) (altHost : Str) (altPort : Nat)
    (expiresAt : Instant) (pick : Nat) : AltSvcCache :=
  let replace : AltSvcCache :=
    { entries := (ensureBoundLocked cache.entries origin pick).insert origin
        ⟨altHost, altPort, expiresAt, cache.sequence⟩
      sequence := cache.sequence + 1 }
  match cache.entries.lookup origin with
  | some existing =>
    if existing.altHost = altHost ∧ existing.altPort = altPort then
      let newExpiry := max expiresAt existing.expiresAt
      if newExpiry ≠ existing.expiresAt then
        { cache with
          entries := cache.entries.insert origin ⟨altHost, altPort, newExpiry, existing.generation⟩ }
      else cache
    else replace
  | none => replace

/-- `learn_counted` has at most one section under the lock. -/
def learnCounted (cache : AltSvcCache) (origin : AltSvcOrigin) (values : List Str) (now : Instant)
    (pick : Nat) : (AltSvcLearnOutcome × Bool) × AltSvcCache :=
  if values.isEmpty then ((.absent, false), cache)
  else
    let combined := (utf8 ", ").intercalate values
    if altSvcMaxHeaderBytes < combined.length then ((.rejected, false), cache)
    else if isClearValue (trim combined) then
      ((.cleared, (cache.clear origin).1), (cache.clear origin).2)
    else
      match best origin combined now with
      | none =>
        if (cache.clear origin).1 then ((.cleared, true), (cache.clear origin).2)
        else ((.absent, false), (cache.clear origin).2)
      | some (altHost, altPort, expiresAt) =>
        ((.learned, false), cache.store origin altHost altPort expiresAt pick)

end AltSvcCache

inductive H3FailureClass where
  | connectivity
  | protocol
  | closed
  | other
  deriving DecidableEq, Repr

structure SuppressionEntry where
  generation : Nat
  failures : Nat
  suppressedUntil : Instant
  reason : H3FailureClass
  deriving DecidableEq, Repr

structure BrokenRouteSuppressor where
  entries : Table SuppressionEntry
  deriving DecidableEq

namespace BrokenRouteSuppressor

def new : BrokenRouteSuppressor := ⟨∅⟩

def ensureBoundLocked (table : Table SuppressionEntry) (except : AltSvcOrigin) (pick : Nat) :
    Table SuppressionEntry :=
  table.ensureBound suppressionMaxEntries except pick

def isSuppressed (s : BrokenRouteSuppressor) (origin : AltSvcOrigin) (generation : Nat) (now : Instant) :
    Bool :=
  match s.entries.lookup origin with
  | none => false
  | some entry => if entry.generation ≠ generation then false else now < entry.suppressedUntil

/-- The backoff after `failures` failures of one generation. -/
def backoff (failures : Nat) : Nat :=
  min (suppressionBase * 2 ^ min (failures - 1) 10) suppressionMax

def recordFailure (s : BrokenRouteSuppressor) (origin : AltSvcOrigin) (generation : Nat) (now : Instant)
    (reason : H3FailureClass) (pick : Nat) : BrokenRouteSuppressor :=
  let first : SuppressionEntry := ⟨generation, 1, now + min suppressionBase suppressionMax, reason⟩
  match s.entries.lookup origin with
  | some entry =>
    if entry.generation ≠ generation then ⟨s.entries.insert origin first⟩
    else
      let next := min (entry.failures + 1) u32Max
      ⟨s.entries.insert origin
        { entry with failures := next, reason := reason, suppressedUntil := now + backoff next }⟩
  | none => ⟨(ensureBoundLocked s.entries origin pick).insert origin first⟩

/-- `record_success`, and the write-locked section of `note_new_advertisement`. -/
def remove (s : BrokenRouteSuppressor) (origin : AltSvcOrigin) : BrokenRouteSuppressor :=
  ⟨s.entries.erase origin⟩

def recordSuccess (s : BrokenRouteSuppressor) (origin : AltSvcOrigin) : BrokenRouteSuppressor :=
  s.remove origin

/-- The read-locked section of `note_new_advertisement`: the stale record, if it is one. -/
def staleRecord (s : BrokenRouteSuppressor) (origin : AltSvcOrigin) (generation : Nat) :
    Option SuppressionEntry :=
  (s.entries.lookup origin).filter (·.generation ≠ generation)

end BrokenRouteSuppressor

structure AltSvcState where
  cache : AltSvcCache
  suppressor : BrokenRouteSuppressor
  deriving DecidableEq

def AltSvcState.new : AltSvcState := ⟨.new, .new⟩

/-! The concurrent calls, cut at their locked sections. -/

/-- Who called `get_fresh`: `h3_discovered_target`, or `learn_altsvc_from_response`. -/
inductive Caller where
  | discovery
  | learning
  deriving DecidableEq, Repr

/-- A call between two of its sections. `examined` is the record that
`note_new_advertisement` judged; the code keeps only the verdict. -/
inductive Task where
  | getFresh (caller : Caller) (origin : AltSvcOrigin) (now : Instant)
  | removeExpired (origin : AltSvcOrigin) (now : Instant)
  | isSuppressed (origin : AltSvcOrigin) (entry : AltSvcEntry) (now : Instant)
  | attempt (origin : AltSvcOrigin) (generation : Nat)
  | noteNewAdvertisement (origin : AltSvcOrigin) (generation : Nat)
  | removeStale (origin : AltSvcOrigin) (generation : Nat) (examined : SuppressionEntry)
  | done
  deriving DecidableEq, Repr

structure System extends AltSvcState where
  tasks : List Task
  deriving DecidableEq

def init : System := { AltSvcState.new with tasks := [] }

/-- How `send_h3_route` ends for a discovered alternative. -/
inductive Outcome where
  | success
  | failure (failureClass : H3FailureClass) (draining : Bool)
  deriving DecidableEq, Repr

def Outcome.suppressible : Outcome → Option H3FailureClass
  | .success => none
  | .failure failureClass draining =>
    if draining ∨ failureClass = .other then none else some failureClass

inductive Action where
  /-- A response with these header values is learned from. -/
  | learn (origin : AltSvcOrigin) (values : List Str) (now : Instant) (pick : Nat)
  | clear (origin : AltSvcOrigin)
  /-- A request looks for a discovered alternative. -/
  | discover (origin : AltSvcOrigin) (now : Instant)
  /-- The next locked section of task `i`. -/
  | advance (i : Nat)
  /-- The attempt of task `i` ends and reports. -/
  | report (i : Nat) (outcome : Outcome) (now : Instant) (pick : Nat)
  deriving DecidableEq, Repr

def Task.advance (s : AltSvcState) : Task → Option (AltSvcState × Task)
  | .getFresh caller origin now =>
    match s.cache.entries.lookup origin with
    | none => some (s, .done)
    | some entry =>
      if entry.isExpired now then some (s, .removeExpired origin now)
      else
        match caller with
        | .discovery => some (s, .isSuppressed origin entry now)
        | .learning => some (s, .noteNewAdvertisement origin entry.generation)
  | .removeExpired origin _ => some ({ s with cache := s.cache.remove origin }, .done)
  | .isSuppressed origin entry now =>
    if s.suppressor.isSuppressed origin entry.generation now then some (s, .done)
    else some (s, .attempt origin entry.generation)
  | .noteNewAdvertisement origin generation =>
    match s.suppressor.staleRecord origin generation with
    | some examined => some (s, .removeStale origin generation examined)
    | none => some (s, .done)
  | .removeStale origin _ _ => some ({ s with suppressor := s.suppressor.remove origin }, .done)
  | .attempt .. | .done => none

/-- The end of `send_h3_route`: what it tells the suppressor. -/
def Outcome.report (suppressor : BrokenRouteSuppressor) (origin : AltSvcOrigin) (generation : Nat)
    (now : Instant) (pick : Nat) (outcome : Outcome) : BrokenRouteSuppressor :=
  match outcome with
  | .success => suppressor.recordSuccess origin
  | .failure .. =>
    match outcome.suppressible with
    | some failureClass => suppressor.recordFailure origin generation now failureClass pick
    | none => suppressor

def System.step (s : System) : Action → Option System
  | .learn origin values now pick =>
    let learned := s.cache.learnCounted origin values now pick
    let tasks :=
      if learned.1.1 = .learned then s.tasks ++ [.getFresh .learning origin now] else s.tasks
    some { s with cache := learned.2, tasks := tasks }
  | .clear origin => some { s with cache := s.cache.remove origin }
  | .discover origin now => some { s with tasks := s.tasks ++ [.getFresh .discovery origin now] }
  | .advance i =>
    s.tasks[i]?.bind fun t => (t.advance s.toAltSvcState).map fun (shared, t') =>
      { shared with tasks := s.tasks.set i t' }
  | .report i outcome now pick =>
    match s.tasks[i]? with
    | some (.attempt origin generation) =>
      some { s with
        suppressor := outcome.report s.suppressor origin generation now pick
        tasks := s.tasks.set i .done }
    | _ => none

end Eggfetch.AltSvc
