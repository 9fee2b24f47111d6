import Eggfetch.Facade.Extensions
import Eggfetch.Transition.Runs

/-! The extensions of a request are a dict that is passed by reference: from the caller through
`_merge_extensions` of the client and `Request.__init__` (`_request.py`) to `send` and `_send_single_request`,
which write into it. -/
namespace Eggfetch.Facade.Reuse
open Text Transition

/-- What a client was made with. -/
structure Config (O : Type) where
  extensions : Extensions O
  timeout : Phases

/-- A dict in memory. Beside what it holds stands what it holds by whoever made it; `ofCaller` dicts were passed in. -/
structure Cell (O : Type) where
  content : Extensions O
  written : Extensions O
  ofCaller : Bool

/-- What a call of `send` dispatched, and what it was given: the extensions as written, its `timeout` argument and the time. -/
structure Sending (O : Type) where
  written : Extensions O
  timeout : Option Phases
  now : O
  dispatched : Extensions O

/-- The dicts, the places of those of the requests, and the calls so far. -/
structure State (O : Type) where
  cells : List (Cell O)
  requests : List Nat
  log : List (Sending O)

inductive Action (O : Type)
  /-- The caller makes a dict, or writes into one. -/
  | dict (d : Extensions O)
  | write (place : Nat) (d : Extensions O)
  /-- `Request(…, extensions=…)` -/
  | construct (extensions : Option Nat)
  /-- `client.build_request(…, extensions=…)` -/
  | build (extensions : Option Nat)
  | send (request : Nat) (timeout : Option Phases) (now : O)

section
variable {O : Type}

/-- `send` and the first lines of `_send_single_request`, on the extensions; without an argument the timeout is the client's. -/
def prepared (cfg : Config O) (extensions : Extensions O) (timeout : Option Phases) (now : O) : Extensions O :=
  Extensions.ensureTimeout ((extensions.ensureTimeout (timeout.getD cfg.timeout)).setdefault Extensions.startedKey (.object now))
    cfg.timeout

namespace State

def own (s : State O) (content written : Extensions O) : State O :=
  { s with cells := s.cells ++ [⟨content, written, false⟩], requests := s.requests ++ [s.cells.length] }

def share (s : State O) (place : Nat) : State O := { s with requests := s.requests ++ [place] }

def step (cfg : Config O) (s : State O) : Action O → Option (State O)
  | .dict d => some { s with cells := s.cells ++ [⟨d, d, true⟩] }
  | .write place d =>
    (s.cells[place]?).map fun cell => { s with cells := s.cells.set place { cell with content := d, written := d } }
  | .construct none => some (s.own .empty .empty)
  | .construct (some place) => (s.cells[place]?).map fun _ => s.share place
  | .build none => some (s.own cfg.extensions cfg.extensions)
  | .build (some place) =>
    (s.cells[place]?).map fun cell =>
      -- A merged dict is a new one; without extensions of the client there is no merge, and an empty dict is not passed on.
      if cfg.extensions.items ≠ [] then
        s.own (cfg.extensions.update cell.content.items) (cfg.extensions.update cell.written.items)
      else if cell.content.items = [] then s.own .empty .empty
      else s.share place
  | .send request timeout now =>
    (s.requests[request]?).bind fun place => (s.cells[place]?).map fun cell =>
      let dispatched := prepared cfg cell.content timeout now
      { s with
        cells := s.cells.set place { cell with content := dispatched }
        log := s.log ++ [⟨cell.written, timeout, now, dispatched⟩] }

end State

def start : State O := ⟨[], [], []⟩

/-- Every send dispatches what follows from its own arguments and the client, and the caller's dicts are as the
caller wrote them. The effective timeout is what `_request_timeout` reads off the extensions, the start of
`elapsed` is under its key. -/
structure Lawful (cfg : Config O) (s : State O) : Prop where
  dispatched : ∀ sending ∈ s.log, sending.dispatched = prepared cfg sending.written sending.timeout sending.now
  callers : ∀ cell ∈ s.cells, cell.ofCaller = true → cell.content = cell.written

/-- Extensions into which `send` has nothing to write. -/
def Complete (extensions : Extensions O) : Prop :=
  extensions.get Extensions.timeoutKey ≠ none ∧ extensions.get Extensions.startedKey ≠ none

/-- A request is sent with a dict into which no earlier send has written, and which is not the caller's unless it is complete. -/
def Unused (s : State O) : Action O → Prop
  | .send request _ _ => ∀ place ∈ s.requests[request]?, ∀ cell ∈ s.cells[place]?,
    cell.content = cell.written ∧ (cell.ofCaller = true → Complete cell.content)
  | _ => True

private theorem setdefault_of_mem {κ V : Type} [DecidableEq κ] {d : Dict κ V} {key : κ} (value : V) (h : d.get key ≠ none) :
    d.setdefault key value = d := dif_neg h

theorem prepared_complete (cfg : Config O) {extensions : Extensions O} (h : Complete extensions)
    (timeout : Option Phases) (now : O) :
    prepared cfg extensions timeout now = extensions := by
  have hTimeout : ∀ phases, extensions.ensureTimeout phases = extensions := fun phases => setdefault_of_mem _ h.1
  rw [prepared, hTimeout, setdefault_of_mem _ h.2, hTimeout]

variable {cfg : Config O} {s s' : State O}

theorem Lawful.own (h : Lawful cfg s) (content written : Extensions O) : Lawful cfg (s.own content written) := by
  refine ⟨h.dispatched, fun cell hCell hCaller => ?_⟩
  rcases List.mem_append.mp hCell with hMem | hMem
  · exact h.callers cell hMem hCaller
  · obtain rfl := List.mem_singleton.mp hMem
    cases hCaller

theorem Lawful.share (h : Lawful cfg s) (place : Nat) : Lawful cfg (s.share place) := ⟨h.dispatched, h.callers⟩

theorem Lawful.set (h : Lawful cfg s) (place : Nat) {cell : Cell O} (hCell : cell.ofCaller = true → cell.content = cell.written) :
    ∀ other ∈ s.cells.set place cell, other.ofCaller = true → other.content = other.written := by
  intro other hOther hCaller
  rcases List.mem_or_eq_of_mem_set hOther with hMem | rfl
  · exact h.callers other hMem hCaller
  · exact hCell hCaller

theorem Lawful.step {action : Action O} (h : Lawful cfg s) (hUnused : Unused s action) (hStep : s.step cfg action = some s') :
    Lawful cfg s' := by
  cases action with
  | dict d =>
    obtain rfl := Option.some.inj hStep
    refine ⟨h.dispatched, fun cell hCell hCaller => ?_⟩
    rcases List.mem_append.mp hCell with hMem | hMem
    · exact h.callers cell hMem hCaller
    · obtain rfl := List.mem_singleton.mp hMem
      rfl
  | write place d =>
    obtain ⟨cell, -, rfl⟩ := Option.map_eq_some_iff.mp hStep
    exact ⟨h.dispatched, h.set place fun _ => rfl⟩
  | construct extensions =>
    cases extensions with
    | none =>
      obtain rfl := Option.some.inj hStep
      exact h.own _ _
    | some place =>
      obtain ⟨cell, -, rfl⟩ := Option.map_eq_some_iff.mp hStep
      exact h.share place
  | build extensions =>
    cases extensions with
    | none =>
      obtain rfl := Option.some.inj hStep
      exact h.own _ _
    | some place =>
      obtain ⟨cell, -, rfl⟩ := Option.map_eq_some_iff.mp hStep
      split
      · exact h.own _ _
      · split
        · exact h.own _ _
        · exact h.share place
  | send request timeout now =>
    obtain ⟨place, hPlace, hRest⟩ := Option.bind_eq_some_iff.mp hStep
    obtain ⟨cell, hCell, rfl⟩ := Option.map_eq_some_iff.mp hRest
    obtain ⟨hWritten, hComplete⟩ := hUnused place hPlace cell hCell
    refine ⟨fun sending hSending => ?_, h.set place fun hCaller => ?_⟩
    · rcases List.mem_append.mp hSending with hMem | hMem
      · exact h.dispatched sending hMem
      · obtain rfl := List.mem_singleton.mp hMem
        dsimp only
        rw [hWritten]
    · dsimp only
      rw [prepared_complete cfg (hComplete hCaller), hWritten]

/-- In every run in which no dict is sent twice, and none that the caller passed in, every send is its own. -/
theorem sends_apart (cfg : Config O) (s : State O) (hReach : Reaches (State.step cfg) Unused start s) : Lawful cfg s := by
  have hStart : Lawful cfg (start : State O) :=
    ⟨fun _ hEntry => absurd hEntry List.not_mem_nil, fun _ hCell => absurd hCell List.not_mem_nil⟩
  exact hReach.invariant hStart fun _ hLawful hUnused hStep => hLawful.step hUnused hStep

end

def seconds (q : ℚ) (h : 0 ≤ q) : Phases := ⟨some ⟨q, h⟩, none, none, none⟩

def plain : Config Nat := ⟨.empty, seconds 5 (by decide)⟩

def sni : Extensions Nat := Dict.empty.set (utf8 "sni_hostname") (.object 7)

/-- A client with extensions of its own, which are merged into a new dict for every request. -/
def tracing : Config Nat := ⟨Dict.empty.set (utf8 "trace") (.object 3), seconds 5 (by decide)⟩

/-- One dict of the caller in two requests, which are sent with timeouts of their own. -/
theorem sends_apart_twice : ∃ s : State Nat, Reaches (State.step tracing) Unused start s ∧ Lawful tracing s ∧
    ∃ first second, s.log = [first, second] ∧
      (first.dispatched.requestTimeout tracing.timeout).toOption = some (seconds 1 (by decide)) ∧
      (second.dispatched.requestTimeout tracing.timeout).toOption = some (seconds 2 (by decide)) := by
  let acts : List (Action Nat) := [.dict sni, .build (some 0), .send 0 (some (seconds 1 (by decide))) 10, .build (some 0),
    .send 1 (some (seconds 2 (by decide))) 20]
  have hAlong : Along (State.step tracing) (fun s a _ => Unused s a) start acts := by
    refine along_cons.mpr ⟨_, rfl, trivial, along_cons.mpr ⟨_, rfl, trivial, along_cons.mpr ⟨_, rfl, ?_,
      along_cons.mpr ⟨_, rfl, trivial, along_cons.mpr ⟨_, rfl, ?_, trivial⟩⟩⟩⟩⟩
    · rintro place ⟨⟩ cell ⟨⟩
      exact ⟨rfl, fun hCaller => absurd hCaller Bool.false_ne_true⟩
    · rintro place ⟨⟩ cell ⟨⟩
      exact ⟨rfl, fun hCaller => absurd hCaller Bool.false_ne_true⟩
  have hReach := Reaches.start.along hAlong rfl
  exact ⟨_, hReach, sends_apart tracing _ hReach, _, _, rfl, rfl, rfl⟩

/-- Two requests with one dict: the second is sent with the timeout of the first, and the dict has two more keys. -/
theorem not_sends_apart : ∃ s : State Nat, Reachable (State.step plain) start s ∧ ¬ Lawful plain s ∧
    ∃ first second, s.log = [first, second] ∧ second.timeout = some (seconds 2 (by decide)) ∧
      (second.dispatched.requestTimeout plain.timeout).toOption = first.timeout := by
  let acts : List (Action Nat) := [.dict sni, .build (some 0), .send 0 (some (seconds 1 (by decide))) 10, .build (some 0),
    .send 1 (some (seconds 2 (by decide))) 20]
  have hRun : run (State.step plain) start acts = some _ := rfl
  refine ⟨_, Reaches.start.run hRun, fun hLawful => ?_, _, _, rfl, rfl, ?_⟩
  · have hSame := hLawful.callers _ (List.mem_of_getElem? (i := 0) rfl) rfl
    have hCount := congrArg (fun d : Extensions Nat => d.items.length) hSame
    exact absurd hCount (by decide)
  · rfl

end Eggfetch.Facade.Reuse
