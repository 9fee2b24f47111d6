import Eggfetch.Transition.Runs
import Eggfetch.Text.Bytes

/-! Response streams of the C interface. The receiver of the chunks is taken out of its slot by
the call that waits, and put back only after a chunk; every other path writes the error slot. -/
namespace Eggfetch.Ffi
open Text Transition

abbrev Item := Except String Str

/-- The task that reads the body. -/
inductive Producer
  | pulling
  | sending (item : Item)
  | finished
  /-- It saw the cancellation, or the receiver gone. -/
  | abandoned
deriving DecidableEq

/-- Why a stream is over. -/
inductive Cause
  | ended
  | failed (message : String)
  /-- `blocking_send` itself failed. -/
  | runtime (message : String)
  | cancelled
deriving DecidableEq

/-- Where the receiver is, and how far the call that holds it has come. -/
inductive Receiver
  | slot
  | taken
  | parked
  | received (item : Option Item)
  /-- The chunk is copied and the error slot cleared; the receiver goes back next. -/
  | cleared (chunk : Str)
  | failing (cause : Cause)
  | dropped
deriving DecidableEq

def Cause.message : Cause → Option String
  | .ended => none
  | .failed message => some message
  | .runtime message => some message
  | .cancelled => some "stream cancelled"

def contention : String := "concurrent stream read in progress"

def allocationFailure : String := "out of memory allocating chunk buffer"

/-- `mpsc::channel(16)` -/
def channelCapacity : Nat := 16

structure StreamState where
  /-- What the server has yet to send: chunks, and the error that ends them early. -/
  rest : List Str
  outcome : Option String
  producer : Producer
  channel : List Item
  receiver : Receiver
  lastError : Option String
  cancelled : Bool
  freed : Bool
  /-- Calls that found the slot empty, and calls whose allocation failed, before they write the
  error slot. -/
  contended : Nat
  starved : Nat
  /-- The chunks returned, whether one was dropped, and the null return that reported the end. -/
  returned : List Str
  lost : Bool
  terminal : Option Cause

inductive StreamAction
  | next
  | contend
  | observe
  | recv
  | wake
  | fail (message : String)
  | allocate (fits : Bool)
  | outOfMemory
  | record
  | finish
  | restore
  | cancel
  | free
  | pull
  | push

namespace StreamState
variable (s : StreamState)

def new (body : List Str) (outcome : Option String) : StreamState :=
  ⟨body, outcome, .pulling, [], .slot, none, false, false, 0, 0, [], false, none⟩

/-- The cause that a `recv` without an item stands for. -/
def endCause : Cause := if s.producer = .abandoned then .cancelled else .ended

/-- A null return that ends the stream; the receiver goes with the call. -/
def report (cause : Cause) : StreamState := { s with receiver := .dropped, terminal := some cause }

def pull : StreamState :=
  match s.rest, s.outcome with
  | chunk :: rest, _ =>
    if s.cancelled then { s with rest := rest, producer := .abandoned }
    else { s with rest := rest, producer := .sending (.ok chunk) }
  | [], some message =>
    if s.cancelled then { s with producer := .abandoned } else { s with producer := .sending (.error message) }
  | [], none => { s with producer := .finished }

/-- The receiver is gone, so that a `send` fails. -/
def receiverDropped : Bool :=
  match s.receiver with
  | .dropped | .failing _ => true
  | _ => false

def push (item : Item) : Option StreamState :=
  if s.receiverDropped then some { s with producer := .abandoned }
  else if s.channel.length < channelCapacity then
    some { s with
      channel := s.channel ++ [item]
      producer := match item with
        | .ok _ => .pulling
        | .error _ => .finished }
  else none

/-- Allocate the copy of a chunk; nothing is allocated for an empty one. -/
def allocate (chunk : Str) (fits : Bool) : StreamState :=
  if chunk = [] ∨ fits then { s with lastError := none, receiver := .cleared chunk }
  else { s with receiver := .slot, starved := s.starved + 1, lost := true }

def step (s : StreamState) : StreamAction → Option StreamState
  | .next =>
    if s.freed then none
    else if s.receiver = .slot then some { s with receiver := .taken }
    else some { s with contended := s.contended + 1 }
  | .contend =>
    if s.contended = 0 then none
    else some { s with contended := s.contended - 1, lastError := some contention }
  | .observe =>
    if s.receiver = .taken then
      some { s with receiver := if s.cancelled then .failing .cancelled else .parked } else none
  | .recv =>
    if s.receiver = .parked then
      match s.channel with
      | item :: rest => some { s with channel := rest, receiver := .received (some item) }
      | [] =>
        if s.producer = .finished ∨ s.producer = .abandoned then some { s with receiver := .received none }
        else none
    else none
  | .wake => if s.receiver = .parked ∧ s.cancelled then some { s with receiver := .failing .cancelled } else none
  | .fail message =>
    if s.receiver = .parked then some { s with receiver := .failing (.runtime message) } else none
  | .allocate fits =>
    match s.receiver with
    | .received (some (.ok chunk)) => some (s.allocate chunk fits)
    | _ => none
  | .outOfMemory =>
    if s.starved = 0 then none
    else some { s with starved := s.starved - 1, lastError := some allocationFailure }
  | .record =>
    match s.receiver with
    | .received (some (.error message)) => some { s.report (.failed message) with lastError := some message }
    | .failing cause => some { s.report cause with lastError := cause.message }
    | _ => none
  | .finish =>
    match s.receiver with
    | .received none => some (s.report s.endCause)
    | _ => none
  | .restore =>
    match s.receiver with
    | .cleared chunk => some { s with receiver := .slot, returned := s.returned ++ [chunk] }
    | _ => none
  | .cancel => some { s with cancelled := true }
  | .free => some { s with cancelled := true, freed := true }
  | .pull => if s.producer = .pulling then some s.pull else none
  | .push =>
    match s.producer with
    | .sending item => s.push item
    | _ => none

/-- The chunk in the hands of the call that holds the receiver. -/
def inHand : List Str :=
  match s.receiver with
  | .received (some (.ok chunk)) => [chunk]
  | .cleared chunk => [chunk]
  | _ => []

def chunks : Item → Option Str
  | .ok chunk => some chunk
  | .error _ => none

def sending : List Str :=
  match s.producer with
  | .sending (.ok chunk) => [chunk]
  | _ => []

def taken : List Str := s.returned ++ s.inHand ++ s.channel.filterMap chunks

/-- The chunks come in order, and after the null return that reports the end the error slot
keeps its cause and no chunk follows. -/
structure Sound (body : List Str) : Prop where
  ordered : s.returned <+: body
  reported : ∀ cause, s.terminal = some cause → s.lastError = cause.message
  silent : s.terminal ≠ none → ∀ acts s', run step s acts = some s' → s'.returned = s.returned ∧ s'.terminal = s.terminal

/-- A contended call, and one whose allocation failed, write the error slot before the end is
reported; a clean end is reported over an empty slot and for a body read to its end; and no
chunk is returned after a lost one. -/
def Orderly (s : StreamState) : StreamAction → Prop
  | .contend | .outOfMemory => s.terminal = none
  | .finish => s.lastError = none ∧ s.producer ≠ .abandoned
  | .restore => s.lost = false
  | _ => True

instance (s : StreamState) : (a : StreamAction) → Decidable (Orderly s a)
  | .contend | .outOfMemory => inferInstanceAs (Decidable (_ = _))
  | .finish => inferInstanceAs (Decidable (_ ∧ _))
  | .restore => inferInstanceAs (Decidable (_ = _))
  | .next | .observe | .recv | .wake | .fail _ | .allocate _ | .record | .cancel | .free | .pull | .push =>
    inferInstanceAs (Decidable True)

variable {s} {s' : StreamState} {a : StreamAction} {body : List Str}

private theorem step_of_dropped (h : s.receiver = .dropped) (hStep : s.step a = some s') :
    s'.receiver = .dropped ∧ s'.returned = s.returned ∧ s'.terminal = s.terminal := by
  cases a with
  | next =>
    simp only [step] at hStep
    split_ifs at hStep with hFreed hSlot
    · rw [h] at hSlot
      cases hSlot
    · obtain rfl := Option.some.inj hStep
      exact ⟨h, rfl, rfl⟩
  | contend | outOfMemory =>
    simp only [step] at hStep
    split_ifs at hStep
    obtain rfl := Option.some.inj hStep
    exact ⟨h, rfl, rfl⟩
  | observe | recv | wake | fail message | allocate fits | record | finish | restore =>
    simp [step, h] at hStep
  | cancel | free =>
    obtain rfl := Option.some.inj hStep
    exact ⟨h, rfl, rfl⟩
  | pull =>
    simp only [step] at hStep
    split_ifs at hStep
    obtain rfl := Option.some.inj hStep
    unfold pull
    split
    · split_ifs <;> exact ⟨h, rfl, rfl⟩
    · split_ifs <;> exact ⟨h, rfl, rfl⟩
    · exact ⟨h, rfl, rfl⟩
  | push =>
    simp only [step] at hStep
    split at hStep
    · have hDropped : s.receiverDropped = true := by
        simp only [receiverDropped, h]
      simp only [push] at hStep
      rw [if_pos hDropped] at hStep
      obtain rfl := Option.some.inj hStep
      exact ⟨h, rfl, rfl⟩
    · cases hStep

theorem run_of_dropped {acts : List StreamAction} (h : s.receiver = .dropped) (hRun : run step s acts = some s') :
    s'.returned = s.returned ∧ s'.terminal = s.terminal := by
  have hEnd : s'.receiver = .dropped ∧ s'.returned = s.returned ∧ s'.terminal = s.terminal := by
    apply run_invariant (fun t => t.receiver = .dropped ∧ t.returned = s.returned ∧ t.terminal = s.terminal) hRun
    · exact ⟨h, rfl, rfl⟩
    · intro t a t' ht hStep
      obtain ⟨hReceiver, hReturned, hTerminal⟩ := step_of_dropped ht.1 hStep
      exact ⟨hReceiver, hReturned.trans ht.2.1, hTerminal.trans ht.2.2⟩
  exact hEnd.2

structure Inv (body : List Str) (s : StreamState) : Prop where
  ordered : s.returned <+: body
  /-- As long as nothing was lost, what is on its way comes next. -/
  carried : s.lost = false → s.taken <+: body
  whole : s.lost = false → s.producer ≠ .abandoned → s.taken ++ s.sending ++ s.rest = body
  reported : ∀ cause, s.terminal = some cause → s.lastError = cause.message
  ended : s.terminal ≠ none → s.receiver = .dropped

theorem Inv.sound (h : s.Inv body) : s.Sound body := by
  refine ⟨h.ordered, h.reported, ?_⟩
  intro hTerminal acts s' hRun
  exact run_of_dropped (h.ended hTerminal) hRun

theorem inv_new (outcome : Option String) : (new body outcome).Inv body := by
  refine ⟨List.nil_prefix, fun _ => List.nil_prefix, fun _ _ => rfl, ?_, ?_⟩
  · intro cause hTerminal
    cases hTerminal
  · intro hTerminal
    exact absurd rfl hTerminal

/-- A step of the call that holds the receiver, which moves no chunk. -/
theorem Inv.hold (h : s.Inv body) {receiver : Receiver} (hReceiver : s.receiver ≠ .dropped)
    (hTaken : ({ s with receiver := receiver } : StreamState).taken = s.taken) :
    ({ s with receiver := receiver } : StreamState).Inv body := by
  refine ⟨h.ordered, ?_, ?_, h.reported, ?_⟩
  · intro hLost
    rw [hTaken]
    exact h.carried hLost
  · intro hLost hProducer
    rw [hTaken]
    exact h.whole hLost hProducer
  · intro hTerminal
    exact absurd (h.ended hTerminal) hReceiver

private theorem Inv.report (h : s.Inv body) {cause : Cause} (lastError : Option String) (hHand : s.inHand = [])
    (hError : lastError = cause.message) :
    ({ s.report cause with lastError := lastError } : StreamState).Inv body := by
  have hTaken : ({ s.report cause with lastError := lastError } : StreamState).taken = s.taken := by
    simp only [taken, hHand]
    rfl
  refine ⟨h.ordered, ?_, ?_, ?_, fun _ => rfl⟩
  · intro hLost
    rw [hTaken]
    exact h.carried hLost
  · intro hLost hProducer
    rw [hTaken]
    exact h.whole hLost hProducer
  · intro cause' hCause
    obtain rfl := Option.some.inj hCause
    exact hError

theorem Inv.pull (h : s.Inv body) (hPulling : s.producer = .pulling) : s.pull.Inv body := by
  have hWhole (hLost : s.lost = false) : s.taken ++ s.rest = body := by
    have hBody := h.whole hLost (by simp [hPulling])
    rwa [show s.sending = [] by simp [sending, hPulling], List.append_nil] at hBody
  unfold StreamState.pull
  split
  · rename_i chunk rest _ hRest
    split_ifs
    · exact ⟨h.ordered, h.carried, fun _ hProducer => absurd rfl hProducer, h.reported, h.ended⟩
    · refine ⟨h.ordered, h.carried, ?_, h.reported, h.ended⟩
      intro hLost _
      rw [← hWhole hLost, hRest, List.append_assoc]
      rfl
  · rename_i message hRest hOutcome
    split_ifs
    · exact ⟨h.ordered, h.carried, fun _ hProducer => absurd rfl hProducer, h.reported, h.ended⟩
    · refine ⟨h.ordered, h.carried, ?_, h.reported, h.ended⟩
      intro hLost _
      rw [← hWhole hLost, List.append_assoc]
      rfl
  · refine ⟨h.ordered, h.carried, ?_, h.reported, h.ended⟩
    intro hLost _
    rw [← hWhole hLost, List.append_assoc]
    rfl

theorem Inv.push (h : s.Inv body) {item : Item} (hSending : s.producer = .sending item)
    (hStep : s.push item = some s') : s'.Inv body := by
  unfold StreamState.push at hStep
  split_ifs at hStep with hDropped hRoom
  · obtain rfl := Option.some.inj hStep
    exact ⟨h.ordered, h.carried, fun _ hProducer => absurd rfl hProducer, h.reported, h.ended⟩
  · have hWhole (hLost : s.lost = false) := h.whole hLost (by simp [hSending])
    obtain rfl := Option.some.inj hStep
    cases item with
    | ok chunk =>
      have hBody (hLost : s.lost = false) : s.taken ++ [chunk] ++ s.rest = body := by
        rw [← hWhole hLost]
        simp only [sending, hSending]
      refine ⟨h.ordered, ?_, ?_, h.reported, h.ended⟩
      · intro hLost
        refine ⟨s.rest, ?_⟩
        rw [← hBody hLost]
        simp [taken, inHand, chunks]
      · intro hLost _
        rw [← hBody hLost]
        simp [taken, inHand, chunks, sending]
    | error message =>
      have hBody (hLost : s.lost = false) : s.taken ++ s.rest = body := by
        rw [← hWhole hLost]
        simp only [sending, hSending, List.append_nil]
      refine ⟨h.ordered, ?_, ?_, h.reported, h.ended⟩
      · intro hLost
        refine ⟨s.rest, ?_⟩
        rw [← hBody hLost]
        simp [taken, inHand, chunks]
      · intro hLost _
        rw [← hBody hLost]
        simp [taken, inHand, chunks, sending]

theorem Inv.setError (h : s.Inv body) (lastError : Option String) (hTerminal : s.terminal = none) :
    ({ s with lastError := lastError } : StreamState).Inv body := by
  refine ⟨h.ordered, h.carried, h.whole, ?_, h.ended⟩
  intro cause hCause
  rw [show ({ s with lastError := lastError } : StreamState).terminal = s.terminal from rfl, hTerminal] at hCause
  cases hCause

theorem Inv.allocate (h : s.Inv body) {chunk : Str} {fits : Bool} (hReceiver : s.receiver = .received (some (.ok chunk))) :
    (s.allocate chunk fits).Inv body := by
  have hTerminal : s.terminal = none := by
    by_contra hNot
    have hDropped := h.ended hNot
    rw [hReceiver] at hDropped
    cases hDropped
  unfold StreamState.allocate
  split_ifs with hFits
  · refine (h.setError none hTerminal).hold (by simp [hReceiver]) ?_
    simp only [taken, inHand, hReceiver]
  · refine ⟨h.ordered, by simp, by simp, h.reported, ?_⟩
    intro hNot
    exact absurd hTerminal hNot

theorem Inv.recv (h : s.Inv body) (hParked : s.receiver = .parked) (hStep : s.step .recv = some s') : s'.Inv body := by
  simp only [step] at hStep
  rw [if_pos hParked] at hStep
  have hTerminal : s.terminal = none := by
    by_contra hNot
    have hDropped := h.ended hNot
    rw [hParked] at hDropped
    cases hDropped
  split at hStep
  · rename_i item rest hChannel
    obtain rfl := Option.some.inj hStep
    have hTaken : ({ s with channel := rest, receiver := .received (some item) } : StreamState).taken = s.taken := by
      cases item <;> simp [taken, inHand, hParked, hChannel, List.filterMap_cons, chunks]
    refine ⟨h.ordered, ?_, ?_, h.reported, ?_⟩
    · intro hLost
      rw [hTaken]
      exact h.carried hLost
    · intro hLost hProducer
      rw [hTaken]
      exact h.whole hLost hProducer
    · intro hNot
      exact absurd hTerminal hNot
  · split_ifs at hStep
    obtain rfl := Option.some.inj hStep
    refine h.hold (by simp [hParked]) ?_
    simp only [taken, inHand, hParked]

theorem Inv.step (h : s.Inv body) (hOk : s.Orderly a) (hStep : s.step a = some s') : s'.Inv body := by
  cases a with
  | next =>
    simp only [StreamState.step] at hStep
    split_ifs at hStep with hFreed hSlot
    · obtain rfl := Option.some.inj hStep
      refine h.hold (by simp [hSlot]) ?_
      simp only [taken, inHand, hSlot]
    · obtain rfl := Option.some.inj hStep
      exact ⟨h.ordered, h.carried, h.whole, h.reported, h.ended⟩
  | contend | outOfMemory =>
    simp only [StreamState.step] at hStep
    split_ifs at hStep
    obtain rfl := Option.some.inj hStep
    have hSet := h.setError none hOk
    exact ⟨hSet.ordered, hSet.carried, hSet.whole, fun cause hCause => absurd (hOk.symm.trans hCause) (by simp), hSet.ended⟩
  | observe =>
    simp only [StreamState.step] at hStep
    split_ifs at hStep with hTaken hCancelled
    all_goals
      obtain rfl := Option.some.inj hStep
      refine h.hold (by simp [hTaken]) ?_
      simp only [taken, inHand, hTaken]
  | recv =>
    by_cases hParked : s.receiver = .parked
    · exact h.recv hParked hStep
    · simp only [StreamState.step] at hStep
      rw [if_neg hParked] at hStep
      cases hStep
  | wake =>
    simp only [StreamState.step] at hStep
    split_ifs at hStep with hParked
    obtain rfl := Option.some.inj hStep
    refine h.hold (by simp [hParked.1]) ?_
    simp only [taken, inHand, hParked.1]
  | fail message =>
    simp only [StreamState.step] at hStep
    split_ifs at hStep with hParked
    obtain rfl := Option.some.inj hStep
    refine h.hold (by simp [hParked]) ?_
    simp only [taken, inHand, hParked]
  | allocate fits =>
    simp only [StreamState.step] at hStep
    split at hStep
    · rename_i chunk hReceiver
      obtain rfl := Option.some.inj hStep
      exact h.allocate hReceiver
    · cases hStep
  | record =>
    simp only [StreamState.step] at hStep
    split at hStep
    · rename_i message hReceiver
      obtain rfl := Option.some.inj hStep
      exact h.report _ (by simp only [inHand, hReceiver]) rfl
    · rename_i cause hReceiver
      obtain rfl := Option.some.inj hStep
      exact h.report _ (by simp only [inHand, hReceiver]) rfl
    · cases hStep
  | finish =>
    simp only [StreamState.step] at hStep
    split at hStep
    · rename_i hReceiver
      obtain rfl := Option.some.inj hStep
      refine h.report s.lastError (by simp only [inHand, hReceiver]) ?_
      rw [hOk.1, endCause, if_neg hOk.2]
      rfl
    · cases hStep
  | restore =>
    simp only [StreamState.step] at hStep
    split at hStep
    · rename_i chunk hReceiver
      obtain rfl := Option.some.inj hStep
      have hTerminal : s.terminal = none := by
        by_contra hNot
        have hDropped := h.ended hNot
        rw [hReceiver] at hDropped
        cases hDropped
      have hTaken : ({ s with receiver := .slot, returned := s.returned ++ [chunk] } : StreamState).taken = s.taken := by
        simp [taken, inHand, hReceiver]
      have hCarried := h.carried hOk
      refine ⟨?_, ?_, ?_, h.reported, ?_⟩
      · refine List.IsPrefix.trans ?_ hCarried
        simp only [taken, inHand, hReceiver]
        exact List.prefix_append _ _
      · intro hLost
        rw [hTaken]
        exact hCarried
      · intro hLost hProducer
        rw [hTaken]
        exact h.whole hLost hProducer
      · intro hNot
        exact absurd hTerminal hNot
    · cases hStep
  | cancel | free =>
    obtain rfl := Option.some.inj hStep
    exact ⟨h.ordered, h.carried, h.whole, h.reported, h.ended⟩
  | pull =>
    simp only [StreamState.step] at hStep
    split_ifs at hStep with hPulling
    obtain rfl := Option.some.inj hStep
    exact h.pull hPulling
  | push =>
    simp only [StreamState.step] at hStep
    split at hStep
    · rename_i item hSending
      exact h.push hSending hStep
    · cases hStep

/-- Every state of a run whose steps are orderly is sound. -/
theorem stream_sound {outcome : Option String} (h : Reaches step Orderly (new body outcome) s) : s.Sound body := by
  apply Inv.sound
  apply h.invariant (inv_new outcome)
  intro s a s' _ hInv hOk hStep
  exact hInv.step hOk hStep

/-- A body of one chunk is read to its end. -/
theorem stream_sound_example : ∃ s : StreamState, s.returned = [[1]] ∧ s.terminal = some .ended ∧ s.Sound [[1]] := by
  have hRun : (runWhile step (fun s a => decide (Orderly s a)) (new [[1]] none)
      [.pull, .push, .pull, .next, .observe, .recv, .allocate true, .restore, .next, .observe, .recv, .finish]).map
        (fun s => decide (s.returned = [[1]] ∧ s.terminal = some .ended)) = some true := by
    decide
  obtain ⟨s, hs, hState⟩ := Option.map_eq_some_iff.mp hRun
  obtain ⟨hReturned, hTerminal⟩ := of_decide_eq_true hState
  exact ⟨s, hReturned, hTerminal, stream_sound (Reaches.start.runWhile (fun _ _ => of_decide_eq_true) hs)⟩

def callAfterEnd : List StreamAction := [.pull, .next, .observe, .recv, .finish, .next, .contend]

def chunkLost : List StreamAction :=
  [.pull, .push, .pull, .push, .next, .observe, .recv, .allocate false, .outOfMemory, .next, .observe, .recv,
    .allocate true, .restore]

theorem stream_unsound :
    (¬ ∀ body outcome s, Reachable step (new body outcome) s →
      ∀ cause, s.terminal = some cause → s.lastError = cause.message) ∧
    ¬ ∀ body outcome s, Reachable step (new body outcome) s → s.returned <+: body := by
  constructor
  · intro h
    have hRun : (run step (new [] none) callAfterEnd).map
        (fun s => decide (s.terminal = some .ended ∧ s.lastError ≠ none)) = some true := by
      decide
    obtain ⟨s, hs, hState⟩ := Option.map_eq_some_iff.mp hRun
    obtain ⟨hTerminal, hError⟩ := of_decide_eq_true hState
    exact hError (h [] none s (Reaches.start.run hs) .ended hTerminal)
  · intro h
    have hRun : (run step (new [[1], [2]] none) chunkLost).map
        (fun s => decide ¬ s.returned <+: [[1], [2]]) = some true := by
      decide
    obtain ⟨s, hs, hState⟩ := Option.map_eq_some_iff.mp hRun
    exact of_decide_eq_true hState (h [[1], [2]] none s (Reaches.start.run hs))

end StreamState
end Eggfetch.Ffi
