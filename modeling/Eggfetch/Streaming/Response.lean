import Eggfetch.Transition.Runs
import Eggfetch.Transition.Tally

/-! Closing a streaming response while somebody reads it. A reader takes the body under the
response lock and only then subscribes to the cancellation; a send that finds no subscriber is
lost, and the synchronous iterators listen to a channel of their own. -/
namespace Eggfetch.Streaming
open Transition

inductive BodyState
  | streaming
  | buffered
  | consumed
  | closed
deriving DecidableEq

/-- What takes the body. The byte iterators are those of decoded and of raw bytes. -/
inductive ReaderKind
  | read
  | text
  | aread
  | asyncBytes
  | asyncText
  | asyncLines
  | syncBytes
  | syncText
  | syncLines
deriving DecidableEq

/-- Where a reader is. From `taken` to `flushing` it holds the body stream. -/
inductive ReaderStage
  | calling
  | checked
  | taken
  | reading
  /-- `n + 1` items of a chunk are still to be handed over. -/
  | sending (n : Nat)
  /-- The loop is over, and `n + 1` items are still to be handed over. -/
  | flushing (n : Nat)
  | drained
  | done
  /-- It never took the body. -/
  | refused
deriving DecidableEq

structure BodyReader where
  kind : ReaderKind
  stage : ReaderStage
  /-- The version of the cancellation that its receiver has seen. -/
  seen : Option Nat
  /-- The items in the channel to its own reader. -/
  queued : Nat
  /-- The items the decoder would still give. -/
  tail : Nat

structure StreamingResponse where
  bodyState : BodyState
  response : Bool
  cached : Bool
  /-- The version of `stream_cancel`; every value sent is `true`. -/
  version : Nat
  readers : List BodyReader
  /-- Calls of `drain_and_close` and context exits between their send and their section. -/
  closing : Nat
  exiting : Nat
  /-- A close has returned. -/
  completed : Bool

inductive ResponseAction
  | check (i : Nat)
  | take (i : Nat) (opens : Bool)
  | subscribe (i : Nat)
  | chunk (i n tail : Nat)
  | finish (i n : Nat)
  | notice (i : Nat)
  | handOver (i : Nat)
  | recvItem (i : Nat)
  | abandon (i : Nat)
  | buffer (i : Nat)
  | cancel
  | closeSection
  | exitCancel
  | exitSection

/-- `mpsc::channel(16)` and `SyncBridge::new(16)` -/
def iteratorCapacity : Nat := 16

namespace ReaderKind

def listens : ReaderKind → Bool
  | syncBytes | syncText | syncLines => false
  | _ => true

/-- `read`, `text` and `aread` collect the body themselves. -/
def collects : ReaderKind → Bool
  | read | text | aread => true
  | _ => false

def items (kind : ReaderKind) (n : Nat) : Bool :=
  match kind with
  | read | text | aread => n == 0
  | asyncBytes | asyncText | syncText => n == 1
  | syncBytes => 1 ≤ n
  | asyncLines | syncLines => true

/-- How many items may follow the end of the body, or the error that ends it. -/
def flushes (kind : ReaderKind) (n : Nat) : Bool :=
  match kind with
  | asyncText | syncText => n ≤ 2
  | asyncLines | syncLines => true
  | _ => n == 0

def keeps (kind : ReaderKind) (tail : Nat) : Bool :=
  match kind with
  | asyncText | syncText => tail ≤ 1
  | _ => tail == 0

/-- What is handed over on a cancellation: the text iterators finish the decoder. -/
def onCancel (kind : ReaderKind) (tail : Nat) : Nat :=
  match kind with
  | asyncText | syncText => tail
  | _ => 0

end ReaderKind

namespace ReaderStage

def handing : Nat → ReaderStage
  | 0 => reading
  | n + 1 => sending n

def flush : Nat → ReaderStage
  | 0 => done
  | n + 1 => flushing n

def holds : ReaderStage → Bool
  | taken | reading | sending _ | flushing _ => true
  | _ => false

def leaves : ReaderStage → Bool
  | flushing _ => true
  | _ => false

def took : ReaderStage → Nat
  | calling | checked | refused => 0
  | _ => 1

end ReaderStage

def BodyReader.new (kind : ReaderKind) : BodyReader := ⟨kind, .calling, none, 0, 0⟩

def BodyReader.listening (r : BodyReader) : Bool := r.stage.holds && r.seen.isSome

namespace StreamingResponse
variable (s : StreamingResponse)

def new (kinds : List ReaderKind) : StreamingResponse :=
  ⟨.streaming, true, false, 0, kinds.map .new, 0, 0, false⟩

def set (i : Nat) (r : BodyReader) : StreamingResponse := { s with readers := s.readers.set i r }

/-- `stream_cancel.send(true)` -/
def send : StreamingResponse :=
  if s.readers.any BodyReader.listening then { s with version := s.version + 1 } else s

/-- The check before the body is taken: `ensure_streaming`, and the cache of `text`. -/
def check (kind : ReaderKind) : ReaderStage :=
  if kind = .text then
    if s.bodyState = .closed ∨ s.cached then .refused else .checked
  else if s.bodyState = .streaming then .checked
  else .refused

/-- The section of `take_stream`. -/
def take (i : Nat) (r : BodyReader) (opens : Bool) : StreamingResponse :=
  if s.bodyState = .streaming then
    if s.response then
      { s.set i { r with stage := if opens then .taken else .done } with bodyState := .consumed, response := false }
    else { s.set i { r with stage := .refused } with bodyState := .consumed }
  else s.set i { r with stage := .refused }

/-- The section of `drain_and_close`. -/
def closeSection : StreamingResponse :=
  if s.bodyState = .streaming then
    { s with bodyState := .closed, response := false, closing := s.closing - 1, completed := true }
  else { s with bodyState := .closed, closing := s.closing - 1, completed := true }

def stepReader (i : Nat) (r : BodyReader) : ResponseAction → Option StreamingResponse
  | .check _ => if r.stage = .calling then some (s.set i { r with stage := s.check r.kind }) else none
  | .take _ opens => if r.stage = .checked then some (s.take i r opens) else none
  | .subscribe _ =>
    if r.stage = .taken then
      some (s.set i { r with stage := .reading, seen := if r.kind.listens then some s.version else none })
    else none
  | .chunk _ n tail =>
    if r.stage = .reading ∧ r.kind.items n ∧ r.kind.keeps tail then
      some (s.set i { r with stage := .handing n, tail := tail })
    else none
  | .finish _ n =>
    if r.stage = .reading ∧ r.kind.flushes n then
      some (s.set i { r with stage := if r.kind.collects then .drained else .flush n })
    else none
  | .notice _ =>
    if r.stage = .reading ∧ ∃ v ∈ r.seen, v < s.version then
      some (s.set i { r with stage := .flush (r.kind.onCancel r.tail), seen := some s.version })
    else none
  | .handOver _ =>
    if r.queued < iteratorCapacity then
      match r.stage with
      | .sending n => some (s.set i { r with stage := .handing n, queued := r.queued + 1 })
      | .flushing n => some (s.set i { r with stage := .flush n, queued := r.queued + 1 })
      | _ => none
    else none
  | .recvItem _ => if 0 < r.queued then some (s.set i { r with queued := r.queued - 1 }) else none
  | .abandon _ =>
    if r.stage.holds ∧ r.kind ≠ .read ∧ r.kind ≠ .text then some (s.set i { r with stage := .done }) else none
  | .buffer _ =>
    if r.stage = .drained then
      some { s.set i { r with stage := .done } with
        bodyState := if s.bodyState = .consumed then .buffered else s.bodyState
        cached := true }
    else none
  | _ => none

def step (s : StreamingResponse) (a : ResponseAction) : Option StreamingResponse :=
  match a with
  | .cancel => some { s.send with closing := s.closing + 1 }
  | .closeSection => if 0 < s.closing then some s.closeSection else none
  | .exitCancel => some { s.send with exiting := s.exiting + 1 }
  | .exitSection =>
    if 0 < s.exiting then
      some { s with bodyState := .closed, response := false, exiting := s.exiting - 1, completed := true }
    else none
  | .check i | .take i _ | .subscribe i | .chunk i _ _ | .finish i _ | .notice i | .handOver i | .recvItem i
  | .abandon i | .buffer i =>
    s.readers[i]?.bind fun r => s.stepReader i r a

variable {s} {s' : StreamingResponse} {i : Nat} {r r' : BodyReader} {kinds : List ReaderKind}

def takers (s : StreamingResponse) : Nat := tally (fun r => r.stage.took) s.readers

/-- The steps that reader `i` takes without a chunk of the server and without its own reader. -/
def ownStep (i : Nat) (a : ResponseAction) : Prop := a = .notice i ∨ a = .handOver i

def Drops (s : StreamingResponse) (i : Nat) : Prop :=
  ∃ acts, (∀ a ∈ acts, ownStep i a) ∧
    ∃ s' r, run step s acts = some s' ∧ s'.readers[i]? = some r ∧ r.stage.holds = false

/-- The items to hand over before the stream is dropped, once the loop is left. -/
def owed (r : BodyReader) : Nat :=
  match r.stage with
  | .reading => r.kind.onCancel r.tail
  | .sending n => n + 1 + r.kind.onCancel r.tail
  | .flushing n => n + 1
  | _ => 0

def hasRoom (r : BodyReader) : Prop := r.queued + owed r ≤ iteratorCapacity

/-- It hears a send now, or is past the point where it would have to. -/
def attentive (r : BodyReader) : Prop :=
  r.stage ≠ .taken ∧ (r.stage.leaves = true ∨ r.seen.isSome = true)

def notified (s : StreamingResponse) (r : BodyReader) : Prop := ∃ v ∈ r.seen, v < s.version

/-- It leaves on its own. -/
structure Freed (s : StreamingResponse) (r : BodyReader) : Prop where
  subscribed : r.stage ≠ .taken
  notified : r.stage.leaves = true ∨ s.notified r
  room : hasRoom r

theorem drops_of_dropped (hr : s.readers[i]? = some r) (h : r.stage.holds = false) : s.Drops i :=
  ⟨[], by simp, s, r, rfl, hr, h⟩

theorem Drops.cons {a : ResponseAction} (ha : ownStep i a) (hStep : s.step a = some s') (h : s'.Drops i) : s.Drops i := by
  obtain ⟨acts, hOwn, t, r, hRun, hr, hDropped⟩ := h
  refine ⟨a :: acts, ?_, t, r, ?_, hr, hDropped⟩
  · intro b hb
    rcases List.mem_cons.mp hb with rfl | hb
    · exact ha
    · exact hOwn b hb
  · rw [run_cons, hStep, Option.bind_some, hRun]

theorem readers_set (hr : s.readers[i]? = some r) : (s.set i r').readers[i]? = some r' :=
  List.getElem?_set_self (List.getElem?_eq_some_iff.mp hr).1

theorem step_handOver (hr : s.readers[i]? = some r) : s.step (.handOver i) = s.stepReader i r (.handOver i) := by
  simp only [step, hr, Option.bind_some]

/-- After the loop: by induction on what is left to hand over. -/
theorem drops_flush {n : Nat} (hr : s.readers[i]? = some r) (hStage : r.stage = .flush n)
    (hRoom : r.queued + n ≤ iteratorCapacity) : s.Drops i := by
  induction n generalizing s r with
  | zero => exact drops_of_dropped hr (by rw [hStage]; rfl)
  | succ n ih =>
    have hStep : s.step (.handOver i) = some (s.set i { r with stage := .flush n, queued := r.queued + 1 }) := by
      rw [step_handOver hr]
      simp only [stepReader]
      rw [if_pos (by omega), hStage]
      rfl
    refine Drops.cons (.inr rfl) hStep (ih (readers_set hr) rfl ?_)
    change r.queued + 1 + n ≤ iteratorCapacity
    omega

theorem drops_reading (hr : s.readers[i]? = some r) (hStage : r.stage = .reading) (hNotified : s.notified r)
    (hRoom : r.queued + r.kind.onCancel r.tail ≤ iteratorCapacity) : s.Drops i := by
  have hStep : s.step (.notice i) =
      some (s.set i { r with stage := .flush (r.kind.onCancel r.tail), seen := some s.version }) := by
    simp only [step, hr, Option.bind_some, stepReader]
    exact if_pos ⟨hStage, hNotified⟩
  exact Drops.cons (.inl rfl) hStep (drops_flush (readers_set hr) rfl hRoom)

private theorem drops_sending {n : Nat} (hr : s.readers[i]? = some r) (hStage : r.stage = .handing n) (hNotified : s.notified r)
    (hRoom : r.queued + (n + r.kind.onCancel r.tail) ≤ iteratorCapacity) : s.Drops i := by
  induction n generalizing s r with
  | zero =>
    refine drops_reading hr hStage hNotified ?_
    rwa [Nat.zero_add] at hRoom
  | succ n ih =>
    have hStep : s.step (.handOver i) = some (s.set i { r with stage := .handing n, queued := r.queued + 1 }) := by
      rw [step_handOver hr]
      simp only [stepReader]
      rw [if_pos (by omega), hStage]
      rfl
    refine Drops.cons (.inr rfl) hStep (ih (readers_set hr) rfl hNotified ?_)
    change r.queued + 1 + (n + r.kind.onCancel r.tail) ≤ iteratorCapacity
    omega

theorem Freed.drops (h : s.Freed r) (hr : s.readers[i]? = some r) (hHolds : r.stage.holds = true) : s.Drops i := by
  have hRoom := h.room
  cases hStage : r.stage with
  | taken => exact absurd hStage h.subscribed
  | reading =>
    have hNotified := h.notified.resolve_left (by simp [hStage, ReaderStage.leaves])
    refine drops_reading hr hStage hNotified ?_
    simpa [hasRoom, owed, hStage] using hRoom
  | sending n =>
    have hNotified := h.notified.resolve_left (by simp [hStage, ReaderStage.leaves])
    refine drops_sending (n := n + 1) hr hStage hNotified ?_
    simpa [hasRoom, owed, hStage] using hRoom
  | flushing n =>
    refine drops_flush (n := n + 1) hr hStage ?_
    simpa [hasRoom, owed, hStage] using hRoom
  | calling | checked | drained | done | refused =>
    rw [hStage] at hHolds
    cases hHolds

/-- What a step of a reader leaves alone, and how it moves the reader. -/
structure Moves (s s' : StreamingResponse) (i : Nat) (r r' : BodyReader) : Prop where
  readers : s'.readers = s.readers.set i r'
  version : s'.version = s.version
  closing : s'.closing = s.closing
  exiting : s'.exiting = s.exiting
  completed : s'.completed = s.completed
  streaming : s'.bodyState = .streaming → s.bodyState = .streaming ∧ r'.stage.took = r.stage.took
  closed : s.bodyState = .closed → s'.bodyState = .closed
  took : r'.stage.took = r.stage.took ∨ s.bodyState = .streaming
  seen : ∀ v, r'.seen = some v → r.seen = some v ∨ v = s.version

/-- A step that only moves the reader. -/
theorem moves_set (hTook : r'.stage.took = r.stage.took)
    (hSeen : ∀ v, r'.seen = some v → r.seen = some v ∨ v = s.version) : Moves s (s.set i r') i r r' :=
  ⟨rfl, rfl, rfl, rfl, rfl, fun h => ⟨h, hTook⟩, id, .inl hTook, hSeen⟩

theorem took_handing (n : Nat) : (ReaderStage.handing n).took = 1 := by
  cases n <;> rfl

theorem took_flush (n : Nat) : (ReaderStage.flush n).took = 1 := by
  cases n <;> rfl

theorem took_le_one (stage : ReaderStage) : stage.took ≤ 1 := by
  cases stage <;> simp only [ReaderStage.took] <;> omega

theorem took_of_holds {stage : ReaderStage} (h : stage.holds = true) : stage.took = 1 := by
  cases stage <;> first | rfl | cases h

variable (s i) in
theorem moves_take (opens : Bool) (hStage : r.stage = .checked) : ∃ r', Moves s (s.take i r opens) i r r' ∧
    (r'.stage.holds = true → s.bodyState = .streaming) := by
  unfold StreamingResponse.take
  split_ifs with hStreaming hResponse hOpens
  · exact ⟨_, ⟨rfl, rfl, rfl, rfl, rfl, by simp, by simp [hStreaming], .inr hStreaming, fun v hv => .inl hv⟩,
      fun _ => hStreaming⟩
  · exact ⟨_, ⟨rfl, rfl, rfl, rfl, rfl, by simp, by simp [hStreaming], .inr hStreaming, fun v hv => .inl hv⟩,
      fun _ => hStreaming⟩
  · exact ⟨_, ⟨rfl, rfl, rfl, rfl, rfl, by simp, by simp [hStreaming], .inr hStreaming, fun v hv => .inl hv⟩,
      fun _ => hStreaming⟩
  · refine ⟨_, moves_set ?_ fun v hv => .inl hv, fun h => ?_⟩
    · rw [hStage]
      rfl
    · cases h

def UnderWay (s : StreamingResponse) : Prop := 0 < s.closing ∨ 0 < s.exiting ∨ s.completed = true

/-- The body is not taken between the two halves of a close, and a reader that was told to stop
takes no more than its channel has room for. -/
def timelyReader (s : StreamingResponse) (r : BodyReader) : ResponseAction → Prop
  | .take _ _ => s.bodyState = .streaming → s.closing = 0 ∧ s.exiting = 0
  | .chunk _ n tail => s.notified r → r.queued + (n + r.kind.onCancel tail) ≤ iteratorCapacity
  | .finish _ n => s.notified r → r.queued + n ≤ iteratorCapacity
  | _ => True

/-- A close sends when whoever holds the body listens, and has room for what it would still
hand over. -/
def Timely (s : StreamingResponse) (a : ResponseAction) : Prop :=
  match a with
  | .cancel | .exitCancel => ∀ r ∈ s.readers, r.stage.holds = true → attentive r ∧ hasRoom r
  | .closeSection | .exitSection => True
  | .check i | .take i _ | .subscribe i | .chunk i _ _ | .finish i _ | .notice i | .handOver i | .recvItem i
  | .abandon i | .buffer i => ∀ r ∈ s.readers[i]?, s.timelyReader r a

theorem owed_handing {n : Nat} (h : r.stage = .handing n) : owed r = n + r.kind.onCancel r.tail := by
  cases n with
  | zero =>
    have hReading : r.stage = .reading := h
    rw [owed, hReading, Nat.zero_add]
  | succ n =>
    have hSending : r.stage = .sending n := h
    rw [owed, hSending]

theorem owed_flush {n : Nat} (h : r.stage = .flush n) : owed r = n := by
  cases n with
  | zero =>
    have hDone : r.stage = .done := h
    rw [owed, hDone]
  | succ n =>
    have hFlushing : r.stage = .flushing n := h
    rw [owed, hFlushing]

private theorem freed_handing {n : Nat} (h : r.stage = .handing n) (hNotified : s.notified r)
    (hRoom : r.queued + (n + r.kind.onCancel r.tail) ≤ iteratorCapacity) : s.Freed r := by
  refine ⟨?_, .inr hNotified, ?_⟩
  · rw [h]
    cases n <;> simp [ReaderStage.handing]
  · rwa [hasRoom, owed_handing h]

theorem freed_flush {n : Nat} (h : r.stage = .flush n) (hHolds : r.stage.holds = true)
    (hRoom : r.queued + n ≤ iteratorCapacity) : s.Freed r := by
  have hRoom' : hasRoom r := by
    rwa [hasRoom, owed_flush h]
  cases n with
  | zero =>
    rw [h] at hHolds
    cases hHolds
  | succ n => exact ⟨by simp [h, ReaderStage.flush], .inl (by rw [h]; rfl), hRoom'⟩

theorem Freed.of_reading (h : s.Freed r) (hStage : r.stage = .reading) : s.notified r :=
  h.notified.resolve_left (by simp [hStage, ReaderStage.leaves])

theorem moves_step {a : ResponseAction} (hStep : s.stepReader i r a = some s') :
    ∃ r', Moves s s' i r r' ∧
      ((s.completed = true → s.bodyState = .closed) → s.timelyReader r a → s.UnderWay →
        (r.stage.holds = true → s.Freed r) → r'.stage.holds = true → s.Freed r') := by
  cases a with
  | check _ =>
    simp only [stepReader] at hStep
    split_ifs at hStep with hStage
    obtain rfl := Option.some.inj hStep
    have hChecked : (s.check r.kind).took = 0 ∧ (s.check r.kind).holds = false := by
      unfold StreamingResponse.check
      split_ifs <;> exact ⟨rfl, rfl⟩
    refine ⟨_, moves_set (by rw [hChecked.1, hStage]; rfl) fun v hv => .inl hv, ?_⟩
    intro _ _ _ _ hHolds
    exact absurd (hHolds.symm.trans hChecked.2) (by simp)
  | take _ opens =>
    simp only [stepReader] at hStep
    split_ifs at hStep with hStage
    obtain rfl := Option.some.inj hStep
    obtain ⟨r', hMoves, hTaken⟩ := moves_take s i opens hStage
    refine ⟨r', hMoves, ?_⟩
    intro hClosed hTimely hUnderWay _ hHolds
    have hStreaming := hTaken hHolds
    obtain ⟨hClosing, hExiting⟩ := hTimely hStreaming
    rcases hUnderWay with hSome | hSome | hCompleted
    · exact absurd hSome (by simp [hClosing])
    · exact absurd hSome (by simp [hExiting])
    · exact absurd (hClosed hCompleted) (by simp [hStreaming])
  | subscribe _ =>
    simp only [stepReader] at hStep
    split_ifs at hStep with hStage hListens
    all_goals obtain rfl := Option.some.inj hStep
    · refine ⟨_, moves_set (by rw [hStage]; rfl) ?_, ?_⟩
      · intro v hv
        exact .inr (Option.some.inj hv).symm
      · intro _ _ _ hFreed _
        exact absurd hStage (hFreed (by rw [hStage]; rfl)).subscribed
    · refine ⟨_, moves_set (by rw [hStage]; rfl) (by simp), ?_⟩
      intro _ _ _ hFreed _
      exact absurd hStage (hFreed (by rw [hStage]; rfl)).subscribed
  | chunk _ n tail =>
    simp only [stepReader] at hStep
    split_ifs at hStep with hGiven
    obtain rfl := Option.some.inj hStep
    refine ⟨_, moves_set (by rw [hGiven.1]; exact took_handing n) fun v hv => .inl hv, ?_⟩
    intro _ hTimely _ hFreed _
    have hNotified := (hFreed (by rw [hGiven.1]; rfl)).of_reading hGiven.1
    exact freed_handing (n := n) rfl hNotified (hTimely hNotified)
  | finish _ n =>
    simp only [stepReader] at hStep
    split_ifs at hStep with hEnds hCollects
    all_goals obtain rfl := Option.some.inj hStep
    · refine ⟨_, moves_set (by rw [hEnds.1]; rfl) fun v hv => .inl hv, ?_⟩
      intro _ _ _ _ hHolds
      cases hHolds
    · refine ⟨_, moves_set (by rw [hEnds.1]; exact took_flush n) fun v hv => .inl hv, ?_⟩
      intro _ hTimely _ hFreed hHolds
      exact freed_flush (n := n) rfl hHolds (hTimely ((hFreed (by rw [hEnds.1]; rfl)).of_reading hEnds.1))
  | notice _ =>
    simp only [stepReader] at hStep
    split_ifs at hStep with hTold
    obtain rfl := Option.some.inj hStep
    refine ⟨_, moves_set (by rw [hTold.1]; exact took_flush _) ?_, ?_⟩
    · intro v hv
      exact .inr (Option.some.inj hv).symm
    · intro _ _ _ hFreed hHolds
      have hRoom := (hFreed (by rw [hTold.1]; rfl)).room
      rw [hasRoom, owed, hTold.1] at hRoom
      exact freed_flush (n := r.kind.onCancel r.tail) rfl hHolds hRoom
  | handOver _ =>
    simp only [stepReader] at hStep
    split_ifs at hStep
    split at hStep
    · rename_i n hStage
      obtain rfl := Option.some.inj hStep
      refine ⟨_, moves_set (by rw [hStage]; exact took_handing n) fun v hv => .inl hv, ?_⟩
      intro _ _ _ hFreed _
      have hBefore := hFreed (by rw [hStage]; rfl)
      have hRoom := hBefore.room
      rw [hasRoom, owed, hStage] at hRoom
      refine freed_handing (n := n) rfl (hBefore.notified.resolve_left (by simp [hStage, ReaderStage.leaves])) ?_
      change r.queued + 1 + (n + r.kind.onCancel r.tail) ≤ iteratorCapacity
      dsimp only at hRoom
      omega
    · rename_i n hStage
      obtain rfl := Option.some.inj hStep
      refine ⟨_, moves_set (by rw [hStage]; exact took_flush n) fun v hv => .inl hv, ?_⟩
      intro _ _ _ hFreed hHolds
      have hRoom := (hFreed (by rw [hStage]; rfl)).room
      rw [hasRoom, owed, hStage] at hRoom
      refine freed_flush (n := n) rfl hHolds ?_
      change r.queued + 1 + n ≤ iteratorCapacity
      dsimp only at hRoom
      omega
    · cases hStep
  | recvItem _ =>
    simp only [stepReader] at hStep
    split_ifs at hStep with hQueued
    obtain rfl := Option.some.inj hStep
    refine ⟨_, moves_set rfl fun v hv => .inl hv, ?_⟩
    intro _ _ _ hFreed hHolds
    have hBefore := hFreed hHolds
    refine ⟨hBefore.subscribed, hBefore.notified, ?_⟩
    exact le_trans (Nat.add_le_add_right (Nat.sub_le r.queued 1) _) hBefore.room
  | abandon _ =>
    simp only [stepReader] at hStep
    split_ifs at hStep with hHeld
    obtain rfl := Option.some.inj hStep
    refine ⟨_, moves_set (by rw [took_of_holds hHeld.1]; rfl) fun v hv => .inl hv, ?_⟩
    intro _ _ _ _ hHolds
    cases hHolds
  | buffer _ =>
    simp only [stepReader] at hStep
    split_ifs at hStep with hStage hConsumed
    all_goals obtain rfl := Option.some.inj hStep
    · refine ⟨_, ⟨rfl, rfl, rfl, rfl, rfl, by simp, by simp [hConsumed], .inl (by rw [hStage]; rfl), fun v hv => .inl hv⟩, ?_⟩
      intro _ _ _ _ hHolds
      cases hHolds
    · refine ⟨_, ⟨rfl, rfl, rfl, rfl, rfl, ?_, id, .inl (by rw [hStage]; rfl), fun v hv => .inl hv⟩, ?_⟩
      · intro h
        exact ⟨h, by rw [hStage]; rfl⟩
      · intro _ _ _ _ hHolds
        cases hHolds
  | cancel | closeSection | exitCancel | exitSection => cases hStep

structure Inv (s : StreamingResponse) : Prop where
  once : s.takers ≤ 1
  streaming : s.bodyState = .streaming → s.takers = 0
  closed : s.completed = true → s.bodyState = .closed
  seen : ∀ r ∈ s.readers, ∀ v, r.seen = some v → v ≤ s.version

/-- While a close is under way or over, whoever holds the body leaves on its own. -/
def Released (s : StreamingResponse) : Prop :=
  s.UnderWay → ∀ r ∈ s.readers, r.stage.holds = true → s.Freed r

theorem inv_new : (new kinds).Inv := by
  have hTakers : (new kinds).takers = 0 := by
    apply tally_eq_zero
    intro r hr
    obtain ⟨kind, -, rfl⟩ := List.mem_map.mp hr
    rfl
  refine ⟨by rw [hTakers]; exact Nat.zero_le 1, fun _ => hTakers, by simp [new], ?_⟩
  intro r hr v hv
  obtain ⟨kind, -, rfl⟩ := List.mem_map.mp hr
  cases hv

theorem Inv.moves (h : s.Inv) (hr : s.readers[i]? = some r) (hMoves : Moves s s' i r r') : s'.Inv := by
  have hTally : s'.takers + r.stage.took = s.takers + r'.stage.took := by
    rw [takers, hMoves.readers]
    exact tally_set (fun r => r.stage.took) r' hr
  have hTook := took_le_one r'.stage
  refine ⟨?_, ?_, ?_, ?_⟩
  · rcases hMoves.took with hSame | hStreaming
    · have hOnce := h.once
      omega
    · have hNone := h.streaming hStreaming
      omega
  · intro hStreaming
    obtain ⟨hBefore, hSame⟩ := hMoves.streaming hStreaming
    have hNone := h.streaming hBefore
    omega
  · intro hCompleted
    rw [hMoves.completed] at hCompleted
    exact hMoves.closed (h.closed hCompleted)
  · intro p hp v hv
    rw [hMoves.readers] at hp
    rw [hMoves.version]
    have hOld := h.seen r (List.mem_of_getElem? hr) v
    rcases List.mem_or_eq_of_mem_set hp with hp | rfl
    · exact h.seen p hp v hv
    · exact (hMoves.seen v hv).elim hOld (fun hEq => hEq.le)

theorem Inv.send (h : s.Inv) : s.send.Inv := by
  unfold StreamingResponse.send
  split_ifs
  · exact ⟨h.once, h.streaming, h.closed, fun r hr v hv => Nat.le_succ_of_le (h.seen r hr v hv)⟩
  · exact h

theorem Inv.step {a : ResponseAction} (h : s.Inv) (hStep : s.step a = some s') : s'.Inv := by
  cases a with
  | cancel | exitCancel =>
    obtain rfl := Option.some.inj hStep
    exact ⟨h.send.once, h.send.streaming, h.send.closed, h.send.seen⟩
  | closeSection =>
    simp only [StreamingResponse.step] at hStep
    split_ifs at hStep
    obtain rfl := Option.some.inj hStep
    unfold StreamingResponse.closeSection
    split_ifs
    all_goals exact ⟨h.once, by simp, fun _ => rfl, h.seen⟩
  | exitSection =>
    simp only [StreamingResponse.step] at hStep
    split_ifs at hStep
    obtain rfl := Option.some.inj hStep
    exact ⟨h.once, by simp, fun _ => rfl, h.seen⟩
  | check i | take i _ | subscribe i | chunk i _ _ | finish i _ | notice i | handOver i | recvItem i | abandon i
  | buffer i =>
    obtain ⟨r, hr, hReader⟩ := Option.bind_eq_some_iff.mp hStep
    obtain ⟨r', hMoves, -⟩ := moves_step hReader
    exact h.moves hr hMoves

theorem Released.moves {a : ResponseAction} (h : s.Released) (hInv : s.Inv) (hr : s.readers[i]? = some r)
    (hTimely : s.timelyReader r a) (hStep : s.stepReader i r a = some s') : s'.Released := by
  obtain ⟨r', hMoves, hFreed⟩ := moves_step hStep
  intro hUnderWay p hp hHolds
  have hBefore : s.UnderWay := by
    simpa only [UnderWay, hMoves.closing, hMoves.exiting, hMoves.completed] using hUnderWay
  have hSame {q : BodyReader} (hq : s.Freed q) : s'.Freed q := by
    refine ⟨hq.subscribed, ?_, hq.room⟩
    simpa only [notified, hMoves.version] using hq.notified
  rw [hMoves.readers] at hp
  rcases List.mem_or_eq_of_mem_set hp with hp | rfl
  · exact hSame (h hBefore p hp hHolds)
  · exact hSame (hFreed hInv.closed hTimely hBefore (h hBefore r (List.mem_of_getElem? hr)) hHolds)

private theorem freed_send (hInv : s.Inv) (hr : r ∈ s.readers) (hHolds : r.stage.holds = true) (hAttentive : attentive r)
    (hRoom : hasRoom r) : s.send.Freed r := by
  refine ⟨hAttentive.1, hAttentive.2.imp id fun hSeen => ?_, hRoom⟩
  obtain ⟨v, hv⟩ := Option.isSome_iff_exists.mp hSeen
  have hListening : s.readers.any BodyReader.listening = true := by
    refine List.any_eq_true.mpr ⟨r, hr, ?_⟩
    rw [BodyReader.listening, hHolds, hSeen]
    rfl
  refine ⟨v, hv, ?_⟩
  rw [StreamingResponse.send, if_pos hListening]
  exact Nat.lt_succ_of_le (hInv.seen r hr v hv)

theorem readers_send : s.send.readers = s.readers := by
  unfold StreamingResponse.send
  split_ifs <;> rfl

theorem Released.step {a : ResponseAction} (h : s.Released) (hInv : s.Inv) (hTimely : s.Timely a)
    (hStep : s.step a = some s') : s'.Released := by
  cases a with
  | cancel | exitCancel =>
    obtain rfl := Option.some.inj hStep
    intro _ r hr hHolds
    change r ∈ s.send.readers at hr
    rw [readers_send] at hr
    obtain ⟨hAttentive, hRoom⟩ := hTimely r hr hHolds
    have hFreed := freed_send hInv hr hHolds hAttentive hRoom
    exact ⟨hFreed.subscribed, hFreed.notified, hFreed.room⟩
  | closeSection =>
    simp only [StreamingResponse.step] at hStep
    split_ifs at hStep with hClosing
    obtain rfl := Option.some.inj hStep
    have hFreed := h (.inl hClosing)
    unfold StreamingResponse.closeSection
    split_ifs
    all_goals
      intro _ r hr hHolds
      exact ⟨(hFreed r hr hHolds).subscribed, (hFreed r hr hHolds).notified, (hFreed r hr hHolds).room⟩
  | exitSection =>
    simp only [StreamingResponse.step] at hStep
    split_ifs at hStep with hExiting
    obtain rfl := Option.some.inj hStep
    have hFreed := h (.inr (.inl hExiting))
    intro _ r hr hHolds
    exact ⟨(hFreed r hr hHolds).subscribed, (hFreed r hr hHolds).notified, (hFreed r hr hHolds).room⟩
  | check i | take i _ | subscribe i | chunk i _ _ | finish i _ | notice i | handOver i | recvItem i | abandon i
  | buffer i =>
    obtain ⟨r, hr, hReader⟩ := Option.bind_eq_some_iff.mp hStep
    exact h.moves hInv hr (hTimely r hr) hReader

/-- The body is taken at most once; and in the runs whose closes come in time a completed close
leaves nobody waiting for the server. -/
theorem close_releases :
    (∀ s, Reachable step (new kinds) s → s.takers ≤ 1) ∧
    ∀ s, Reaches step Timely (new kinds) s → s.completed = true →
      ∀ i r, s.readers[i]? = some r → r.stage.holds = true → s.Drops i := by
  have hReaches {ok : StreamingResponse → ResponseAction → Prop} {s : StreamingResponse}
      (h : Reaches step ok (new kinds) s) : s.Inv := by
    apply h.invariant inv_new
    intro s a s' _ hInv _ hStep
    exact hInv.step hStep
  refine ⟨fun s h => (hReaches h).once, ?_⟩
  intro s h hCompleted i r hr hHolds
  have hReleased : s.Released := by
    apply h.invariant
    · intro hUnderWay
      simp [UnderWay, new] at hUnderWay
    · intro s a s' hr hReleased hTimely hStep
      exact hReleased.step (hReaches hr) hTimely hStep
  exact (hReleased (.inr (.inr hCompleted)) r (List.mem_of_getElem? hr) hHolds).drops hr hHolds

instance (r : BodyReader) : Decidable (attentive r) := inferInstanceAs (Decidable (_ ∧ _))
instance (r : BodyReader) : Decidable (hasRoom r) := inferInstanceAs (Decidable (_ ≤ _))
instance (s : StreamingResponse) (r : BodyReader) : Decidable (s.notified r) :=
  inferInstanceAs (Decidable (∃ v ∈ r.seen, v < s.version))

instance (s : StreamingResponse) (r : BodyReader) : (a : ResponseAction) → Decidable (s.timelyReader r a)
  | .take _ _ | .chunk _ _ _ | .finish _ _ => inferInstanceAs (Decidable (_ → _))
  | .check _ | .subscribe _ | .notice _ | .handOver _ | .recvItem _ | .abandon _ | .buffer _ | .cancel
  | .closeSection | .exitCancel | .exitSection => inferInstanceAs (Decidable True)

instance (s : StreamingResponse) : (a : ResponseAction) → Decidable (s.Timely a)
  | .cancel | .exitCancel => inferInstanceAs (Decidable (∀ r ∈ s.readers, _ → _))
  | .closeSection | .exitSection => inferInstanceAs (Decidable True)
  | .check i | .take i _ | .subscribe i | .chunk i _ _ | .finish i _ | .notice i | .handOver i | .recvItem i
  | .abandon i | .buffer i => inferInstanceAs (Decidable (∀ r ∈ s.readers[i]?, _))

def closedWhileHeld (s : StreamingResponse) : Bool := s.completed && s.readers[0]?.any (·.stage.holds)

theorem exists_of_closedWhileHeld (h : s.closedWhileHeld = true) :
    s.completed = true ∧ ∃ r, s.readers[0]? = some r ∧ r.stage.holds = true := by
  obtain ⟨hCompleted, hHeld⟩ := Bool.and_eq_true_iff.mp h
  refine ⟨hCompleted, ?_⟩
  cases hReader : s.readers[0]? with
  | none =>
    rw [hReader] at hHeld
    cases hHeld
  | some r =>
    rw [hReader] at hHeld
    exact ⟨r, rfl, hHeld⟩

/-- An asynchronous iterator has subscribed before the response is closed. -/
theorem close_releases_example : ∃ s : StreamingResponse, s.closedWhileHeld = true ∧ s.Drops 0 := by
  have hRun : (runWhile step (fun s a => decide (s.Timely a)) (new [.asyncBytes])
      [.check 0, .take 0 true, .subscribe 0, .cancel, .closeSection]).map closedWhileHeld = some true := by
    decide
  obtain ⟨s, hs, hState⟩ := Option.map_eq_some_iff.mp hRun
  obtain ⟨hCompleted, r, hr, hHolds⟩ := exists_of_closedWhileHeld hState
  have hReaches : Reaches step Timely (new [.asyncBytes]) s :=
    Reaches.start.runWhile (fun _ _ => of_decide_eq_true) hs
  exact ⟨s, hState, close_releases.2 s hReaches hCompleted 0 r hr hHolds⟩

private theorem not_drops (hr : s.readers[i]? = some r) (hHolds : r.stage.holds = true)
    (hNotice : (s.step (.notice i)).isNone = true) (hHandOver : (s.step (.handOver i)).isNone = true) :
    ¬ s.Drops i := by
  rintro ⟨acts, hOwn, t, p, hRun, hp, hDropped⟩
  cases acts with
  | nil =>
    obtain rfl := Option.some.inj hRun
    obtain rfl := Option.some.inj (hr.symm.trans hp)
    rw [hHolds] at hDropped
    cases hDropped
  | cons a rest =>
    have hNone : s.step a = none := by
      rcases hOwn a List.mem_cons_self with rfl | rfl
      · exact Option.isNone_iff_eq_none.mp hNotice
      · exact Option.isNone_iff_eq_none.mp hHandOver
    rw [run_cons, hNone, Option.bind_none] at hRun
    cases hRun

private theorem not_released_of_run (acts : List ResponseAction) (hRun : (run step (new kinds) acts).map (fun s =>
      s.closedWhileHeld && (s.step (.notice 0)).isNone && (s.step (.handOver 0)).isNone) = some true) :
    ¬ ∀ s, Reachable step (new kinds) s → s.completed = true →
      ∀ i r, s.readers[i]? = some r → r.stage.holds = true → s.Drops i := by
  intro h
  obtain ⟨s, hs, hState⟩ := Option.map_eq_some_iff.mp hRun
  obtain ⟨hHeld, hHandOver⟩ := Bool.and_eq_true_iff.mp hState
  obtain ⟨hHeld, hNotice⟩ := Bool.and_eq_true_iff.mp hHeld
  obtain ⟨hCompleted, r, hr, hHolds⟩ := exists_of_closedWhileHeld hHeld
  exact not_drops hr hHolds hNotice hHandOver (h s (Reaches.start.run hs) hCompleted 0 r hr hHolds)

def closeUnheard : List ResponseAction := [.check 0, .take 0 true, .subscribe 0, .cancel, .closeSection]

/-- The close comes between the taking of the body and the subscription. -/
def closeBetween : List ResponseAction := [.check 0, .take 0 true, .cancel, .closeSection, .subscribe 0]

def takenBetween : List ResponseAction := [.check 0, .cancel, .take 0 true, .subscribe 0, .closeSection]

theorem close_misses :
    (¬ ∀ s, Reachable step (new [.syncBytes]) s → s.completed = true →
      ∀ i r, s.readers[i]? = some r → r.stage.holds = true → s.Drops i) ∧
    (¬ ∀ s, Reachable step (new [.asyncBytes]) s → s.completed = true →
      ∀ i r, s.readers[i]? = some r → r.stage.holds = true → s.Drops i) ∧
    ¬ ∀ s, Reachable step (new [.read]) s → s.completed = true →
      ∀ i r, s.readers[i]? = some r → r.stage.holds = true → s.Drops i :=
  ⟨not_released_of_run closeUnheard (by decide), not_released_of_run closeBetween (by decide),
    not_released_of_run takenBetween (by decide)⟩

end StreamingResponse
end Eggfetch.Streaming
