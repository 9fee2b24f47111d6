import Eggfetch.Datagram.Bridge

/-! Wakeups of the datagram bridge. A poll looks at the queue and at the failure before it
registers its waker, each in a section of its own; a worker that changes them and wakes in
between wakes nobody, and the poll is left waiting for what is already there. -/
namespace Eggfetch.Datagram
open Text Retry Transition

namespace Bridge
variable (s : Bridge)

def TxDue : Prop :=
  s.sendWorker = .wakeTx ∨ s.sendWorker = .failing .wakeTx ∨ s.recvWorker = .failing .wakeTx

def RxDue : Prop :=
  s.recvWorker = .wakeRx ∨ (s.sendWorker = .failing .wakeTx ∨ s.sendWorker = .failing .wakeRx) ∨
    s.recvWorker = .failing .wakeTx ∨ s.recvWorker = .failing .wakeRx

instance : Decidable s.TxDue := inferInstanceAs (Decidable (_ ∨ _))
instance : Decidable s.RxDue := inferInstanceAs (Decidable (_ ∨ _))

def WillWake (w : Waker) : Prop := w ∈ s.txWakers ∧ s.TxDue ∨ w ∈ s.rxWakers ∧ s.RxDue

/-- Who waits for a datagram or for capacity that is there, or has failed, will be woken. -/
structure NoLostWakeup : Prop where
  recv : ∀ w ∈ s.parkedRecv, s.rxQueue ≠ [] ∨ s.failure.isSome → s.WillWake w
  writable : ∀ w ∈ s.parkedWritable, s.HasCapacity ∨ s.failure.isSome → s.WillWake w

end Bridge

/-- What the poll looked at still holds when it registers, or the wake for the change is still
to come; and its waker gets a place. -/
def Poll.timely (s : Bridge) : Poll → Prop
  | .recvRegister w => (s.rxQueue = [] ∧ s.failure = none ∨ s.RxDue) ∧
      (w ∈ s.rxWakers ∨ s.rxWakers.length < maxRouteWakers)
  | .writableRegister w => (¬ s.HasCapacity ∧ s.failure = none ∨ s.TxDue) ∧
      (w ∈ s.txWakers ∨ s.txWakers.length < maxRouteWakers)
  | _ => True

def TimelyStep (s : Bridge) : Action → Prop
  | .poll i => ∀ p ∈ s.polls[i]?, p.timely s
  | _ => True

variable {s s' : Bridge} {w : Waker} {tx rx tx' rx' : Prop}

/-- Every waker that waits is registered, and where there is something to wake it for, the
wake of its set is due. -/
structure Settled (s : Bridge) (txDue rxDue : Prop) : Prop where
  recv : ∀ w ∈ s.parkedRecv, w ∈ s.rxWakers ∧ (s.rxQueue ≠ [] ∨ s.failure.isSome → rxDue)
  writable : ∀ w ∈ s.parkedWritable, w ∈ s.txWakers ∧ (s.HasCapacity ∨ s.failure.isSome → txDue)

structure Inv (s : Bridge) : Prop where
  settled : Settled s s.TxDue s.RxDue
  /-- A failure is woken for after it is recorded. -/
  recorded : s.sendWorker = .failing .wakeTx ∨ s.sendWorker = .failing .wakeRx → s.failure.isSome

theorem noLostWakeup_of_inv (h : Inv s) : s.NoLostWakeup := by
  constructor
  · intro w hw hReason
    obtain ⟨hMem, hDue⟩ := h.settled.recv w hw
    exact .inr ⟨hMem, hDue hReason⟩
  · intro w hw hReason
    obtain ⟨hMem, hDue⟩ := h.settled.writable w hw
    exact .inl ⟨hMem, hDue hReason⟩

theorem Settled.mono (h : Settled s tx rx) (hTx : tx → tx') (hRx : rx → rx') : Settled s tx' rx' := by
  constructor
  · intro w hw
    exact ⟨(h.recv w hw).1, fun hReason => hRx ((h.recv w hw).2 hReason)⟩
  · intro w hw
    exact ⟨(h.writable w hw).1, fun hReason => hTx ((h.writable w hw).2 hReason)⟩

/-- After a wake of its set nobody waits for a wake of it. -/
theorem Settled.wakeTx (h : Settled s tx rx) : Settled s.wakeTx tx' rx := by
  constructor
  · intro w hw
    exact h.recv w (List.mem_filter.mp hw).1
  · intro w hw
    obtain ⟨hParked, hNot⟩ := List.mem_filter.mp hw
    exact absurd (h.writable w hParked).1 (by simpa using hNot)

theorem Settled.wakeRx (h : Settled s tx rx) : Settled s.wakeRx tx rx' := by
  constructor
  · intro w hw
    obtain ⟨hParked, hNot⟩ := List.mem_filter.mp hw
    exact absurd (h.recv w hParked).1 (by simpa using hNot)
  · intro w hw
    exact h.writable w (List.mem_filter.mp hw).1

theorem mem_register {wakers : List Waker} {v : Waker} (h : v ∈ wakers) : v ∈ register wakers w := by
  unfold register
  split_ifs
  · exact h
  · exact List.mem_append_left _ h
  · exact h

private theorem mem_register_self {wakers : List Waker} (h : w ∈ wakers ∨ wakers.length < maxRouteWakers) :
    w ∈ register wakers w := by
  unfold register
  split_ifs with hMem hRoom
  · exact hMem
  · exact List.mem_append_right _ (List.mem_singleton.mpr rfl)
  · exact absurd h (by simp [hMem, hRoom])

private theorem Inv.setSend (h : Inv s) {stage : SendWorker} (hTx : s.TxDue → ({ s with sendWorker := stage } : Bridge).TxDue)
    (hRx : s.RxDue → ({ s with sendWorker := stage } : Bridge).RxDue)
    (hRecorded : stage = .failing .wakeTx ∨ stage = .failing .wakeRx → s.failure.isSome) :
    Inv { s with sendWorker := stage } := by
  have hSettled := h.settled.mono hTx hRx
  exact ⟨⟨hSettled.recv, hSettled.writable⟩, hRecorded⟩

theorem Inv.setRecv (h : Inv s) {stage : RecvWorker} (hTx : s.TxDue → ({ s with recvWorker := stage } : Bridge).TxDue)
    (hRx : s.RxDue → ({ s with recvWorker := stage } : Bridge).RxDue) : Inv { s with recvWorker := stage } := by
  have hSettled := h.settled.mono hTx hRx
  exact ⟨⟨hSettled.recv, hSettled.writable⟩, h.recorded⟩

private theorem inv_stepSend {failure : Option DialErrorKind} (h : Inv s) (hStep : s.stepSend failure = some s') :
    Inv s' := by
  cases hStage : s.sendWorker with
  | receive =>
    simp only [Bridge.stepSend, hStage] at hStep
    split at hStep
    · cases hStep
    · rename_i datagram queue hQueue
      obtain rfl := Option.some.inj hStep
      refine ⟨⟨?_, ?_⟩, by simp⟩
      · intro w hw
        obtain ⟨hMem, hDue⟩ := h.settled.recv w hw
        refine ⟨hMem, fun hReason => ?_⟩
        simpa [Bridge.RxDue, hStage] using hDue hReason
      · -- capacity has returned, and the wake for it comes next
        intro w hw
        exact ⟨(h.settled.writable w hw).1, fun _ => .inl rfl⟩
  | wakeTx =>
    simp only [Bridge.stepSend, hStage] at hStep
    obtain rfl := Option.some.inj hStep
    have hRx : s.RxDue → ({ s.wakeTx with sendWorker := .send } : Bridge).RxDue := by
      simp [Bridge.RxDue, hStage, Bridge.wakeTx, Bridge.woken]
    have hSettled := h.settled.wakeTx.mono (@id ({ s.wakeTx with sendWorker := .send } : Bridge).TxDue) hRx
    exact ⟨⟨hSettled.recv, hSettled.writable⟩, by simp⟩
  | send =>
    simp only [Bridge.stepSend, hStage] at hStep
    cases failure with
    | none =>
      obtain rfl := Option.some.inj hStep
      exact h.setSend (by simp [Bridge.TxDue, hStage]) (by simp [Bridge.RxDue, hStage]) (by simp)
    | some kind =>
      obtain rfl := Option.some.inj hStep
      exact h.setSend (by simp [Bridge.TxDue, hStage]) (by simp [Bridge.RxDue, hStage]) (by simp)
  | failing r =>
    simp only [Bridge.stepSend, hStage] at hStep
    cases r with
    | record kind =>
      obtain rfl := Option.some.inj hStep
      refine ⟨⟨?_, ?_⟩, ?_⟩
      · intro w hw
        exact ⟨(h.settled.recv w hw).1, fun _ => .inr (.inl (.inl rfl))⟩
      · intro w hw
        exact ⟨(h.settled.writable w hw).1, fun _ => .inr (.inl rfl)⟩
      · intro _
        cases s.failure <;> rfl
    | wakeTx =>
      obtain rfl := Option.some.inj hStep
      have hSettled := h.settled.wakeTx.mono
        (@id ({ s.wakeTx with sendWorker := .failing .wakeRx } : Bridge).TxDue)
        (show s.RxDue → ({ s.wakeTx with sendWorker := .failing .wakeRx } : Bridge).RxDue from
          fun _ => .inr (.inl (.inr rfl)))
      exact ⟨⟨hSettled.recv, hSettled.writable⟩, fun _ => h.recorded (.inl hStage)⟩
    | wakeRx =>
      obtain rfl := Option.some.inj hStep
      have hSettled : Settled s.wakeRx s.TxDue s.wakeRx.stopSend.RxDue := h.settled.wakeRx
      refine ⟨⟨hSettled.recv, ?_⟩, by simp [Bridge.stopSend]⟩
      -- the queue is dropped, but the failure was recorded before
      intro w hw
      obtain ⟨hMem, hDue⟩ := hSettled.writable w hw
      refine ⟨hMem, fun _ => ?_⟩
      have hTx := hDue (.inr (h.recorded (.inr hStage)))
      simpa [Bridge.TxDue, hStage, Bridge.stopSend, Bridge.wakeRx, Bridge.woken] using hTx
  | stopped =>
    simp only [Bridge.stepSend, hStage] at hStep
    cases hStep

private theorem inv_stepRecv {received : Except DialErrorKind Str} (h : Inv s) (hStep : s.stepRecv received = some s') :
    Inv s' := by
  cases hStage : s.recvWorker with
  | reserve =>
    simp only [Bridge.stepRecv, hStage] at hStep
    split at hStep
    · obtain rfl := Option.some.inj hStep
      exact h.setRecv (by simp [Bridge.TxDue, hStage]) (by simp [Bridge.RxDue, hStage])
    · cases hStep
  | receive =>
    simp only [Bridge.stepRecv, hStage] at hStep
    cases received with
    | ok datagram =>
      obtain rfl := Option.some.inj hStep
      refine ⟨⟨?_, ?_⟩, h.recorded⟩
      · intro w hw
        exact ⟨(h.settled.recv w hw).1, fun _ => .inl rfl⟩
      · intro w hw
        obtain ⟨hMem, hDue⟩ := h.settled.writable w hw
        refine ⟨hMem, fun hReason => ?_⟩
        simpa [Bridge.TxDue, hStage] using hDue hReason
    | error kind =>
      obtain rfl := Option.some.inj hStep
      exact h.setRecv (by simp [Bridge.TxDue, hStage]) (by simp [Bridge.RxDue, hStage])
  | wakeRx =>
    simp only [Bridge.stepRecv, hStage] at hStep
    obtain rfl := Option.some.inj hStep
    have hTx : s.TxDue → ({ s.wakeRx with recvWorker := .reserve } : Bridge).TxDue := by
      simp [Bridge.TxDue, hStage, Bridge.wakeRx, Bridge.woken]
    have hSettled := h.settled.wakeRx.mono hTx (@id ({ s.wakeRx with recvWorker := .reserve } : Bridge).RxDue)
    exact ⟨⟨hSettled.recv, hSettled.writable⟩, h.recorded⟩
  | failing r =>
    simp only [Bridge.stepRecv, hStage] at hStep
    cases r with
    | record kind =>
      obtain rfl := Option.some.inj hStep
      refine ⟨⟨?_, ?_⟩, ?_⟩
      · intro w hw
        exact ⟨(h.settled.recv w hw).1, fun _ => .inr (.inr (.inl rfl))⟩
      · intro w hw
        exact ⟨(h.settled.writable w hw).1, fun _ => .inr (.inr rfl)⟩
      · intro _
        cases s.failure <;> rfl
    | wakeTx =>
      obtain rfl := Option.some.inj hStep
      have hSettled := h.settled.wakeTx.mono
        (@id ({ s.wakeTx with recvWorker := .failing .wakeRx } : Bridge).TxDue)
        (show s.RxDue → ({ s.wakeTx with recvWorker := .failing .wakeRx } : Bridge).RxDue from
          fun _ => .inr (.inr (.inr rfl)))
      exact ⟨⟨hSettled.recv, hSettled.writable⟩, h.recorded⟩
    | wakeRx =>
      obtain rfl := Option.some.inj hStep
      have hTx : s.TxDue → ({ s.wakeRx with recvWorker := .stopped } : Bridge).TxDue := by
        simp [Bridge.TxDue, hStage, Bridge.wakeRx, Bridge.woken]
      have hSettled := h.settled.wakeRx.mono hTx (@id ({ s.wakeRx with recvWorker := .stopped } : Bridge).RxDue)
      exact ⟨⟨hSettled.recv, hSettled.writable⟩, h.recorded⟩
  | stopped =>
    simp only [Bridge.stepRecv, hStage] at hStep
    cases hStep

private theorem inv_stepPoll {i : Nat} {p : Poll} (h : Inv s) (hTimely : p.timely s) (hStep : s.stepPoll i p = some s') :
    Inv s' := by
  cases p with
  | tryRecv w =>
    simp only [Bridge.stepPoll] at hStep
    split at hStep
    · rename_i datagram queue hQueue
      obtain rfl := Option.some.inj hStep
      refine ⟨⟨?_, h.settled.writable⟩, h.recorded⟩
      intro v hv
      obtain ⟨hMem, hDue⟩ := h.settled.recv v hv
      refine ⟨hMem, fun hReason => hDue ?_⟩
      obtain - | hFailure := hReason
      · exact .inl (by simp [hQueue])
      · exact .inr hFailure
    · split at hStep
      · obtain rfl := Option.some.inj hStep
        exact ⟨⟨h.settled.recv, h.settled.writable⟩, h.recorded⟩
      · obtain rfl := Option.some.inj hStep
        exact ⟨⟨h.settled.recv, h.settled.writable⟩, h.recorded⟩
  | recvFailure w | writableFailure w | capacity w =>
    obtain rfl := Option.some.inj hStep
    exact ⟨⟨h.settled.recv, h.settled.writable⟩, h.recorded⟩
  | recvRegister w =>
    obtain rfl := Option.some.inj hStep
    obtain ⟨hHolds, hPlace⟩ := hTimely
    refine ⟨⟨?_, h.settled.writable⟩, h.recorded⟩
    intro v hv
    obtain rfl | hv := List.mem_cons.mp hv
    · refine ⟨mem_register_self hPlace, fun hReason => ?_⟩
      obtain ⟨hEmpty, hNone⟩ | hDue := hHolds
      · exact absurd hReason (by simp [hEmpty, hNone])
      · exact hDue
    · obtain ⟨hMem, hDue⟩ := h.settled.recv v hv
      exact ⟨mem_register hMem, hDue⟩
  | writableRegister w =>
    obtain rfl := Option.some.inj hStep
    obtain ⟨hHolds, hPlace⟩ := hTimely
    refine ⟨⟨h.settled.recv, ?_⟩, h.recorded⟩
    intro v hv
    obtain rfl | hv := List.mem_cons.mp hv
    · refine ⟨mem_register_self hPlace, fun hReason => ?_⟩
      obtain ⟨hFull, hNone⟩ | hDue := hHolds
      · obtain hCapacity | hFailure := hReason
        · exact absurd hCapacity hFull
        · exact absurd hFailure (by simp [hNone])
      · exact hDue
    · obtain ⟨hMem, hDue⟩ := h.settled.writable v hv
      exact ⟨mem_register hMem, hDue⟩
  | ready | pending => cases hStep

private theorem inv_step {a : Action} (h : Inv s) (hOk : TimelyStep s a) (hStep : s.step a = some s') : Inv s' := by
  cases a with
  | trySend datagram =>
    simp only [Bridge.step] at hStep
    split at hStep
    · rename_i hRoom
      obtain rfl := Option.some.inj hStep
      refine ⟨⟨h.settled.recv, ?_⟩, h.recorded⟩
      intro w hw
      obtain ⟨hMem, hDue⟩ := h.settled.writable w hw
      refine ⟨hMem, fun hReason => hDue ?_⟩
      obtain - | hFailure := hReason
      · exact .inl hRoom.1
      · exact .inr hFailure
    · cases hStep
  | pollRecv w =>
    obtain rfl := Option.some.inj hStep
    refine ⟨⟨?_, h.settled.writable⟩, h.recorded⟩
    intro v hv
    exact h.settled.recv v (List.mem_filter.mp hv).1
  | pollWritable w =>
    obtain rfl := Option.some.inj hStep
    refine ⟨⟨h.settled.recv, ?_⟩, h.recorded⟩
    intro v hv
    exact h.settled.writable v (List.mem_filter.mp hv).1
  | poll i =>
    obtain ⟨p, hp, hStep⟩ := Option.bind_eq_some_iff.mp hStep
    exact inv_stepPoll h (hOk p hp) hStep
  | sendWorker failure => exact inv_stepSend h hStep
  | recvWorker received => exact inv_stepRecv h hStep

/-- In every run in which the polls register in time no wakeup is lost. -/
theorem no_lost_wakeup (h : Reaches Bridge.step TimelyStep .init s) : s.NoLostWakeup := by
  apply noLostWakeup_of_inv
  apply h.invariant
  · exact ⟨⟨by simp [Bridge.init], by simp [Bridge.init]⟩, by simp [Bridge.init]⟩
  · intro s a s' _ hInv hOk hStep
    exact inv_step hInv hOk hStep

instance (s : Bridge) : (p : Poll) → Decidable (p.timely s)
  | .recvRegister _ | .writableRegister _ => inferInstanceAs (Decidable (_ ∧ _))
  | .tryRecv _ | .recvFailure _ | .writableFailure _ | .capacity _ | .ready | .pending =>
    inferInstanceAs (Decidable True)

instance (s : Bridge) : (a : Action) → Decidable (TimelyStep s a)
  | .poll i => inferInstanceAs (Decidable (∀ p ∈ s.polls[i]?, p.timely s))
  | .trySend _ | .pollRecv _ | .pollWritable _ | .sendWorker _ | .recvWorker _ => inferInstanceAs (Decidable True)

def arrival : List Action := [.recvWorker (.ok [1]), .recvWorker (.ok [1]), .recvWorker (.ok [1])]

/-- A datagram arrives after a poll has found the queue empty. -/
def arrivalBeforeRegister : List Action :=
  ([.pollRecv 0, .poll 0] : List Action) ++ arrival ++ ([.poll 0, .poll 0] : List Action)

/-- The send worker takes a datagram after a poll has found the queue full. -/
def capacityBeforeRegister : List Action :=
  List.replicate 64 (.trySend [1]) ++
    ([.pollWritable 0, .poll 0, .poll 0, .sendWorker none, .sendWorker none, .poll 0] : List Action)

instance (s : Bridge) (w : Waker) : Decidable (s.WillWake w) := inferInstanceAs (Decidable (_ ∨ _))

theorem wakeup_lost :
    (¬ ∀ s, Reachable Bridge.step .init s →
      ∀ w ∈ s.parkedRecv, s.rxQueue ≠ [] ∨ s.failure.isSome → s.WillWake w) ∧
    ¬ ∀ s, Reachable Bridge.step .init s →
      ∀ w ∈ s.parkedWritable, s.HasCapacity ∨ s.failure.isSome → s.WillWake w := by
  constructor
  · intro h
    have hRun : (run Bridge.step .init arrivalBeforeRegister).map
        (fun s => decide (0 ∈ s.parkedRecv ∧ s.rxQueue ≠ [] ∧ ¬ s.WillWake 0)) = some true := by
      decide
    obtain ⟨s, hs, hState⟩ := Option.map_eq_some_iff.mp hRun
    obtain ⟨hParked, hQueue, hNot⟩ := of_decide_eq_true hState
    exact hNot (h s (Reaches.start.run hs) 0 hParked (.inl hQueue))
  · intro h
    have hRun : (run Bridge.step .init capacityBeforeRegister).map
        (fun s => decide (0 ∈ s.parkedWritable ∧ s.HasCapacity ∧ ¬ s.WillWake 0)) = some true := by
      decide
    obtain ⟨s, hs, hState⟩ := Option.map_eq_some_iff.mp hRun
    obtain ⟨hParked, hCapacity, hNot⟩ := of_decide_eq_true hState
    exact hNot (h s (Reaches.start.run hs) 0 hParked (.inl hCapacity))

/-- A poll that registers before the arrival is woken. -/
theorem no_lost_wakeup_in_time : ∃ s : Bridge, s.parkedRecv = [0] ∧ s.rxQueue ≠ [] ∧ s.NoLostWakeup := by
  have hRun : (runWhile Bridge.step (fun s a => decide (TimelyStep s a)) .init
      ([.pollRecv 0, .poll 0, .poll 0, .poll 0] ++ arrival.take 2)).map
        (fun s => decide (s.parkedRecv = [0] ∧ s.rxQueue ≠ [])) = some true := by
    decide
  obtain ⟨s, hs, hState⟩ := Option.map_eq_some_iff.mp hRun
  obtain ⟨hParked, hQueue⟩ := of_decide_eq_true hState
  exact ⟨s, hParked, hQueue, no_lost_wakeup (Reaches.start.runWhile (fun _ _ => of_decide_eq_true) hs)⟩

end Eggfetch.Datagram
