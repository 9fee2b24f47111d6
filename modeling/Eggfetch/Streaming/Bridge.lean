import Eggfetch.Transition.Runs
import Eggfetch.Transition.Tally

/-! The bounded bridge between a streaming producer and the blocking Python iterators. The
consumers wait on a condition variable, which forgets a notification nobody waits for; the
producer waits on a `Notify`, which keeps one. -/
namespace Eggfetch.Streaming
open Transition

/-- A future of `space.notified()`. `notify_waiters` wakes it from its creation on,
`notify_one` only while it waits. -/
inductive Notified
  | created
  | waiting
  | woken
deriving DecidableEq

/-- Where the one producer is in `send`. -/
inductive Producer (T : Type*)
  | idle
  | entering (item : T)
  | checking (item : T) (notified : Notified)
  /-- The item is queued and the lock released; `available.notify_one` comes next. -/
  | announcing
  | awaiting (item : T) (notified : Notified)
  /-- Its task was aborted at an await point. -/
  | aborted

/-- Where a consumer is in `recv_blocking`. -/
inductive Consumer
  | idle
  | locking
  | asleep
  /-- Notified, or awake without a notification; it takes the lock again. -/
  | woken
  | notifying
  | ended
deriving DecidableEq

/-- Who holds the mutex between two atomic steps. -/
inductive Holder
  | free
  /-- A consumer that has popped an item; `space.notify_one` comes next. -/
  | receiver (i : Nat)
  /-- A closer; `available.notify_all` comes next. -/
  | closer
  /-- The same closer; `space.notify_waiters` comes next. -/
  | closerSpace
deriving DecidableEq

structure SyncBridge (T : Type*) where
  queue : List T
  closed : Bool
  /-- The notification that `space` keeps. -/
  permit : Bool
  lock : Holder
  producer : Producer T
  consumers : List Consumer
  /-- What `send` has queued, and what the consumers have taken, in the order of the lock. -/
  sent : List T
  received : List T

inductive BridgeAction (T : Type*)
  | send (item : T)
  | create
  | check
  | announce (i : Option Nat)
  | poll
  | abort
  | recv (i : Nat)
  | look (i : Nat)
  | notifySpace
  | spurious (i : Nat)
  | close
  | notifyAll
  | notifyWaiters

def BridgeAction.holds {T : Type*} : BridgeAction T → Bool
  | .notifySpace | .notifyAll | .notifyWaiters => true
  | _ => false

def Notified.wake : Notified → Notified := fun _ => .woken

/-- `notify_waiters` wakes every future there is. -/
def Producer.wake {T : Type*} : Producer T → Producer T
  | .checking item notified => .checking item notified.wake
  | .awaiting item notified => .awaiting item notified.wake
  | p => p

def Consumer.wake : Consumer → Consumer
  | .asleep => .woken
  | c => c

def Consumer.wakeups : Consumer → Nat
  | .woken => 1
  | _ => 0

namespace SyncBridge
variable {T : Type*} (s : SyncBridge T)

def new (consumers : Nat) : SyncBridge T :=
  ⟨[], false, false, .free, .idle, List.replicate consumers .idle, [], []⟩

/-- `Notify::notify_one`: wake the future that waits, or keep one notification. -/
def notifyOne : SyncBridge T :=
  match s.producer with
  | .awaiting item .waiting => { s with producer := .awaiting item .woken }
  | _ => { s with permit := true }

/-- `Condvar::notify_one` wakes one of those asleep, and is lost when there is none. -/
def announce : Option Nat → Option (SyncBridge T)
  | some i => if s.consumers[i]? = some .asleep then
      some { s with consumers := s.consumers.set i .woken, producer := .idle } else none
  | none => if .asleep ∈ s.consumers then none else some { s with producer := .idle }

/-- The section of `send` under the lock. -/
def check (capacity : Nat) (item : T) (notified : Notified) : SyncBridge T :=
  if s.closed then { s with producer := .idle }
  else if s.queue.length < capacity then
    { s with queue := s.queue ++ [item], sent := s.sent ++ [item], producer := .announcing }
  else { s with producer := .awaiting item notified }

/-- One turn of the loop of `recv_blocking` under the lock. `wait` gives the lock back and
falls asleep in one step. -/
def look (i : Nat) : SyncBridge T :=
  match s.queue with
  | item :: rest =>
    { s with
      queue := rest, received := s.received ++ [item], lock := .receiver i,
      consumers := s.consumers.set i .notifying }
  | [] => { s with consumers := s.consumers.set i (if s.closed then .ended else .asleep) }

def Looks (i : Nat) : Prop := s.consumers[i]? = some .locking ∨ s.consumers[i]? = some .woken

instance (i : Nat) : Decidable (s.Looks i) := inferInstanceAs (Decidable (_ ∨ _))

def step (capacity : Nat) (s : SyncBridge T) : BridgeAction T → Option (SyncBridge T)
  | .send item =>
    match s.producer with
    | .idle => some { s with producer := .entering item }
    | _ => none
  | .create =>
    match s.producer with
    | .entering item => some { s with producer := .checking item .created }
    | _ => none
  | .check =>
    match s.producer with
    | .checking item notified => if s.lock = .free then some (s.check capacity item notified) else none
    | _ => none
  | .announce i =>
    match s.producer with
    | .announcing => s.announce i
    | _ => none
  | .poll =>
    match s.producer with
    | .awaiting item .woken => some { s with producer := .entering item }
    | .awaiting item .created =>
      if s.permit then some { s with permit := false, producer := .entering item }
      else some { s with producer := .awaiting item .waiting }
    | _ => none
  | .abort =>
    match s.producer with
    | .idle => some { s with producer := .aborted }
    | .awaiting _ _ => some { s with producer := .aborted }
    | _ => none
  | .recv i =>
    if s.consumers[i]? = some .idle ∨ s.consumers[i]? = some .ended then
      some { s with consumers := s.consumers.set i .locking } else none
  | .look i => if s.lock = .free ∧ s.Looks i then some (s.look i) else none
  | .notifySpace =>
    match s.lock with
    | .receiver i => some { s.notifyOne with lock := .free, consumers := s.consumers.set i .idle }
    | _ => none
  | .spurious i =>
    if s.consumers[i]? = some .asleep then some { s with consumers := s.consumers.set i .woken } else none
  | .close => if s.lock = .free then some { s with closed := true, lock := .closer } else none
  | .notifyAll =>
    if s.lock = .closer then
      some { s with lock := .closerSpace, consumers := s.consumers.map Consumer.wake } else none
  | .notifyWaiters =>
    if s.lock = .closerSpace then some { s with lock := .free, producer := s.producer.wake } else none

def ProducerAsleep : Prop := ∃ item, s.producer = .awaiting item .waiting

def announcing : Nat :=
  match s.producer with
  | .announcing => 1
  | _ => 0

def wakeups : Nat := tally Consumer.wakeups s.consumers + s.announcing

/-- A bounded queue that loses nothing, and on whose two ends nobody sleeps while there is
something to do and no wakeup for it is on its way. -/
structure Sound (capacity : Nat) : Prop where
  bounded : s.queue.length ≤ capacity
  order : s.received ++ s.queue = s.sent
  /-- Who is told that the bridge is closed comes after every item. -/
  drained : .ended ∈ s.consumers → s.closed = true ∧ s.received = s.sent
  space : s.ProducerAsleep → s.queue.length < capacity → ∃ i, s.lock = .receiver i
  closedSpace : s.ProducerAsleep → s.closed = true → s.lock = .closer ∨ s.lock = .closerSpace
  available : .asleep ∈ s.consumers → s.queue.length ≤ s.wakeups
  closedAvailable : .asleep ∈ s.consumers → s.closed = true → s.lock = .closer
  /-- A consumer that looks takes the first item, closed or not. -/
  delivered : ∀ i item rest, s.Looks i → s.lock = .free → s.queue = item :: rest →
    ∃ s', s.step capacity (.look i) = some s' ∧ s'.received = s.received ++ [item]
  /-- Who holds the lock goes on without waiting for anybody. -/
  released : s.lock ≠ .free → ∃ a : BridgeAction T, a.holds = true ∧ (s.step capacity a).isSome = true

structure Inv (capacity : Nat) : Prop where
  bounded : s.queue.length ≤ capacity
  order : s.received ++ s.queue = s.sent
  ended : .ended ∈ s.consumers → s.closed = true ∧ s.queue = []
  space : ∀ item notified, s.producer = .awaiting item notified → s.queue.length < capacity →
    s.permit = true ∨ notified = .woken ∨ ∃ i, s.lock = .receiver i
  checking : ∀ item notified, s.producer = .checking item notified → notified ≠ .waiting
  /-- Who waits has found no notification, and the next one goes to it. -/
  waiting : ∀ item, s.producer = .awaiting item .waiting → s.permit = false
  closedSpace : ∀ item notified, s.producer = .awaiting item notified → s.closed = true →
    notified = .woken ∨ s.lock = .closer ∨ s.lock = .closerSpace
  available : .asleep ∈ s.consumers → s.queue.length ≤ s.wakeups
  closedAvailable : .asleep ∈ s.consumers → s.closed = true → s.lock = .closer
  receiver : ∀ i, s.lock = .receiver i → s.consumers[i]? = some .notifying

variable {s} {capacity : Nat}

theorem Inv.sound (h : s.Inv capacity) : s.Sound capacity := by
  refine ⟨h.bounded, h.order, ?_, ?_, ?_, h.available, h.closedAvailable, ?_, ?_⟩
  · intro hEnded
    obtain ⟨hClosed, hQueue⟩ := h.ended hEnded
    refine ⟨hClosed, ?_⟩
    rw [← h.order, hQueue, List.append_nil]
  · rintro ⟨item, hProducer⟩ hRoom
    rcases h.space item _ hProducer hRoom with hPermit | hWoken | hLock
    · rw [h.waiting item hProducer] at hPermit
      cases hPermit
    · cases hWoken
    · exact hLock
  · rintro ⟨item, hProducer⟩ hClosed
    rcases h.closedSpace item _ hProducer hClosed with hWoken | hLock
    · cases hWoken
    · exact hLock
  · intro i item rest hLooks hFree hQueue
    refine ⟨s.look i, if_pos ⟨hFree, hLooks⟩, ?_⟩
    simp only [look, hQueue]
  · intro hHeld
    cases hLock : s.lock with
    | free => exact absurd hLock hHeld
    | receiver i => exact ⟨.notifySpace, rfl, by simp [step, hLock]⟩
    | closer => exact ⟨.notifyAll, rfl, by simp [step, hLock]⟩
    | closerSpace => exact ⟨.notifyWaiters, rfl, by simp [step, hLock]⟩

theorem inv_new (consumers : Nat) : (new consumers : SyncBridge T).Inv capacity := by
  have hIdle (c : Consumer) (hc : c ∈ (new consumers : SyncBridge T).consumers) : c = .idle :=
    List.eq_of_mem_replicate hc
  refine ⟨Nat.zero_le _, rfl, ?_, ?_, ?_, ?_, ?_, ?_, ?_, ?_⟩
  · intro hEnded
    cases hIdle _ hEnded
  · intro item notified hProducer
    cases hProducer
  · intro item notified hProducer
    cases hProducer
  · intro item hProducer
    cases hProducer
  · intro item notified hProducer
    cases hProducer
  · intro hAsleep
    cases hIdle _ hAsleep
  · intro hAsleep
    cases hIdle _ hAsleep
  · intro i hLock
    cases hLock

variable {i : Nat} {c c' : Consumer} {l : List Consumer}

/-- A consumer that a step does not put into a stage was in it before. -/
theorem mem_of_mem_set {d : Consumer} (h : d ∈ l.set i c') (hne : d ≠ c') : d ∈ l :=
  (List.mem_or_eq_of_mem_set h).resolve_right hne

theorem lt_of_getElem? (h : l[i]? = some c) : i < l.length :=
  (List.getElem?_eq_some_iff.mp h).1

theorem wakeups_set (c' : Consumer) (h : l[i]? = some c) :
    tally Consumer.wakeups (l.set i c') + c.wakeups = tally Consumer.wakeups l + c'.wakeups :=
  tally_set Consumer.wakeups c' h

theorem Inv.receiver_set (h : s.Inv capacity) (hc : s.consumers[i]? = some c) (hNotifying : c ≠ .notifying)
    (j : Nat) (hLock : s.lock = .receiver j) : (s.consumers.set i c')[j]? = some .notifying := by
  have hj := h.receiver j hLock
  have hne : i ≠ j := by
    rintro rfl
    rw [hc] at hj
    exact hNotifying (Option.some.inj hj)
  rw [List.getElem?_set_ne hne, hj]

/-- The producer goes on to a stage in which it does not wait. -/
theorem Inv.setProducer (h : s.Inv capacity) {p : Producer T} (hp : ∀ item notified, p ≠ .awaiting item notified)
    (hChecking : ∀ item, p ≠ .checking item .waiting) (hAnnouncing : s.announcing = 0) :
    ({ s with producer := p } : SyncBridge T).Inv capacity := by
  refine ⟨h.bounded, h.order, h.ended, ?_, ?_, ?_, ?_, ?_, h.closedAvailable, h.receiver⟩
  · intro item notified hProducer
    exact absurd hProducer (hp item notified)
  · rintro item notified hProducer rfl
    exact hChecking item hProducer
  · intro item hProducer
    exact absurd hProducer (hp item _)
  · intro item notified hProducer
    exact absurd hProducer (hp item notified)
  · intro hAsleep
    have hWakeups := h.available hAsleep
    simp only [wakeups, hAnnouncing] at hWakeups
    exact le_trans hWakeups (Nat.le_add_right _ _)

theorem Inv.check (h : s.Inv capacity) {item : T} {notified : Notified}
    (hChecking : s.producer = .checking item notified) : (s.check capacity item notified).Inv capacity := by
  have hNotified := h.checking item notified hChecking
  have hAnnouncing : s.announcing = 0 := by
    simp only [announcing, hChecking]
  unfold SyncBridge.check
  split_ifs with hClosed hRoom
  · exact h.setProducer (by simp) (by simp) hAnnouncing
  · refine ⟨?_, ?_, ?_, by simp, by simp, by simp, by simp, ?_, h.closedAvailable, h.receiver⟩
    · rw [List.length_append, List.length_singleton]
      exact hRoom
    · rw [← List.append_assoc, h.order]
    · intro hEnded
      exact absurd (h.ended hEnded).1 hClosed
    · -- one more item, and one more notification
      intro hAsleep
      have hWakeups := h.available hAsleep
      simp only [wakeups, hAnnouncing] at hWakeups
      simp only [wakeups, announcing, List.length_append, List.length_singleton]
      omega
  · refine ⟨h.bounded, h.order, h.ended, ?_, by simp, ?_, ?_, ?_, h.closedAvailable, h.receiver⟩
    · intro item' notified' hProducer hRoom'
      exact absurd hRoom' hRoom
    · intro item' hProducer
      obtain ⟨-, rfl⟩ := Producer.awaiting.inj hProducer
      exact absurd rfl hNotified
    · intro item' notified' hProducer hClosed'
      exact absurd hClosed' hClosed
    · intro hAsleep
      have hWakeups := h.available hAsleep
      simp only [wakeups, hAnnouncing] at hWakeups
      exact le_trans hWakeups (Nat.le_add_right _ _)

theorem Inv.announce (h : s.Inv capacity) {i : Option Nat} {s' : SyncBridge T} (hStage : s.producer = .announcing)
    (hStep : s.announce i = some s') : s'.Inv capacity := by
  cases i with
  | none =>
    simp only [SyncBridge.announce] at hStep
    split_ifs at hStep with hAsleep
    obtain rfl := Option.some.inj hStep
    refine ⟨h.bounded, h.order, h.ended, by simp, by simp, by simp, by simp, ?_, ?_, h.receiver⟩
    · intro hMem
      exact absurd hMem hAsleep
    · intro hMem
      exact absurd hMem hAsleep
  | some i =>
    simp only [SyncBridge.announce] at hStep
    split_ifs at hStep with hAsleep
    obtain rfl := Option.some.inj hStep
    have hMem : .asleep ∈ s.consumers := List.mem_of_getElem? hAsleep
    refine ⟨h.bounded, h.order, ?_, by simp, by simp, by simp, by simp, ?_, ?_, h.receiver_set hAsleep (by simp)⟩
    · intro hEnded
      exact h.ended (mem_of_mem_set hEnded (by simp))
    · -- the notification becomes the wakeup of the consumer it reaches
      intro _
      have hWakeups := h.available hMem
      have hSet := wakeups_set .woken hAsleep
      simp only [wakeups, announcing, hStage] at hWakeups
      simp only [Consumer.wakeups] at hSet
      simp only [wakeups, announcing]
      omega
    · intro _ hClosed
      exact h.closedAvailable hMem hClosed

theorem Inv.look (h : s.Inv capacity) (hFree : s.lock = .free) (hLooks : s.Looks i) : (s.look i).Inv capacity := by
  unfold SyncBridge.look
  split
  · rename_i item rest hQueue
    refine ⟨?_, ?_, ?_, ?_, h.checking, h.waiting, ?_, ?_, ?_, ?_⟩
    · have hBounded := h.bounded
      rw [hQueue, List.length_cons] at hBounded
      exact Nat.le_of_succ_le hBounded
    · rw [List.append_assoc, List.singleton_append, ← hQueue, h.order]
    · intro hEnded
      rw [(h.ended (mem_of_mem_set hEnded (by simp))).2] at hQueue
      cases hQueue
    · intro item' notified hProducer _
      exact .inr (.inr ⟨i, rfl⟩)
    · intro item' notified hProducer hClosed
      refine .inl ((h.closedSpace item' notified hProducer hClosed).resolve_right ?_)
      simp [hFree]
    · -- the one wakeup that may go with this item
      intro hAsleep
      have hWakeups := h.available (mem_of_mem_set hAsleep (by simp))
      rw [hQueue, List.length_cons] at hWakeups
      rcases hLooks with hLooks | hLooks
      · have hSet := wakeups_set .notifying hLooks
        simp only [Consumer.wakeups, wakeups, announcing] at hSet hWakeups ⊢
        omega
      · have hSet := wakeups_set .notifying hLooks
        simp only [Consumer.wakeups, wakeups, announcing] at hSet hWakeups ⊢
        omega
    · intro hAsleep hClosed
      have hLock := h.closedAvailable (mem_of_mem_set hAsleep (by simp)) hClosed
      rw [hFree] at hLock
      cases hLock
    · intro j hj
      obtain rfl := Holder.receiver.inj hj
      exact List.getElem?_set_self (hLooks.elim lt_of_getElem? lt_of_getElem?)
  · rename_i hQueue
    refine ⟨h.bounded, h.order, ?_, h.space, h.checking, h.waiting, h.closedSpace, ?_, ?_, ?_⟩
    · intro hEnded
      by_cases hClosed : s.closed = true
      · exact ⟨hClosed, hQueue⟩
      · exact h.ended (mem_of_mem_set hEnded (by simp [hClosed]))
    · intro _
      simp only [hQueue, List.length_nil, Nat.zero_le]
    · intro hAsleep hClosed
      refine h.closedAvailable (mem_of_mem_set hAsleep ?_) hClosed
      rw [if_pos hClosed]
      simp
    · intro j hj
      rw [hFree] at hj
      cases hj

private theorem Inv.setConsumer (h : s.Inv capacity) (hc : s.consumers[i]? = some c) (hAsleep : c' ≠ .asleep)
    (hEnded : c' ≠ .ended) (hWakeups : c.wakeups ≤ c'.wakeups) (hNotifying : c ≠ .notifying) :
    ({ s with consumers := s.consumers.set i c' } : SyncBridge T).Inv capacity := by
  refine ⟨h.bounded, h.order, ?_, h.space, h.checking, h.waiting, h.closedSpace, ?_, ?_,
    h.receiver_set hc hNotifying⟩
  · intro hMem
    exact h.ended (mem_of_mem_set hMem hEnded.symm)
  · intro hMem
    have hAvailable := h.available (mem_of_mem_set hMem hAsleep.symm)
    have hSet := wakeups_set c' hc
    simp only [wakeups, announcing] at hAvailable ⊢
    omega
  · intro hMem
    exact h.closedAvailable (mem_of_mem_set hMem hAsleep.symm)

theorem Inv.poll (h : s.Inv capacity) {s' : SyncBridge T} {item : T} {notified : Notified}
    (hAwaiting : s.producer = .awaiting item notified) (hStep : s.step capacity .poll = some s') :
    s'.Inv capacity := by
  have hAnnouncing : s.announcing = 0 := by
    simp only [announcing, hAwaiting]
  cases notified with
  | waiting =>
    simp only [SyncBridge.step, hAwaiting] at hStep
    cases hStep
  | woken =>
    simp only [SyncBridge.step, hAwaiting] at hStep
    obtain rfl := Option.some.inj hStep
    exact h.setProducer (by simp) (by simp) hAnnouncing
  | created =>
    simp only [SyncBridge.step, hAwaiting] at hStep
    split_ifs at hStep with hPermit
    · obtain rfl := Option.some.inj hStep
      have hEntering := h.setProducer (p := .entering item) (by simp) (by simp) hAnnouncing
      exact ⟨hEntering.bounded, hEntering.order, hEntering.ended, by simp, hEntering.checking, by simp,
        by simp, hEntering.available, hEntering.closedAvailable, h.receiver⟩
    · obtain rfl := Option.some.inj hStep
      refine ⟨h.bounded, h.order, h.ended, ?_, by simp, ?_, ?_, ?_, h.closedAvailable, h.receiver⟩
      · intro item' notified' hProducer hRoom
        obtain ⟨rfl, rfl⟩ := Producer.awaiting.inj hProducer
        simpa using h.space item _ hAwaiting hRoom
      · intro item' _
        simpa using hPermit
      · intro item' notified' hProducer hClosed
        obtain ⟨rfl, rfl⟩ := Producer.awaiting.inj hProducer
        simpa using h.closedSpace item _ hAwaiting hClosed
      · intro hAsleep
        have hWakeups := h.available hAsleep
        simp only [wakeups, hAnnouncing] at hWakeups
        exact le_trans hWakeups (Nat.le_add_right _ _)

theorem Inv.notifySpace (h : s.Inv capacity) (hLock : s.lock = .receiver i) :
    ({ s.notifyOne with lock := .free, consumers := s.consumers.set i .idle } : SyncBridge T).Inv capacity := by
  have hMem {d : Consumer} (hMem : d ∈ s.consumers.set i .idle) (hd : d ≠ .idle) : d ∈ s.consumers :=
    mem_of_mem_set hMem hd
  have hAvailable (hAsleep : .asleep ∈ s.consumers) (hClosed : s.closed = true) : False := by
    have hCloser := h.closedAvailable hAsleep hClosed
    rw [hLock] at hCloser
    cases hCloser
  have hWoken (item : T) (notified : Notified) (hProducer : s.producer = .awaiting item notified)
      (hClosed : s.closed = true) : notified = .woken := by
    refine (h.closedSpace item notified hProducer hClosed).resolve_right ?_
    simp [hLock]
  have hWakeups := wakeups_set .idle (h.receiver i hLock)
  simp only [Consumer.wakeups, Nat.add_zero] at hWakeups
  unfold SyncBridge.notifyOne
  split
  · rename_i item hProducer
    refine ⟨h.bounded, h.order, ?_, ?_, by simp, by simp, ?_, ?_, ?_, by simp⟩
    · intro hEnded
      exact h.ended (hMem hEnded (by simp))
    · intro item' notified' hWaits _
      obtain ⟨-, rfl⟩ := Producer.awaiting.inj hWaits
      exact .inr (.inl rfl)
    · intro item' notified' hWaits _
      obtain ⟨-, rfl⟩ := Producer.awaiting.inj hWaits
      exact .inl rfl
    · intro hAsleep
      have hQueue := h.available (hMem hAsleep (by simp))
      simp only [wakeups, announcing, hProducer] at hQueue ⊢
      omega
    · intro hAsleep hClosed
      exact (hAvailable (hMem hAsleep (by simp)) hClosed).elim
  · rename_i hNot
    refine ⟨h.bounded, h.order, ?_, ?_, h.checking, ?_, ?_, ?_, ?_, by simp⟩
    · intro hEnded
      exact h.ended (hMem hEnded (by simp))
    · intro item notified hProducer _
      exact .inl rfl
    · intro item hProducer
      exact absurd hProducer (hNot item)
    · intro item notified hProducer hClosed
      exact .inl (hWoken item notified hProducer hClosed)
    · intro hAsleep
      have hQueue := h.available (hMem hAsleep (by simp))
      simp only [wakeups, announcing] at hQueue ⊢
      omega
    · intro hAsleep hClosed
      exact (hAvailable (hMem hAsleep (by simp)) hClosed).elim

private theorem Inv.notifyAll (h : s.Inv capacity) (hLock : s.lock = .closer) :
    ({ s with lock := .closerSpace, consumers := s.consumers.map Consumer.wake } : SyncBridge T).Inv capacity := by
  have hAwake : .asleep ∉ s.consumers.map Consumer.wake := by
    intro hMem
    obtain ⟨c, -, hc⟩ := List.mem_map.mp hMem
    cases c <;> cases hc
  refine ⟨h.bounded, h.order, ?_, ?_, h.checking, h.waiting, ?_, ?_, ?_, by simp⟩
  · intro hMem
    obtain ⟨c, hc, hEnded⟩ := List.mem_map.mp hMem
    cases c <;> cases hEnded
    exact h.ended hc
  · intro item notified hProducer hRoom
    refine (h.space item notified hProducer hRoom).imp id (.imp id ?_)
    rintro ⟨i, hi⟩
    rw [hLock] at hi
    cases hi
  · intro item notified hProducer hClosed
    exact .inr (.inr rfl)
  · intro hAsleep
    exact absurd hAsleep hAwake
  · intro hAsleep
    exact absurd hAsleep hAwake

theorem Inv.notifyWaiters (h : s.Inv capacity) (hLock : s.lock = .closerSpace) :
    ({ s with lock := .free, producer := s.producer.wake } : SyncBridge T).Inv capacity := by
  have hWake (item : T) (notified : Notified) (hProducer : s.producer.wake = .awaiting item notified) :
      notified = .woken := by
    cases hStage : s.producer <;> rw [hStage] at hProducer <;> cases hProducer
    rfl
  refine ⟨h.bounded, h.order, h.ended, ?_, ?_, ?_, ?_, ?_, ?_, by simp⟩
  · intro item notified hProducer _
    exact .inr (.inl (hWake item notified hProducer))
  · intro item notified hProducer
    cases hStage : s.producer <;> rw [hStage] at hProducer <;> cases hProducer
    simp [Notified.wake]
  · intro item hProducer
    cases hWake item _ hProducer
  · intro item notified hProducer _
    exact .inl (hWake item notified hProducer)
  · intro hAsleep
    have hWakeups := h.available hAsleep
    simp only [wakeups, announcing] at hWakeups ⊢
    cases hStage : s.producer <;> simpa [hStage, Producer.wake] using hWakeups
  · intro hAsleep hClosed
    have hCloser := h.closedAvailable hAsleep hClosed
    rw [hLock] at hCloser
    cases hCloser

theorem Inv.step {s' : SyncBridge T} {a : BridgeAction T} (h : s.Inv capacity) (hStep : s.step capacity a = some s') :
    s'.Inv capacity := by
  cases a with
  | send item =>
    simp only [SyncBridge.step] at hStep
    split at hStep
    · rename_i hStage
      obtain rfl := Option.some.inj hStep
      exact h.setProducer (by simp) (by simp) (by simp only [announcing, hStage])
    · cases hStep
  | create =>
    simp only [SyncBridge.step] at hStep
    split at hStep
    · rename_i item hStage
      obtain rfl := Option.some.inj hStep
      exact h.setProducer (by simp) (by simp) (by simp only [announcing, hStage])
    · cases hStep
  | check =>
    simp only [SyncBridge.step] at hStep
    split at hStep
    · rename_i item notified hStage
      split_ifs at hStep
      obtain rfl := Option.some.inj hStep
      exact h.check hStage
    · cases hStep
  | announce i =>
    simp only [SyncBridge.step] at hStep
    split at hStep
    · rename_i hStage
      exact h.announce hStage hStep
    · cases hStep
  | poll =>
    cases hStage : s.producer with
    | awaiting item notified => exact h.poll hStage hStep
    | idle | entering item | checking item notified | announcing | aborted =>
      simp only [SyncBridge.step, hStage] at hStep
      cases hStep
  | abort =>
    simp only [SyncBridge.step] at hStep
    split at hStep
    · rename_i hStage
      obtain rfl := Option.some.inj hStep
      exact h.setProducer (by simp) (by simp) (by simp only [announcing, hStage])
    · rename_i item notified hStage
      obtain rfl := Option.some.inj hStep
      exact h.setProducer (by simp) (by simp) (by simp only [announcing, hStage])
    · cases hStep
  | recv i =>
    simp only [SyncBridge.step] at hStep
    split_ifs at hStep with hc
    obtain rfl := Option.some.inj hStep
    rcases hc with hc | hc
    · exact h.setConsumer hc (by simp) (by simp) (Nat.zero_le _) (by simp)
    · exact h.setConsumer hc (by simp) (by simp) (Nat.zero_le _) (by simp)
  | look i =>
    simp only [SyncBridge.step] at hStep
    split_ifs at hStep with hLook
    obtain rfl := Option.some.inj hStep
    exact h.look hLook.1 hLook.2
  | notifySpace =>
    simp only [SyncBridge.step] at hStep
    split at hStep
    · rename_i i hLock
      obtain rfl := Option.some.inj hStep
      exact h.notifySpace hLock
    · cases hStep
  | spurious i =>
    simp only [SyncBridge.step] at hStep
    split_ifs at hStep with hc
    obtain rfl := Option.some.inj hStep
    exact h.setConsumer hc (by simp) (by simp) (Nat.zero_le _) (by simp)
  | close =>
    simp only [SyncBridge.step] at hStep
    split_ifs at hStep with hFree
    obtain rfl := Option.some.inj hStep
    refine ⟨h.bounded, h.order, ?_, ?_, h.checking, h.waiting, ?_, h.available, ?_, by simp⟩
    · intro hMem
      exact ⟨rfl, (h.ended hMem).2⟩
    · intro item notified hProducer hRoom
      refine (h.space item notified hProducer hRoom).imp id (.imp id ?_)
      rintro ⟨i, hi⟩
      rw [hFree] at hi
      cases hi
    · intro item notified _ _
      exact .inr (.inl rfl)
    · intro _ _
      rfl
  | notifyAll =>
    simp only [SyncBridge.step] at hStep
    split_ifs at hStep with hLock
    obtain rfl := Option.some.inj hStep
    exact h.notifyAll hLock
  | notifyWaiters =>
    simp only [SyncBridge.step] at hStep
    split_ifs at hStep with hLock
    obtain rfl := Option.some.inj hStep
    exact h.notifyWaiters hLock

theorem bridge_sound {consumers : Nat} (h : Reachable (step capacity) (new consumers) s) : s.Sound capacity := by
  apply Inv.sound
  apply h.invariant (inv_new consumers)
  intro s a s' _ hInv _ hStep
  exact hInv.step hStep

/-- An item is queued while the only consumer sleeps; the notification comes next. -/
theorem bridge_sound_example :
    ∃ s : SyncBridge Nat, s.queue = [7] ∧ .asleep ∈ s.consumers ∧ s.announcing = 1 ∧ s.Sound 1 := by
  have hRun : (run (step 1) (new 1) [.recv 0, .look 0, .send 7, .create, .check]).map
      (fun s => decide (s.queue = [7] ∧ .asleep ∈ s.consumers ∧ s.announcing = 1)) = some true := by
    decide
  obtain ⟨s, hs, hState⟩ := Option.map_eq_some_iff.mp hRun
  obtain ⟨hQueue, hAsleep, hAnnouncing⟩ := of_decide_eq_true hState
  exact ⟨s, hQueue, hAsleep, hAnnouncing, bridge_sound (Reaches.start.run hs)⟩

end SyncBridge
end Eggfetch.Streaming
