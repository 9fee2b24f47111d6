import Eggfetch.Pool.Model
import Eggfetch.Transition.Runs
import Eggfetch.Transition.Tally

/-! Admission of physical connections. The permit travels from the connector through Hyper to
an upgraded stream; taking it, counting it, uncounting it and giving it back are four steps. -/
namespace Eggfetch.Transport
open Transition
open Pool (Semaphore)

structure PhysicalConnectionPolicy where
  maxLive : Option Nat
  admissionTimeout : Option Nat

structure LifecycleConfig where
  admission : Option Nat
  admissionTimeout : Option Nat
  invalid : Bool

def LifecycleConfig.fromPolicy (physical : PhysicalConnectionPolicy) : LifecycleConfig where
  admission := physical.maxLive.filter (0 < ·)
  admissionTimeout := physical.admissionTimeout
  invalid := physical.maxLive = some 0 || physical.maxLive.isNone && physical.admissionTimeout.isSome

structure TransportMetrics where
  physicalAdmissionWaits : Nat
  physicalAdmissionTimeouts : Nat
  physicalConnectionsLive : Nat
  physicalConnectionsHighWater : Nat

/-- Where one call of the connector, and the connection it makes, is. -/
inductive Stage
  | calling
  /-- No permit was free; `acquire_owned` is polled next. -/
  | asking
  | waiting
  /-- A released permit went to it, and it has not been polled since. -/
  | granted
  /-- It owns the permit and is not counted yet. -/
  | acquired
  | connecting
  | established
  /-- `into_inner_and_permit` has taken the connection apart. -/
  | handingOff
  | upgraded
  /-- It is no longer counted; the permit goes back next. -/
  | returning
  | gone
deriving DecidableEq

def Stage.owned : Stage → Nat
  | .granted | .acquired | .connecting | .established | .handingOff | .upgraded | .returning => 1
  | _ => 0

/-- It holds an `AdmissionPermit`. -/
def Stage.held : Stage → Nat
  | .connecting | .established | .handingOff | .upgraded => 1
  | _ => 0

structure Admitted where
  stage : Stage
  /-- How often it was given a permit, and how often it gave one back. -/
  taken : Nat
  returned : Nat

structure Admissions where
  semaphore : Semaphore
  metrics : TransportMetrics
  connections : List Admitted

inductive AdmissionAction
  | call
  | tryAcquire (i : Nat)
  | acquire (i : Nat)
  | poll (i : Nat)
  | timeout (i : Nat)
  | admission (i : Nat)
  | connected (i : Nat)
  | connectFails (i : Nat)
  | cancel (i : Nat)
  | handOff (i : Nat)
  | holdGuard (i : Nat)
  | drop (i : Nat)
  | giveBack (i : Nat) (next : Option Nat)

/-- `record_physical_connection_admitted` -/
def TransportMetrics.admitted (m : TransportMetrics) : TransportMetrics :=
  { m with
    physicalConnectionsLive := m.physicalConnectionsLive + 1
    physicalConnectionsHighWater := max m.physicalConnectionsHighWater (m.physicalConnectionsLive + 1) }

/-- `record_physical_connection_released` -/
def TransportMetrics.released (m : TransportMetrics) : TransportMetrics :=
  { m with physicalConnectionsLive := m.physicalConnectionsLive - 1 }

/-- Where a call dropped at an await point leaves its permit. -/
def Stage.cancelled : Stage → Option Stage
  | .calling | .waiting => some .gone
  | .granted => some .returning
  | _ => none

namespace Admissions
variable (s : Admissions)

def new (n : Nat) : Admissions := ⟨⟨n, false⟩, ⟨0, 0, 0, 0⟩, []⟩

def set (i : Nat) (c : Admitted) (stage : Stage) : Admissions :=
  { s with connections := s.connections.set i { c with stage := stage } }

def take (i : Nat) (c : Admitted) : Option Admissions :=
  s.semaphore.tryAcquireOwned.map fun semaphore =>
    { s with
      semaphore := semaphore
      connections := s.connections.set i { c with stage := .acquired, taken := c.taken + 1 } }

/-- The drop of the permit wakes one that waits, or gives the permit back to the semaphore. -/
def giveBack (i : Nat) (c : Admitted) (next : Option Nat) : Option Admissions :=
  let connections := s.connections.set i { c with stage := .gone, returned := c.returned + 1 }
  match next with
  | none =>
    if connections.any (·.stage = .waiting) then none
    else some { s with semaphore := s.semaphore.release, connections := connections }
  | some j =>
    match connections[j]? with
    | some waiter =>
      if waiter.stage = .waiting then
        some { s with connections := connections.set j { waiter with stage := .granted, taken := waiter.taken + 1 } }
      else none
    | none => none

/-- The drop of an `AdmissionPermit` runs before that of the permit in it. -/
def uncount (i : Nat) (c : Admitted) : Admissions := { s.set i c .returning with metrics := s.metrics.released }

def stepConnection (config : LifecycleConfig) (i : Nat) (c : Admitted) : AdmissionAction → Option Admissions
  | .tryAcquire _ =>
    if c.stage = .calling then
      some ((s.take i c).getD
        { s.set i c .asking with
          metrics := { s.metrics with physicalAdmissionWaits := s.metrics.physicalAdmissionWaits + 1 } })
    else none
  | .acquire _ => if c.stage = .asking then some ((s.take i c).getD (s.set i c .waiting)) else none
  | .poll _ => if c.stage = .granted then some (s.set i c .acquired) else none
  | .timeout _ =>
    if c.stage = .waiting ∧ config.admissionTimeout.isSome then
      some { s.set i c .gone with
        metrics := { s.metrics with physicalAdmissionTimeouts := s.metrics.physicalAdmissionTimeouts + 1 } }
    else none
  | .admission _ => if c.stage = .acquired then some { s.set i c .connecting with metrics := s.metrics.admitted } else none
  | .connected _ => if c.stage = .connecting then some (s.set i c .established) else none
  | .connectFails _ => if c.stage = .connecting then some (s.uncount i c) else none
  | .cancel _ =>
    if c.stage = .connecting then some (s.uncount i c) else c.stage.cancelled.map (s.set i c)
  | .handOff _ => if c.stage = .established then some (s.set i c .handingOff) else none
  | .holdGuard _ => if c.stage = .handingOff then some (s.set i c .upgraded) else none
  | .drop _ => if c.stage = .established ∨ c.stage = .upgraded then some (s.uncount i c) else none
  | .giveBack _ next => if c.stage = .returning then s.giveBack i c next else none
  | .call => none

/-- A call under an invalid policy fails before anything is acquired or connected. -/
def step (config : LifecycleConfig) (s : Admissions) (a : AdmissionAction) : Option Admissions :=
  match a with
  | .call =>
    if config.invalid then some s
    else some { s with connections := s.connections ++ [⟨.calling, 0, 0⟩] }
  | .tryAcquire i | .acquire i | .poll i | .timeout i | .admission i | .connected i | .connectFails i | .cancel i
  | .handOff i | .holdGuard i | .drop i | .giveBack i _ =>
    s.connections[i]?.bind fun c => s.stepConnection config i c a

def ownedOf (connections : List Admitted) : Nat := tally (fun c => c.stage.owned) connections

def heldOf (connections : List Admitted) : Nat := tally (fun c => c.stage.held) connections

def owned : Nat := ownedOf s.connections

def held : Nat := heldOf s.connections

structure Sound (n : Nat) : Prop where
  capped : s.held ≤ n
  counted : s.metrics.physicalConnectionsLive = s.held
  conserved : s.semaphore.permits + s.owned = n
  peak : s.metrics.physicalConnectionsHighWater ≤ n
  /-- A permit is given back once, and by everybody who is gone. -/
  once : ∀ c ∈ s.connections, c.returned ≤ c.taken ∧ c.taken ≤ 1 ∧ (c.stage = .gone → c.returned = c.taken)
  idle : (∀ c ∈ s.connections, c.stage = .gone) → s.semaphore.permits = n ∧ s.metrics.physicalConnectionsLive = 0

/-- The permits that went through a connection, by its stage. -/
structure Admitted.Accounted (c : Admitted) : Prop where
  balance : c.taken = c.returned + c.stage.owned
  once : c.taken ≤ 1
  untaken : c.stage = .calling ∨ c.stage = .asking ∨ c.stage = .waiting → c.taken = 0

structure Inv (n : Nat) (s : Admissions) : Prop where
  counted : s.metrics.physicalConnectionsLive = heldOf s.connections
  conserved : s.semaphore.permits + ownedOf s.connections = n
  peak : s.metrics.physicalConnectionsHighWater ≤ n
  accounted : ∀ c ∈ s.connections, Admitted.Accounted c

variable {s} {n : Nat} {config : LifecycleConfig} {i : Nat} {c c' : Admitted} {s' : Admissions}

theorem held_le_owned (l : List Admitted) : heldOf l ≤ ownedOf l := by
  apply tally_mono
  intro c _
  cases c.stage <;> simp only [Stage.held, Stage.owned] <;> omega

theorem Inv.sound (h : Inv n s) : s.Sound n := by
  have hConserved := h.conserved
  have hHeld := held_le_owned s.connections
  refine ⟨le_trans hHeld (by omega), h.counted, h.conserved, h.peak, ?_, ?_⟩
  · intro c hc
    have hAccounted := h.accounted c hc
    refine ⟨?_, hAccounted.once, ?_⟩
    · rw [hAccounted.balance]
      exact Nat.le_add_right _ _
    · intro hGone
      rw [hAccounted.balance, hGone]
      rfl
  · intro hGone
    have hOwned : ownedOf s.connections = 0 := by
      apply tally_eq_zero
      intro c hc
      rw [hGone c hc]
      rfl
    refine ⟨by omega, ?_⟩
    rw [h.counted]
    omega

theorem inv_new : Inv n (new n) :=
  ⟨rfl, rfl, Nat.zero_le n, by simp [new]⟩

theorem owned_set {l : List Admitted} (hc : l[i]? = some c) (c' : Admitted) :
    ownedOf (l.set i c') + c.stage.owned = ownedOf l + c'.stage.owned :=
  tally_set (fun c => c.stage.owned) c' hc

theorem held_set {l : List Admitted} (hc : l[i]? = some c) (c' : Admitted) :
    heldOf (l.set i c') + c.stage.held = heldOf l + c'.stage.held :=
  tally_set (fun c => c.stage.held) c' hc

theorem accounted_set (h : Inv n s) (hc' : Admitted.Accounted c') (d : Admitted) (hd : d ∈ s.connections.set i c') :
    Admitted.Accounted d := by
  rcases List.mem_or_eq_of_mem_set hd with hd | rfl
  · exact h.accounted d hd
  · exact hc'

/-- A connection goes on with its permit, or without one. -/
theorem Inv.move (h : Inv n s) (hc : s.connections[i]? = some c) {stage : Stage} {metrics : TransportMetrics}
    (hOwned : stage.owned = c.stage.owned)
    (hLive : metrics.physicalConnectionsLive + c.stage.held = s.metrics.physicalConnectionsLive + stage.held)
    (hPeak : metrics.physicalConnectionsHighWater ≤ n)
    (hUntaken : stage = .calling ∨ stage = .asking ∨ stage = .waiting → c.taken = 0) :
    Inv n { s.set i c stage with metrics := metrics } := by
  have hAccounted := h.accounted c (List.mem_of_getElem? hc)
  have hCounted := h.counted
  have hConserved := h.conserved
  refine ⟨?_, ?_, hPeak, accounted_set h ⟨?_, hAccounted.once, hUntaken⟩⟩
  · have hHeldSum := held_set hc { c with stage := stage }
    change metrics.physicalConnectionsLive = heldOf (s.connections.set i { c with stage := stage })
    dsimp only at hHeldSum
    omega
  · have hOwnedSum := owned_set hc { c with stage := stage }
    change s.semaphore.permits + ownedOf (s.connections.set i { c with stage := stage }) = n
    dsimp only at hOwnedSum
    omega
  · rw [hAccounted.balance, hOwned]

theorem Inv.setStage (h : Inv n s) (hc : s.connections[i]? = some c) {stage : Stage}
    (hOwned : stage.owned = c.stage.owned) (hHeld : stage.held = c.stage.held)
    (hUntaken : stage = .calling ∨ stage = .asking ∨ stage = .waiting → c.taken = 0) : Inv n (s.set i c stage) :=
  h.move hc hOwned (by rw [hHeld]) h.peak hUntaken

theorem Inv.take (h : Inv n s) (hc : s.connections[i]? = some c) (hStage : c.stage = .calling ∨ c.stage = .asking)
    (hTake : s.take i c = some s') : Inv n s' := by
  obtain ⟨semaphore, hAcquired, rfl⟩ := Option.map_eq_some_iff.mp hTake
  have hAccounted := h.accounted c (List.mem_of_getElem? hc)
  have hTaken : c.taken = 0 := hAccounted.untaken (hStage.imp id .inl)
  have hNone : c.stage.owned = 0 ∧ c.stage.held = 0 := by
    rcases hStage with hStage | hStage <;> rw [hStage] <;> exact ⟨rfl, rfl⟩
  have hPermits : semaphore.permits + 1 = s.semaphore.permits := by
    unfold Semaphore.tryAcquireOwned at hAcquired
    split_ifs at hAcquired with hFree
    obtain rfl := Option.some.inj hAcquired
    exact Nat.succ_pred_eq_of_pos hFree.2
  have hCounted := h.counted
  have hConserved := h.conserved
  refine ⟨?_, ?_, h.peak, accounted_set h ⟨?_, ?_, by simp⟩⟩
  · have hHeldSum := held_set hc { c with stage := .acquired, taken := c.taken + 1 }
    rw [hNone.2] at hHeldSum
    exact hCounted.trans hHeldSum.symm
  · have hOwnedSum := owned_set hc { c with stage := .acquired, taken := c.taken + 1 }
    rw [hNone.1, show Stage.owned .acquired = 1 from rfl] at hOwnedSum
    change semaphore.permits + ownedOf (s.connections.set i { c with stage := .acquired, taken := c.taken + 1 }) = n
    omega
  · have hBalance := hAccounted.balance
    rw [hNone.1] at hBalance
    simp only [Stage.owned]
    omega
  · simp only [hTaken]
    omega

theorem Inv.uncount (h : Inv n s) (hc : s.connections[i]? = some c) (hHeld : c.stage.held = 1) (hOwned : c.stage.owned = 1) :
    Inv n (s.uncount i c) := by
  have hPositive : 1 ≤ s.metrics.physicalConnectionsLive := by
    rw [h.counted, ← hHeld]
    exact le_tally (fun c => c.stage.held) (List.mem_of_getElem? hc)
  refine h.move hc (by rw [hOwned]; rfl) ?_ h.peak (by simp)
  rw [hHeld]
  exact Nat.sub_add_cancel hPositive

theorem Inv.giveBack (h : Inv n s) (hc : s.connections[i]? = some c) (hStage : c.stage = .returning)
    {next : Option Nat} (hGive : s.giveBack i c next = some s') : Inv n s' := by
  have hAccounted := h.accounted c (List.mem_of_getElem? hc)
  have hBalance := hAccounted.balance
  have hOwnedSum := owned_set hc { c with stage := .gone, returned := c.returned + 1 }
  have hHeldSum := held_set hc { c with stage := .gone, returned := c.returned + 1 }
  simp only [hStage, Stage.owned, Stage.held, Nat.add_zero] at hOwnedSum hHeldSum hBalance
  have hCounted := h.counted
  have hConserved := h.conserved
  have hGone : Admitted.Accounted { c with stage := .gone, returned := c.returned + 1 } :=
    ⟨hBalance, hAccounted.once, by simp⟩
  have hRest := accounted_set (i := i) h hGone
  cases next with
  | none =>
    simp only [Admissions.giveBack] at hGive
    split_ifs at hGive
    obtain rfl := Option.some.inj hGive
    refine ⟨?_, ?_, h.peak, hRest⟩
    · exact hCounted.trans hHeldSum.symm
    · change s.semaphore.permits + 1 + ownedOf (s.connections.set i _) = n
      omega
  | some j =>
    -- the permit goes to a waiter without passing through the semaphore
    simp only [Admissions.giveBack] at hGive
    split at hGive
    · rename_i waiter hWaiter
      split_ifs at hGive with hWaits
      obtain rfl := Option.some.inj hGive
      have hWaiting := hRest waiter (List.mem_of_getElem? hWaiter)
      have hTaken : waiter.taken = 0 := hWaiting.untaken (.inr (.inr hWaits))
      have hGrantOwned := owned_set hWaiter { waiter with stage := .granted, taken := waiter.taken + 1 }
      have hGrantHeld := held_set hWaiter { waiter with stage := .granted, taken := waiter.taken + 1 }
      simp only [hWaits, Stage.owned, Stage.held, Nat.add_zero] at hGrantOwned hGrantHeld
      refine ⟨?_, ?_, h.peak, ?_⟩
      · exact hCounted.trans (hHeldSum.symm.trans hGrantHeld.symm)
      · change s.semaphore.permits + ownedOf (List.set _ j _) = n
        omega
      · intro d hd
        rcases List.mem_or_eq_of_mem_set hd with hd | rfl
        · exact hRest d hd
        · have hWaiterBalance := hWaiting.balance
          simp only [hWaits, Stage.owned] at hWaiterBalance
          refine ⟨?_, ?_, by simp⟩
          · simp only [Stage.owned]
            omega
          · simp only [hTaken]
            omega
    · cases hGive

theorem Inv.stepConnection (h : Inv n s) (hc : s.connections[i]? = some c) {a : AdmissionAction}
    (hStep : s.stepConnection config i c a = some s') : Inv n s' := by
  have hUntaken := (h.accounted c (List.mem_of_getElem? hc)).untaken
  cases a with
  | call => cases hStep
  | tryAcquire _ =>
    simp only [Admissions.stepConnection] at hStep
    split_ifs at hStep with hStage
    obtain rfl := Option.some.inj hStep
    cases hTake : s.take i c with
    | none => exact h.move hc (by rw [hStage]; rfl) (by rw [hStage]; rfl) h.peak fun _ => hUntaken (.inl hStage)
    | some t => exact h.take hc (.inl hStage) hTake
  | acquire _ =>
    simp only [Admissions.stepConnection] at hStep
    split_ifs at hStep with hStage
    obtain rfl := Option.some.inj hStep
    cases hTake : s.take i c with
    | none => exact h.setStage hc (by rw [hStage]; rfl) (by rw [hStage]; rfl) fun _ => hUntaken (.inr (.inl hStage))
    | some t => exact h.take hc (.inr hStage) hTake
  | poll _ =>
    simp only [Admissions.stepConnection] at hStep
    split_ifs at hStep with hStage
    obtain rfl := Option.some.inj hStep
    exact h.setStage hc (by rw [hStage]; rfl) (by rw [hStage]; rfl) (by simp)
  | timeout _ =>
    simp only [Admissions.stepConnection] at hStep
    split_ifs at hStep with hWaits
    obtain rfl := Option.some.inj hStep
    exact h.move hc (by rw [hWaits.1]; rfl) (by rw [hWaits.1]; rfl) h.peak (by simp)
  | admission _ =>
    simp only [Admissions.stepConnection] at hStep
    split_ifs at hStep with hStage
    obtain rfl := Option.some.inj hStep
    -- this connection owns a permit that is not counted yet
    have hLive : s.metrics.physicalConnectionsLive + 1 ≤ n := by
      have hOwnedSum := owned_set hc { c with stage := .gone }
      have hHeldSum := held_set hc { c with stage := .gone }
      have hRest : heldOf (s.connections.set i { c with stage := .gone }) ≤
          ownedOf (s.connections.set i { c with stage := .gone }) := held_le_owned _
      have hCounted := h.counted
      have hConserved := h.conserved
      simp only [hStage, Stage.owned, Stage.held] at hOwnedSum hHeldSum
      omega
    exact h.move hc (by rw [hStage]; rfl) (by rw [hStage]; rfl) (max_le h.peak hLive) (by simp)
  | connected _ =>
    simp only [Admissions.stepConnection] at hStep
    split_ifs at hStep with hStage
    obtain rfl := Option.some.inj hStep
    exact h.setStage hc (by rw [hStage]; rfl) (by rw [hStage]; rfl) (by simp)
  | connectFails _ =>
    simp only [Admissions.stepConnection] at hStep
    split_ifs at hStep with hStage
    obtain rfl := Option.some.inj hStep
    exact h.uncount hc (by rw [hStage]; rfl) (by rw [hStage]; rfl)
  | cancel _ =>
    simp only [Admissions.stepConnection] at hStep
    split_ifs at hStep with hStage
    · obtain rfl := Option.some.inj hStep
      exact h.uncount hc (by rw [hStage]; rfl) (by rw [hStage]; rfl)
    · obtain ⟨stage, hCancelled, rfl⟩ := Option.map_eq_some_iff.mp hStep
      cases hBefore : c.stage <;> rw [hBefore] at hCancelled <;> cases hCancelled
      all_goals exact h.setStage hc (by rw [hBefore]; rfl) (by rw [hBefore]; rfl) (by simp)
  | handOff _ =>
    simp only [Admissions.stepConnection] at hStep
    split_ifs at hStep with hStage
    obtain rfl := Option.some.inj hStep
    exact h.setStage hc (by rw [hStage]; rfl) (by rw [hStage]; rfl) (by simp)
  | holdGuard _ =>
    simp only [Admissions.stepConnection] at hStep
    split_ifs at hStep with hStage
    obtain rfl := Option.some.inj hStep
    exact h.setStage hc (by rw [hStage]; rfl) (by rw [hStage]; rfl) (by simp)
  | drop _ =>
    simp only [Admissions.stepConnection] at hStep
    split_ifs at hStep with hStage
    obtain rfl := Option.some.inj hStep
    rcases hStage with hStage | hStage
    · exact h.uncount hc (by rw [hStage]; rfl) (by rw [hStage]; rfl)
    · exact h.uncount hc (by rw [hStage]; rfl) (by rw [hStage]; rfl)
  | giveBack _ next =>
    simp only [Admissions.stepConnection] at hStep
    split_ifs at hStep with hStage
    exact h.giveBack hc hStage hStep

theorem Inv.call (h : Inv n s) : Inv n { s with connections := s.connections ++ [⟨.calling, 0, 0⟩] } := by
  have hHeld : heldOf (s.connections ++ [⟨.calling, 0, 0⟩]) = heldOf s.connections := by
    rw [heldOf, tally_append]
    rfl
  have hOwned : ownedOf (s.connections ++ [⟨.calling, 0, 0⟩]) = ownedOf s.connections := by
    rw [ownedOf, tally_append]
    rfl
  refine ⟨h.counted.trans hHeld.symm, ?_, h.peak, ?_⟩
  · exact (congrArg (s.semaphore.permits + ·) hOwned).trans h.conserved
  · intro c hc
    rcases List.mem_append.mp hc with hc | hc
    · exact h.accounted c hc
    · obtain rfl := List.mem_singleton.mp hc
      exact ⟨rfl, Nat.zero_le 1, fun _ => rfl⟩

theorem Inv.step (h : Inv n s) {a : AdmissionAction} (hStep : s.step config a = some s') : Inv n s' := by
  cases a with
  | call =>
    simp only [Admissions.step] at hStep
    split_ifs at hStep
    · obtain rfl := Option.some.inj hStep
      exact h
    · obtain rfl := Option.some.inj hStep
      exact h.call
  | tryAcquire i | acquire i | poll i | timeout i | admission i | connected i | connectFails i | cancel i | handOff i
  | holdGuard i | drop i | giveBack i _ =>
    obtain ⟨c, hc, hConnection⟩ := Option.bind_eq_some_iff.mp hStep
    exact h.stepConnection hc hConnection

theorem admission_sound {admissionTimeout : Option Nat}
    (h : Reachable (step (.fromPolicy ⟨some n, admissionTimeout⟩)) (new n) s) : s.Sound n := by
  apply Inv.sound
  apply h.invariant inv_new
  intro s a s' _ hInv _ hStep
  exact hInv.step hStep

theorem admission_sound_handed_over :
    ∃ s, Reachable (step (.fromPolicy ⟨some 1, some 5⟩)) (new 1) s ∧ s.Sound 1 ∧
      s.connections.map (·.stage) = [.upgraded, .gone] := by
  have hRun : run (step (.fromPolicy ⟨some 1, some 5⟩)) (new 1)
      [.call, .tryAcquire 0, .admission 0, .call, .tryAcquire 1, .acquire 1, .connected 0, .handOff 0, .holdGuard 0,
        .timeout 1] =
      some ⟨⟨0, false⟩, ⟨1, 1, 1, 1⟩, [⟨.upgraded, 1, 0⟩, ⟨.gone, 0, 0⟩]⟩ := rfl
  exact ⟨_, Reaches.start.run hRun, admission_sound (Reaches.start.run hRun), rfl⟩

end Admissions
end Eggfetch.Transport
