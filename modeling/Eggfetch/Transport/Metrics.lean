import Eggfetch.Transport.Admission
import Mathlib.Data.Finset.Card
import Mathlib.Data.List.Induction
import Mathlib.Data.List.Nodup
import Mathlib.Order.Bounds.Basic

/-! The counters of `metrics.rs` below the sections of `Admissions`. Counting an admitted connection is one `fetch_add` and a
loop of exchanges; each operation on a counter is a step, and the steps of all permits interleave. -/
namespace Eggfetch.Transport
open Transition

/-- Where the life of one `AdmissionPermit` is, with the local variables of `record_physical_connection_admitted`. -/
inductive Counting
  | starting
  /-- `fetch_add` has returned. -/
  | counted (live : Nat)
  /-- In the loop. -/
  | comparing (live highWater : Nat)
  /-- The call has returned, and the permit is held. -/
  | held (live : Nat)
  | dropped (live : Nat)

inductive CountingAction
  /-- `AdmissionPermit::new` is called. -/
  | new
  | fetchAdd (i : Nat)
  | load (i : Nat)
  /-- A weak exchange may fail though the values agree. -/
  | exchange (i : Nat) (spurious : Bool)
  | drop (i : Nat)
deriving DecidableEq

structure Counters where
  metrics : TransportMetrics
  permits : List Counting

def Counting.test (live highWater : Nat) : Counting :=
  if highWater < live then .comparing live highWater else .held live

namespace Counters

def start : Counters := ⟨⟨0, 0, 0, 0⟩, []⟩

def set (s : Counters) (i : Nat) (c : Counting) : Counters := { s with permits := s.permits.set i c }

def stepPermit (s : Counters) (c : Counting) : CountingAction → Option Counters
  | .fetchAdd i =>
    match c with
    | .starting =>
      let live := s.metrics.physicalConnectionsLive + 1
      some { s.set i (.counted live) with metrics := { s.metrics with physicalConnectionsLive := live } }
    | _ => none
  | .load i =>
    match c with
    | .counted live => some (s.set i (.test live s.metrics.physicalConnectionsHighWater))
    | _ => none
  | .exchange i spurious =>
    match c with
    | .comparing live highWater =>
      if !spurious ∧ s.metrics.physicalConnectionsHighWater = highWater then
        some { s.set i (.held live) with metrics := { s.metrics with physicalConnectionsHighWater := live } }
      else some (s.set i (.test live s.metrics.physicalConnectionsHighWater))
    | _ => none
  | .drop i =>
    match c with
    | .held live => some { s.set i (.dropped live) with metrics := s.metrics.released }
    | _ => none
  | .new => none

def step (s : Counters) (a : CountingAction) : Option Counters :=
  match a with
  | .new => some { s with permits := s.permits ++ [.starting] }
  | .fetchAdd i | .load i | .exchange i _ | .drop i => s.permits[i]?.bind fun c => s.stepPermit c a

end Counters

/-- A permit as `Admissions` counts it, in the step of its `fetch_add`. -/
def CountingAction.atomic (m : TransportMetrics) : CountingAction → TransportMetrics
  | .fetchAdd _ => m.admitted
  | .drop _ => m.released
  | .new | .load _ | .exchange _ _ => m

def atomicMetrics (acts : List CountingAction) : TransportMetrics := acts.foldl CountingAction.atomic ⟨0, 0, 0, 0⟩

def exchangesOf (i : Nat) (acts : List CountingAction) : Nat := acts.count (.exchange i false)

namespace Counting

/-- Between its `fetch_add` and its `fetch_sub`. -/
def live : Counting → Nat
  | .counted _ | .comparing _ _ | .held _ => 1
  | _ => 0

def pending : Counting → Option Nat
  | .counted live | .comparing live _ => some live
  | _ => none

/-- A permit between calls: what it counted, under the mark `highWater` and the mark `peak` of the atomic counters, after `n`
exchanges. -/
def Within (highWater peak n : Nat) : Counting → Prop
  | .starting => n = 0
  | .counted live => n = 0 ∧ live ≤ peak
  | .comparing live seen => n ≤ seen ∧ seen < live ∧ seen ≤ highWater ∧ live ≤ peak
  | .held live | .dropped live => n ≤ live ∧ live ≤ highWater

end Counting

/-- What the counters are after a history. -/
structure Counters.Linear (acts : List CountingAction) (s : Counters) : Prop where
  live : s.metrics.physicalConnectionsLive = (atomicMetrics acts).physicalConnectionsLive
  below : s.metrics.physicalConnectionsHighWater ≤ (atomicMetrics acts).physicalConnectionsHighWater
  waits : s.metrics.physicalAdmissionWaits = (atomicMetrics acts).physicalAdmissionWaits
  timeouts : s.metrics.physicalAdmissionTimeouts = (atomicMetrics acts).physicalAdmissionTimeouts
  counted : s.metrics.physicalConnectionsLive = tally Counting.live s.permits
  within : ∀ (i : Nat) (c : Counting), s.permits[i]? = some c → c.Within s.metrics.physicalConnectionsHighWater
    (atomicMetrics acts).physicalConnectionsHighWater (exchangesOf i acts)
  fresh : ∀ i, s.permits.length ≤ i → exchangesOf i acts = 0
  /-- A mark that is still to be raised is raised by one of the calls. -/
  attained : s.metrics.physicalConnectionsHighWater = (atomicMetrics acts).physicalConnectionsHighWater ∨
    ∃ (i : Nat) (c : Counting), s.permits[i]? = some c ∧ c.pending = some (atomicMetrics acts).physicalConnectionsHighWater

namespace Counters
variable {acts : List CountingAction} {a : CountingAction} {s s' : Counters} {i : Nat} {c : Counting}

theorem atomicMetrics_append (acts : List CountingAction) (a : CountingAction) :
    atomicMetrics (acts ++ [a]) = a.atomic (atomicMetrics acts) := List.foldl_concat ..

theorem exchangesOf_append (i : Nat) (acts : List CountingAction) (a : CountingAction) :
    exchangesOf i (acts ++ [a]) = exchangesOf i acts + if a = .exchange i false then 1 else 0 := by
  rw [exchangesOf, List.count_append, List.count_singleton]
  simp only [beq_iff_eq]
  rfl

/-- An exchange that is not this permit's. -/
theorem exchangesOf_other {j : Nat} (hOther : ∀ spurious, a ≠ .exchange j spurious) :
    exchangesOf j (acts ++ [a]) = exchangesOf j acts := by
  rw [exchangesOf_append, if_neg (hOther false), Nat.add_zero]

theorem atomic_peak (a : CountingAction) (m : TransportMetrics) :
    m.physicalConnectionsHighWater ≤ (a.atomic m).physicalConnectionsHighWater := by
  cases a with
  | fetchAdd i => exact Nat.le_max_left _ _
  | new | load i | exchange i spurious | drop i => exact le_rfl

theorem within_mono {high high' peak peak' n : Nat} (hHigh : high ≤ high') (hPeak : peak ≤ peak') (h : c.Within high peak n) :
    c.Within high' peak' n := by
  cases c with
  | starting => exact h
  | counted live => exact ⟨h.1, h.2.trans hPeak⟩
  | comparing live seen => exact ⟨h.1, h.2.1, h.2.2.1.trans hHigh, h.2.2.2.trans hPeak⟩
  | held live | dropped live => exact ⟨h.1, h.2.trans hHigh⟩

theorem linear_start : Linear [] start := by
  refine ⟨rfl, le_rfl, rfl, rfl, rfl, ?_, fun i _ => rfl, .inl rfl⟩
  intro i c hc
  cases hc

theorem Linear.new (h : s.Linear acts) : Linear (acts ++ [.new]) { s with permits := s.permits ++ [.starting] } := by
  have hAtomic : atomicMetrics (acts ++ [.new]) = atomicMetrics acts := atomicMetrics_append acts .new
  have hExchanges : ∀ i, exchangesOf i (acts ++ [.new]) = exchangesOf i acts := fun i => exchangesOf_other fun _ => by simp
  refine ⟨?_, ?_, ?_, ?_, ?_, ?_, ?_, ?_⟩
  · rw [hAtomic]
    exact h.live
  · rw [hAtomic]
    exact h.below
  · rw [hAtomic]
    exact h.waits
  · rw [hAtomic]
    exact h.timeouts
  · rw [tally_append]
    exact h.counted
  · intro i c hc
    rw [hAtomic, hExchanges]
    rw [List.getElem?_append] at hc
    split at hc
    · exact h.within i c hc
    · rename_i hOut
      obtain rfl : c = .starting := List.mem_singleton.mp (List.mem_of_getElem? hc)
      exact h.fresh i (Nat.not_lt.mp hOut)
  · intro i hi
    rw [hExchanges]
    exact h.fresh i ((Nat.le_add_right _ _).trans (List.length_append ▸ hi))
  · rw [hAtomic]
    refine h.attained.imp id ?_
    rintro ⟨i, c, hc, hPending⟩
    refine ⟨i, c, ?_, hPending⟩
    rw [List.getElem?_append_left (List.getElem?_eq_some_iff.mp hc).1, hc]

/-- One permit goes on, and the marks with it. -/
theorem Linear.move (h : s.Linear acts) (hc : s.permits[i]? = some c) {c' : Counting} {metrics : TransportMetrics}
    (hOther : ∀ j, j ≠ i → ∀ spurious, a ≠ .exchange j spurious)
    (hLive : metrics.physicalConnectionsLive = (a.atomic (atomicMetrics acts)).physicalConnectionsLive)
    (hBelow : metrics.physicalConnectionsHighWater ≤ (a.atomic (atomicMetrics acts)).physicalConnectionsHighWater)
    (hRest : metrics.physicalAdmissionWaits = s.metrics.physicalAdmissionWaits ∧
      metrics.physicalAdmissionTimeouts = s.metrics.physicalAdmissionTimeouts)
    (hCounted : metrics.physicalConnectionsLive + c.live = s.metrics.physicalConnectionsLive + c'.live)
    (hRaised : s.metrics.physicalConnectionsHighWater ≤ metrics.physicalConnectionsHighWater)
    (hWithin : c'.Within metrics.physicalConnectionsHighWater (a.atomic (atomicMetrics acts)).physicalConnectionsHighWater
      (exchangesOf i (acts ++ [a])))
    (hAttained : metrics.physicalConnectionsHighWater = (a.atomic (atomicMetrics acts)).physicalConnectionsHighWater ∨
      c'.pending = some (a.atomic (atomicMetrics acts)).physicalConnectionsHighWater ∨
      (a.atomic (atomicMetrics acts)).physicalConnectionsHighWater = (atomicMetrics acts).physicalConnectionsHighWater ∧
        c.pending ≠ some (atomicMetrics acts).physicalConnectionsHighWater ∧
        (s.metrics.physicalConnectionsHighWater = (atomicMetrics acts).physicalConnectionsHighWater →
          metrics.physicalConnectionsHighWater = (atomicMetrics acts).physicalConnectionsHighWater)) :
    Linear (acts ++ [a]) { s.set i c' with metrics := metrics } := by
  have hIndex := (List.getElem?_eq_some_iff.mp hc).1
  have hSelf : (s.permits.set i c')[i]? = some c' := List.getElem?_set_self hIndex
  have hSame : ∀ {j}, j ≠ i → (s.permits.set i c')[j]? = s.permits[j]? := fun hj => List.getElem?_set_ne (Ne.symm hj)
  have hKept : (a.atomic (atomicMetrics acts)).physicalAdmissionWaits = (atomicMetrics acts).physicalAdmissionWaits ∧
      (a.atomic (atomicMetrics acts)).physicalAdmissionTimeouts = (atomicMetrics acts).physicalAdmissionTimeouts := by
    cases a <;> exact ⟨rfl, rfl⟩
  refine ⟨?_, ?_, ?_, ?_, ?_, ?_, ?_, ?_⟩
  · rw [atomicMetrics_append]
    exact hLive
  · rw [atomicMetrics_append]
    exact hBelow
  · rw [atomicMetrics_append, hKept.1, ← h.waits]
    exact hRest.1
  · rw [atomicMetrics_append, hKept.2, ← h.timeouts]
    exact hRest.2
  · have hTally := tally_set Counting.live c' hc
    have hBefore := h.counted
    change metrics.physicalConnectionsLive = tally Counting.live (s.permits.set i c')
    omega
  · intro j d hd
    rw [atomicMetrics_append]
    by_cases hj : j = i
    · obtain rfl := hj
      obtain rfl := Option.some.inj (hSelf.symm.trans hd)
      exact hWithin
    · rw [exchangesOf_other (hOther j hj)]
      exact within_mono hRaised (atomic_peak a _) (h.within j d ((hSame hj).symm.trans hd))
  · intro j hj
    have hLength : s.permits.length ≤ j := List.length_set ▸ hj
    rw [exchangesOf_other (hOther j (Nat.ne_of_gt (Nat.lt_of_lt_of_le hIndex hLength)))]
    exact h.fresh j hLength
  · rw [atomicMetrics_append]
    rcases hAttained with hAttained | hPending | ⟨hPeak, hNot, hMark⟩
    · exact .inl hAttained
    · exact .inr ⟨i, c', hSelf, hPending⟩
    · rw [hPeak]
      refine h.attained.imp hMark ?_
      rintro ⟨j, d, hd, hPending⟩
      by_cases hj : j = i
      · obtain rfl := hj
        obtain rfl := Option.some.inj (hc.symm.trans hd)
        exact absurd hPending hNot
      · exact ⟨j, d, (hSame hj).trans hd, hPending⟩

/-- A call that has read the mark writes, or finds its number below it. -/
theorem Linear.test (h : s.Linear acts) (hc : s.permits[i]? = some c) {live seen : Nat} (hPending : c.pending = some live)
    (hCounts : c.live = 1) (hLe : live ≤ (atomicMetrics acts).physicalConnectionsHighWater)
    (hOther : ∀ j, j ≠ i → ∀ spurious, a ≠ .exchange j spurious) (hSame : ∀ m : TransportMetrics, a.atomic m = m)
    (hSeen : seen = s.metrics.physicalConnectionsHighWater)
    (hExchanges : exchangesOf i (acts ++ [a]) ≤ seen ∧ exchangesOf i (acts ++ [a]) ≤ live) :
    Linear (acts ++ [a]) (s.set i (.test live seen)) := by
  have hBelow := h.below
  have hMetrics : s.set i (.test live seen) = { s.set i (.test live seen) with metrics := s.metrics } := rfl
  have hPeak : (a.atomic (atomicMetrics acts)) = atomicMetrics acts := hSame _
  rw [hMetrics]
  unfold Counting.test
  split
  · rename_i hLess
    refine h.move hc hOther (by rw [hPeak, h.live]) (by rw [hPeak]; exact hBelow) ⟨rfl, rfl⟩ (by rw [hCounts]; rfl) le_rfl ?_ ?_
    · rw [hPeak]
      exact ⟨hExchanges.1, hLess, hSeen.le, hLe⟩
    · rw [hPeak]
      by_cases hTop : live = (atomicMetrics acts).physicalConnectionsHighWater
      · exact .inr (.inl (congrArg some hTop))
      · refine .inr (.inr ⟨rfl, ?_, id⟩)
        rw [hPending]
        exact fun hEq => hTop (Option.some.inj hEq)
  · rename_i hNotLess
    have hMark : live ≤ s.metrics.physicalConnectionsHighWater := hSeen ▸ Nat.not_lt.mp hNotLess
    refine h.move hc hOther (by rw [hPeak, h.live]) (by rw [hPeak]; exact hBelow) ⟨rfl, rfl⟩ (by rw [hCounts]; rfl) le_rfl
      ⟨hExchanges.2, hMark⟩ ?_
    rw [hPeak]
    by_cases hTop : live = (atomicMetrics acts).physicalConnectionsHighWater
    · exact .inl (hBelow.antisymm (hTop ▸ hMark))
    · refine .inr (.inr ⟨rfl, ?_, id⟩)
      rw [hPending]
      exact fun hEq => hTop (Option.some.inj hEq)

theorem Linear.fetchAdd (h : s.Linear acts) (hc : s.permits[i]? = some .starting) :
    Linear (acts ++ [.fetchAdd i]) { s.set i (.counted (s.metrics.physicalConnectionsLive + 1)) with
      metrics := { s.metrics with physicalConnectionsLive := s.metrics.physicalConnectionsLive + 1 } } := by
  have hLive := h.live
  have hBelow := h.below
  have hNone : exchangesOf i acts = 0 := h.within i _ hc
  refine h.move hc (by simp) (by rw [hLive]; rfl) ?_ ⟨rfl, rfl⟩ rfl le_rfl ?_ ?_
  · exact hBelow.trans (Nat.le_max_left _ _)
  · refine ⟨(exchangesOf_other (by simp)).trans hNone, ?_⟩
    rw [hLive]
    exact Nat.le_max_right _ _
  · rcases le_or_gt ((atomicMetrics acts).physicalConnectionsLive + 1)
      (atomicMetrics acts).physicalConnectionsHighWater with hLe | hLess
    · exact .inr (.inr ⟨Nat.max_eq_left hLe, by simp [Counting.pending], id⟩)
    · refine .inr (.inl ?_)
      rw [hLive]
      exact congrArg some (Nat.max_eq_right hLess.le).symm

theorem Linear.load (h : s.Linear acts) {live : Nat} (hc : s.permits[i]? = some (.counted live)) :
    Linear (acts ++ [.load i]) (s.set i (.test live s.metrics.physicalConnectionsHighWater)) := by
  obtain ⟨hNone, hLe⟩ := h.within i _ hc
  have hZero : exchangesOf i (acts ++ [.load i]) = 0 := (exchangesOf_other (by simp)).trans hNone
  exact h.test hc rfl rfl hLe (by simp) (fun _ => rfl) rfl ⟨hZero.le.trans (Nat.zero_le _), hZero.le.trans (Nat.zero_le _)⟩

theorem Linear.exchange (h : s.Linear acts) {live seen : Nat} (hc : s.permits[i]? = some (.comparing live seen))
    (spurious : Bool) :
    Linear (acts ++ [.exchange i spurious]) (if !spurious ∧ s.metrics.physicalConnectionsHighWater = seen then
        { s.set i (.held live) with metrics := { s.metrics with physicalConnectionsHighWater := live } }
      else s.set i (.test live s.metrics.physicalConnectionsHighWater)) := by
  obtain ⟨hFew, hLess, hSeen, hLe⟩ := h.within i _ hc
  have hOther : ∀ j, j ≠ i → ∀ spurious', CountingAction.exchange i spurious ≠ .exchange j spurious' := by
    intro j hj spurious' hEq
    exact hj (CountingAction.exchange.inj hEq).1.symm
  have hMore : exchangesOf i (acts ++ [.exchange i spurious]) ≤ exchangesOf i acts + 1 := by
    rw [exchangesOf_append]
    split <;> omega
  split
  · rename_i hExchanged
    have hMark := hExchanged.2
    refine h.move hc hOther h.live hLe ⟨rfl, rfl⟩ rfl (by rw [hMark]; exact hLess.le)
      ⟨hMore.trans (Nat.lt_of_le_of_lt hFew hLess), le_rfl⟩ ?_
    by_cases hTop : live = (atomicMetrics acts).physicalConnectionsHighWater
    · exact .inl hTop
    · refine .inr (.inr ⟨rfl, fun hEq => hTop (Option.some.inj hEq), fun hAll => ?_⟩)
      omega
  · rename_i hKept
    refine h.test hc rfl rfl hLe hOther (fun _ => rfl) rfl ⟨?_, hMore.trans (Nat.lt_of_le_of_lt hFew hLess)⟩
    -- An exchange that fails for a reason has found the mark raised.
    cases spurious with
    | true =>
      rw [exchangesOf_append, if_neg (by simp)]
      exact hFew.trans hSeen
    | false =>
      have hRaised : s.metrics.physicalConnectionsHighWater ≠ seen := fun hEq => hKept ⟨rfl, hEq⟩
      omega

theorem Linear.drop (h : s.Linear acts) {live : Nat} (hc : s.permits[i]? = some (.held live)) :
    Linear (acts ++ [.drop i]) { s.set i (.dropped live) with metrics := s.metrics.released } := by
  have hPositive : 1 ≤ s.metrics.physicalConnectionsLive := by
    rw [h.counted]
    exact le_tally Counting.live (List.mem_of_getElem? hc)
  have hWithin := h.within i _ hc
  refine h.move hc (by simp) ?_ h.below ⟨rfl, rfl⟩ ?_ le_rfl ?_ (.inr (.inr ⟨rfl, by simp [Counting.pending], id⟩))
  · exact congrArg (· - 1) h.live
  · exact Nat.sub_add_cancel hPositive
  · rw [exchangesOf_other (by simp)]
    exact hWithin

theorem Linear.step (h : s.Linear acts) (hStep : s.step a = some s') : s'.Linear (acts ++ [a]) := by
  cases a with
  | new =>
    obtain rfl := Option.some.inj hStep
    exact h.new
  | fetchAdd i =>
    obtain ⟨c, hc, hNext⟩ := Option.bind_eq_some_iff.mp hStep
    cases c with
    | starting =>
      obtain rfl := Option.some.inj hNext
      exact h.fetchAdd hc
    | counted _ | comparing _ _ | held _ | dropped _ => cases hNext
  | load i =>
    obtain ⟨c, hc, hNext⟩ := Option.bind_eq_some_iff.mp hStep
    cases c with
    | counted live =>
      obtain rfl := Option.some.inj hNext
      exact h.load hc
    | starting | comparing _ _ | held _ | dropped _ => cases hNext
  | exchange i spurious =>
    obtain ⟨c, hc, hNext⟩ := Option.bind_eq_some_iff.mp hStep
    cases c with
    | comparing live seen =>
      have hExchange := h.exchange hc spurious
      rw [stepPermit] at hNext
      split at hNext
      · rename_i hKept
        rw [if_pos hKept] at hExchange
        obtain rfl := Option.some.inj hNext
        exact hExchange
      · rename_i hKept
        rw [if_neg hKept] at hExchange
        obtain rfl := Option.some.inj hNext
        exact hExchange
    | starting | counted _ | held _ | dropped _ => cases hNext
  | drop i =>
    obtain ⟨c, hc, hNext⟩ := Option.bind_eq_some_iff.mp hStep
    cases c with
    | held live =>
      obtain rfl := Option.some.inj hNext
      exact h.drop hc
    | starting | counted _ | comparing _ _ | dropped _ => cases hNext

private theorem Linear.run (hRun : Transition.run Counters.step start acts = some s) : s.Linear acts := by
  induction acts using List.reverseRecOn generalizing s with
  | nil =>
    obtain rfl : start = s := by simpa using hRun
    exact linear_start
  | append_singleton acts a ih =>
    rw [run_append] at hRun
    obtain ⟨t, ht, hLast⟩ := Option.bind_eq_some_iff.mp hRun
    rw [run_cons] at hLast
    obtain ⟨t', hStep, hEnd⟩ := Option.bind_eq_some_iff.mp hLast
    obtain rfl := Option.some.inj hEnd
    exact (ih ht).step hStep

private theorem peak_isGreatest (acts : List CountingAction) :
    IsGreatest { n | ∃ front, front <+: acts ∧ n = (atomicMetrics front).physicalConnectionsLive }
      (atomicMetrics acts).physicalConnectionsHighWater := by
  induction acts using List.reverseRecOn with
  | nil =>
    refine ⟨⟨[], List.prefix_rfl, rfl⟩, ?_⟩
    rintro n ⟨front, hFront, rfl⟩
    obtain rfl := List.prefix_nil.mp hFront
    exact le_rfl
  | append_singleton acts a ih =>
    obtain ⟨⟨front, hFront, hTop⟩, hUpper⟩ := ih
    have hOld : front <+: acts ++ [a] := hFront.trans (List.prefix_append _ _)
    have hCases : (atomicMetrics (acts ++ [a])).physicalConnectionsHighWater = (atomicMetrics acts).physicalConnectionsHighWater ∨
        (atomicMetrics (acts ++ [a])).physicalConnectionsHighWater = (atomicMetrics (acts ++ [a])).physicalConnectionsLive := by
      rw [atomicMetrics_append]
      cases a with
      | fetchAdd i => exact max_choice _ _
      | new | load i | exchange i spurious | drop i => exact .inl rfl
    have hLast : (atomicMetrics (acts ++ [a])).physicalConnectionsLive ≤
        (atomicMetrics (acts ++ [a])).physicalConnectionsHighWater := by
      have hBefore := hUpper ⟨acts, List.prefix_rfl, rfl⟩
      rw [atomicMetrics_append]
      cases a with
      | fetchAdd i => exact Nat.le_max_right _ _
      | drop i => exact (Nat.sub_le _ _).trans hBefore
      | new | load i | exchange i spurious => exact hBefore
    constructor
    · rcases hCases with hSame | hNow
      · exact ⟨front, hOld, hSame.trans hTop⟩
      · exact ⟨_, List.prefix_rfl, hNow⟩
    · rintro n ⟨front', hFront', rfl⟩
      rcases List.prefix_concat_iff.mp hFront' with rfl | hEarlier
      · exact hLast
      · refine (hUpper ⟨front', hEarlier, rfl⟩).trans ?_
        rw [atomicMetrics_append]
        exact atomic_peak a _

/-- At every point of every interleaving the live counter is exact, and the mark is no more than the largest number ever live;
it is that number when no call is in its loop. A call that has returned is under the mark, and it has made no more exchanges
that count than the number it counted. -/
theorem highWater_linearizes (hRun : Transition.run step start acts = some s) :
    s.metrics.physicalConnectionsLive = tally Counting.live s.permits ∧
    s.metrics.physicalConnectionsHighWater ≤ (atomicMetrics acts).physicalConnectionsHighWater ∧
    IsGreatest { n | ∃ front, front <+: acts ∧ n = (atomicMetrics front).physicalConnectionsLive }
      (atomicMetrics acts).physicalConnectionsHighWater ∧
    ((∀ c ∈ s.permits, c.pending = none) → s.metrics = atomicMetrics acts) ∧
    ∀ i live, s.permits[i]? = some (.held live) ∨ s.permits[i]? = some (.dropped live) →
      live ≤ s.metrics.physicalConnectionsHighWater ∧ exchangesOf i acts ≤ live := by
  have hLinear := Linear.run hRun
  refine ⟨hLinear.counted, hLinear.below, peak_isGreatest acts, ?_, ?_⟩
  · intro hIdle
    have hMark : s.metrics.physicalConnectionsHighWater = (atomicMetrics acts).physicalConnectionsHighWater := by
      refine hLinear.attained.elim id ?_
      rintro ⟨i, c, hc, hPending⟩
      rw [hIdle c (List.mem_of_getElem? hc)] at hPending
      cases hPending
    have hLive := hLinear.live
    have hWaits := hLinear.waits
    have hTimeouts := hLinear.timeouts
    cases hMetrics : s.metrics with
    | mk waits timeouts live mark =>
      rw [hMetrics] at hMark hLive hWaits hTimeouts
      cases hAtomic : atomicMetrics acts with
      | mk waits' timeouts' live' mark' =>
        rw [hAtomic] at hMark hLive hWaits hTimeouts
        cases hMark
        cases hLive
        cases hWaits
        cases hTimeouts
        rfl
  · rintro i live (hc | hc)
    · exact (hLinear.within i _ hc).symm
    · exact (hLinear.within i _ hc).symm

def contended : List CountingAction :=
  [.new, .new, .fetchAdd 0, .fetchAdd 1, .load 0, .load 1, .exchange 1 true, .exchange 1 false, .exchange 0 false, .drop 1]

theorem highWater_linearizes_contended :
    (⟨⟨0, 0, 1, 2⟩, [.held 1, .dropped 2]⟩ : Counters).metrics = atomicMetrics contended := by
  have hRun : Transition.run step start contended = some ⟨⟨0, 0, 1, 2⟩, [.held 1, .dropped 2]⟩ := rfl
  refine (highWater_linearizes hRun).2.2.2.1 ?_
  intro c hc
  rcases List.mem_cons.mp hc with rfl | hc
  · rfl
  · obtain rfl := List.mem_singleton.mp hc
    rfl

end Counters

/-- What is read of a snapshot, and the values that are only copied. -/
structure H3ConnectionDiagnostic (V : Type) where
  stableId : Nat
  values : V

variable {V : Type} {diagnostics records : List (H3ConnectionDiagnostic V)} {d e : H3ConnectionDiagnostic V}

/-- The latest snapshot of a connection stands in the place of its first. -/
def recordH3Diagnostic (diagnostics : List (H3ConnectionDiagnostic V)) (diagnostic : H3ConnectionDiagnostic V) :
    List (H3ConnectionDiagnostic V) :=
  match diagnostics.findIdx? (·.stableId = diagnostic.stableId) with
  | some i => diagnostics.set i diagnostic
  | none => (if 64 ≤ diagnostics.length then diagnostics.tail else diagnostics) ++ [diagnostic]

/-- `h3_diagnostics` after some records. -/
def h3Diagnostics (records : List (H3ConnectionDiagnostic V)) : List (H3ConnectionDiagnostic V) :=
  records.foldl recordH3Diagnostic []

def H3ConnectionDiagnostic.ids (l : List (H3ConnectionDiagnostic V)) : List Nat := l.map (·.stableId)

open H3ConnectionDiagnostic (ids)

theorem h3Diagnostics_append (records : List (H3ConnectionDiagnostic V)) (d : H3ConnectionDiagnostic V) :
    h3Diagnostics (records ++ [d]) = recordH3Diagnostic (h3Diagnostics records) d := List.foldl_concat ..

/-- A known connection keeps its place; a new one comes last, and the oldest makes room for it. -/
theorem recordH3Diagnostic_cases (diagnostics : List (H3ConnectionDiagnostic V)) (d : H3ConnectionDiagnostic V) :
    (∃ front old back, diagnostics = front ++ old :: back ∧ old.stableId = d.stableId ∧
      recordH3Diagnostic diagnostics d = front ++ d :: back) ∨
    d.stableId ∉ ids diagnostics ∧ diagnostics.length < 64 ∧ recordH3Diagnostic diagnostics d = diagnostics ++ [d] ∨
    d.stableId ∉ ids diagnostics ∧ 64 ≤ diagnostics.length ∧ recordH3Diagnostic diagnostics d = diagnostics.tail ++ [d] := by
  rw [recordH3Diagnostic]
  cases hFind : diagnostics.findIdx? (·.stableId = d.stableId) with
  | some i =>
    obtain ⟨hIndex, hSame, -⟩ := List.findIdx?_eq_some_iff_getElem.mp hFind
    refine .inl ⟨diagnostics.take i, diagnostics[i], diagnostics.drop (i + 1), ?_, of_decide_eq_true hSame, ?_⟩
    · rw [List.getElem_cons_drop, List.take_append_drop]
    · exact List.set_eq_take_append_cons_drop .. |>.trans (if_pos hIndex)
  | none =>
    have hNew : d.stableId ∉ ids diagnostics := by
      intro hMem
      obtain ⟨old, hOld, hSame⟩ := List.mem_map.mp hMem
      have hNot := List.findIdx?_eq_none_iff.mp hFind old hOld
      rw [decide_eq_false_iff_not] at hNot
      exact hNot hSame
    right
    rcases Nat.lt_or_ge diagnostics.length 64 with hRoom | hFull
    · exact .inl ⟨hNew, hRoom, by rw [if_neg (Nat.not_le.mpr hRoom)]⟩
    · exact .inr ⟨hNew, hFull, by rw [if_pos hFull]⟩

/-- What the snapshots are after some records. -/
structure H3ConnectionDiagnostic.Sound (records diagnostics : List (H3ConnectionDiagnostic V)) : Prop where
  bounded : diagnostics.length ≤ 64
  nodup : (ids diagnostics).Nodup
  latest : ∀ d ∈ diagnostics, records.reverse.find? (·.stableId = d.stableId) = some d

theorem ids_replace {front back : List (H3ConnectionDiagnostic V)} (hSame : e.stableId = d.stableId) :
    ids (front ++ d :: back) = ids (front ++ e :: back) := by
  rw [ids, ids, List.map_append, List.map_append, List.map_cons, List.map_cons, hSame]

theorem ids_concat (l : List (H3ConnectionDiagnostic V)) (d : H3ConnectionDiagnostic V) :
    ids (l ++ [d]) = ids l ++ [d.stableId] :=
  List.map_append

private theorem nodup_concat {l : List Nat} {n : Nat} (h : l.Nodup) (hNew : n ∉ l) : (l ++ [n]).Nodup := by
  rw [List.nodup_append]
  refine ⟨h, List.nodup_singleton n, ?_⟩
  rintro m hm k hk rfl
  exact hNew (List.mem_singleton.mp hk ▸ hm)

theorem find_latest (records : List (H3ConnectionDiagnostic V)) (d : H3ConnectionDiagnostic V) :
    (records ++ [d]).reverse.find? (·.stableId = d.stableId) = some d := by
  rw [List.reverse_append, List.reverse_singleton, List.singleton_append, List.find?_cons, decide_eq_true rfl]

theorem H3ConnectionDiagnostic.Sound.latest_other (h : Sound records diagnostics) (he : e ∈ diagnostics)
    (hNe : e.stableId ≠ d.stableId) :
    (records ++ [d]).reverse.find? (·.stableId = e.stableId) = some e := by
  rw [List.reverse_append, List.reverse_singleton, List.singleton_append, List.find?_cons_of_neg (by simpa using Ne.symm hNe)]
  exact h.latest e he

private theorem H3ConnectionDiagnostic.Sound.concat (h : Sound records diagnostics) {kept : List (H3ConnectionDiagnostic V)}
    (hSub : List.Sublist kept diagnostics) (hNew : d.stableId ∉ ids diagnostics) (hRoom : kept.length < 64) :
    Sound (records ++ [d]) (kept ++ [d]) := by
  have hIds : List.Sublist (ids kept) (ids diagnostics) := hSub.map _
  refine ⟨?_, ?_, ?_⟩
  · rw [List.length_append, List.length_singleton]
    exact hRoom
  · rw [ids_concat]
    exact nodup_concat (h.nodup.sublist hIds) fun hMem => hNew (hIds.subset hMem)
  · intro e he
    rcases List.mem_append.mp he with hOld | hLast
    · exact h.latest_other (hSub.subset hOld) fun hEq => hNew (hEq ▸ List.mem_map_of_mem (hSub.subset hOld))
    · obtain rfl := List.mem_singleton.mp hLast
      exact find_latest records e

private theorem H3ConnectionDiagnostic.Sound.replace {front back : List (H3ConnectionDiagnostic V)}
    (h : Sound records (front ++ e :: back))
    (hSame : e.stableId = d.stableId) : Sound (records ++ [d]) (front ++ d :: back) := by
  -- The ids around the replaced snapshot are others.
  have hApart : d.stableId ∉ ids front ∧ d.stableId ∉ ids back := by
    have hNodup := h.nodup
    rw [ids, List.map_append, List.map_cons, List.nodup_middle, List.nodup_cons, List.mem_append, not_or, hSame] at hNodup
    exact hNodup.1
  refine ⟨?_, ?_, ?_⟩
  · have hBounded := h.bounded
    rw [List.length_append, List.length_cons] at hBounded ⊢
    exact hBounded
  · rw [ids_replace hSame]
    exact h.nodup
  · intro k hk
    rcases List.mem_append.mp hk with hFront | hBack
    · exact h.latest_other (List.mem_append_left _ hFront) fun hEq => hApart.1 (hEq ▸ List.mem_map_of_mem hFront)
    · rcases List.mem_cons.mp hBack with rfl | hBack
      · exact find_latest records k
      · exact h.latest_other (List.mem_append_right _ (List.mem_cons_of_mem _ hBack)) fun hEq =>
          hApart.2 (hEq ▸ List.mem_map_of_mem hBack)

theorem H3ConnectionDiagnostic.Sound.record (h : Sound records diagnostics) (d : H3ConnectionDiagnostic V) :
    Sound (records ++ [d]) (recordH3Diagnostic diagnostics d) := by
  rcases recordH3Diagnostic_cases diagnostics d with
    ⟨front, old, back, hSplit, hSame, hNext⟩ | ⟨hNew, hRoom, hNext⟩ | ⟨hNew, hFull, hNext⟩
  · rw [hNext]
    rw [hSplit] at h
    exact h.replace hSame
  · rw [hNext]
    exact h.concat (List.Sublist.refl _) hNew hRoom
  · rw [hNext]
    refine h.concat (List.tail_sublist _) hNew ?_
    have hBounded := h.bounded
    rw [List.length_tail]
    omega

theorem h3Diagnostics_sound (records : List (H3ConnectionDiagnostic V)) :
    H3ConnectionDiagnostic.Sound records (h3Diagnostics records) := by
  induction records using List.reverseRecOn with
  | nil => exact ⟨Nat.zero_le 64, List.nodup_nil, fun d hd => nomatch hd⟩
  | append_singleton records d ih =>
    rw [h3Diagnostics_append]
    exact ih.record d

/-- The place of a connection before those that came later, all of them among `later`. -/
def H3ConnectionDiagnostic.Kept (id : Nat) (later : Finset Nat) (diagnostics : List (H3ConnectionDiagnostic V)) : Prop :=
  ∃ front back, ids diagnostics = front ++ id :: back ∧ ∀ n ∈ back, n ∈ later

theorem H3ConnectionDiagnostic.Kept.record {id : Nat} {later : Finset Nat} (h : Kept id later diagnostics)
    (hNodup : (ids diagnostics).Nodup) (d : H3ConnectionDiagnostic V) (hFew : ((insert d.stableId later).erase id).card < 64) :
    Kept id (insert d.stableId later) (recordH3Diagnostic diagnostics d) := by
  obtain ⟨front, back, hIds, hBack⟩ := h
  have hGrown : ∀ n ∈ back, n ∈ insert d.stableId later := fun n hn => Finset.mem_insert_of_mem (hBack n hn)
  have hGrown' : ∀ n ∈ back ++ [d.stableId], n ∈ insert d.stableId later := by
    intro n hn
    rcases List.mem_append.mp hn with hOld | hLast
    · exact hGrown n hOld
    · obtain rfl := List.mem_singleton.mp hLast
      exact Finset.mem_insert_self _ _
  rcases recordH3Diagnostic_cases diagnostics d with
    ⟨before, old, after, hSplit, hSame, hNext⟩ | ⟨hNew, -, hNext⟩ | ⟨hNew, hFull, hNext⟩
  · refine ⟨front, back, ?_, hGrown⟩
    rw [hNext, ids_replace hSame, ← hSplit, hIds]
  · refine ⟨front, back ++ [d.stableId], ?_, hGrown'⟩
    rw [hNext, ids_concat, hIds, List.append_assoc, List.cons_append]
  · have hTail : ids diagnostics.tail = (ids diagnostics).tail := List.map_tail
    cases front with
    | cons f front =>
      refine ⟨front, back ++ [d.stableId], ?_, hGrown'⟩
      rw [hNext, ids_concat, hTail, hIds, List.cons_append, List.tail_cons, List.append_assoc, List.cons_append]
    | nil =>
      -- The oldest makes room only when 63 others came after it, and this one.
      exfalso
      rw [List.nil_append] at hIds
      have hLength : (ids diagnostics).length = diagnostics.length := List.length_map ..
      rw [hIds, List.length_cons] at hLength
      rw [hIds] at hNodup hNew
      obtain ⟨hId, hApart⟩ := List.nodup_cons.mp hNodup
      rw [List.mem_cons, not_or] at hNew
      have hAll : (d.stableId :: back).Nodup := List.nodup_cons.mpr ⟨hNew.2, hApart⟩
      have hSub : (d.stableId :: back).toFinset ⊆ (insert d.stableId later).erase id := by
        intro n hn
        rw [Finset.mem_erase]
        rcases List.mem_cons.mp (List.mem_toFinset.mp hn) with rfl | hn
        · exact ⟨hNew.1, Finset.mem_insert_self _ _⟩
        · exact ⟨fun hEq => hId (hEq ▸ hn), hGrown n hn⟩
      have hCard := Finset.card_le_card hSub
      rw [List.toFinset_card_of_nodup hAll, List.length_cons] at hCard
      omega

private theorem kept_of_first {front rest : List (H3ConnectionDiagnostic V)} (hFirst : d.stableId ∉ ids front)
    (hFew : ((ids rest).toFinset.erase d.stableId).card < 64) :
    H3ConnectionDiagnostic.Kept d.stableId (ids rest).toFinset (h3Diagnostics (front ++ d :: rest)) := by
  induction rest using List.reverseRecOn with
  | nil =>
    have hKnown : d.stableId ∉ ids (h3Diagnostics front) := by
      intro hMem
      obtain ⟨e, he, hSame⟩ := List.mem_map.mp hMem
      have hLatest := (h3Diagnostics_sound front).latest e he
      exact hFirst (List.mem_map.mpr ⟨e, List.mem_reverse.mp (List.mem_of_find?_eq_some hLatest), hSame⟩)
    rw [h3Diagnostics_append]
    rcases recordH3Diagnostic_cases (h3Diagnostics front) d with
      ⟨before, old, after, hSplit, hSame, -⟩ | ⟨-, -, hNext⟩ | ⟨-, -, hNext⟩
    · refine absurd ?_ hKnown
      rw [hSplit, ← hSame]
      exact List.mem_map_of_mem (List.mem_append_right _ List.mem_cons_self)
    · exact ⟨_, [], (congrArg ids hNext).trans (ids_concat _ _), fun n hn => nomatch hn⟩
    · exact ⟨_, [], (congrArg ids hNext).trans (ids_concat _ _), fun n hn => nomatch hn⟩
  | append_singleton rest e ih =>
    have hInsert : (ids (rest ++ [e])).toFinset = insert e.stableId (ids rest).toFinset := by
      rw [ids_concat]
      ext n
      rw [List.mem_toFinset, List.mem_append, List.mem_singleton, Finset.mem_insert, List.mem_toFinset]
      exact or_comm
    rw [hInsert] at hFew ⊢
    have hLess := Finset.card_le_card (Finset.erase_subset_erase d.stableId (Finset.subset_insert e.stableId (ids rest).toFinset))
    have hSplit : front ++ d :: (rest ++ [e]) = (front ++ d :: rest) ++ [e] := by
      rw [List.append_assoc, List.cons_append]
    rw [hSplit, h3Diagnostics_append]
    exact (ih (Nat.lt_of_le_of_lt hLess hFew)).record (h3Diagnostics_sound _).nodup e hFew

/-- After any records there are at most 64 snapshots, one for each connection and each the latest of its connection; and a
connection keeps its snapshot until 64 others have come after it. -/
theorem h3Diagnostics_retain (records : List (H3ConnectionDiagnostic V)) :
    (h3Diagnostics records).length ≤ 64 ∧ (ids (h3Diagnostics records)).Nodup ∧
    (∀ d ∈ h3Diagnostics records, records.reverse.find? (·.stableId = d.stableId) = some d) ∧
    ∀ front d rest, records = front ++ d :: rest → d.stableId ∉ ids front →
      ((ids rest).toFinset.erase d.stableId).card < 64 → ∃ e ∈ h3Diagnostics records, e.stableId = d.stableId := by
  have hSound := h3Diagnostics_sound records
  refine ⟨hSound.bounded, hSound.nodup, hSound.latest, ?_⟩
  rintro front d rest rfl hFirst hFew
  obtain ⟨before, after, hIds, -⟩ := kept_of_first hFirst hFew
  have hMem : d.stableId ∈ ids (h3Diagnostics (front ++ d :: rest)) := by
    rw [hIds]
    exact List.mem_append_right _ List.mem_cons_self
  exact List.mem_map.mp hMem

end Eggfetch.Transport
