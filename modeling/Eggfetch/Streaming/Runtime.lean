import Eggfetch.Transition.Runs
import Eggfetch.Transition.Tally

/-! The runtime of a synchronous Python client. Its owners share one `Arc`, and each that
leaves reads the count before it gives its own reference back. -/
namespace Eggfetch.Streaming
open Transition

/-- Where one reference to the `RuntimeState` is. -/
inductive Owner
  /-- In the client. -/
  | slot
  /-- The clone of `runtime_for_dispatch`, under the lock of the client. -/
  | dispatching
  | guard
  /-- `close` has taken it out of the client. -/
  | closing
  /-- In `try_shutdown`, before each of its three looks. -/
  | loading
  | counting
  | locking
  /-- Past `try_shutdown`; only the reference is left to drop. -/
  | leaving
  | gone
deriving DecidableEq

def Owner.count : Owner → Nat
  | .gone => 0
  | _ => 1

def Owner.undecided : Owner → Bool
  | .leaving | .gone => false
  | _ => true

/-- Owner `0` is the reference of the client itself, which `close` takes over. -/
structure RuntimeState where
  runtime : Bool
  shutdownRequested : Bool
  owners : List Owner
  /-- How often the runtime was given to `shutdown_background`. -/
  handed : Nat
  /-- The last reference dropped the runtime, which blocks. -/
  blocked : Bool

inductive RuntimeAction
  | dispatch
  | handle (i : Nat)
  | clone (i : Nat)
  | take
  | store
  | drop (i : Nat)
  | load (i : Nat)
  | count (i : Nat)
  | shutdown (i : Nat)
  | release (i : Nat)

namespace RuntimeState
variable (s : RuntimeState)

def new : RuntimeState := ⟨true, false, [.slot], 0, false⟩

def strongCount : Nat := tally Owner.count s.owners

def set (i : Nat) (o : Owner) : RuntimeState := { s with owners := s.owners.set i o }

/-- The section of `try_shutdown` under the runtime lock. -/
def shutdown (i : Nat) : RuntimeState :=
  if s.shutdownRequested ∧ s.strongCount = 1 ∧ s.runtime then
    { s.set i .leaving with runtime := false, handed := s.handed + 1 }
  else s.set i .leaving

/-- Drop one reference, and with the last one what is left in the state. -/
def release (i : Nat) : RuntimeState :=
  if (s.set i .gone).strongCount = 0 ∧ s.runtime then { s.set i .gone with runtime := false, blocked := true }
  else s.set i .gone

def step (s : RuntimeState) : RuntimeAction → Option RuntimeState
  | .dispatch =>
    if s.owners[0]? = some .slot ∧ .dispatching ∉ s.owners then
      some { s with owners := s.owners ++ [.dispatching] } else none
  | .handle i =>
    if s.owners[i]? = some .dispatching then some (s.set i (if s.runtime then .guard else .leaving)) else none
  | .clone i =>
    if s.owners[i]? = some .guard then some { s with owners := s.owners ++ [.guard] } else none
  | .take =>
    if s.owners[0]? = some .slot ∧ .dispatching ∉ s.owners then some (s.set 0 .closing) else none
  | .store =>
    if s.owners[0]? = some .closing then some { s.set 0 .loading with shutdownRequested := true } else none
  | .drop i => if s.owners[i]? = some .guard then some (s.set i .loading) else none
  | .load i =>
    if s.owners[i]? = some .loading then some (s.set i (if s.shutdownRequested then .counting else .leaving))
    else none
  | .count i =>
    if s.owners[i]? = some .counting then some (s.set i (if s.strongCount = 1 then .locking else .leaving))
    else none
  | .shutdown i => if s.owners[i]? = some .locking then some (s.shutdown i) else none
  | .release i => if s.owners[i]? = some .leaving then some (s.release i) else none

def CloseCompleted : Prop := s.owners[0]? = some .gone

def NoGuard : Prop := ∀ o ∈ s.owners.tail, o = .gone

def HandedOver : Prop := s.handed = 1 ∧ s.blocked = false

/-- An owner that reads a count above one leaves the shutdown to another that has yet to
decide. -/
def InTurn (s : RuntimeState) : RuntimeAction → Prop
  | .count i => s.strongCount = 1 ∨ ∃ o ∈ (s.set i .leaving).owners, o.undecided = true
  | _ => True

instance : Decidable s.CloseCompleted := inferInstanceAs (Decidable (_ = _))
instance : Decidable s.NoGuard := inferInstanceAs (Decidable (∀ _ ∈ _, _))
instance : Decidable s.HandedOver := inferInstanceAs (Decidable (_ ∧ _))
instance : (a : RuntimeAction) → Decidable (s.InTurn a)
  | .count _ => inferInstanceAs (Decidable (_ ∨ _))
  | .dispatch | .handle _ | .clone _ | .take | .store | .drop _ | .load _ | .shutdown _ | .release _ =>
    inferInstanceAs (Decidable True)

variable {s} {s' : RuntimeState} {i : Nat} {o o' : Owner}

structure Inv (s : RuntimeState) : Prop where
  account : s.handed + s.runtime.toNat + s.blocked.toNat = 1
  client : ∃ o, s.owners[0]? = some o ∧ (s.shutdownRequested = false ↔ o = .slot ∨ o = .closing)
  /-- Who read a count of one is the only owner. -/
  alone : ∀ i, s.owners[i]? = some .locking → ∀ o ∈ s.owners.set i .gone, o = .gone
  handed : s.handed ≠ 0 → ∀ o ∈ s.owners, o.undecided = false
  held : s.runtime = true → ∃ o ∈ s.owners, o ≠ .gone

theorem strongCount_set (o' : Owner) (h : s.owners[i]? = some o) :
    (s.set i o').strongCount + o.count = s.strongCount + o'.count :=
  tally_set Owner.count o' h

theorem gone_of_strongCount {l : List Owner} (h : tally Owner.count l = 0) (ho : o ∈ l) : o = .gone := by
  have hle := le_tally Owner.count ho
  cases o <;> simp [Owner.count, h] at hle ⊢

theorem strongCount_of_gone {l : List Owner} (h : ∀ o ∈ l, o = .gone) : tally Owner.count l = 0 := by
  apply tally_eq_zero
  intro o ho
  rw [h o ho]
  rfl

/-- The count is one exactly for the only owner. -/
theorem strongCount_eq_one_iff (h : s.owners[i]? = some o) (ho : o ≠ .gone) :
    s.strongCount = 1 ↔ ∀ p ∈ s.owners.set i .gone, p = .gone := by
  have hCount : o.count = 1 := by
    cases o <;> first | rfl | exact absurd rfl ho
  have hSet := strongCount_set .gone h
  rw [hCount, show Owner.count .gone = 0 from rfl, Nat.add_zero] at hSet
  constructor
  · intro hOne p hp
    refine gone_of_strongCount (l := (s.set i .gone).owners) ?_ hp
    change (s.set i .gone).strongCount = 0
    omega
  · intro hGone
    have hZero : (s.set i .gone).strongCount = 0 := strongCount_of_gone hGone
    omega

theorem inv_new : new.Inv := by
  refine ⟨rfl, ⟨.slot, rfl, by simp [new]⟩, ?_, by simp [new], ?_⟩
  · intro i hLocking
    have hMem := List.mem_of_getElem? hLocking
    simp [new] at hMem
  · intro _
    exact ⟨.slot, by simp [new], by simp⟩

/-- Nobody else is there beside an owner that read a count of one. -/
theorem Inv.locking_eq (h : s.Inv) {j : Nat} (hi : s.owners[i]? = some .locking) (hj : s.owners[j]? = some o)
    (ho : o ≠ .gone) : i = j := by
  by_contra hne
  refine ho (h.alone i hi o (List.mem_of_getElem? (i := j) ?_))
  rw [List.getElem?_set_ne hne, hj]

theorem getElem?_set_self_of (h : s.owners[i]? = some o) : (s.owners.set i o')[i]? = some o' :=
  List.getElem?_set_self (List.getElem?_eq_some_iff.mp h).1

/-- An owner goes on and still counts. -/
theorem Inv.set (h : s.Inv) (hi : s.owners[i]? = some o) (ho : o ≠ .gone) (ho' : o' ≠ .gone)
    (hDecides : o.undecided = true ∨ o'.undecided = false) (hLocking : o' = .locking → s.strongCount = 1)
    {requested : Bool} (hClient : ∃ p, (s.owners.set i o')[0]? = some p ∧
      (requested = false ↔ p = .slot ∨ p = .closing)) :
    ({ s.set i o' with shutdownRequested := requested } : RuntimeState).Inv := by
  refine ⟨h.account, hClient, ?_, ?_, ?_⟩
  · intro j hj p hp
    by_cases hne : i = j
    · obtain rfl := hne
      change (s.owners.set i o')[i]? = some .locking at hj
      rw [getElem?_set_self_of hi] at hj
      change p ∈ (s.owners.set i o').set i .gone at hp
      rw [List.set_set] at hp
      exact (strongCount_eq_one_iff hi ho).mp (hLocking (Option.some.inj hj)) p hp
    · change (s.owners.set i o')[j]? = some .locking at hj
      rw [List.getElem?_set_ne hne] at hj
      exact absurd (h.locking_eq hj hi ho).symm hne
  · intro hHanded p hp
    have hUndecided := h.handed hHanded
    rcases List.mem_or_eq_of_mem_set hp with hp | rfl
    · exact hUndecided p hp
    · refine hDecides.resolve_left ?_
      rw [hUndecided o (List.mem_of_getElem? hi)]
      simp
  · intro _
    exact ⟨o', List.mem_of_getElem? (getElem?_set_self_of hi), ho'⟩

/-- The client is where it was, or the owner that went on is the client after `close`. -/
theorem Inv.client_set (h : s.Inv) (hi : s.owners[i]? = some o) (ho : o ≠ .slot ∧ o ≠ .closing)
    (ho' : o' ≠ .slot ∧ o' ≠ .closing) : ∃ p, (s.owners.set i o')[0]? = some p ∧
      (s.shutdownRequested = false ↔ p = .slot ∨ p = .closing) := by
  obtain ⟨p, hp, hRequested⟩ := h.client
  by_cases hZero : i = 0
  · obtain rfl := hZero
    obtain rfl := Option.some.inj (hi.symm.trans hp)
    refine ⟨o', getElem?_set_self_of hi, ?_⟩
    rw [hRequested]
    simp [ho, ho']
  · exact ⟨p, by rw [List.getElem?_set_ne hZero, hp], hRequested⟩

private theorem Inv.append (h : s.Inv) (hi : s.owners[i]? = some o) (ho : o.undecided = true) (hNot : o ≠ .locking)
    (ho' : o' ≠ .locking) : ({ s with owners := s.owners ++ [o'] } : RuntimeState).Inv := by
  have hGone : o ≠ .gone := by
    rintro rfl
    cases ho
  refine ⟨h.account, ?_, ?_, ?_, ?_⟩
  · obtain ⟨p, hp, hRequested⟩ := h.client
    exact ⟨p, by rw [List.getElem?_append_left (List.getElem?_eq_some_iff.mp hp).1, hp], hRequested⟩
  · intro j hj
    exfalso
    change (s.owners ++ [o'])[j]? = some .locking at hj
    by_cases hlt : j < s.owners.length
    · rw [List.getElem?_append_left hlt] at hj
      obtain rfl := h.locking_eq hj hi hGone
      exact hNot (Option.some.inj (hi.symm.trans hj))
    · rw [List.getElem?_append_right (Nat.le_of_not_lt hlt)] at hj
      exact ho' (List.mem_singleton.mp (List.mem_of_getElem? hj)).symm
  · intro hHanded
    rw [h.handed hHanded o (List.mem_of_getElem? hi)] at ho
    cases ho
  · intro _
    exact ⟨o, List.mem_append_left _ (List.mem_of_getElem? hi), hGone⟩

theorem Inv.shutdown (h : s.Inv) (hi : s.owners[i]? = some .locking) : (s.shutdown i).Inv := by
  have hLeft : (s.set i .leaving).Inv :=
    h.set hi (by simp) (by simp) (.inl rfl) (by simp) (h.client_set hi (by simp) (by simp))
  unfold RuntimeState.shutdown
  split_ifs with hTakes
  · obtain ⟨-, -, hRuntime⟩ := hTakes
    refine ⟨?_, hLeft.client, hLeft.alone, ?_, by simp⟩
    · have hAccount := h.account
      rw [hRuntime] at hAccount
      simp only [Bool.toNat_true, Bool.toNat_false] at hAccount ⊢
      change s.handed + 1 + 0 + s.blocked.toNat = 1
      omega
    · -- the others are gone, and this one is leaving
      intro _ o ho
      have hMem : o ∈ (s.owners.set i .gone).set i .leaving := by
        rwa [List.set_set]
      rcases List.mem_or_eq_of_mem_set hMem with hOther | rfl
      · rw [h.alone i hi o hOther]
        rfl
      · rfl
  · exact hLeft

theorem Inv.release (h : s.Inv) (hi : s.owners[i]? = some .leaving) : (s.release i).Inv := by
  have hAlone (j : Nat) (hj : (s.owners.set i .gone)[j]? = some .locking) : False := by
    by_cases hne : i = j
    · obtain rfl := hne
      rw [getElem?_set_self_of hi] at hj
      cases hj
    · rw [List.getElem?_set_ne hne] at hj
      exact hne (h.locking_eq hj hi (by simp)).symm
  have hHanded (hHanded : s.handed ≠ 0) (o : Owner) (ho : o ∈ s.owners.set i .gone) : o.undecided = false := by
    rcases List.mem_or_eq_of_mem_set ho with ho | rfl
    · exact h.handed hHanded o ho
    · rfl
  have hGone : Owner.gone ≠ .slot ∧ Owner.gone ≠ .closing := by simp
  have hClient := h.client_set hi (by simp) hGone
  unfold RuntimeState.release
  split_ifs with hLast
  · obtain ⟨-, hRuntime⟩ := hLast
    refine ⟨?_, hClient, fun j hj => (hAlone j hj).elim, hHanded, by simp⟩
    have hAccount := h.account
    rw [hRuntime] at hAccount
    simp only [Bool.toNat_true, Bool.toNat_false] at hAccount ⊢
    change s.handed + 0 + 1 = 1
    omega
  · refine ⟨h.account, hClient, fun j hj => (hAlone j hj).elim, hHanded, ?_⟩
    intro hRuntime
    by_contra hNone
    refine hLast ⟨strongCount_of_gone fun o ho => ?_, hRuntime⟩
    by_contra hGone
    exact hNone ⟨o, ho, hGone⟩

theorem Inv.step {a : RuntimeAction} (h : s.Inv) (hStep : s.step a = some s') : s'.Inv := by
  cases a with
  | dispatch =>
    simp only [RuntimeState.step] at hStep
    split_ifs at hStep with hSlot
    obtain rfl := Option.some.inj hStep
    exact h.append hSlot.1 rfl (by simp) (by simp)
  | handle i =>
    simp only [RuntimeState.step] at hStep
    split_ifs at hStep with hi
    all_goals obtain rfl := Option.some.inj hStep
    · exact h.set hi (by simp) (by simp) (.inl rfl) (by simp) (h.client_set hi (by simp) (by simp))
    · exact h.set hi (by simp) (by simp) (.inl rfl) (by simp) (h.client_set hi (by simp) (by simp))
  | clone i =>
    simp only [RuntimeState.step] at hStep
    split_ifs at hStep with hi
    obtain rfl := Option.some.inj hStep
    exact h.append hi rfl (by simp) (by simp)
  | take =>
    simp only [RuntimeState.step] at hStep
    split_ifs at hStep with hSlot
    obtain rfl := Option.some.inj hStep
    obtain ⟨o, ho, hRequested⟩ := h.client
    obtain rfl := Option.some.inj (hSlot.1.symm.trans ho)
    refine h.set hSlot.1 (by simp) (by simp) (.inl rfl) (by simp) ⟨.closing, getElem?_set_self_of hSlot.1, ?_⟩
    rw [hRequested]
    simp
  | store =>
    simp only [RuntimeState.step] at hStep
    split_ifs at hStep with hi
    obtain rfl := Option.some.inj hStep
    exact h.set hi (by simp) (by simp) (.inl rfl) (by simp) ⟨.loading, getElem?_set_self_of hi, by simp⟩
  | drop i =>
    simp only [RuntimeState.step] at hStep
    split_ifs at hStep with hi
    obtain rfl := Option.some.inj hStep
    exact h.set hi (by simp) (by simp) (.inl rfl) (by simp) (h.client_set hi (by simp) (by simp))
  | load i =>
    simp only [RuntimeState.step] at hStep
    split_ifs at hStep with hi
    all_goals obtain rfl := Option.some.inj hStep
    · exact h.set hi (by simp) (by simp) (.inl rfl) (by simp) (h.client_set hi (by simp) (by simp))
    · exact h.set hi (by simp) (by simp) (.inl rfl) (by simp) (h.client_set hi (by simp) (by simp))
  | count i =>
    simp only [RuntimeState.step] at hStep
    split_ifs at hStep with hi hOne
    all_goals obtain rfl := Option.some.inj hStep
    · exact h.set hi (by simp) (by simp) (.inl rfl) (fun _ => hOne) (h.client_set hi (by simp) (by simp))
    · exact h.set hi (by simp) (by simp) (.inl rfl) (by simp) (h.client_set hi (by simp) (by simp))
  | shutdown i =>
    simp only [RuntimeState.step] at hStep
    split_ifs at hStep with hi
    obtain rfl := Option.some.inj hStep
    exact h.shutdown hi
  | release i =>
    simp only [RuntimeState.step] at hStep
    split_ifs at hStep with hi
    obtain rfl := Option.some.inj hStep
    exact h.release hi

def Watched (s : RuntimeState) : Prop := s.runtime = true → ∃ o ∈ s.owners, o.undecided = true

/-- Everybody has looked, and the runtime is still there or was dropped. -/
def Lost (s : RuntimeState) : Prop :=
  s.blocked = true ∨ s.runtime = true ∧ ∀ o ∈ s.owners, o.undecided = false

theorem watched_set (ho' : o'.undecided = true) (hi : s.owners[i]? = some o) {requested : Bool} :
    ({ s.set i o' with shutdownRequested := requested } : RuntimeState).Watched := by
  intro _
  exact ⟨o', List.mem_of_getElem? (getElem?_set_self_of hi), ho'⟩

theorem Watched.append (h : s.Watched) : ({ s with owners := s.owners ++ [o'] } : RuntimeState).Watched := by
  intro hRuntime
  obtain ⟨o, ho, hUndecided⟩ := h hRuntime
  exact ⟨o, List.mem_append_left _ ho, hUndecided⟩

private theorem Inv.shutdown_runtime (h : s.Inv) (hi : s.owners[i]? = some .locking) : (s.shutdown i).runtime = false := by
  have hOne : s.strongCount = 1 := (strongCount_eq_one_iff hi (by simp)).mpr (h.alone i hi)
  have hRequested : s.shutdownRequested = true := by
    obtain ⟨o, ho, hClient⟩ := h.client
    by_contra hNot
    rcases hClient.mp (by simpa using hNot) with rfl | rfl
    · obtain rfl := h.locking_eq hi ho (by simp)
      cases hi.symm.trans ho
    · obtain rfl := h.locking_eq hi ho (by simp)
      cases hi.symm.trans ho
  unfold RuntimeState.shutdown
  split_ifs with hTakes
  · rfl
  · change s.runtime = false
    simpa [hOne, hRequested] using hTakes

theorem mem_set_of_ne {l : List Owner} {p : Owner} (ho : o ∈ l) (hi : l[i]? = some p) (hne : o ≠ p) :
    o ∈ l.set i o' := by
  obtain ⟨j, hj⟩ := List.mem_iff_getElem?.mp ho
  have hij : i ≠ j := by
    rintro rfl
    exact hne (Option.some.inj (hj.symm.trans hi))
  apply List.mem_of_getElem? (i := j)
  rw [List.getElem?_set_ne hij, hj]

theorem Watched.release (h : s.Watched) (hi : s.owners[i]? = some .leaving) : (s.release i).Watched := by
  have hKept : (s.set i .gone).Watched := by
    intro hRuntime
    obtain ⟨o, ho, hUndecided⟩ := h hRuntime
    refine ⟨o, mem_set_of_ne ho hi ?_, hUndecided⟩
    rintro rfl
    cases hUndecided
  unfold RuntimeState.release
  split_ifs
  · intro hRuntime
    cases hRuntime
  · exact hKept

theorem Watched.step {a : RuntimeAction} (hInv : s.Inv) (h : s.Watched) (hTurn : s.InTurn a)
    (hStep : s.step a = some s') : s'.Watched := by
  cases a with
  | dispatch =>
    simp only [RuntimeState.step] at hStep
    split_ifs at hStep
    obtain rfl := Option.some.inj hStep
    exact h.append
  | handle i =>
    simp only [RuntimeState.step] at hStep
    split_ifs at hStep with hi hRuntime
    all_goals obtain rfl := Option.some.inj hStep
    · exact watched_set rfl hi
    · intro hKept
      exact absurd hKept hRuntime
  | clone i =>
    simp only [RuntimeState.step] at hStep
    split_ifs at hStep
    obtain rfl := Option.some.inj hStep
    exact h.append
  | take =>
    simp only [RuntimeState.step] at hStep
    split_ifs at hStep with hSlot
    obtain rfl := Option.some.inj hStep
    exact watched_set rfl hSlot.1
  | store =>
    simp only [RuntimeState.step] at hStep
    split_ifs at hStep with hi
    obtain rfl := Option.some.inj hStep
    exact watched_set rfl hi
  | drop i =>
    simp only [RuntimeState.step] at hStep
    split_ifs at hStep with hi
    obtain rfl := Option.some.inj hStep
    exact watched_set rfl hi
  | load i =>
    simp only [RuntimeState.step] at hStep
    split_ifs at hStep with hi hRequested
    all_goals obtain rfl := Option.some.inj hStep
    · exact watched_set rfl hi
    · -- before the request the client, or `close`, has yet to look
      intro _
      obtain ⟨o, ho, hClient⟩ := hInv.client
      rcases hClient.mp (by simpa using hRequested) with rfl | rfl
      · exact ⟨.slot, mem_set_of_ne (List.mem_of_getElem? ho) hi (by simp), rfl⟩
      · exact ⟨.closing, mem_set_of_ne (List.mem_of_getElem? ho) hi (by simp), rfl⟩
  | count i =>
    simp only [RuntimeState.step] at hStep
    split_ifs at hStep with hi hOne
    all_goals obtain rfl := Option.some.inj hStep
    · exact watched_set rfl hi
    · intro _
      exact hTurn.resolve_left hOne
  | shutdown i =>
    simp only [RuntimeState.step] at hStep
    split_ifs at hStep with hi
    obtain rfl := Option.some.inj hStep
    intro hRuntime
    rw [hInv.shutdown_runtime hi] at hRuntime
    cases hRuntime
  | release i =>
    simp only [RuntimeState.step] at hStep
    split_ifs at hStep with hi
    obtain rfl := Option.some.inj hStep
    exact h.release hi

/-- Only the last owner blocks, and only if nobody has shut the runtime down. -/
private theorem blocked_step {a : RuntimeAction} (hStep : s.step a = some s') :
    s'.blocked = s.blocked ∨ s'.blocked = true ∧
      ∃ i : Nat, s.owners[i]? = some .leaving ∧ (s.set i .gone).strongCount = 0 ∧ s.runtime = true := by
  cases a with
  | dispatch | handle i | clone i | take | store | drop i | load i | count i =>
    simp only [RuntimeState.step] at hStep
    split_ifs at hStep
    all_goals
      obtain rfl := Option.some.inj hStep
      exact .inl rfl
  | shutdown i =>
    simp only [RuntimeState.step] at hStep
    split_ifs at hStep
    obtain rfl := Option.some.inj hStep
    unfold RuntimeState.shutdown
    split_ifs <;> exact .inl rfl
  | release i =>
    simp only [RuntimeState.step] at hStep
    split_ifs at hStep with hi
    obtain rfl := Option.some.inj hStep
    unfold RuntimeState.release
    split_ifs with hLast
    · exact .inr ⟨rfl, i, hi, hLast⟩
    · exact .inl rfl

private theorem Watched.blocked_step {a : RuntimeAction} (h : s.Watched) (hBlocked : s.blocked = false)
    (hStep : s.step a = some s') : s'.blocked = false := by
  obtain hSame | ⟨-, i, hi, hCount, hRuntime⟩ := RuntimeState.blocked_step hStep
  · exact hSame.trans hBlocked
  · obtain ⟨o, ho, hUndecided⟩ := h hRuntime
    have hOther : o ∈ (s.set i .gone).owners := by
      refine mem_set_of_ne ho hi ?_
      rintro rfl
      cases hUndecided
    rw [gone_of_strongCount hCount hOther] at hUndecided
    cases hUndecided

/-- What the runs keep whose owners leave in turn. -/
structure Good (s : RuntimeState) : Prop where
  inv : s.Inv
  watched : s.Watched
  unblocked : s.blocked = false

theorem good_new : new.Good :=
  ⟨inv_new, fun _ => ⟨.slot, by simp [new], rfl⟩, rfl⟩

theorem Good.step {a : RuntimeAction} (h : s.Good) (hTurn : s.InTurn a) (hStep : s.step a = some s') : s'.Good :=
  ⟨h.inv.step hStep, h.watched.step h.inv hTurn hStep, h.watched.blocked_step h.unblocked hStep⟩

private theorem lost_of_not_inTurn {a : RuntimeAction} (h : s.Inv) (hTurn : ¬ s.InTurn a)
    (hStep : s.step a = some s') : s'.Lost := by
  cases a with
  | count i =>
    obtain ⟨hMany, hNone⟩ := not_or.mp hTurn
    simp only [RuntimeState.step] at hStep
    split_ifs at hStep with hi
    obtain rfl := Option.some.inj hStep
    have hDecided (o : Owner) (ho : o ∈ (s.set i .leaving).owners) : o.undecided = false := by
      by_contra hUndecided
      exact hNone ⟨o, ho, by simpa using hUndecided⟩
    have hHanded : s.handed = 0 := by
      by_contra hNot
      have hCounting := h.handed hNot .counting (List.mem_of_getElem? hi)
      cases hCounting
    have hAccount := h.account
    rw [hHanded] at hAccount
    cases hRuntime : s.runtime with
    | true => exact .inr ⟨hRuntime, hDecided⟩
    | false =>
      refine .inl ?_
      change s.blocked = true
      rw [hRuntime] at hAccount
      cases hBlocked : s.blocked with
      | true => rfl
      | false => simp [hBlocked] at hAccount
  | dispatch | handle i | clone i | take | store | drop i | load i | shutdown i | release i =>
    exact absurd trivial hTurn

private theorem Lost.step {a : RuntimeAction} (h : s.Lost) (hStep : s.step a = some s') : s'.Lost := by
  rcases h with hBlocked | ⟨hRuntime, hDecided⟩
  · exact .inl ((blocked_step hStep).elim (·.trans hBlocked) And.left)
  have hNobody {i : Nat} {o : Owner} (hi : s.owners[i]? = some o) (ho : o.undecided = true) : False := by
    rw [hDecided o (List.mem_of_getElem? hi)] at ho
    cases ho
  cases a with
  | dispatch | take =>
    simp only [RuntimeState.step] at hStep
    split_ifs at hStep with hSlot
    exact (hNobody hSlot.1 rfl).elim
  | handle i | clone i | store | drop i | load i | count i | shutdown i =>
    simp only [RuntimeState.step] at hStep
    split_ifs at hStep with hi
    all_goals exact (hNobody hi rfl).elim
  | release i =>
    simp only [RuntimeState.step] at hStep
    split_ifs at hStep with hi
    obtain rfl := Option.some.inj hStep
    unfold RuntimeState.release
    split_ifs
    · exact .inl rfl
    · refine .inr ⟨hRuntime, fun o ho => ?_⟩
      rcases List.mem_or_eq_of_mem_set ho with ho | rfl
      · exact hDecided o ho
      · rfl

theorem gone_of_done (hClosed : s.CloseCompleted) (hGuard : s.NoGuard) {o : Owner} (ho : o ∈ s.owners) :
    o = .gone := by
  unfold NoGuard at hGuard
  unfold CloseCompleted at hClosed
  cases hOwners : s.owners with
  | nil =>
    rw [hOwners] at ho
    cases ho
  | cons client rest =>
    rw [hOwners] at ho hGuard hClosed
    rcases List.mem_cons.mp ho with rfl | ho
    · exact Option.some.inj hClosed
    · exact hGuard o ho

/-- No guard sees the runtime shut down; and once `close` is done and the guards are gone it was
handed over, and not dropped, exactly when no owner left it to others that had already looked. -/
theorem runtime_handed_over {acts : List RuntimeAction} (hRun : run step new acts = some s) :
    (s.handed ≠ 0 → .guard ∉ s.owners) ∧
    (s.CloseCompleted → s.NoGuard →
      (s.HandedOver ↔ Along step (fun s a _ => s.InTurn a) new acts)) := by
  have hInv : s.Inv := run_invariant Inv hRun inv_new fun h hStep => h.step hStep
  refine ⟨?_, fun hClosed hGuard => ⟨fun hHanded => ?_, fun hAlong => ?_⟩⟩
  · intro hHanded hMem
    cases hInv.handed hHanded .guard hMem
  · by_contra hNot
    obtain ⟨xs, a, ys, t, t', hxs, ha, hTurn, hys⟩ := exists_of_not_along hNot hRun
    have hBefore : t.Inv := run_invariant Inv hxs inv_new fun h hStep => h.step hStep
    have hLost : s.Lost := run_invariant Lost hys (lost_of_not_inTurn hBefore hTurn ha) fun h hStep => h.step hStep
    rcases hLost with hBlocked | ⟨hRuntime, -⟩
    · rw [hHanded.2] at hBlocked
      cases hBlocked
    · obtain ⟨o, ho, hGone⟩ := hInv.held hRuntime
      exact hGone (gone_of_done hClosed hGuard ho)
  · have hGood : s.Good := hAlong.invariant Good hRun good_new fun h hTurn hStep => h.step hTurn hStep
    have hRuntime : s.runtime = false := by
      by_contra hKept
      obtain ⟨o, ho, hUndecided⟩ := hGood.watched (by simpa using hKept)
      rw [gone_of_done hClosed hGuard ho] at hUndecided
      cases hUndecided
    have hAccount := hInv.account
    rw [hRuntime, hGood.unblocked] at hAccount
    exact ⟨hAccount, hGood.unblocked⟩

/-- The guard of a dispatch goes while `close` is still in the middle: it reads the count, and
so does `close`, before either gives its reference back. -/
def bothLeaving : List RuntimeAction :=
  [.dispatch, .handle 1, .take, .store, .drop 1, .load 1, .load 0, .count 1, .count 0, .release 0, .release 1]

def oneAfterTheOther : List RuntimeAction :=
  [.dispatch, .handle 1, .drop 1, .load 1, .take, .store, .release 1, .load 0, .count 0, .shutdown 0, .release 0]

theorem runtime_handed_over_example : ∃ s, run step new oneAfterTheOther = some s ∧ s.HandedOver := by
  have hRun : (run step new oneAfterTheOther).map
      (fun s => decide (s.CloseCompleted ∧ s.NoGuard)) = some true := by
    decide
  have hAlong : Along step (fun s a _ => s.InTurn a) new oneAfterTheOther := by
    have hWhile : (runWhile step (fun s a => decide (s.InTurn a)) new oneAfterTheOther).isSome = true := by
      decide
    exact (along_runWhile hWhile).mono fun _ _ _ => of_decide_eq_true
  obtain ⟨s, hs, hState⟩ := Option.map_eq_some_iff.mp hRun
  obtain ⟨hClosed, hGuard⟩ := of_decide_eq_true hState
  exact ⟨s, hs, ((runtime_handed_over hs).2 hClosed hGuard).mpr hAlong⟩

theorem runtime_blocks : ¬ ∀ s, Reachable step new s → s.CloseCompleted → s.NoGuard → s.HandedOver := by
  intro h
  have hRun : (run step new bothLeaving).map
      (fun s => decide (s.CloseCompleted ∧ s.NoGuard ∧ ¬ s.HandedOver)) = some true := by
    decide
  obtain ⟨s, hs, hState⟩ := Option.map_eq_some_iff.mp hRun
  obtain ⟨hClosed, hGuard, hNot⟩ := of_decide_eq_true hState
  exact hNot (h s (Reaches.start.run hs) hClosed hGuard)

end RuntimeState
end Eggfetch.Streaming
