import Eggfetch.Pool.Effect
import Eggfetch.Transition.Runs
import Eggfetch.Transition.Tally

/-! Conservation of permits and waiter registrations over every interleaving of
acquires, cancellations and guard drops. -/
namespace Eggfetch.Pool
open Transition

variable {K : Type}

namespace Resources

def globalPermits (r : Resources K) : Nat := (r.globalSemaphore.map Semaphore.permits).getD 0

def permitsOf (r : Resources K) (max : Nat) (e : EntryId) : Nat :=
  (r.entries[e]?.map fun x => x.semaphore.permits).getD max

def waitersOf (r : Resources K) (e : EntryId) : Nat :=
  (r.entries[e]?.map PerOriginSemaphore.waiters).getD 0

end Resources

def refers (o : Option EntryId) (e : EntryId) : Nat := if o = some e then 1 else 0

def Holdings.globals (h : Holdings) : Nat := h.globalPermit.toNat

namespace PoolInner

/-- Tasks registered on entry `e` and not yet released from it. -/
def registered (s : PoolInner K) (e : EntryId) : Nat :=
  tally (fun t => refers t.holdings.waiter e) s.tasks

def permitHolders (s : PoolInner K) (e : EntryId) : Nat :=
  tally (fun t => refers t.holdings.permit e) s.tasks

def heldByGuards (s : PoolInner K) (e : EntryId) : Nat :=
  tally (fun t => if t.isGuard then refers t.holdings.permit e else 0) s.tasks

def heldByAcquires (s : PoolInner K) (e : EntryId) : Nat :=
  tally (fun t => if t.isGuard then 0 else refers t.holdings.permit e) s.tasks

def globalHolders (s : PoolInner K) : Nat := tally (fun t => t.holdings.globals) s.tasks

def globalHeldByGuards (s : PoolInner K) : Nat :=
  tally (fun t => if t.isGuard then t.holdings.globals else 0) s.tasks

def globalHeldByAcquires (s : PoolInner K) : Nat :=
  tally (fun t => if t.isGuard then 0 else t.holdings.globals) s.tasks

def Quiescent (s : PoolInner K) : Prop := ∀ t ∈ s.tasks, t = .done

end PoolInner

/-- The shared counters agree with the holdings of the tasks. -/
structure Accounted (config : PoolConfig) (s : PoolInner K) : Prop where
  globalSome : s.globalSemaphore.isSome = config.effectiveMaxInFlight.isSome
  global : s.globalPermits + s.globalHolders = config.effectiveMaxInFlight.getD 0
  permits : ∀ e, s.permitsOf (config.effectiveMaxInFlightPerOrigin.getD 0) e + s.permitHolders e =
    config.effectiveMaxInFlightPerOrigin.getD 0
  waiters : ∀ e, s.waitersOf e = s.registered e
  tabled : ∀ p ∈ s.perOrigin, ∃ x, s.entries[p.2]? = some x ∧ x.origin = p.1
  limited : 0 < s.entries.length → config.effectiveMaxInFlightPerOrigin.isSome

/-- What a task gives back exists to take it. -/
structure Backed (r : Resources K) (h : Holdings) : Prop where
  global : h.globalPermit = true → r.globalSemaphore.isSome
  waiter : ∀ e, h.waiter = some e → 0 < r.waitersOf e
  permit : ∀ e, h.permit = some e → r.entries[e]?.isSome

/-- One effect moves permits and registrations between a task and the shared counters. -/
structure Balanced (max : Nat) (r : Resources K) (h : Holdings) (r' : Resources K) (h' : Holdings) :
    Prop where
  globalSome : r'.globalSemaphore.isSome = r.globalSemaphore.isSome
  global : r'.globalPermits + h'.globals = r.globalPermits + h.globals
  permits : ∀ e, r'.permitsOf max e + refers h'.permit e = r.permitsOf max e + refers h.permit e
  waiters : ∀ e, r'.waitersOf e + refers h.waiter e = r.waitersOf e + refers h'.waiter e

theorem Semaphore.tryAcquireOwned_permits {sem sem' : Semaphore}
    (h : sem.tryAcquireOwned = some sem') : sem'.permits + 1 = sem.permits := by
  unfold Semaphore.tryAcquireOwned at h
  split at h
  · cases h
    simp
    omega
  · cases h

namespace Resources
variable (r : Resources K) (e e' : EntryId) (max : Nat)

theorem permitsOf_modifyEntry (f : PerOriginSemaphore K → PerOriginSemaphore K) :
    (r.modifyEntry e f).permitsOf max e' =
      if e = e' then (r.entries[e]?.map fun x => (f x).semaphore.permits).getD max
      else r.permitsOf max e' := by
  simp only [permitsOf, modifyEntry, List.getElem?_modify]
  split
  · subst e'
    cases r.entries[e]? <;> rfl
  · cases r.entries[e']? <;> rfl

theorem waitersOf_modifyEntry (f : PerOriginSemaphore K → PerOriginSemaphore K) :
    (r.modifyEntry e f).waitersOf e' =
      if e = e' then (r.entries[e]?.map fun x => (f x).waiters).getD 0 else r.waitersOf e' := by
  simp only [waitersOf, modifyEntry, List.getElem?_modify]
  split
  · subst e'
    cases r.entries[e]? <;> rfl
  · cases r.entries[e']? <;> rfl

@[simp] theorem length_modifyEntry (f : PerOriginSemaphore K → PerOriginSemaphore K) :
    (r.modifyEntry e f).entries.length = r.entries.length := by
  simp [modifyEntry]

theorem origin_modifyEntry (f : PerOriginSemaphore K → PerOriginSemaphore K)
    (hf : ∀ x, (f x).origin = x.origin) :
    ((r.modifyEntry e f).entries[e']?).map PerOriginSemaphore.origin =
      (r.entries[e']?).map PerOriginSemaphore.origin := by
  simp only [modifyEntry, List.getElem?_modify]
  cases r.entries[e']? with
  | none => rfl
  | some x =>
    by_cases h : e = e' <;> simp [h, hf]

end Resources

variable [DecidableEq K]

namespace Resources
variable (r : Resources K) (key : K) (max : Nat) (e : EntryId)

theorem permitsOf_insertRegistered : (r.insertRegistered key max).permitsOf max e = r.permitsOf max e := by
  simp only [permitsOf, insertRegistered, List.getElem?_append]
  split
  · rfl
  · rename_i h
    rw [List.getElem?_eq_none (by omega : r.entries.length ≤ e)]
    cases e - r.entries.length <;> rfl

theorem waitersOf_insertRegistered :
    (r.insertRegistered key max).waitersOf e = r.waitersOf e + refers (some r.entries.length) e := by
  simp only [waitersOf, insertRegistered, List.getElem?_append, refers, Option.some.injEq]
  rcases Nat.lt_or_ge e r.entries.length with h | h
  · simp [h, Nat.ne_of_gt h]
  · rw [if_neg (Nat.not_lt.mpr h), List.getElem?_eq_none h]
    obtain ⟨k, rfl⟩ := Nat.exists_eq_add_of_le h
    cases k with
    | zero => simp
    | succ k => simp

theorem lookup_mem {r : Resources K} {key : K} {e : EntryId} (h : r.lookup key = some e) :
    (key, e) ∈ r.perOrigin := by
  obtain ⟨p, hp, rfl⟩ := Option.map_eq_some_iff.mp h
  have hkey : p.1 = key := by simpa using List.find?_some hp
  exact hkey ▸ List.mem_of_find?_eq_some hp

end Resources

variable {config : PoolConfig} {action : Action K} {i : Nat} {r r' : Resources K} {t t' : Task K}

theorem Effect.balanced (h : Effect config action i r t r' t') (hb : Backed r t.holdings)
    (htab : ∀ p ∈ r.perOrigin, ∃ x, r.entries[p.2]? = some x ∧ x.origin = p.1) :
    Balanced (config.effectiveMaxInFlightPerOrigin.getD 0) r t.holdings r' t'.holdings := by
  cases h with
  | keep hh => rw [hh]; exact ⟨rfl, rfl, fun _ => rfl, fun _ => rfl⟩
  | takeGlobal hsem hacq hfree hh =>
    have := Semaphore.tryAcquireOwned_permits hacq
    rw [hh]
    refine ⟨by simp [Resources.setGlobal, hsem], ?_, fun _ => rfl, fun _ => rfl⟩
    simp [Resources.globalPermits, Resources.setGlobal, hsem, Holdings.globals, hfree]
    omega
  | dropGlobal hheld hh =>
    obtain ⟨sem, hsem⟩ := Option.isSome_iff_exists.mp (hb.global hheld)
    rw [hh]
    refine ⟨by simp [Resources.releaseGlobal], ?_, fun _ => rfl, fun _ => rfl⟩
    simp [Resources.globalPermits, Resources.releaseGlobal, hsem, Holdings.globals, hheld,
      Semaphore.release]
  | @register t' key e hlook hfree hh =>
    obtain ⟨x, hx, -⟩ := htab _ (Resources.lookup_mem hlook)
    rw [hh]
    refine ⟨rfl, rfl, fun e' => ?_, fun e' => ?_⟩
    · rw [Resources.fetchAddWaiters, Resources.permitsOf_modifyEntry]
      by_cases he : e = e'
      · subst e'; simp [Resources.permitsOf]
      · simp [he]
    · rw [Resources.fetchAddWaiters, Resources.waitersOf_modifyEntry]
      by_cases he : e = e'
      · subst e'; simp [hx, Resources.waitersOf, hfree, refers]
      · simp [he, hfree, refers]
  | startSweep _ _ hh => rw [hh]; exact ⟨rfl, rfl, fun _ => rfl, fun _ => rfl⟩
  | insert hmax _ hfree hh =>
    rw [hh, hmax]
    refine ⟨rfl, rfl, fun e' => ?_, fun e' => ?_⟩
    · rw [Option.getD_some, Resources.permitsOf_insertRegistered]
    · rw [Resources.waitersOf_insertRegistered]
      simp [hfree, refers]
  | evict _ ht => subst ht; exact ⟨rfl, rfl, fun _ => rfl, fun _ => rfl⟩
  | abandon _ hh => rw [hh]; exact ⟨rfl, rfl, fun _ => rfl, fun _ => rfl⟩
  | @takeOrigin t' e x sem hx hacq _ hfree hh =>
    have := Semaphore.tryAcquireOwned_permits hacq
    rw [hh]
    refine ⟨rfl, rfl, fun e' => ?_, fun e' => ?_⟩
    · rw [Resources.setOriginSemaphore, Resources.permitsOf_modifyEntry]
      by_cases he : e = e'
      · subst e'; simp [hx, Resources.permitsOf, hfree, refers]; omega
      · simp [he, hfree, refers]
    · rw [Resources.setOriginSemaphore, Resources.waitersOf_modifyEntry]
      by_cases he : e = e'
      · subst e'; simp [Resources.waitersOf]
      · simp [he]
  | @dropOrigin t' e hheld hh =>
    obtain ⟨x, hx⟩ := Option.isSome_iff_exists.mp (hb.permit e hheld)
    rw [hh]
    refine ⟨rfl, rfl, fun e' => ?_, fun e' => ?_⟩
    · rw [Resources.releaseOrigin, Resources.permitsOf_modifyEntry]
      by_cases he : e = e'
      · subst e'; simp [hx, Resources.permitsOf, hheld, refers, Semaphore.release]
      · simp [he, hheld, refers]
    · rw [Resources.releaseOrigin, Resources.waitersOf_modifyEntry]
      by_cases he : e = e'
      · subst e'; simp [Resources.waitersOf]
      · simp [he]
  | @dropWaiter t' e hheld hh =>
    have hpos := hb.waiter e hheld
    rw [hh]
    refine ⟨rfl, rfl, fun e' => ?_, fun e' => ?_⟩
    · rw [Resources.fetchSubWaiters, Resources.permitsOf_modifyEntry]
      by_cases he : e = e'
      · subst e'; simp [Resources.permitsOf]
      · simp [he]
    · rw [Resources.fetchSubWaiters, Resources.waitersOf_modifyEntry]
      by_cases he : e = e'
      · subst e'
        unfold Resources.waitersOf at hpos ⊢
        cases hx : r.entries[e]? with
        | none => simp [hx] at hpos
        | some x =>
          simp [hx] at hpos ⊢
          simp [hheld, refers]
          omega
      · simp [he, hheld, refers]

theorem Effect.origins (h : Effect config action i r t r' t') (e : EntryId) (he : e < r.entries.length) :
    (r'.entries[e]?).map PerOriginSemaphore.origin = (r.entries[e]?).map PerOriginSemaphore.origin := by
  cases h with
  | insert => simp [Resources.insertRegistered, List.getElem?_append, he]
  | register | dropWaiter | takeOrigin | dropOrigin => exact Resources.origin_modifyEntry _ _ _ _ fun _ => rfl
  | _ => rfl

theorem Effect.limited (h : Effect config action i r t r' t') (hpos : 0 < r'.entries.length) :
    0 < r.entries.length ∨ config.effectiveMaxInFlightPerOrigin.isSome := by
  cases h with
  | insert hmax => exact .inr (by simp [hmax])
  | register | dropWaiter | takeOrigin | dropOrigin =>
    exact .inl (Resources.length_modifyEntry r .. ▸ hpos)
  | _ => exact .inl hpos

theorem Effect.perOrigin (h : Effect config action i r t r' t') {p : K × EntryId} (hp : p ∈ r'.perOrigin) :
    p ∈ r.perOrigin ∨ ∃ x, r'.entries[p.2]? = some x ∧ x.origin = p.1 := by
  cases h with
  | insert =>
    rcases List.mem_append.mp hp with hp | hp
    · exact .inl (List.mem_filter.mp hp).1
    · obtain rfl := List.mem_singleton.mp hp
      exact .inr ⟨_, List.getElem?_concat_length, rfl⟩
  | evict => exact .inl (List.mem_filter.mp hp).1
  | _ => exact .inl hp

variable {s s' : PoolInner K}

omit [DecidableEq K] in
theorem Accounted.backed (h : Accounted config s) (ht : t ∈ s.tasks) :
    Backed s.toResources t.holdings := by
  refine ⟨fun hg => ?_, fun e he => ?_, fun e he => ?_⟩
  · have hle := le_tally (fun t => t.holdings.globals) ht
    have hsum := h.global
    rw [h.globalSome]
    cases hmax : config.effectiveMaxInFlight with
    | some => rfl
    | none => simp [PoolInner.globalHolders, hmax, Holdings.globals, hg] at hle hsum; omega
  · have hle := le_tally (fun t => refers t.holdings.waiter e) ht
    rw [h.waiters, PoolInner.registered]
    simp only [he, refers, if_true] at hle
    exact hle
  · have hle := le_tally (fun t => refers t.holdings.permit e) ht
    have hsum := h.permits e
    cases hx : s.entries[e]? with
    | some => rfl
    | none => simp [PoolInner.permitHolders, Resources.permitsOf, hx, he, refers] at hle hsum; omega

theorem Accounted.effect (h : Accounted config s) (ht : s.tasks[i]? = some t)
    (htasks : s'.tasks = s.tasks.set i t')
    (he : Effect config action i s.toResources t s'.toResources t') : Accounted config s' := by
  have hb := he.balanced (h.backed (List.mem_of_getElem? ht)) h.tabled
  refine ⟨hb.globalSome.trans h.globalSome, ?_, fun e => ?_, fun e => ?_, fun p hp => ?_,
    fun hpos => (he.limited hpos).elim h.limited id⟩
  · have hset := tally_set (fun t => t.holdings.globals) t' ht
    have := h.global
    have := hb.global
    simp only [PoolInner.globalHolders, htasks] at *
    omega
  · have hset := tally_set (fun t => refers t.holdings.permit e) t' ht
    have := h.permits e
    have := hb.permits e
    simp only [PoolInner.permitHolders, htasks] at *
    omega
  · have hset := tally_set (fun t => refers t.holdings.waiter e) t' ht
    have := h.waiters e
    have := hb.waiters e
    simp only [PoolInner.registered, htasks] at *
    omega
  · rcases he.perOrigin hp with hp | hx
    · obtain ⟨x, hx, hkey⟩ := h.tabled p hp
      have horigin := he.origins p.2 (List.getElem?_eq_some_iff.mp hx).1
      rw [hx] at horigin
      obtain ⟨x', hx', hkey'⟩ := Option.map_eq_some_iff.mp horigin
      exact ⟨x', hx', hkey'.trans hkey⟩
    · exact hx

omit [DecidableEq K] in
theorem Accounted.closes (h : Accounted config s) (htasks : s'.tasks = s.tasks)
    (hc : Closes s.toResources s'.toResources) : Accounted config s' := by
  have hreg e : s'.registered e = s.registered e := by rw [PoolInner.registered, htasks]; rfl
  have hheld e : s'.permitHolders e = s.permitHolders e := by rw [PoolInner.permitHolders, htasks]; rfl
  have hglobal : s'.globalHolders = s.globalHolders := by rw [PoolInner.globalHolders, htasks]; rfl
  generalize hr' : s'.toResources = r' at hc
  cases hc with
  | global =>
    refine ⟨?_, ?_, fun e => ?_, fun e => ?_, fun p hp => ?_, fun hpos => h.limited (by rwa [hr'] at hpos)⟩
    · simpa [hr'] using h.globalSome
    · have := h.global
      rw [hglobal, hr']
      simpa [Resources.globalPermits, Function.comp_def] using this
    · rw [hheld, hr']; exact h.permits e
    · rw [hreg, hr']; exact h.waiters e
    · rw [hr'] at hp ⊢; exact h.tabled p hp
  | origin e₀ =>
    refine ⟨?_, ?_, fun e => ?_, fun e => ?_, fun p hp => ?_,
      fun hpos => h.limited (by simpa [hr'] using hpos)⟩
    · rw [hr']; exact h.globalSome
    · rw [hglobal, hr']; exact h.global
    · rw [hheld, hr', Resources.permitsOf_modifyEntry]
      by_cases he : e₀ = e
      · subst he
        simpa [Resources.permitsOf, Function.comp_def] using h.permits e₀
      · simpa [he] using h.permits e
    · rw [hreg, hr', Resources.waitersOf_modifyEntry]
      by_cases he : e₀ = e
      · subst he
        simpa [Resources.waitersOf, Function.comp_def] using h.waiters e₀
      · simpa [he] using h.waiters e
    · rw [hr'] at hp ⊢
      obtain ⟨x, hx, hkey⟩ := h.tabled p hp
      have horigin := Resources.origin_modifyEntry s.toResources e₀ p.2
        (fun x => { x with semaphore.closed := true }) fun _ => rfl
      rw [hx] at horigin
      obtain ⟨x', hx', hkey'⟩ := Option.map_eq_some_iff.mp horigin
      exact ⟨x', hx', hkey'.trans hkey⟩

omit [DecidableEq K] in
theorem Accounted.spawn (h : Accounted config s) {origin : Option K}
    (hr : s'.toResources = s.toResources) (htasks : s'.tasks = s.tasks ++ [.start origin]) :
    Accounted config s' := by
  refine ⟨?_, ?_, fun e => ?_, fun e => ?_, ?_, fun hpos => h.limited (by rwa [hr] at hpos)⟩
  · rw [hr]; exact h.globalSome
  · simpa [PoolInner.globalHolders, hr, htasks, Task.holdings, Holdings.globals] using h.global
  · simpa [PoolInner.permitHolders, hr, htasks, Task.holdings, refers] using h.permits e
  · simpa [PoolInner.registered, hr, htasks, Task.holdings, refers] using h.waiters e
  · rw [hr]; exact h.tabled

theorem Accounted.step (h : Accounted config s) (hs : s.step config action = some s') :
    Accounted config s' := by
  rcases step_cases hs with ⟨origin, hr, htasks⟩ | ⟨i, t, t', ht, htasks, he⟩ | ⟨htasks, hc⟩
  · exact h.spawn hr htasks
  · exact h.effect ht htasks he
  · exact h.closes htasks hc

omit [DecidableEq K] in
theorem Accounted.init (config : PoolConfig) : Accounted config (new config : PoolInner K) := by
  refine ⟨?_, ?_, fun e => ?_, fun e => rfl, nofun, nofun⟩
  · simp [new]
  · simp only [new, PoolInner.globalHolders, Resources.globalPermits, Option.map_map, Function.comp_def]
    cases config.effectiveMaxInFlight <;> rfl
  · simp [new, PoolInner.permitHolders, Resources.permitsOf]

theorem reachable_accounted (h : Reachable (PoolInner.step config) (new config) s) :
    Accounted config s :=
  h.invariant (.init config) fun _ hi _ hs => hi.step hs

theorem step_task {j : Nat} (hs : s.step config action = some s') (ht : s.tasks[j]? = some t)
    (hacc : Accounted config s) :
    ∃ t', s'.tasks[j]? = some t' ∧ (t' = t ∨
      s'.globalPermits + t'.holdings.globals = s.globalPermits + t.holdings.globals) := by
  have hj : j < s.tasks.length := (List.getElem?_eq_some_iff.mp ht).1
  rcases step_cases hs with ⟨origin, hr, htasks⟩ | ⟨i, u, u', hu, htasks, he⟩ | ⟨htasks, hc⟩
  · exact ⟨t, by simpa [htasks, List.getElem?_append, hj] using ht, .inl rfl⟩
  · by_cases hij : i = j
    · subst hij
      obtain rfl : t = u := Option.some.inj (ht.symm.trans hu)
      have hb := he.balanced (hacc.backed (List.mem_of_getElem? ht)) hacc.tabled
      exact ⟨u', by rw [htasks, List.getElem?_set_self hj], .inr hb.global⟩
    · exact ⟨t, by rw [htasks, List.getElem?_set_ne hij, ht], .inl rfl⟩
  · exact ⟨t, by rw [htasks, ht], .inl rfl⟩

/-- Task `i` ends by its own steps, the global semaphore then being `globalSemaphore`. -/
private def Unwinds (config : PoolConfig) (i : Nat) (s : PoolInner K)
    (globalSemaphore : Option Semaphore) : Prop :=
  ∃ n s', run (PoolInner.step config) s (List.replicate n (.advance i)) = some s' ∧
    s'.tasks = s.tasks.set i .done ∧ s'.globalSemaphore = globalSemaphore

private theorem Unwinds.step {globalSemaphore : Option Semaphore} (ht : s.tasks[i]? = some t)
    (hs : s.advance config i t = some (s.move i r t'))
    (h : Unwinds config i (s.move i r t') globalSemaphore) : Unwinds config i s globalSemaphore := by
  obtain ⟨n, s', hrun, htasks, hglobal⟩ := h
  refine ⟨n + 1, s', ?_, ?_, hglobal⟩
  · simp only [List.replicate_succ, run_cons, PoolInner.step, ht, Option.bind_some, hs]
    exact hrun
  · rw [htasks]
    simp [PoolInner.move]

omit [DecidableEq K] in
private theorem move_tasks (ht : s.tasks[i]? = some t) :
    (s.move i r t').tasks[i]? = some t' := by
  simp [PoolInner.move, (List.getElem?_eq_some_iff.mp ht).1]

private theorem unwind_done (ht : s.tasks[i]? = some (.unwind false none none)) :
    Unwinds config i s s.globalSemaphore := by
  refine ⟨1, s.setTask i .done, ?_, rfl, rfl⟩
  simp [run, PoolInner.step, ht, PoolInner.advance]

private theorem unwind_global {g : Bool} (ht : s.tasks[i]? = some (.unwind g none none)) :
    Unwinds config i s (if g then s.globalSemaphore.map Semaphore.release else s.globalSemaphore) := by
  cases g with
  | false => exact unwind_done ht
  | true => exact .step ht rfl (unwind_done (move_tasks ht))

private theorem unwind_waiter {g : Bool} {waiter : Option EntryId}
    (ht : s.tasks[i]? = some (.unwind g waiter none)) :
    Unwinds config i s (if g then s.globalSemaphore.map Semaphore.release else s.globalSemaphore) := by
  cases waiter with
  | none => exact unwind_global ht
  | some e => exact .step ht rfl (unwind_global (move_tasks ht))

private theorem unwind_run {g : Bool} {waiter permit : Option EntryId}
    (ht : s.tasks[i]? = some (.unwind g waiter permit)) :
    ∃ n s', run (PoolInner.step config) s (List.replicate n (.advance i)) = some s' ∧
      s'.tasks = s.tasks.set i .done ∧
      s'.globalSemaphore = if g then s.globalSemaphore.map Semaphore.release else s.globalSemaphore := by
  cases permit with
  | none => exact unwind_waiter ht
  | some e => exact Unwinds.step ht rfl (unwind_waiter (move_tasks ht))

omit [DecidableEq K] in
theorem PoolInner.Quiescent.tally_zero (h : s.Quiescent) {f : Task K → Nat} (hf : f .done = 0) :
    tally f s.tasks = 0 :=
  tally_eq_zero fun t ht => by rw [h t ht, hf]

omit [DecidableEq K] in
theorem Accounted.entry (h : Accounted config s) {e : EntryId} {x : PerOriginSemaphore K}
    (hx : s.entries[e]? = some x) : x.waiters = s.registered e ∧
      config.effectiveMaxInFlightPerOrigin =
        some (x.semaphore.permits + (s.heldByGuards e + s.heldByAcquires e)) := by
  have hlen : 0 < s.entries.length := Nat.zero_lt_of_lt (List.getElem?_eq_some_iff.mp hx).1
  obtain ⟨m, hm⟩ := Option.isSome_iff_exists.mp (h.limited hlen)
  have hw := h.waiters e
  have hp := h.permits e
  have hsplit := tally_split Task.isGuard (fun t => refers t.holdings.permit e) s.tasks
  simp only [Resources.waitersOf, Resources.permitsOf, hx, hm, Option.map_some, Option.getD_some] at hw hp
  refine ⟨hw, ?_⟩
  rw [hm, PoolInner.heldByGuards, PoolInner.heldByAcquires, hsplit]
  exact congrArg some hp.symm

omit [DecidableEq K] in
theorem Accounted.globalLimit (h : Accounted config s) {sem : Semaphore}
    (hsem : s.globalSemaphore = some sem) : config.effectiveMaxInFlight =
      some (sem.permits + (s.globalHeldByGuards + s.globalHeldByAcquires)) := by
  have hsome := h.globalSome
  have hg := h.global
  have hsplit := tally_split Task.isGuard (fun t => t.holdings.globals) s.tasks
  obtain ⟨m, hm⟩ := Option.isSome_iff_exists.mp (by rw [← hsome, hsem]; rfl)
  simp only [Resources.globalPermits, hsem, hm, Option.map_some, Option.getD_some] at hg
  rw [hm, PoolInner.globalHeldByGuards, PoolInner.globalHeldByAcquires, hsplit]
  exact congrArg some hg.symm

omit [DecidableEq K] in
theorem Accounted.quiescent (h : Accounted config s) (hq : s.Quiescent) :
    (∀ (e : EntryId) x, s.entries[e]? = some x → x.waiters = 0 ∧
      config.effectiveMaxInFlightPerOrigin = some x.semaphore.permits) ∧
    s.globalSemaphore.map Semaphore.permits = config.effectiveMaxInFlight := by
  refine ⟨fun e x hx => ?_, ?_⟩
  · obtain ⟨hw, hp⟩ := h.entry hx
    rw [PoolInner.registered, hq.tally_zero rfl] at hw
    rw [PoolInner.heldByGuards, PoolInner.heldByAcquires, hq.tally_zero rfl, hq.tally_zero rfl] at hp
    exact ⟨hw, hp⟩
  · cases hsem : s.globalSemaphore with
    | none =>
      have hsome := h.globalSome
      rw [hsem] at hsome
      exact (Option.isSome_eq_false_iff.mp hsome.symm |> Option.isNone_iff_eq_none.mp).symm
    | some sem =>
      have hg := h.globalLimit hsem
      rw [PoolInner.globalHeldByGuards, PoolInner.globalHeldByAcquires, hq.tally_zero rfl,
        hq.tally_zero rfl] at hg
      exact hg.symm

theorem Accounted.relinquish {j : Nat} {t'' : Task K} (h : Accounted config s)
    (hs : s.step config action = some s') (ht : s.tasks[j]? = some t) (ht' : s'.tasks[j]? = some t'')
    (hheld : t.holdings.globalPermit = true) (hfree : t''.holdings.globalPermit = false) :
    s'.globalPermits = s.globalPermits + 1 := by
  obtain ⟨u, hu, hsame | hbal⟩ := step_task hs ht h
  · obtain rfl : t'' = u := Option.some.inj (ht'.symm.trans hu)
    rw [hsame, hheld] at hfree
    cases hfree
  · obtain rfl : t'' = u := Option.some.inj (ht'.symm.trans hu)
    simpa [Holdings.globals, hheld, hfree] using hbal

/-- Counters, permits and holdings agree in every reachable state, what a failed acquire
holds comes back, and nothing is missing once all is over. -/
theorem acquire_conserves (config : PoolConfig) (s : PoolInner K)
    (h : Reachable (PoolInner.step config) (new config) s) :
    (∀ (e : EntryId) x, s.entries[e]? = some x → x.waiters = s.registered e ∧
      config.effectiveMaxInFlightPerOrigin = some (x.semaphore.permits + (s.heldByGuards e + s.heldByAcquires e))) ∧
    (∀ sem, s.globalSemaphore = some sem → config.effectiveMaxInFlight =
      some (sem.permits + (s.globalHeldByGuards + s.globalHeldByAcquires))) ∧
    (∀ action s' (i : Nat) t t', s.step config action = some s' → s.tasks[i]? = some t →
      s'.tasks[i]? = some t' → t.holdings.globalPermit = true → t'.holdings.globalPermit = false →
      s'.globalPermits = s.globalPermits + 1) ∧
    (∀ (i : Nat) g waiter permit, s.tasks[i]? = some (.unwind g waiter permit) →
      ∃ n s', run (PoolInner.step config) s (List.replicate n (.advance i)) = some s' ∧
        s'.tasks = s.tasks.set i .done ∧
        s'.globalSemaphore = if g then s.globalSemaphore.map Semaphore.release else s.globalSemaphore) ∧
    (s.Quiescent →
      (∀ (e : EntryId) x, s.entries[e]? = some x → x.waiters = 0 ∧
        config.effectiveMaxInFlightPerOrigin = some x.semaphore.permits) ∧
      (∀ p ∈ s.perOrigin, ∃ x, s.entries[p.2]? = some x ∧ x.origin = p.1) ∧
      s.globalSemaphore.map Semaphore.permits = config.effectiveMaxInFlight) := by
  have hacc := reachable_accounted h
  refine ⟨fun e x hx => hacc.entry hx, fun sem hsem => hacc.globalLimit hsem, ?_, ?_, fun hq => ?_⟩
  · intro action s' i t t' hs ht ht' hheld hfree
    exact hacc.relinquish hs ht ht' hheld hfree
  · intro i g waiter permit ht
    exact unwind_run ht
  · obtain ⟨hentries, hglobal⟩ := hacc.quiescent hq
    exact ⟨hentries, hacc.tabled, hglobal⟩

/-- One slot, two acquires of one origin: the second is cancelled in the queue, the
first returns its guard and drops it. -/
private def cancelledWait : List (Action OriginKey) :=
  let key := ⟨"https", "a", 443, none, none, none, false⟩
  [.spawn (some key), .spawn (some key), .advance 0, .advance 0, .advance 0, .advance 0, .advance 0,
    .advance 0, .advance 1, .advance 1, .advance 1, .cancel 1, .advance 1, .advance 1, .advance 1,
    .dropGuard 0, .advance 0, .advance 0, .advance 0]

theorem acquire_conserves_cancelledWait :
    ∃ s, run (PoolInner.step { maxConnections := some 2, maxConnectionsPerHost := some 1 })
        (new { maxConnections := some 2, maxConnectionsPerHost := some 1 }) cancelledWait = some s ∧
      s.Quiescent ∧ s.entries.map PerOriginSemaphore.waiters = [0] ∧
      s.globalSemaphore.map Semaphore.permits = some 2 := by
  let config : PoolConfig := { maxConnections := some 2, maxConnectionsPerHost := some 1 }
  have hrun : ((run (PoolInner.step config) (new config) cancelledWait).map
      fun s => (s.tasks, s.entries.length)) = some ([.done, .done], 1) := by decide
  obtain ⟨s, hs, hstate⟩ := Option.map_eq_some_iff.mp hrun
  obtain ⟨htasks, hlen⟩ := Prod.mk.inj hstate
  have hquiet : s.Quiescent := by simp [PoolInner.Quiescent, htasks]
  obtain ⟨-, -, -, -, hall⟩ := acquire_conserves config s (Reaches.run .start hs)
  obtain ⟨hentries, -, hglobal⟩ := hall hquiet
  obtain ⟨x, hx⟩ := List.length_eq_one_iff.mp hlen
  exact ⟨s, hs, hquiet, by simp [hx, (hentries 0 x (by simp [hx])).1], hglobal⟩

end Eggfetch.Pool
