import Eggfetch.Pool.Accounting

/-! The per-origin limit counted over every entry ever created for a key. The idle
sweep reads `available_permits()` before `waiters`; the limit holds as long as no
permit is taken between the two reads, and fails otherwise. -/
namespace Eggfetch.Pool
open Transition

variable {K : Type} [DecidableEq K]

/-- The task holds a permit of some entry created for `key`. -/
def PoolInner.holdsOrigin (s : PoolInner K) (key : K) (t : Task K) : Bool :=
  match t.holdings.permit.bind (s.entries[·]?) with
  | some x => x.origin = key
  | none => false

def PoolInner.originHolders (s : PoolInner K) (key : K) : Nat :=
  tally (fun t => (s.holdsOrigin key t).toNat) s.tasks

def Task.refersTo (t : Task K) (e : EntryId) : Prop :=
  t.holdings.waiter = some e ∨ t.holdings.permit = some e

/-- An entry whose waiters the sweep reads as zero is still full at that read. -/
def sweepStable (config : PoolConfig) (s : PoolInner K) : Action K → Bool
  | .advance i =>
    match s.tasks[i]? with
    | some (.sweepWaiters _ _ victim _) =>
      match s.entries[victim.2]?, config.effectiveMaxInFlightPerOrigin with
      | some x, some maxPerOrigin => 0 < x.waiters || maxPerOrigin ≤ x.semaphore.permits
      | _, _ => true
    | _ => true
  | _ => true

/-- The table has one entry a key, every entry in use is in it, and the key of a
sweeping task is missing from it. -/
structure Tabled (s : PoolInner K) : Prop where
  unique : ∀ p ∈ s.perOrigin, ∀ q ∈ s.perOrigin, p.1 = q.1 → p = q
  referenced : ∀ t ∈ s.tasks, ∀ e, t.refersTo e → ∃ key, (key, e) ∈ s.perOrigin
  sweeping : ∀ (i : Nat) t key, s.tasks[i]? = some t → t.sweeping = some key →
    s.writer = some i ∧ ∀ p ∈ s.perOrigin, p.1 ≠ key

omit [DecidableEq K] in
private theorem getElem?_set_cases {l : List (Task K)} {i j : Nat} {t t' u : Task K}
    (ht : l[i]? = some t) (hu : (l.set i t')[j]? = some u) :
    (j = i ∧ u = t') ∨ (j ≠ i ∧ l[j]? = some u) := by
  by_cases hij : i = j
  · subst hij
    rw [List.getElem?_set_self (List.getElem?_eq_some_iff.mp ht).1] at hu
    exact .inl ⟨rfl, (Option.some.inj hu).symm⟩
  · rw [List.getElem?_set_ne hij] at hu
    exact .inr ⟨Ne.symm hij, hu⟩

theorem Resources.lookup_none {r : Resources K} {key : K} (h : r.lookup key = none) :
    ∀ p ∈ r.perOrigin, p.1 ≠ key := by
  intro p hp hkey
  have hfind := List.find?_eq_none.mp (Option.map_eq_none_iff.mp h) p hp
  exact hfind (by simpa using hkey)

variable {config : PoolConfig} {action : Action K} {i : Nat} {s s' : PoolInner K} {t t' : Task K}
  {r r' : Resources K}

/-- An effect other than an eviction keeps every bucket, given that it inserts a missing key. -/
theorem Effect.kept (h : Effect config action i r t r' t')
    (hmissing : ∀ key, (r.lookup key = none) ∨ t.sweeping = some key → ∀ p ∈ r.perOrigin, p.1 ≠ key)
    {p : K × EntryId} (hp : p ∈ r.perOrigin) :
    p ∈ r'.perOrigin ∨ ∃ a key rest x, action = .advance i ∧ t = .sweepWaiters a key p rest ∧
      r.entries[p.2]? = some x ∧ x.waiters = 0 := by
  cases h with
  | @insert _ key _ _ hwhy =>
    have hne := hmissing key (hwhy.imp (·.2.1) id) p hp
    exact .inl (List.mem_append_left _ (List.mem_filter.mpr ⟨hp, by simpa using hne⟩))
  | @evict a key victim rest x hact ht hx hzero =>
    by_cases hv : p = victim
    · subst hv
      exact .inr ⟨a, key, rest, x, hact, ht, hx, hzero⟩
    · exact .inl (List.mem_filter.mpr ⟨hp, by simpa using hv⟩)
  | _ => exact .inl hp

private theorem Effect.refersTo (h : Effect config action i r t r' t') {e : EntryId} (he : t'.refersTo e) :
    t.refersTo e ∨ ∃ key, (key, e) ∈ r'.perOrigin := by
  unfold Task.refersTo at he ⊢
  cases h with
  | register hlook _ hh =>
    rw [hh] at he
    rcases he with he | he
    · obtain rfl := Option.some.inj he
      exact .inr ⟨_, Resources.lookup_mem hlook⟩
    · exact .inl (.inr he)
  | @insert _ key _ _ _ _ hh =>
    rw [hh] at he
    rcases he with he | he
    · obtain rfl := Option.some.inj he
      exact .inr ⟨key, List.mem_append_right _ (List.mem_singleton.mpr rfl)⟩
    · exact .inl (.inr he)
  | evict _ ht => subst ht; exact .inl he
  | takeOrigin _ _ hwaiter _ hh =>
    rw [hh] at he
    rcases he with he | he
    · exact .inl (.inl he)
    · obtain rfl := Option.some.inj he
      exact .inl (.inl hwaiter)
  | dropOrigin _ hh | dropWaiter _ hh => rw [hh] at he; simp at he; tauto
  | keep hh | startSweep _ _ hh | abandon _ hh => rw [hh] at he; exact .inl he
  | takeGlobal _ _ _ hh | dropGlobal _ hh => rw [hh] at he; exact .inl he

theorem Tabled.missing (h : Tabled s) (ht : s.tasks[i]? = some t) (key : K)
    (hwhy : s.lookup key = none ∨ t.sweeping = some key) : ∀ p ∈ s.perOrigin, p.1 ≠ key := by
  rcases hwhy with hlook | hsweep
  · exact Resources.lookup_none hlook
  · exact (h.sweeping i t key ht hsweep).2

omit [DecidableEq K] in
/-- No permit or registration refers to an entry that the sweep finds without waiters,
when the entry is still full then. -/
theorem Accounted.unreferenced (hacc : Accounted config s) {a : Locals} {key : K} {victim : K × EntryId}
    {rest : List (K × EntryId)} {x : PerOriginSemaphore K}
    (hstable : sweepStable config s (.advance i) = true)
    (ht : s.tasks[i]? = some (.sweepWaiters a key victim rest))
    (hx : s.entries[victim.2]? = some x) (hzero : x.waiters = 0) :
    ∀ u ∈ s.tasks, ¬ u.refersTo victim.2 := by
  obtain ⟨hwaiters, hlimit⟩ := hacc.entry hx
  have hfull : x.semaphore.permits + (s.heldByGuards victim.2 + s.heldByAcquires victim.2) ≤
      x.semaphore.permits := by
    simp only [sweepStable, ht, hx, hlimit, hzero] at hstable
    simpa using hstable
  have hsplit := tally_split Task.isGuard (fun t => refers t.holdings.permit victim.2) s.tasks
  have hheld : s.permitHolders victim.2 = 0 := by
    rw [PoolInner.permitHolders, ← hsplit]
    rw [PoolInner.heldByGuards, PoolInner.heldByAcquires] at hfull
    omega
  intro u hu href
  rcases href with he | he
  · have hle := le_tally (fun t => refers t.holdings.waiter victim.2) hu
    rw [← PoolInner.registered, ← hwaiters, hzero] at hle
    simp [he, refers] at hle
  · have hle := le_tally (fun t => refers t.holdings.permit victim.2) hu
    rw [← PoolInner.permitHolders, hheld] at hle
    simp [he, refers] at hle

private theorem Effect.writer (h : Effect config action i r t r' t') :
    (r'.writer = r.writer ∧ t'.sweeping = t.sweeping ∧ r'.perOrigin ⊆ r.perOrigin) ∨
    ((r.writer = none ∨ t.sweeping.isSome) ∧ r'.writer = none ∧ t'.sweeping = none) ∨
    (r.writer = none ∧ r'.writer = some i ∧ ∃ key, t'.sweeping = some key ∧ r.lookup key = none ∧
      r'.perOrigin = r.perOrigin) := by
  cases h with
  | insert _ hwhy _ _ hout =>
    refine .inr (.inl ⟨hwhy.imp (·.1) (fun hsweep => by rw [hsweep]; rfl), rfl, hout⟩)
  | abandon hin _ hout => exact .inr (.inl ⟨.inr (by rw [hin]; rfl), rfl, hout⟩)
  | startSweep hwriter hlook _ _ hin => exact .inr (.inr ⟨hwriter, rfl, _, hin, hlook, rfl⟩)
  | evict _ ht => subst ht; exact .inl ⟨rfl, rfl, List.filter_subset_self _⟩
  | keep _ hsame | dropGlobal _ _ hsame | dropOrigin _ _ hsame | dropWaiter _ _ hsame =>
    exact .inl ⟨rfl, hsame, List.Subset.refl _⟩
  | takeGlobal _ _ _ _ hsame | register _ _ _ hsame | takeOrigin _ _ _ _ _ hsame =>
    exact .inl ⟨rfl, hsame, List.Subset.refl _⟩

theorem Effect.unique (h : Effect config action i r t r' t')
    (hu : ∀ p ∈ r.perOrigin, ∀ q ∈ r.perOrigin, p.1 = q.1 → p = q) :
    ∀ p ∈ r'.perOrigin, ∀ q ∈ r'.perOrigin, p.1 = q.1 → p = q := by
  cases h with
  | insert =>
    intro p hp q hq hkey
    simp only [Resources.insertRegistered, List.mem_append, List.mem_filter, List.mem_singleton,
      decide_eq_true_eq] at hp hq
    rcases hp with ⟨hp, hpk⟩ | rfl <;> rcases hq with ⟨hq, hqk⟩ | rfl
    · exact hu p hp q hq hkey
    · exact absurd hkey hpk
    · exact absurd hkey.symm hqk
    · rfl
  | evict =>
    intro p hp q hq
    exact hu p (List.mem_filter.mp hp).1 q (List.mem_filter.mp hq).1
  | _ => exact hu

theorem Tabled.effect_referenced (h : Tabled s) (hacc : Accounted config s)
    (hstable : sweepStable config s action = true) (ht : s.tasks[i]? = some t)
    (he : Effect config action i s.toResources t s'.toResources t') {u : Task K} {e : EntryId}
    (hu : u ∈ s.tasks) (href : u.refersTo e) : ∃ key, (key, e) ∈ s'.perOrigin := by
  obtain ⟨key, hkey⟩ := h.referenced u hu e href
  rcases he.kept (h.missing ht) hkey with hin | ⟨a, k, rest, x, rfl, rfl, hx, hzero⟩
  · exact ⟨key, hin⟩
  · exact absurd href (hacc.unreferenced hstable ht hx hzero u hu)

theorem Tabled.effect (h : Tabled s) (hacc : Accounted config s)
    (hstable : sweepStable config s action = true) (ht : s.tasks[i]? = some t)
    (htasks : s'.tasks = s.tasks.set i t')
    (he : Effect config action i s.toResources t s'.toResources t') : Tabled s' := by
  refine ⟨he.unique h.unique, fun u hu e href => ?_, fun j u key hu hsweep => ?_⟩
  · rw [htasks] at hu
    rcases List.mem_or_eq_of_mem_set hu with hu | rfl
    · exact h.effect_referenced hacc hstable ht he hu href
    · rcases he.refersTo href with href | hin
      · exact h.effect_referenced hacc hstable ht he (List.mem_of_getElem? ht) href
      · exact hin
  · rw [htasks] at hu
    rcases getElem?_set_cases ht hu with ⟨rfl, rfl⟩ | ⟨hj, hu⟩
    · rcases he.writer with ⟨hw, hsame, hsub⟩ | ⟨_, _, hout⟩ | ⟨_, hw, k, hin, hlook, heq⟩
      · obtain ⟨hwriter, hmiss⟩ := h.sweeping j t key ht (hsame ▸ hsweep)
        exact ⟨hw.trans hwriter, fun p hp => hmiss p (hsub hp)⟩
      · rw [hsweep] at hout
        cases hout
      · obtain rfl : k = key := Option.some.inj (hin.symm.trans hsweep)
        exact ⟨hw, fun p hp => Resources.lookup_none hlook p (heq ▸ hp)⟩
    · -- only one task is inside the write-locked section
      obtain ⟨hwriter, hmiss⟩ := h.sweeping j u key hu hsweep
      rcases he.writer with ⟨hw, _, hsub⟩ | ⟨hfree | hmine, _⟩ | ⟨hfree, _⟩
      · exact ⟨hw.trans hwriter, fun p hp => hmiss p (hsub hp)⟩
      · rw [hwriter] at hfree
        cases hfree
      · obtain ⟨k, hk⟩ := Option.isSome_iff_exists.mp hmine
        have hmine := (h.sweeping i t k ht hk).1
        rw [hwriter] at hmine
        exact absurd (Option.some.inj hmine) hj
      · rw [hwriter] at hfree
        cases hfree

omit [DecidableEq K] in
theorem Closes.table (h : Closes r r') : r'.perOrigin = r.perOrigin ∧ r'.writer = r.writer := by
  cases h <;> exact ⟨rfl, rfl⟩

theorem Tabled.step (h : Tabled s) (hacc : Accounted config s)
    (hstable : sweepStable config s action = true) (hs : s.step config action = some s') :
    Tabled s' := by
  rcases step_cases hs with ⟨origin, hr, htasks⟩ | ⟨i, t, t', ht, htasks, he⟩ | ⟨htasks, hc⟩
  · refine ⟨by rw [hr]; exact h.unique, fun u hu e href => ?_, fun j u key hu hsweep => ?_⟩
    · rw [htasks] at hu
      rcases List.mem_append.mp hu with hu | hu
      · rw [hr]
        exact h.referenced u hu e href
      · obtain rfl := List.mem_singleton.mp hu
        rcases href with he | he <;> cases he
    · rw [htasks, List.getElem?_append] at hu
      split at hu
      · rw [hr]
        exact h.sweeping j u key hu hsweep
      · obtain rfl := List.mem_singleton.mp (List.mem_of_getElem? hu)
        cases hsweep
  · exact h.effect hacc hstable ht htasks he
  · obtain ⟨htable, hwriter⟩ := hc.table
    refine ⟨by rw [htable]; exact h.unique, fun u hu => ?_, fun j u key hu => ?_⟩
    · rw [htasks] at hu
      rw [htable]
      exact h.referenced u hu
    · rw [htasks] at hu
      rw [htable, hwriter]
      exact h.sweeping j u key hu

abbrev StableReach (config : PoolConfig) : PoolInner K → Prop :=
  Reaches (PoolInner.step config) (fun s action => sweepStable config s action = true) (new config)

theorem StableReach.tabled (h : StableReach config s) : Tabled s :=
  h.invariant ⟨nofun, nofun, nofun⟩ fun hr hi hok hs => hi.step (reachable_accounted hr.reachable) hok hs

private theorem Tabled.originHolders_le (h : Tabled s) (hacc : Accounted config s) {maxPerOrigin : Nat}
    (hmax : config.effectiveMaxInFlightPerOrigin = some maxPerOrigin) (key : K) :
    s.originHolders key ≤ maxPerOrigin := by
  have hone : ∀ t ∈ s.tasks, s.holdsOrigin key t = true →
      ∃ e, t.holdings.permit = some e ∧ (key, e) ∈ s.perOrigin := by
    intro t ht hholds
    unfold PoolInner.holdsOrigin at hholds
    split at hholds
    · rename_i x hx
      obtain ⟨e, he, hx⟩ := Option.bind_eq_some_iff.mp hx
      obtain ⟨k, hk⟩ := h.referenced t ht e (.inr he)
      obtain ⟨y, hy, horigin⟩ := hacc.tabled _ hk
      obtain rfl : x = y := Option.some.inj (hx.symm.trans hy)
      have hkey : x.origin = key := by simpa using hholds
      obtain rfl : key = k := hkey.symm.trans horigin
      exact ⟨e, he, hk⟩
    · cases hholds
  by_cases hany : ∃ e, (key, e) ∈ s.perOrigin
  · obtain ⟨e, he⟩ := hany
    have hpermits := hacc.permits e
    rw [hmax, Option.getD_some] at hpermits
    have hle : s.originHolders key ≤ s.permitHolders e := by
      refine tally_mono fun t ht => ?_
      cases hholds : s.holdsOrigin key t with
      | false => exact Nat.zero_le _
      | true =>
        obtain ⟨e', he', hin⟩ := hone t ht hholds
        obtain rfl : e' = e := (Prod.mk.inj (h.unique _ hin _ he rfl)).2
        simp [refers, he']
    omega
  · have hzero : s.originHolders key = 0 := by
      refine tally_eq_zero fun t ht => ?_
      cases hholds : s.holdsOrigin key t with
      | false => rfl
      | true =>
        obtain ⟨e, -, hin⟩ := hone t ht hholds
        exact absurd ⟨e, hin⟩ hany
    omega

/-- The limits hold, and no sweep evicts an entry in use, in every state that is reached
without a permit being taken between the two reads of a sweep. -/
theorem stable_limit (config : PoolConfig) (s : PoolInner K) (h : StableReach config s) :
    (∀ maxPerOrigin key, config.effectiveMaxInFlightPerOrigin = some maxPerOrigin →
      s.originHolders key ≤ maxPerOrigin) ∧
    (∀ maxConnections, config.effectiveMaxInFlight = some maxConnections →
      s.globalHolders ≤ maxConnections) ∧
    (∀ action s', sweepStable config s action = true → s.step config action = some s' →
      ∀ p ∈ s.perOrigin, p ∉ s'.perOrigin → ∀ t ∈ s.tasks, ¬ t.refersTo p.2) := by
  have hacc := reachable_accounted h.reachable
  have htab := h.tabled
  refine ⟨fun m key hm => htab.originHolders_le hacc hm key, fun m hm => ?_, ?_⟩
  · have hglobal := hacc.global
    rw [hm, Option.getD_some] at hglobal
    omega
  · intro action s' hstable hs p hp hgone
    rcases step_cases hs with ⟨origin, hr, -⟩ | ⟨i, t, t', ht, -, he⟩ | ⟨-, hc⟩
    · exact absurd (hr ▸ hp) hgone
    · rcases he.kept (htab.missing ht) hp with hin | ⟨a, key, rest, x, rfl, rfl, hx, hzero⟩
      · exact absurd hin hgone
      · exact hacc.unreferenced hstable ht hx hzero
    · exact absurd (hc.table.1 ▸ hp) hgone

private def oneSlot : PoolConfig := { maxConnectionsPerHost := some 1 }

private def port (n : Nat) : OriginKey := { scheme := "http", host := "a", port := n }

/-- The second acquire of an origin waits while the first holds its only slot. -/
theorem stable_limit_queued :
    ∃ s, runWhile (PoolInner.step oneSlot) (sweepStable oneSlot) (new oneSlot)
        [.spawn (some (port 0)), .spawn (some (port 0)), .advance 0, .advance 0, .advance 0, .advance 0,
          .advance 0, .advance 0, .advance 1, .advance 1, .advance 1] = some s ∧
      s.tasks = [.guard false (some 0), .waitOrigin ⟨false, false⟩ 0] ∧
      s.originHolders (port 0) ≤ 1 := by
  have hrun : ((runWhile (PoolInner.step oneSlot) (sweepStable oneSlot) (new oneSlot)
      [.spawn (some (port 0)), .spawn (some (port 0)), .advance 0, .advance 0, .advance 0, .advance 0,
        .advance 0, .advance 0, .advance 1, .advance 1, .advance 1]).map (·.tasks)) =
      some [.guard false (some 0), .waitOrigin ⟨false, false⟩ 0] := by decide
  obtain ⟨s, hs, htasks⟩ := Option.map_eq_some_iff.mp hrun
  have hlimit := stable_limit oneSlot s (Reaches.runWhile .start (fun _ _ h => h) hs)
  exact ⟨s, hs, htasks, hlimit.1 1 (port 0) rfl⟩

/-- `n` origins with one acquire each, all registered. -/
private def spawned (n : Nat) : PoolInner OriginKey where
  globalSemaphore := none
  entries := (List.range n).map fun i => ⟨port i, ⟨1, false⟩, 1⟩
  perOrigin := (List.range n).map fun i => (port i, i)
  writer := none
  poisoned := false
  metrics := {}
  tasks := (List.range n).map fun i => .tryOrigin ⟨false, false⟩ i

private theorem port_inj {i j : Nat} (h : port i = port j) : i = j := (OriginKey.mk.inj h).2.2.1

private theorem run_spawned {n : Nat} (hn : n ≤ 64) :
    run (PoolInner.step oneSlot) (spawned n) [.spawn (some (port n)), .advance n, .advance n, .advance n] =
      some (spawned (n + 1)) := by
  have hTask (t : Task OriginKey) : ((spawned n).tasks ++ [t])[n]? = some t := by
    simp [spawned]
  have hSet (t t' : Task OriginKey) : ((spawned n).tasks ++ [t]).set n t' = (spawned n).tasks ++ [t'] := by
    rw [List.set_append_right _ _ (by simp [spawned])]
    simp [spawned]
  have hKeys : ∀ p ∈ (spawned n).perOrigin, p.1 ≠ port n := by
    intro p hp
    obtain ⟨i, hi, rfl⟩ := List.mem_map.mp hp
    intro hSame
    have hLess := List.mem_range.mp hi
    have hEq := port_inj hSame
    omega
  have hNew : (spawned n).lookup (port n) = none := by
    rw [Resources.lookup, Option.map_eq_none_iff, List.find?_eq_none]
    exact fun p hp => by simpa using hKeys p hp
  have hFilter : (spawned n).perOrigin.filter (fun p : OriginKey × EntryId => p.1 ≠ port n) = (spawned n).perOrigin := by
    rw [List.filter_eq_self]
    exact fun p hp => decide_eq_true (hKeys p hp)
  have hRoom : ¬ PoolInner.sweepThreshold 1 < (spawned n).perOrigin.length := by
    simp only [spawned, List.length_map, List.length_range]
    exact not_lt.mpr (hn.trans (by decide))
  have hFree : ¬ (spawned n).writer.isSome = true := Bool.false_ne_true
  have hSound : ¬ (spawned n).poisoned = true := Bool.false_ne_true
  have hStart : PoolInner.step oneSlot { spawned n with tasks := (spawned n).tasks ++ [.start (some (port n))] } (.advance n) =
      some { spawned n with tasks := (spawned n).tasks ++ [.lookupRead ⟨false, false⟩ (port n)] } := by
    rw [PoolInner.step, hTask, Option.bind_some]
    exact congrArg (fun tasks => some { spawned n with tasks }) (hSet _ _)
  have hRead : PoolInner.step oneSlot { spawned n with tasks := (spawned n).tasks ++ [.lookupRead ⟨false, false⟩ (port n)] }
      (.advance n) = some { spawned n with tasks := (spawned n).tasks ++ [.lookupWrite ⟨false, false⟩ (port n)] } := by
    rw [PoolInner.step, hTask, Option.bind_some, PoolInner.advance, if_neg hFree, if_neg hSound, hNew]
    exact congrArg (fun tasks => some { spawned n with tasks }) (hSet _ _)
  have hWrite : PoolInner.step oneSlot { spawned n with tasks := (spawned n).tasks ++ [.lookupWrite ⟨false, false⟩ (port n)] }
      (.advance n) = some (spawned (n + 1)) := by
    rw [PoolInner.step, hTask, Option.bind_some, PoolInner.advance, if_neg hFree, if_neg hSound, hNew]
    have hLimit : oneSlot.effectiveMaxInFlightPerOrigin = some 1 := rfl
    rw [hLimit]
    dsimp only
    rw [if_neg hRoom, PoolInner.move, Resources.insertRegistered, hFilter, hSet]
    simp only [spawned, List.range_succ, List.map_append, List.map_singleton, List.length_map, List.length_range,
      PerOriginSemaphore.new]
  rw [run_cons, PoolInner.step, Option.bind_some, run_cons, hStart, Option.bind_some, run_cons, hRead, Option.bind_some, run_cons,
    hWrite, Option.bind_some, run_nil]

private def spawns (n : Nat) : List (Action OriginKey) :=
  (List.range n).flatMap fun i => [.spawn (some (port i)), .advance i, .advance i, .advance i]

private theorem run_spawns {n : Nat} (hn : n ≤ 65) :
    run (PoolInner.step oneSlot) (new oneSlot) (spawns n) = some (spawned n) := by
  induction n with
  | zero => rfl
  | succ n ih =>
    rw [spawns, List.range_succ, List.flatMap_append, List.flatMap_singleton, ← spawns, run_append, ih (by omega),
      Option.bind_some,
      run_spawned (by omega)]

/-- Task 65 sweeps for a new origin and reads that entry 0 is full; task 0 then takes its permit and leaves the waiter
count, so the second read is zero. Entry 1 is no longer used. -/
private def overtaking : List (Action OriginKey) :=
  [.advance 1, .advance 1, .advance 1, .dropGuard 1, .advance 1,
    .spawn (some (port 65)), .advance 65, .advance 65, .advance 65, .visit 65 0,
    .advance 0, .advance 0, .advance 0, .advance 65, .visit 65 0, .advance 65]

private def used : List (OriginKey × EntryId) := (List.range 63).map fun i => (port (i + 2), i + 2)

/-- Entries 0 and 1 are gone, and task 65 is at `t`. -/
private def overtaken (t : Task OriginKey) : PoolInner OriginKey where
  globalSemaphore := none
  entries := [⟨port 0, ⟨0, false⟩, 0⟩, ⟨port 1, ⟨1, false⟩, 0⟩] ++ used.map fun p => ⟨p.1, ⟨1, false⟩, 1⟩
  perOrigin := used
  writer := some 65
  poisoned := false
  metrics := {}
  tasks := [.guard false (some 0), .dropGuard false none] ++ used.map (fun p => .tryOrigin ⟨false, false⟩ p.2) ++ [t]

private theorem run_overtaking : run (PoolInner.step oneSlot) (spawned 65) overtaking =
    some (overtaken (.sweep ⟨false, false⟩ (port 65) used)) := by
  decide

/-- The sweep keeps an entry that is used. -/
private theorem run_visit {victim : OriginKey × EntryId} (rest : List (OriginKey × EntryId)) (h : victim ∈ used) :
    run (PoolInner.step oneSlot) (overtaken (.sweep ⟨false, false⟩ (port 65) (victim :: rest))) [.visit 65 0, .advance 65] =
      some (overtaken (.sweep ⟨false, false⟩ (port 65) rest)) := by
  have hTask (t : Task OriginKey) : (overtaken t).tasks[65]? = some t := List.getElem?_concat_length
  have hSet (t t' : Task OriginKey) : (overtaken t).setTask 65 t' = overtaken t' := by
    refine congrArg (fun tasks => { overtaken t with tasks }) ?_
    rw [overtaken, List.set_append_right _ _ (by decide)]
    rfl
  have hEntry (t : Task OriginKey) : (overtaken t).entries[victim.2]? = some ⟨victim.1, ⟨1, false⟩, 1⟩ := by
    obtain ⟨i, hi, rfl⟩ := List.mem_map.mp h
    have hLess := List.mem_range.mp hi
    rw [overtaken, List.getElem?_append_right (Nat.le_add_left 2 i), List.getElem?_map, used, List.getElem?_map,
      show i + 2 - [PerOriginSemaphore.mk (port 0) ⟨0, false⟩ 0, ⟨port 1, ⟨1, false⟩, 0⟩].length = i from rfl,
      List.getElem?_range hLess]
    rfl
  have hLimit : oneSlot.effectiveMaxInFlightPerOrigin = some 1 := rfl
  rw [run_cons, PoolInner.step, hTask, Option.bind_some, PoolInner.visit, hLimit, List.getElem?_cons_zero]
  dsimp only
  rw [hEntry]
  dsimp only
  rw [if_neg (by decide), hSet, Option.bind_some, run_cons, PoolInner.step, hTask, Option.bind_some, PoolInner.advance, hEntry]
  dsimp only
  rw [if_pos (by decide), hSet, Option.bind_some, run_nil, List.eraseIdx_cons_zero]

private theorem run_visits {rest : List (OriginKey × EntryId)} (h : ∀ victim ∈ rest, victim ∈ used) :
    run (PoolInner.step oneSlot) (overtaken (.sweep ⟨false, false⟩ (port 65) rest))
        (rest.flatMap fun _ => [.visit 65 0, .advance 65]) =
      some (overtaken (.sweep ⟨false, false⟩ (port 65) [])) := by
  induction rest with
  | nil => rfl
  | cons victim rest ih =>
    rw [List.flatMap_cons, run_append, run_visit rest (h victim List.mem_cons_self), Option.bind_some,
      ih fun v hv => h v (List.mem_cons_of_mem _ hv)]

private def returning : List (Action OriginKey) :=
  [.advance 65, .spawn (some (port 0)), .advance 66, .advance 66, .advance 66, .advance 66, .advance 66, .advance 66]

private theorem returning_holders : ((run (PoolInner.step oneSlot) (overtaken (.sweep ⟨false, false⟩ (port 65) [])) returning).map
    (·.originHolders (port 0))) = some 2 := by
  decide

private def staleSweep : List (Action OriginKey) :=
  spawns 65 ++ (overtaking ++ ((used.flatMap fun _ => [.visit 65 0, .advance 65]) ++ returning))

private theorem staleSweep_holders :
    ((run (PoolInner.step oneSlot) (new oneSlot) staleSweep).map (·.originHolders (port 0))) = some 2 := by
  rw [staleSweep, run_append, run_spawns le_rfl, Option.bind_some, run_append, run_overtaking, Option.bind_some, run_append,
    run_visits fun _ h => h, Option.bind_some, returning_holders]

/-- A permit taken between the two reads of a sweep lets two guards share one slot. -/
theorem limit_exceeded :
    ¬ ∀ (config : PoolConfig) (s : PoolInner OriginKey),
      Reachable (PoolInner.step config) (new config) s → ∀ maxPerOrigin key,
        config.effectiveMaxInFlightPerOrigin = some maxPerOrigin → s.originHolders key ≤ maxPerOrigin := by
  intro hall
  obtain ⟨s, hs, htwo⟩ := Option.map_eq_some_iff.mp staleSweep_holders
  have hle := hall oneSlot s (Reaches.run .start hs) 1 (port 0) rfl
  omega

end Eggfetch.Pool
