import Eggfetch.Http3.Moves
import Mathlib.Data.Finset.Card
import Mathlib.Data.Finset.Dedup

/-! The bound of the sender cache. It is checked in one section and used in another, so that
requests for more origins than there is room for pass it together; and it is checked before
the request knows whether its origin needs room. -/
namespace Eggfetch.Http3
open Text Transition

def Task.pending : Task → Option Str
  | .cacheGet d | .getOrInsert d | .insert d => some d.key
  | _ => none

def Task.checking : Task → Option Dispatch
  | .ensureBound d _ => some d
  | _ => none

def Task.evictor : Task → Option (Dispatch × Str)
  | .evictVictim d _ victim => some (d, victim)
  | _ => none

/-- The origins that have an entry, or a request between its check and its insert. -/
def reserved (r : Resources) (tasks : List Task) : Finset Str :=
  (r.cache.keys ++ tasks.filterMap Task.pending).toFinset

/-- The cache keeps its bound, and nobody evicts for an origin that has an entry. -/
structure Bounded (s : System) : Prop where
  size : s.cache.keys.length ≤ h3CacheMaxEntries
  needed : ∀ t ∈ s.tasks, ∀ x ∈ t.evictor, s.cache.lookup x.1.key = none

/-- What a step must not do for that. -/
structure Roomy (s : System) (t : Task) : Prop where
  /-- A request that finds room, or makes it, finds it for all that passed the check. -/
  room : ∀ d ∈ t.checking, s.cache.keys.length < h3CacheMaxEntries →
    (insert d.key (reserved s.toResources s.tasks)).card ≤ h3CacheMaxEntries
  made : ∀ x ∈ t.evictor, (insert x.1.key (reserved (s.remove x.2) s.tasks)).card ≤ h3CacheMaxEntries
  /-- An origin with an entry does not find the cache full. -/
  cached : ∀ d ∈ t.checking, (s.cache.lookup d.key).isSome → s.cache.keys.length < h3CacheMaxEntries
  /-- An origin gets no entry while a request for it is about to evict. -/
  install : ∀ key ∈ t.installs s.toResources, ∀ u ∈ s.tasks, ∀ x ∈ u.evictor, x.1.key ≠ key

def RoomyStep (s : System) (a : Action) : Prop := ∀ i ∈ a.task, ∀ t ∈ s.tasks[i]?, Roomy s t

variable {s s' : System} {r r' : Resources} {i : Nat} {t t' u : Task} {tasks : List Task} {key : Str}

theorem mem_reserved : key ∈ reserved r tasks ↔ key ∈ r.cache.keys ∨ ∃ t ∈ tasks, t.pending = some key := by
  simp [reserved]

theorem size_le_reserved (r : Resources) (tasks : List Task) :
    r.cache.keys.length ≤ (reserved r tasks).card := by
  rw [← List.toFinset_card_of_nodup r.cache.keys_nodup]
  apply Finset.card_le_card
  intro key hKey
  exact mem_reserved.mpr (.inl (List.mem_toFinset.mp hKey))

theorem mem_keys_iff : key ∈ r.cache.keys ↔ (r.cache.lookup key).isSome :=
  AList.mem_keys.trans AList.lookup_isSome.symm

private theorem Moves.mem_keys (hMoves : Moves r i t r' t') (h : key ∈ r'.cache.keys) :
    key ∈ r.cache.keys ∨ t.pending = some key := by
  cases hMoves with
  | evictVictim | evict | removeByKey =>
    have hMem := AList.mem_erase.mp (AList.mem_keys.mpr h)
    exact .inl (AList.mem_keys.mp hMem.2)
  | @create d | @insert d =>
    by_cases hKey : key = d.key
    · exact .inr (by rw [hKey]; rfl)
    · rw [mem_keys_iff, install_lookup_ne hKey, ← mem_keys_iff] at h
      exact .inl h
  | _ => exact .inl h

private theorem Moves.pending (hMoves : Moves r i t r' t') (h : t'.pending = some key) :
    t.pending = some key ∨
      (∃ d, t.checking = some d ∧ r' = r ∧ r.cache.keys.length < h3CacheMaxEntries ∧ key = d.key) ∨
      ∃ x, t.evictor = some x ∧ r' = r.remove x.2 ∧ key = x.1.key := by
  cases hMoves with
  | @room d next hRoom =>
    have hKey : key = d.key := by cases next <;> exact (Option.some.inj h).symm
    exact .inr (.inl ⟨d, rfl, rfl, hRoom, hKey⟩)
  | @alone d next hFull hAlone =>
    -- the keys are distinct, so that a full cache has another one
    have hNodup := r.cache.keys_nodup
    have hOne : r.cache.keys.length ≤ [d.key].length := by
      apply List.Subperm.length_le
      apply hNodup.subperm
      intro other hOther
      exact List.mem_singleton.mpr (hAlone other hOther)
    have hMany : ¬ h3CacheMaxEntries ≤ 1 := by decide
    exact absurd (hFull.trans hOne) hMany
  | @evictVictim d next victim =>
    have hKey : key = d.key := by cases next <;> exact (Option.some.inj h).symm
    exact .inr (.inr ⟨(d, victim), rfl, rfl, hKey⟩)
  | @replaced d _ next | @evict d _ next | @spared d _ next => cases next <;> cases h
  | miss => exact .inl h
  | _ => cases h

section After
variable (hGet : s.tasks[i]? = some t) (hTasks : s'.tasks = s.tasks.set i t')
  (hMoves : Moves s.toResources i t s'.toResources t')
include hTasks

private theorem mem_reserved_after (h : key ∈ reserved s'.toResources s'.tasks) :
    key ∈ s'.cache.keys ∨ (∃ u ∈ s.tasks, u.pending = some key) ∨ t'.pending = some key := by
  obtain hKey | ⟨u, hu, hPending⟩ := mem_reserved.mp h
  · exact .inl hKey
  · rw [hTasks] at hu
    obtain hu | rfl := List.mem_or_eq_of_mem_set hu
    · exact .inr (.inl ⟨u, hu, hPending⟩)
    · exact .inr (.inr hPending)

include hGet hMoves

theorem reserved_after (hReserved : (reserved s.toResources s.tasks).card ≤ h3CacheMaxEntries) (hOk : Roomy s t) :
    (reserved s'.toResources s'.tasks).card ≤ h3CacheMaxEntries := by
  by_cases hNew : ∃ key, t'.pending = some key ∧ ¬ t.pending = some key
  · obtain ⟨new, hPending, hNot⟩ := hNew
    obtain hSame | ⟨d, hChecking, hSame, hRoom, rfl⟩ | ⟨x, hEvictor, hRemove, rfl⟩ := hMoves.pending hPending
    · exact absurd hSame hNot
    · refine (Finset.card_le_card ?_).trans (hOk.room d hChecking hRoom)
      intro key hKey
      obtain hKey | hOld | hOwn := mem_reserved_after hTasks hKey
      · rw [hSame] at hKey
        exact Finset.mem_insert_of_mem (mem_reserved.mpr (.inl hKey))
      · exact Finset.mem_insert_of_mem (mem_reserved.mpr (.inr hOld))
      · obtain rfl := Option.some.inj (hOwn.symm.trans hPending)
        exact Finset.mem_insert_self _ _
    · refine (Finset.card_le_card ?_).trans (hOk.made x hEvictor)
      intro key hKey
      obtain hKey | hOld | hOwn := mem_reserved_after hTasks hKey
      · rw [hRemove] at hKey
        exact Finset.mem_insert_of_mem (mem_reserved.mpr (.inl hKey))
      · exact Finset.mem_insert_of_mem (mem_reserved.mpr (.inr hOld))
      · obtain rfl := Option.some.inj (hOwn.symm.trans hPending)
        exact Finset.mem_insert_self _ _
  · refine (Finset.card_le_card ?_).trans hReserved
    intro key hKey
    have hOwnTask : t.pending = some key → key ∈ reserved s.toResources s.tasks :=
      fun h => mem_reserved.mpr (.inr ⟨t, List.mem_of_getElem? hGet, h⟩)
    obtain hKey | hOld | hOwn := mem_reserved_after hTasks hKey
    · obtain hKey | hPending := hMoves.mem_keys hKey
      · exact mem_reserved.mpr (.inl hKey)
      · exact hOwnTask hPending
    · exact mem_reserved.mpr (.inr hOld)
    · by_contra hNot
      exact hNew ⟨key, hOwn, fun h => hNot (hOwnTask h)⟩

end After

private theorem Moves.needed_other (hMoves : Moves r i t r' t') {x : Dispatch × Str}
    (hInstall : ∀ key ∈ t.installs r, x.1.key ≠ key) (h : r.cache.lookup x.1.key = none) :
    r'.cache.lookup x.1.key = none := by
  cases hMoves.cacheEffect with
  | same hCache => rwa [hCache]
  | removeByKey key _ hCache | evict _ _ _ _ _ hCache =>
    rw [hCache]
    exact remove_lookup_eq_none h
  | install key hInstalls hCache => rwa [hCache, install_lookup_ne (hInstall key hInstalls)]

theorem Moves.needed_own (hMoves : Moves r i t r' t')
    (hCached : ∀ d ∈ t.checking, (r.cache.lookup d.key).isSome → r.cache.keys.length < h3CacheMaxEntries) :
    ∀ x ∈ t'.evictor, r'.cache.lookup x.1.key = none := by
  cases hMoves with
  | @crowded d next victim hFull =>
    rintro x ⟨rfl⟩
    by_contra hSome
    exact absurd (hCached d rfl (Option.isSome_iff_ne_none.mpr hSome)) (Nat.not_lt.mpr hFull)
  | @room _ next | @alone _ next | @evictVictim _ next => cases next <;> exact (by intro _ h; cases h)
  | @replaced _ _ next | @evict _ _ next | @spared _ _ next => cases next <;> exact (by intro _ h; cases h)
  | _ => exact (by intro _ h; cases h)

/-- The invariant: the reserved origins fit. -/
structure BoundInv (s : System) : Prop where
  fits : (reserved s.toResources s.tasks).card ≤ h3CacheMaxEntries
  needed : ∀ t ∈ s.tasks, ∀ x ∈ t.evictor, s.cache.lookup x.1.key = none

private theorem boundInv_step {a : Action} (hInv : BoundInv s) (hOk : RoomyStep s a) (hStep : s.step a = some s') :
    BoundInv s' := by
  obtain ⟨d, rfl, rfl⟩ | ⟨cell, rfl, rfl⟩ | ⟨i, t, hTask, hGet, t', hTasks, hMoves⟩ := step_cases hStep
  · constructor
    · have hSame : reserved s.toResources (s.tasks ++ [.ensureBound d .lookup]) = reserved s.toResources s.tasks := by
        have hNone : [Task.ensureBound d .lookup].filterMap Task.pending = [] := rfl
        rw [reserved, List.filterMap_append, hNone, List.append_nil, ← reserved]
      exact hSame ▸ hInv.fits
    · intro t ht
      obtain hOld | hNew := List.mem_append.mp ht
      · exact hInv.needed t hOld
      · obtain rfl := List.mem_singleton.mp hNew
        exact (by intro _ h; cases h)
  · exact ⟨hInv.fits, hInv.needed⟩
  · have hRoomy := hOk i hTask t hGet
    constructor
    · exact reserved_after hGet hTasks hMoves hInv.fits hRoomy
    · intro u hu
      rw [hTasks] at hu
      obtain hOld | rfl := List.mem_or_eq_of_mem_set hu
      · intro x hx
        apply hMoves.needed_other _ (hInv.needed u hOld x hx)
        intro key hKey
        exact hRoomy.install key hKey u hOld x hx
      · exact hMoves.needed_own hRoomy.cached

/-- In every run of roomy steps the cache keeps its bound, and an origin with an entry costs
no other origin its own. -/
theorem bounded (h : Reaches System.step RoomyStep .init s) : Bounded s := by
  have hInv : BoundInv s := by
    apply h.invariant
    · exact ⟨by decide, by simp [System.init]⟩
    · intro s a s' _ hInv hOk hStep
      exact boundInv_step hInv hOk hStep
  exact ⟨(size_le_reserved _ _).trans hInv.fits, hInv.needed⟩

instance (s : System) (t : Task) : Decidable (Roomy s t) :=
  decidable_of_iff (_ ∧ _ ∧ _ ∧ _)
    ⟨fun h => ⟨h.1, h.2.1, h.2.2.1, h.2.2.2⟩, fun h => ⟨h.room, h.made, h.cached, h.install⟩⟩

instance (s : System) (a : Action) : Decidable (RoomyStep s a) :=
  inferInstanceAs (Decidable (∀ i ∈ a.task, ∀ t ∈ s.tasks[i]?, Roomy s t))

def numbered (i : Nat) : Dispatch := ⟨cacheKey (utf8 (toString i)) 443, none⟩

/-- The first `n` origins get an entry each. -/
def filled (n : Nat) : List Action :=
  (List.range n).flatMap fun i => [.dispatch (numbered i), .ensureBound i 0, .advance i, .advance i]

section
variable {r : Resources} {tasks : List Task} {d : Dispatch} {i : Nat}

/-- A request that finds room passes the check. -/
private theorem run_check (hRoom : r.cache.keys.length < h3CacheMaxEntries) (hTasks : tasks.length = i) :
    run System.step ⟨r, tasks⟩ [.dispatch d, .ensureBound i 0] = some ⟨r, tasks ++ [.cacheGet d]⟩ := by
  subst hTasks
  have hTask : (tasks ++ [Task.ensureBound d .lookup])[tasks.length]? = some (.ensureBound d .lookup) :=
    List.getElem?_concat_length
  have hSet : (tasks ++ [Task.ensureBound d .lookup]).set tasks.length (.cacheGet d) = tasks ++ [.cacheGet d] := by
    rw [List.set_append_right _ _ le_rfl, Nat.sub_self, List.set_cons_zero]
  simp only [run_cons, run_nil, System.step, System.ensureBound, System.setTask, AfterBound.task, Option.bind_some, hTask, hSet,
    hRoom, if_true]

/-- A request past the check makes an entry for a new origin. -/
private theorem run_create (hTask : tasks[i]? = some (.cacheGet d)) (hNew : d.key ∉ r.cache.keys) :
    run System.step ⟨r, tasks⟩ [.advance i, .advance i] = some ⟨r.install d.key, tasks.set i (.check d r.created)⟩ := by
  have hNone : r.cache.lookup d.key = none := AList.lookup_eq_none.mpr fun h => hNew (AList.mem_keys.mp h)
  have hNext : (tasks.set i (.getOrInsert d))[i]? = some (.getOrInsert d) :=
    List.getElem?_set_self (List.getElem?_eq_some_iff.mp hTask).1
  simp only [run_cons, run_nil, System.step, System.advance, System.setTask, System.move, Option.bind_some, hTask, hNone, hNext,
    List.set_set]

/-- A request for a new origin that finds room goes on to its own entry. -/
private theorem run_fill (hRoom : r.cache.keys.length < h3CacheMaxEntries) (hNew : d.key ∉ r.cache.keys)
    (hTasks : tasks.length = i) :
    run System.step ⟨r, tasks⟩ ([.dispatch d, .ensureBound i 0] ++ [.advance i, .advance i]) =
      some ⟨r.install d.key, tasks ++ [.check d r.created]⟩ := by
  have hTask : (tasks ++ [Task.cacheGet d])[i]? = some (.cacheGet d) := hTasks ▸ List.getElem?_concat_length
  have hSet : (tasks ++ [Task.cacheGet d]).set i (.check d r.created) = tasks ++ [.check d r.created] := by
    rw [List.set_append_right _ _ hTasks.le, hTasks, Nat.sub_self, List.set_cons_zero]
  rw [run_append, run_check hRoom hTasks, Option.bind_some, run_create hTask hNew, hSet]

private theorem keys_install {key : Str} (hNew : key ∉ r.cache.keys) : (r.install key).cache.keys = key :: r.cache.keys := by
  rw [Resources.install, AList.keys, AList.entries_insert_of_notMem fun h => hNew (AList.mem_keys.mp h),
    List.keys_cons, AList.keys]

end

private def short (i : Nat) : Dispatch := ⟨UInt8.ofNat (0x30 + i) :: utf8 ":443", none⟩

private def filledShort (n : Nat) : List Action :=
  (List.range n).flatMap fun i => [.dispatch (short i), .ensureBound i 0, .advance i, .advance i]

private theorem short_inj {i j : Nat} (hi : i < 200) (hj : j < 200) (h : (short i).key = (short j).key) : i = j := by
  have hByte : UInt8.ofNat (0x30 + i) = UInt8.ofNat (0x30 + j) := (List.cons.inj h).1
  have hNat := congrArg UInt8.toNat hByte
  rw [UInt8.toNat_ofNat', UInt8.toNat_ofNat'] at hNat
  omega

private theorem short_not_mem {n i : Nat} (hi : n ≤ i) (hi' : i < 200) :
    (short i).key ∉ ((List.range n).map fun j => (short j).key).reverse := by
  rw [List.mem_reverse, List.mem_map]
  rintro ⟨j, hj, hKey⟩
  have hLess := List.mem_range.mp hj
  have hSame := short_inj (by omega) hi' hKey
  omega

/-- The entries of the first `n` origins, the last one in front. -/
private theorem run_filledShort {n : Nat} (hn : n ≤ h3CacheMaxEntries) :
    ∃ r tasks, run System.step .init (filledShort n) = some ⟨r, tasks⟩ ∧ tasks.length = n ∧
      r.cache.keys = ((List.range n).map fun i => (short i).key).reverse := by
  induction n with
  | zero => exact ⟨System.init.toResources, [], rfl, rfl, rfl⟩
  | succ n ih =>
    have hMax : h3CacheMaxEntries = 64 := rfl
    obtain ⟨r, tasks, hRun, hTasks, hKeys⟩ := ih (by omega)
    have hNew : (short n).key ∉ r.cache.keys := hKeys ▸ short_not_mem le_rfl (by omega)
    have hRoom : r.cache.keys.length < h3CacheMaxEntries := by
      rw [hKeys, List.length_reverse, List.length_map, List.length_range]
      omega
    refine ⟨r.install (short n).key, tasks ++ [.check (short n) r.created], ?_, ?_, ?_⟩
    · rw [filledShort, List.range_succ, List.flatMap_append, List.flatMap_singleton, ← filledShort, run_append, hRun,
        Option.bind_some]
      exact run_fill hRoom hNew hTasks
    · rw [List.length_append, hTasks, List.length_singleton]
    · rw [keys_install hNew, hKeys, List.range_succ, List.map_append, List.reverse_append, List.map_singleton,
        List.reverse_singleton, List.singleton_append]

/-- Two requests pass the check of a cache with room for one. -/
private def overfilled : List Action :=
  filledShort 63 ++ (([.dispatch (short 63), .ensureBound 63 0] : List Action) ++
    (([.dispatch (short 64), .ensureBound 64 0] : List Action) ++
    (([.advance 63, .advance 63] : List Action) ++ ([.advance 64, .advance 64] : List Action))))

/-- A request for an origin with an entry checks a full cache. -/
private def needless : List Action := filledShort 64 ++ ([.dispatch (short 0), .ensureBound 64 0] : List Action)

private theorem overfilled_size : (run System.step .init overfilled).map (·.cache.keys.length) = some 65 := by
  obtain ⟨r, tasks, hRun, hTasks, hKeys⟩ := run_filledShort (n := 63) (by decide)
  have hLength : r.cache.keys.length = 63 := by
    rw [hKeys, List.length_reverse, List.length_map, List.length_range]
  have hRoom : r.cache.keys.length < h3CacheMaxEntries := by
    rw [hLength]
    decide
  have hFirst : (short 63).key ∉ r.cache.keys := hKeys ▸ short_not_mem le_rfl (by omega)
  have hSecond : (short 64).key ∉ (r.install (short 63).key).cache.keys := by
    rw [keys_install hFirst, List.mem_cons, not_or]
    refine ⟨fun h => ?_, ?_⟩
    · exact absurd (short_inj (by omega) (by omega) h) (by decide)
    · rw [hKeys]
      exact short_not_mem (by omega) (by omega)
  have hMore : (tasks ++ [Task.cacheGet (short 63)]).length = 64 := by
    rw [List.length_append, hTasks, List.length_singleton]
  have hTask : (tasks ++ [Task.cacheGet (short 63)] ++ [Task.cacheGet (short 64)])[63]? = some (.cacheGet (short 63)) := by
    rw [List.append_assoc, List.getElem?_append_right hTasks.le, hTasks]
    rfl
  have hTask' (t : Task) : ((tasks ++ [Task.cacheGet (short 63)] ++ [Task.cacheGet (short 64)]).set 63 t)[64]? =
      some (.cacheGet (short 64)) := by
    rw [List.getElem?_set_ne (by decide), List.getElem?_append_right hMore.le, hMore]
    rfl
  rw [overfilled, run_append, hRun, Option.bind_some, run_append, run_check hRoom hTasks, Option.bind_some, run_append,
    run_check hRoom hMore, Option.bind_some, run_append, run_create hTask hFirst, Option.bind_some,
    run_create (hTask' _) hSecond, Option.map_some, keys_install hSecond, keys_install hFirst, List.length_cons, List.length_cons,
    hLength]

private theorem needless_eviction : (run System.step .init needless).map
    (fun s => (s.tasks[64]?, (s.cache.lookup (short 0).key).isSome)) =
      some (some (.evictVictim (short 0) .lookup (short 63).key), true) := by
  obtain ⟨r, tasks, hRun, hTasks, hKeys⟩ := run_filledShort (n := 64) le_rfl
  have hFull : ¬ r.cache.keys.length < h3CacheMaxEntries := by
    rw [hKeys, List.length_reverse, List.length_map, List.length_range]
    decide
  have hVictim : (r.cache.keys.filter (· ≠ (short 0).key))[0 % (r.cache.keys.filter (· ≠ (short 0).key)).length]? =
      some (short 63).key := by
    rw [hKeys]
    decide
  have hSome : (r.cache.lookup (short 0).key).isSome = true := by
    rw [← mem_keys_iff, hKeys, List.mem_reverse]
    exact List.mem_map_of_mem (List.mem_range.mpr (by decide))
  have hTask : (tasks ++ [Task.ensureBound (short 0) .lookup])[64]? = some (.ensureBound (short 0) .lookup) :=
    hTasks ▸ List.getElem?_concat_length
  have hSet : ((tasks ++ [Task.ensureBound (short 0) .lookup]).set 64 (.evictVictim (short 0) .lookup (short 63).key))[64]? =
      some (.evictVictim (short 0) .lookup (short 63).key) :=
    List.getElem?_set_self (by rw [List.length_append, hTasks, List.length_singleton]; decide)
  rw [needless, run_append, hRun, Option.bind_some]
  simp only [run_cons, run_nil, System.step, System.ensureBound, System.setTask, Option.bind_some, hTask, hFull, hVictim,
    if_false, Option.map_some, hSet, hSome]

/-- Neither part holds in every run. -/
theorem bound_exceeded :
    (¬ ∀ s, Reachable System.step .init s → s.cache.keys.length ≤ h3CacheMaxEntries) ∧
      ¬ ∀ s, Reachable System.step .init s → ∀ t ∈ s.tasks, ∀ x ∈ t.evictor, s.cache.lookup x.1.key = none := by
  constructor
  · intro h
    obtain ⟨s, hs, hSize⟩ := Option.map_eq_some_iff.mp overfilled_size
    exact absurd (hSize ▸ h s (Reaches.start.run hs)) (by decide)
  · intro h
    obtain ⟨s, hs, hState⟩ := Option.map_eq_some_iff.mp needless_eviction
    obtain ⟨hTask, hSome⟩ := Prod.mk.inj hState
    have hNone := h s (Reaches.start.run hs) _ (List.mem_of_getElem? hTask) _ rfl
    exact absurd (hNone ▸ hSome) (by decide)

def revisited : List Action := filled 2 ++ ([.dispatch (numbered 0), .ensureBound 2 0, .advance 2] : List Action)

theorem bounded_revisited :
    ∃ s, runWhile System.step (fun s a => decide (RoomyStep s a)) .init revisited = some s ∧
      s.tasks[2]? = some (.check (numbered 0) 0) ∧ Bounded s := by
  have hRun : (runWhile System.step (fun s a => decide (RoomyStep s a)) .init revisited).map (·.tasks[2]?) =
      some (some (.check (numbered 0) 0)) := by
    decide
  obtain ⟨s, hs, hTask⟩ := Option.map_eq_some_iff.mp hRun
  exact ⟨s, hs, hTask, bounded (Reaches.runWhile .start (fun _ _ h => of_decide_eq_true h) hs)⟩

end Eggfetch.Http3
