import Eggfetch.Http3.Cache

/-! What one action of the sender cache can do: one constructor for each way a task goes on,
with what it does to the shared resources. Every invariant of the cache is derived from
`step_cases` and never unfolds the machine. -/
namespace Eggfetch.Http3
open Text Transition

/-- Task `i` goes on, and the resources with it. -/
inductive Moves (s : Resources) (i : Nat) : Task → Resources → Task → Prop
  | room {d next} : s.cache.keys.length < h3CacheMaxEntries →
      Moves s i (.ensureBound d next) s (next.task d)
  | crowded {d next victim} : h3CacheMaxEntries ≤ s.cache.keys.length → victim ≠ d.key →
      Moves s i (.ensureBound d next) s (.evictVictim d next victim)
  | alone {d next} : h3CacheMaxEntries ≤ s.cache.keys.length → (∀ key ∈ s.cache.keys, key = d.key) →
      Moves s i (.ensureBound d next) s (next.task d)
  | evictVictim {d next victim} : Moves s i (.evictVictim d next victim) (s.remove victim) (next.task d)
  | hit {d cell} : s.cache.lookup d.key = some cell → Moves s i (.cacheGet d) s (.check d cell)
  | miss {d} : s.cache.lookup d.key = none → Moves s i (.cacheGet d) s (.getOrInsert d)
  | found {d cell} : s.cache.lookup d.key = some cell → Moves s i (.getOrInsert d) s (.check d cell)
  | create {d} : s.cache.lookup d.key = none →
      Moves s i (.getOrInsert d) (s.install d.key) (.check d s.created)
  | unset {d cell} : (s.cells cell).value = none → Moves s i (.check d cell) s (.acquire d cell)
  | unusable {d cell session} : (s.cells cell).value = some session → session.unusable d = true →
      Moves s i (.check d cell) s (.evictRead d cell .replace)
  | usable {d cell session} : (s.cells cell).value = some session → session.unusable d = false →
      Moves s i (.check d cell) s (.sending d cell session.altGeneration)
  | current {d cell next} : s.cache.lookup d.key = some cell →
      Moves s i (.evictRead d cell next) s (.evictWrite d cell next)
  | replaced {d cell next} : s.cache.lookup d.key ≠ some cell →
      Moves s i (.evictRead d cell next) s (next.task d)
  | evict {d cell next} : s.cache.lookup d.key = some cell →
      Moves s i (.evictWrite d cell next) (s.remove d.key) (next.task d)
  | spared {d cell next} : s.cache.lookup d.key ≠ some cell →
      Moves s i (.evictWrite d cell next) s (next.task d)
  | insert {d} : Moves s i (.insert d) (s.install d.key) (.acquire d s.created)
  | ready {d cell session} : (s.cells cell).value = some session →
      Moves s i (.acquire d cell) s (.sending d cell session.altGeneration)
  | connect {d cell} : s.cells cell = .new →
      Moves s i (.acquire d cell) (s.setInitializing cell (some i)) (.connecting d cell)
  | established {d cell} :
      Moves s i (.connecting d cell) (s.establish cell d.generation) (.sending d cell d.generation)
  | stopConnecting {d cell} : Moves s i (.connecting d cell) (s.setInitializing cell none) .done
  | stop {t} : Moves s i t s .done
  | fail {d cell altGeneration} : Moves s i (.sending d cell altGeneration) s (.evictRead d cell .report)
  | failDraining {d cell altGeneration} :
      Moves s i (.sending d cell altGeneration) (s.drain cell) (.evictRead d cell .report)
  | responded {d cell altGeneration} : Moves s i (.sending d cell altGeneration) s (.body d cell)
  | bodyFailed {d cell} : s.cache.lookup d.key = some cell →
      Moves s i (.body d cell) s (.removeByKey d cell)
  | removeByKey {d cell} : Moves s i (.removeByKey d cell) (s.remove d.key) .done

def Action.task : Action → Option Nat
  | .ensureBound i _ | .advance i | .established i | .stop i | .fail i _ | .responded i | .bodyFailed i => some i
  | .dispatch _ | .drain _ => none

variable {s s' : System} {i : Nat} {t : Task}

/-- The successor of a state in which task `i` at `t` goes on. -/
def System.Goes (s : System) (i : Nat) (t : Task) (s' : System) : Prop :=
  ∃ t', s'.tasks = s.tasks.set i t' ∧ Moves s.toResources i t s'.toResources t'

private theorem ensureBound_cases {pick : Nat} (h : s.ensureBound i pick t = some s') : s.Goes i t s' := by
  cases t with
  | ensureBound d next =>
    simp only [System.ensureBound] at h
    split at h
    · rename_i hRoom
      cases h
      exact ⟨_, rfl, .room hRoom⟩
    · rename_i hFull
      have hFull := Nat.not_lt.mp hFull
      split at h
      · rename_i victim hVictim
        have hMem := List.mem_of_getElem? hVictim
        have hNe : victim ≠ d.key := by simpa using (List.mem_filter.mp hMem).2
        cases h
        exact ⟨_, rfl, .crowded hFull hNe⟩
      · rename_i hNone
        cases h
        refine ⟨_, rfl, .alone hFull ?_⟩
        -- an index modulo the length misses only in an empty list
        intro key hKey
        by_contra hNe
        have hOther : key ∈ s.cache.keys.filter (· ≠ d.key) := List.mem_filter.mpr ⟨hKey, by simpa using hNe⟩
        have hPos := List.length_pos_of_mem hOther
        have hLe := List.getElem?_eq_none_iff.mp hNone
        exact absurd (Nat.mod_lt pick hPos) (Nat.not_lt.mpr hLe)
  | _ => cases h

private theorem advance_cases (h : s.advance i t = some s') : s.Goes i t s' := by
  cases t with
  | evictVictim d next victim =>
    cases h
    exact ⟨_, rfl, .evictVictim⟩
  | cacheGet d =>
    simp only [System.advance] at h
    split at h
    · rename_i cell hLookup
      cases h
      exact ⟨_, rfl, .hit hLookup⟩
    · rename_i hLookup
      cases h
      exact ⟨_, rfl, .miss hLookup⟩
  | getOrInsert d =>
    simp only [System.advance] at h
    split at h
    · rename_i cell hLookup
      cases h
      exact ⟨_, rfl, .found hLookup⟩
    · rename_i hLookup
      cases h
      exact ⟨_, rfl, .create hLookup⟩
  | check d cell =>
    simp only [System.advance] at h
    split at h
    · rename_i hValue
      cases h
      exact ⟨_, rfl, .unset hValue⟩
    · rename_i session hValue
      split at h
      · rename_i hUnusable
        cases h
        exact ⟨_, rfl, .unusable hValue hUnusable⟩
      · rename_i hUsable
        cases h
        exact ⟨_, rfl, .usable hValue (Bool.eq_false_iff.mpr hUsable)⟩
  | evictRead d cell next =>
    simp only [System.advance] at h
    split at h
    · rename_i hLookup
      cases h
      exact ⟨_, rfl, .current hLookup⟩
    · rename_i hLookup
      cases h
      exact ⟨_, rfl, .replaced hLookup⟩
  | evictWrite d cell next =>
    simp only [System.advance] at h
    split at h
    · rename_i hLookup
      cases h
      exact ⟨_, rfl, .evict hLookup⟩
    · rename_i hLookup
      cases h
      exact ⟨_, rfl, .spared hLookup⟩
  | insert d =>
    cases h
    exact ⟨_, rfl, .insert⟩
  | acquire d cell =>
    simp only [System.advance] at h
    split at h
    · rename_i session _ hCell
      cases h
      exact ⟨_, rfl, .ready (by rw [hCell])⟩
    · rename_i hCell
      cases h
      exact ⟨_, rfl, .connect hCell⟩
    · cases h
  | removeByKey d cell =>
    cases h
    exact ⟨_, rfl, .removeByKey⟩
  | _ => cases h

private theorem stop_cases (h : s.stop i t = some s') : s.Goes i t s' := by
  cases t with
  | connecting d cell =>
    cases h
    exact ⟨_, rfl, .stopConnecting⟩
  | acquire d cell =>
    cases h
    exact ⟨_, rfl, .stop⟩
  | sending d cell altGeneration =>
    cases h
    exact ⟨_, rfl, .stop⟩
  | body d cell =>
    cases h
    exact ⟨_, rfl, .stop⟩
  | _ => cases h

private theorem transport_cases (h : (∃ draining, s.fail i draining t = some s') ∨
    s.established i t = some s' ∨ s.responded i t = some s' ∨ s.bodyFailed i t = some s') : s.Goes i t s' := by
  obtain ⟨draining, h⟩ | h | h | h := h
  · cases t with
    | sending d cell altGeneration =>
      cases h
      cases draining with
      | true => exact ⟨_, rfl, .failDraining⟩
      | false => exact ⟨_, rfl, .fail⟩
    | _ => cases h
  · cases t with
    | connecting d cell =>
      cases h
      exact ⟨_, rfl, .established⟩
    | _ => cases h
  · cases t with
    | sending d cell altGeneration =>
      cases h
      exact ⟨_, rfl, .responded⟩
    | _ => cases h
  · cases t with
    | body d cell =>
      simp only [System.bodyFailed] at h
      split at h
      · rename_i hLookup
        cases h
        exact ⟨_, rfl, .bodyFailed hLookup⟩
      · cases h
        exact ⟨_, rfl, .stop⟩
    | _ => cases h

/-- A request arrives, a driver marks its session, or a task goes on. -/
theorem step_cases {a : Action} (h : s.step a = some s') :
    (∃ d, a = .dispatch d ∧ s' = { s with tasks := s.tasks ++ [.ensureBound d .lookup] }) ∨
    (∃ cell, a = .drain cell ∧ s' = { s.drain cell with tasks := s.tasks }) ∨
    ∃ i t, a.task = some i ∧ s.tasks[i]? = some t ∧ s.Goes i t s' := by
  cases a with
  | dispatch d =>
    cases h
    exact .inl ⟨d, rfl, rfl⟩
  | drain cell =>
    cases h
    exact .inr (.inl ⟨cell, rfl, rfl⟩)
  | ensureBound i pick =>
    obtain ⟨t, ht, h⟩ := Option.bind_eq_some_iff.mp h
    exact .inr (.inr ⟨i, t, rfl, ht, ensureBound_cases h⟩)
  | advance i =>
    obtain ⟨t, ht, h⟩ := Option.bind_eq_some_iff.mp h
    exact .inr (.inr ⟨i, t, rfl, ht, advance_cases h⟩)
  | established i =>
    obtain ⟨t, ht, h⟩ := Option.bind_eq_some_iff.mp h
    exact .inr (.inr ⟨i, t, rfl, ht, transport_cases (.inr (.inl h))⟩)
  | stop i =>
    obtain ⟨t, ht, h⟩ := Option.bind_eq_some_iff.mp h
    exact .inr (.inr ⟨i, t, rfl, ht, stop_cases h⟩)
  | fail i draining =>
    obtain ⟨t, ht, h⟩ := Option.bind_eq_some_iff.mp h
    exact .inr (.inr ⟨i, t, rfl, ht, transport_cases (.inl ⟨draining, h⟩)⟩)
  | responded i =>
    obtain ⟨t, ht, h⟩ := Option.bind_eq_some_iff.mp h
    exact .inr (.inr ⟨i, t, rfl, ht, transport_cases (.inr (.inr (.inl h)))⟩)
  | bodyFailed i =>
    obtain ⟨t, ht, h⟩ := Option.bind_eq_some_iff.mp h
    exact .inr (.inr ⟨i, t, rfl, ht, transport_cases (.inr (.inr (.inr h)))⟩)

/-- The tasks after task `i` has gone on to `t'`. -/
theorem task_after {t' u : Task} {j : Nat} (hTasks : s'.tasks = s.tasks.set i t')
    (hu : s'.tasks[j]? = some u) : j = i ∧ u = t' ∨ j ≠ i ∧ s.tasks[j]? = some u := by
  rw [hTasks, List.getElem?_set] at hu
  split at hu
  · rename_i hEq
    split at hu
    · exact .inl ⟨hEq.symm, (Option.some.inj hu).symm⟩
    · cases hu
  · rename_i hNe
    exact .inr ⟨fun h => hNe h.symm, hu⟩

/-- The tasks after a request has arrived. -/
theorem task_arrived {t' u : Task} {j : Nat} (hu : (s.tasks ++ [t'])[j]? = some u) :
    s.tasks[j]? = some u ∨ u = t' := by
  rw [List.getElem?_append] at hu
  split at hu
  · exact .inl hu
  · exact .inr (List.mem_singleton.mp (List.mem_of_getElem? hu))

section Resources
variable {r : Resources} {key : Str} {cell c : CellId} {generation : Option Nat} {holder : Option Nat}

@[simp] theorem install_lookup : (r.install key).cache.lookup key = some r.created :=
  AList.lookup_insert _

theorem install_lookup_ne {other : Str} (h : other ≠ key) :
    (r.install key).cache.lookup other = r.cache.lookup other :=
  AList.lookup_insert_ne h

theorem remove_lookup_ne {other : Str} (h : other ≠ key) :
    (r.remove key).cache.lookup other = r.cache.lookup other :=
  AList.lookup_erase_ne h

/-- A removal takes entries away, and changes none. -/
theorem lookup_of_remove {other : Str} (h : (r.remove key).cache.lookup other = some c) :
    r.cache.lookup other = some c := by
  by_cases hKey : other = key
  · subst hKey
    have hNone : (r.remove other).cache.lookup other = none := AList.lookup_erase _ _
    exact absurd (hNone.symm.trans h) (by simp)
  · rwa [remove_lookup_ne hKey] at h

theorem remove_lookup_eq_none {other : Str} (h : r.cache.lookup other = none) :
    (r.remove key).cache.lookup other = none := by
  cases hLookup : (r.remove key).cache.lookup other with
  | none => rfl
  | some c => exact absurd (h.symm.trans (lookup_of_remove hLookup)) (by simp)

@[simp] theorem remove_lookup : (r.remove key).cache.lookup key = none := AList.lookup_erase _ _

theorem install_cells_of_lt (h : c < r.created) : (r.install key).cells c = r.cells c :=
  Function.update_of_ne (Nat.ne_of_lt h) ..

@[simp] theorem setInitializing_value : ((r.setInitializing cell holder).cells c).value = (r.cells c).value := by
  by_cases h : c = cell
  · subst h
    simp [Resources.setInitializing, Resources.setCell]
  · simp [Resources.setInitializing, Resources.setCell, h]

theorem establish_value_isSome (h : (r.cells c).value.isSome) :
    ((r.establish cell generation).cells c).value.isSome := by
  by_cases hCell : c = cell
  · subst hCell
    simp [Resources.establish, Resources.setCell]
  · simpa [Resources.establish, Resources.setCell, hCell] using h

@[simp] theorem drain_value_isSome : ((r.drain cell).cells c).value.isSome = (r.cells c).value.isSome := by
  by_cases h : c = cell
  · subst h
    simp [Resources.drain, Resources.setCell]
  · simp [Resources.drain, Resources.setCell, h]

/-- A mark does not touch a cell without a session. -/
theorem drain_cells_of_none (h : (r.cells c).value = none) : (r.drain cell).cells c = r.cells c := by
  by_cases hCell : c = cell
  · subst hCell
    cases hc : r.cells c with
    | mk value initializing =>
      rw [hc] at h
      obtain rfl : value = none := h
      simp only [Resources.drain, Resources.setCell, Function.update_self, hc, Option.map_none]
  · exact Function.update_of_ne hCell ..

theorem setCell_cells_of_ne {x : Cell} (h : c ≠ cell) : (r.setCell cell x).cells c = r.cells c :=
  Function.update_of_ne h ..

end Resources

/-- The origin for which the task is about to put a new cell into the cache. -/
def Task.installs (t : Task) (s : Resources) : Option Str :=
  match t with
  | .getOrInsert d => if (s.cache.lookup d.key).isNone then some d.key else none
  | .insert d => some d.key
  | _ => none

/-- The origin whose entry the task is about to remove, whatever cell it has. -/
def Task.removes : Task → Option Str
  | .evictVictim _ _ victim => some victim
  | .removeByKey d _ => some d.key
  | _ => none

/-- What a move does to the cache. -/
inductive CacheEffect (r : Resources) (t : Task) (r' : Resources) : Prop
  | same : r'.cache = r.cache → CacheEffect r t r'
  | removeByKey (key : Str) : t.removes = some key → r'.cache = (r.remove key).cache → CacheEffect r t r'
  | evict (d : Dispatch) (cell : CellId) (next : AfterEvict) : t = .evictWrite d cell next →
      r.cache.lookup d.key = some cell → r'.cache = (r.remove d.key).cache → CacheEffect r t r'
  | install (key : Str) : t.installs r = some key → r'.cache = (r.install key).cache → CacheEffect r t r'

theorem Moves.cacheEffect {r r' : Resources} {t' : Task} (hMoves : Moves r i t r' t') : CacheEffect r t r' := by
  cases hMoves with
  | evictVictim => exact .removeByKey _ rfl rfl
  | removeByKey => exact .removeByKey _ rfl rfl
  | evict hLookup => exact .evict _ _ _ rfl hLookup rfl
  | create hLookup => exact .install _ (by simp [Task.installs, hLookup]) rfl
  | insert => exact .install _ rfl rfl
  | _ => exact .same rfl

def Task.cell : Task → Option CellId
  | .check _ cell | .evictRead _ cell _ | .evictWrite _ cell _ | .acquire _ cell | .connecting _ cell
  | .sending _ cell _ | .body _ cell | .removeByKey _ cell => some cell
  | _ => none

/-- The cells that tasks and the cache refer to have been created. -/
structure System.Fresh (s : System) : Prop where
  tasks : ∀ t ∈ s.tasks, ∀ cell, t.cell = some cell → cell < s.created
  cache : ∀ key cell, s.cache.lookup key = some cell → cell < s.created

private theorem next_task_cell (next : AfterBound) (d : Dispatch) : (next.task d).cell = none := by
  cases next <;> rfl

private theorem afterEvict_task_cell (next : AfterEvict) (d : Dispatch) : (next.task d).cell = none := by
  cases next <;> rfl

theorem Moves.created_le {r r' : Resources} {t' : Task} (h : Moves r i t r' t') : r.created ≤ r'.created := by
  cases h <;> first | exact Nat.le_refl _ | exact Nat.le_succ _

private theorem Moves.cell {r r' : Resources} {t' : Task} {cell : CellId} (h : Moves r i t r' t')
    (hCell : t'.cell = some cell) :
    t.cell = some cell ∨ (∃ key, r.cache.lookup key = some cell) ∨ r'.created = cell + 1 := by
  cases h with
  | room | alone | evictVictim => simp [next_task_cell] at hCell
  | replaced | evict | spared => simp [afterEvict_task_cell] at hCell
  | hit hLookup | found hLookup =>
    obtain rfl := Option.some.inj hCell
    exact .inr (.inl ⟨_, hLookup⟩)
  | create | insert =>
    obtain rfl := Option.some.inj hCell
    exact .inr (.inr rfl)
  | crowded | miss | stopConnecting | stop | removeByKey => cases hCell
  | _ => exact .inl hCell

theorem Moves.lookup {r r' : Resources} {t' : Task} {key : Str} {cell : CellId} (h : Moves r i t r' t')
    (hLookup : r'.cache.lookup key = some cell) :
    r.cache.lookup key = some cell ∨ r'.created = cell + 1 := by
  cases h with
  | evictVictim | evict | removeByKey => exact .inl (lookup_of_remove hLookup)
  | @create d | @insert d =>
    by_cases hKey : key = d.key
    · subst hKey
      rw [install_lookup] at hLookup
      obtain rfl := Option.some.inj hLookup
      exact .inr rfl
    · exact .inl (by rwa [install_lookup_ne hKey] at hLookup)
  | _ => exact .inl hLookup

private theorem Fresh.step {a : Action} (hFresh : s.Fresh) (h : s.step a = some s') : s'.Fresh := by
  obtain ⟨d, rfl, rfl⟩ | ⟨cell, rfl, rfl⟩ | ⟨i, t, -, ht, t', hTasks, hMoves⟩ := step_cases h
  · refine ⟨?_, hFresh.cache⟩
    intro t ht
    obtain ht | ht := List.mem_append.mp ht
    · exact hFresh.tasks t ht
    · obtain rfl := List.mem_singleton.mp ht
      simp [Task.cell]
  · exact ⟨hFresh.tasks, hFresh.cache⟩
  · have hLe := hMoves.created_le
    constructor
    · intro u hu cell hCell
      rw [hTasks] at hu
      obtain hOld | rfl := List.mem_or_eq_of_mem_set hu
      · exact Nat.lt_of_lt_of_le (hFresh.tasks u hOld cell hCell) hLe
      · obtain hOwn | ⟨key, hCached⟩ | hNew := hMoves.cell hCell
        · exact Nat.lt_of_lt_of_le (hFresh.tasks t (List.mem_of_getElem? ht) cell hOwn) hLe
        · exact Nat.lt_of_lt_of_le (hFresh.cache key cell hCached) hLe
        · exact hNew ▸ Nat.lt_succ_self cell
    · intro key cell hLookup
      obtain hOld | hNew := hMoves.lookup hLookup
      · exact Nat.lt_of_lt_of_le (hFresh.cache key cell hOld) hLe
      · exact hNew ▸ Nat.lt_succ_self cell

theorem fresh_of_reaches {ok : System → Action → Prop} (h : Reaches System.step ok .init s) : s.Fresh := by
  apply h.invariant
  · exact ⟨by simp [System.init], by simp [System.init]⟩
  · intro s a s' _ hFresh _ hs
    exact Fresh.step hFresh hs

/-- A session stays in its cell. -/
theorem Moves.value_isSome {r r' : Resources} {t' : Task} {c : CellId} (h : Moves r i t r' t')
    (hLt : c < r.created) (hSome : (r.cells c).value.isSome) : (r'.cells c).value.isSome := by
  cases h with
  | create | insert => rwa [install_cells_of_lt hLt]
  | connect | stopConnecting => rwa [setInitializing_value]
  | established => exact establish_value_isSome hSome
  | failDraining => rwa [drain_value_isSome]
  | _ => exact hSome

end Eggfetch.Http3
