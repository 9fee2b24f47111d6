import Eggfetch.Http3.Moves

/-! One connection attempt for an origin at a time. A request that finds its cell unusable
evicts it, makes a fresh one and inserts that over whatever the cache has by then, each in a
section of its own; the bound and a late failure of a body remove a cell on which a request
is still connecting. -/
namespace Eggfetch.Http3
open Text Transition

/-- The origin whose cell the task has found unusable and not yet replaced. -/
def Task.replacing : Task → Option Str
  | .evictRead d _ .replace | .evictWrite d _ .replace | .ensureBound d .insert
  | .evictVictim d .insert _ | .insert d => some d.key
  | _ => none

def Task.joins : Task → Option (Dispatch × CellId)
  | .check d cell | .acquire d cell | .connecting d cell => some (d, cell)
  | _ => none

def Task.evicting : Task → Option CellId
  | .evictRead _ cell _ | .evictWrite _ cell _ => some cell
  | _ => none

def Task.seen : Task → Option CellId
  | .sending _ cell _ | .evictRead _ cell _ | .evictWrite _ cell _ => some cell
  | _ => none

def Task.disappointed (t : Task) (s : Resources) : Option (Dispatch × CellId) :=
  match t with
  | .check d cell => if (s.cells cell).value.any (·.unusable d) then some (d, cell) else none
  | _ => none

/-- No step of the run divides the requests of an origin between two cells. -/
structure Undivided (s : System) (i : Nat) (t : Task) : Prop where
  /-- A cell is put into the cache while no other request replaces one of the same origin. -/
  install : ∀ key ∈ t.installs s.toResources, ∀ u ∈ s.tasks.eraseIdx i, u.replacing ≠ some key
  /-- A cell that is found unusable has not been replaced yet. -/
  observe : ∀ x ∈ t.disappointed s.toResources,
    s.cache.lookup x.1.key = some x.2 ∨ s.cache.lookup x.1.key = none
  /-- What is removed by its key is not a cell on which somebody is connecting. -/
  remove : ∀ key ∈ t.removes, ∀ cell ∈ s.cache.lookup key, (s.cells cell).value = none →
    ∀ u ∈ s.tasks, ∀ x ∈ u.joins, x.2 ≠ cell

def UndividedStep (s : System) (a : Action) : Prop :=
  ∀ i ∈ a.task, ∀ t ∈ s.tasks[i]?, Undivided s i t

/-- At most one attempt for an origin is in flight, its requests wait for the same one, and a
request that is about to insert its fresh cell replaces none. -/
structure SharedAttempt (s : System) : Prop where
  single : ∀ (i j : Nat) (d d' : Dispatch) (cell cell' : CellId), s.tasks[i]? = some (.connecting d cell) →
    s.tasks[j]? = some (.connecting d' cell') → d.key = d'.key → i = j
  shared : ∀ t ∈ s.tasks, ∀ u ∈ s.tasks, ∀ x ∈ t.joins, ∀ y ∈ u.joins, x.1.key = y.1.key →
    (s.cells x.2).value = none → (s.cells y.2).value = none → x.2 = y.2
  vacant : ∀ d, .insert d ∈ s.tasks → s.cache.lookup d.key = none

/-- What holds of a task at `i`. -/
structure TaskInv (s : Resources) (i : Nat) (t : Task) : Prop where
  /-- A cell without a session that is in use is the cached one. -/
  joins : ∀ x ∈ t.joins, (s.cells x.2).value = none → s.cache.lookup x.1.key = some x.2
  /-- While a cell is replaced, the cache has it or none. -/
  replacing : ∀ key ∈ t.replacing, s.cache.lookup key = none ∨ ∃ cell ∈ t.evicting, s.cache.lookup key = some cell
  seen : ∀ cell ∈ t.seen, (s.cells cell).value.isSome
  connecting : ∀ d cell, t = .connecting d cell → s.cells cell = ⟨none, some i⟩

def Inv (s : System) : Prop := ∀ i t, s.tasks[i]? = some t → TaskInv s.toResources i t

variable {s s' : System} {r r' : Resources} {i j : Nat} {t t' u : Task}

private theorem joins_shared (h : Inv s) {x y : Dispatch × CellId} (ht : t ∈ s.tasks) (hu : u ∈ s.tasks)
    (hx : t.joins = some x) (hy : u.joins = some y) (hKey : x.1.key = y.1.key)
    (hValue : (s.cells x.2).value = none) (hValue' : (s.cells y.2).value = none) : x.2 = y.2 := by
  obtain ⟨i, hi⟩ := List.mem_iff_getElem?.mp ht
  obtain ⟨j, hj⟩ := List.mem_iff_getElem?.mp hu
  have hLookup := (h i t hi).joins x hx hValue
  have hLookup' := (h j u hj).joins y hy hValue'
  rw [hKey] at hLookup
  exact Option.some.inj (hLookup.symm.trans hLookup')

theorem sharedAttempt_of_inv (h : Inv s) : SharedAttempt s := by
  constructor
  · intro i j d d' cell cell' hi hj hKey
    have hCell := (h i _ hi).connecting d cell rfl
    have hCell' := (h j _ hj).connecting d' cell' rfl
    obtain rfl : cell = cell' := joins_shared h (x := (d, cell)) (y := (d', cell')) (List.mem_of_getElem? hi)
      (List.mem_of_getElem? hj) rfl rfl hKey (by simp [hCell]) (by simp [hCell'])
    simpa [hCell] using hCell'
  · intro t ht u hu x hx y hy
    exact joins_shared h ht hu hx hy
  · intro d hd
    obtain ⟨i, hi⟩ := List.mem_iff_getElem?.mp hd
    obtain hNone | ⟨cell, hCell, -⟩ := (h i _ hi).replacing d.key rfl
    · exact hNone
    · cases hCell

@[simp] theorem next_task_joins (next : AfterBound) (d : Dispatch) : (next.task d).joins = none := by
  cases next <;> rfl

@[simp] theorem next_task_seen (next : AfterBound) (d : Dispatch) : (next.task d).seen = none := by
  cases next <;> rfl

@[simp] theorem afterEvict_task_joins (next : AfterEvict) (d : Dispatch) : (next.task d).joins = none := by
  cases next <;> rfl

@[simp] theorem afterEvict_task_seen (next : AfterEvict) (d : Dispatch) : (next.task d).seen = none := by
  cases next <;> rfl

/-- A removal keeps what a replacing task knows. -/
theorem remove_replacing {key other : Str} {o : Option CellId}
    (h : r.cache.lookup key = none ∨ ∃ cell ∈ o, r.cache.lookup key = some cell) :
    (r.remove other).cache.lookup key = none ∨ ∃ cell ∈ o, (r.remove other).cache.lookup key = some cell := by
  by_cases hKey : key = other
  · subst hKey
    exact .inl remove_lookup
  · rwa [remove_lookup_ne hKey]

section Own
variable (hMoves : Moves r i t r' t') (hInv : TaskInv r i t)
include hMoves hInv

theorem Moves.joins : ∀ x ∈ t'.joins, (r'.cells x.2).value = none → r'.cache.lookup x.1.key = some x.2 := by
  cases hMoves with
  | hit hLookup | found hLookup =>
    rintro x ⟨rfl⟩ -
    exact hLookup
  | create | insert =>
    rintro x ⟨rfl⟩ -
    exact install_lookup
  | unset =>
    rintro x ⟨rfl⟩
    exact hInv.joins _ rfl
  | connect hCell =>
    rintro x ⟨rfl⟩ -
    exact hInv.joins _ rfl (by rw [hCell]; rfl)
  | room | alone | evictVictim | replaced | evict | spared => simp
  | _ => simp [Task.joins]

theorem Moves.seen : ∀ cell ∈ t'.seen, (r'.cells cell).value.isSome := by
  cases hMoves with
  | usable hValue | ready hValue | unusable hValue =>
    rintro x ⟨rfl⟩
    simp [hValue]
  | current | fail => exact hInv.seen
  | failDraining =>
    rintro x ⟨rfl⟩
    rw [drain_value_isSome]
    exact hInv.seen _ rfl
  | established =>
    rintro x ⟨rfl⟩
    simp [Resources.establish, Resources.setCell]
  | room | alone | evictVictim | replaced | evict | spared => simp
  | _ => simp [Task.seen]

theorem Moves.connecting : ∀ d cell, t' = .connecting d cell → r'.cells cell = ⟨none, some i⟩ := by
  cases hMoves with
  | connect hCell =>
    rintro d cell ⟨rfl, rfl⟩
    simp [Resources.setInitializing, Resources.setCell, hCell, Cell.new]
  | @room _ next | @alone _ next | @evictVictim _ next =>
    intro _ _ h
    cases next <;> cases h
  | @replaced _ _ next | @evict _ _ next | @spared _ _ next =>
    intro _ _ h
    cases next <;> cases h
  | _ =>
    intro _ _ h
    cases h

theorem Moves.replacing (hObserve : ∀ x ∈ t.disappointed r,
      r.cache.lookup x.1.key = some x.2 ∨ r.cache.lookup x.1.key = none) :
    ∀ key ∈ t'.replacing, r'.cache.lookup key = none ∨ ∃ cell ∈ t'.evicting, r'.cache.lookup key = some cell := by
  cases hMoves with
  | @room _ next | @alone _ next =>
    cases next with
    | lookup => simp [AfterBound.task, Task.replacing]
    | insert => exact hInv.replacing
  | @crowded _ next =>
    cases next with
    | lookup => simp [Task.replacing]
    | insert => exact hInv.replacing
  | @evictVictim _ next =>
    cases next with
    | lookup => simp [AfterBound.task, Task.replacing]
    | insert =>
      rintro key ⟨rfl⟩
      exact remove_replacing (hInv.replacing _ rfl)
  | @unusable d cell session hValue hUnusable =>
    rintro key ⟨rfl⟩
    have hDisappointed : (Task.check d cell).disappointed r = some (d, cell) := by
      simp [Task.disappointed, hValue, hUnusable]
    obtain hLookup | hNone := hObserve _ hDisappointed
    · exact .inr ⟨cell, rfl, hLookup⟩
    · exact .inl hNone
  | @current _ _ next =>
    cases next with
    | report => simp [Task.replacing]
    | replace => exact hInv.replacing
  | @replaced _ _ next hLookup | @spared _ _ next hLookup =>
    cases next with
    | report => simp [AfterEvict.task, Task.replacing]
    | replace =>
      rintro key ⟨rfl⟩
      obtain hNone | ⟨cell, ⟨rfl⟩, hCached⟩ := hInv.replacing _ rfl
      · exact .inl hNone
      · exact absurd hCached hLookup
  | @evict _ _ next =>
    cases next with
    | report => simp [AfterEvict.task, Task.replacing]
    | replace =>
      rintro key ⟨rfl⟩
      exact .inl remove_lookup
  | _ => simp [Task.replacing]

end Own

private theorem joins_cell {d : Dispatch} {cell : CellId} (h : t.joins = some (d, cell)) : t.cell = some cell := by
  cases t <;> simp_all [Task.joins, Task.cell]

private theorem seen_cell {cell : CellId} (h : t.seen = some cell) : t.cell = some cell := by
  cases t <;> simp_all [Task.seen, Task.cell]

private theorem installs_vacant {key : Str} (hInv : TaskInv r i t) (h : t.installs r = some key) :
    r.cache.lookup key = none := by
  cases t with
  | getOrInsert d =>
    simp only [Task.installs, Option.isNone_iff_eq_none] at h
    split at h
    · rename_i hNone
      obtain rfl := Option.some.inj h
      exact hNone
    · cases h
  | insert d =>
    obtain hNone | ⟨cell, hCell, -⟩ := hInv.replacing key h
    · exact hNone
    · cases hCell
  | _ => cases h

private theorem Moves.others (hMoves : Moves r i t r' t') (hInv : TaskInv r i t) (hu : TaskInv r j u) (hNe : j ≠ i)
    (hFresh : ∀ cell, u.cell = some cell → cell < r.created)
    (hInstall : ∀ key ∈ t.installs r, u.replacing ≠ some key)
    (hRemove : ∀ key ∈ t.removes, ∀ cell ∈ r.cache.lookup key, (r.cells cell).value = none →
      ∀ x ∈ u.joins, x.2 ≠ cell) : TaskInv r' j u := by
  constructor
  · rintro ⟨d, cell⟩ hJoins hNone'
    have hLt := hFresh cell (joins_cell hJoins)
    have hNone : (r.cells cell).value = none := by
      cases hValue : (r.cells cell).value with
      | none => rfl
      | some session =>
        have hSome := hMoves.value_isSome hLt (by rw [hValue]; rfl)
        exact absurd hNone' (Option.isSome_iff_ne_none.mp hSome)
    have hLookup := hu.joins (d, cell) hJoins hNone
    -- the entry goes only with a session or for a cell that nobody joins
    cases hMoves.cacheEffect with
    | same hCache => rwa [hCache]
    | removeByKey key hRemoves hCache =>
      rw [hCache]
      by_cases hKey : d.key = key
      · subst hKey
        exact absurd rfl (hRemove _ hRemoves cell hLookup hNone _ hJoins)
      · rwa [remove_lookup_ne hKey]
    | evict d' cell' next ht hCached hCache =>
      subst ht
      rw [hCache]
      by_cases hKey : d.key = d'.key
      · rw [← hKey] at hCached
        obtain rfl : cell = cell' := Option.some.inj (hLookup.symm.trans hCached)
        exact absurd hNone (Option.isSome_iff_ne_none.mp (hInv.seen _ rfl))
      · rwa [remove_lookup_ne hKey]
    | install key hInstalls hCache =>
      rw [hCache]
      by_cases hKey : d.key = key
      · subst hKey
        exact absurd (hLookup.symm.trans (installs_vacant hInv hInstalls)) (by simp)
      · rwa [install_lookup_ne hKey]
  · intro key hKey
    cases hMoves.cacheEffect with
    | same hCache =>
      rw [hCache]
      exact hu.replacing key hKey
    | removeByKey other _ hCache | evict _ _ _ _ _ hCache =>
      rw [hCache]
      exact remove_replacing (hu.replacing key hKey)
    | install other hInstalls hCache =>
      rw [hCache]
      have hOther : key ≠ other := by
        rintro rfl
        exact hInstall key hInstalls hKey
      rw [install_lookup_ne hOther]
      exact hu.replacing key hKey
  · intro cell hSeen
    exact hMoves.value_isSome (hFresh cell (seen_cell hSeen)) (hu.seen cell hSeen)
  · rintro d cell rfl
    have hCell := hu.connecting d cell rfl
    have hLt := hFresh cell rfl
    cases hMoves with
    | create | insert => rwa [install_cells_of_lt hLt]
    | failDraining => rwa [drain_cells_of_none (by rw [hCell])]
    | @connect d' cell' hNew =>
      have hOther : cell ≠ cell' := by
        rintro rfl
        rw [hCell] at hNew
        cases hNew
      rwa [Resources.setInitializing, setCell_cells_of_ne hOther]
    | @established d' cell' | @stopConnecting d' cell' =>
      have hCell' := hInv.connecting d' cell' rfl
      have hOther : cell ≠ cell' := by
        rintro rfl
        rw [hCell] at hCell'
        exact hNe (by simpa using hCell')
      first
        | rwa [Resources.establish, setCell_cells_of_ne hOther]
        | rwa [Resources.setInitializing, setCell_cells_of_ne hOther]
    | _ => exact hCell

private theorem inv_init : Inv .init := by
  intro i t ht
  simp [System.init] at ht

private theorem drain_taskInv {cell : CellId} (h : TaskInv r i t) : TaskInv (r.drain cell) i t := by
  constructor
  · intro x hx hNone
    apply h.joins x hx
    rw [← Option.not_isSome_iff_eq_none, ← @drain_value_isSome r cell]
    exact Option.not_isSome_iff_eq_none.mpr hNone
  · exact h.replacing
  · intro c hSeen
    rw [drain_value_isSome]
    exact h.seen c hSeen
  · intro d c ht
    have hCell := h.connecting d c ht
    rwa [drain_cells_of_none (by rw [hCell])]

private theorem inv_step {a : Action} (hFresh : s.Fresh) (hInv : Inv s) (hOk : UndividedStep s a)
    (hStep : s.step a = some s') : Inv s' := by
  obtain ⟨d, rfl, rfl⟩ | ⟨cell, rfl, rfl⟩ | ⟨i, t, hTask, ht, t', hTasks, hMoves⟩ := step_cases hStep
  · intro j u hu
    obtain hOld | rfl := task_arrived hu
    · exact hInv j u hOld
    · exact ⟨by simp [Task.joins], by simp [Task.replacing], by simp [Task.seen], (by intro _ _ h; cases h)⟩
  · intro j u hu
    exact drain_taskInv (hInv j u hu)
  · have hUndivided := hOk i hTask t ht
    intro j u hu
    obtain ⟨rfl, rfl⟩ | ⟨hNe, hOld⟩ := task_after hTasks hu
    · exact ⟨hMoves.joins (hInv j t ht), hMoves.replacing (hInv j t ht) hUndivided.observe,
        hMoves.seen (hInv j t ht), hMoves.connecting (hInv j t ht)⟩
    · apply hMoves.others (hInv i t ht) (hInv j u hOld) hNe
      · exact hFresh.tasks u (List.mem_of_getElem? hOld)
      · intro key hKey
        apply hUndivided.install key hKey u
        exact List.mem_eraseIdx_iff_getElem?.mpr ⟨j, hNe, hOld⟩
      · intro key hKey cell hCached hNone
        exact hUndivided.remove key hKey cell hCached hNone u (List.mem_of_getElem? hOld)

/-- In every run of undivided steps an origin has one connection attempt at a time, and no
fresh cell replaces another. -/
theorem shared_attempt (h : Reaches System.step UndividedStep .init s) : SharedAttempt s := by
  apply sharedAttempt_of_inv
  apply h.invariant inv_init
  intro s a s' hReaches hInv hOk hStep
  exact inv_step (fresh_of_reaches hReaches) hInv hOk hStep

instance (s : System) (i : Nat) (t : Task) : Decidable (Undivided s i t) :=
  decidable_of_iff (_ ∧ _ ∧ _)
    ⟨fun h => ⟨h.1, h.2.1, h.2.2⟩, fun h => ⟨h.install, h.observe, h.remove⟩⟩

instance (s : System) (a : Action) : Decidable (UndividedStep s a) :=
  inferInstanceAs (Decidable (∀ i ∈ a.task, ∀ t ∈ s.tasks[i]?, Undivided s i t))

def exampleDispatch : Dispatch := ⟨cacheKey (utf8 "example.com") 443, some 1⟩

def drainedSession : List Action :=
  [.dispatch exampleDispatch, .ensureBound 0 0, .advance 0, .advance 0, .advance 0, .advance 0,
    .established 0, .drain 0]

/-- Task `i` replaces its cell, from the check on, and starts to connect. -/
def replacement (i : Nat) : List Action :=
  [.advance i, .advance i, .ensureBound i 0, .advance i, .advance i]

def reconnect : List Action :=
  drainedSession ++ ([.dispatch exampleDispatch, .ensureBound 1 0, .advance 1, .advance 1] : List Action) ++
    replacement 1

/-- A second and a third request have found the session before either replaces it. -/
def doubleReconnect : List Action :=
  drainedSession ++ ([.dispatch exampleDispatch, .ensureBound 1 0, .advance 1,
    .dispatch exampleDispatch, .ensureBound 2 0, .advance 2, .advance 1, .advance 2] : List Action) ++
    replacement 1 ++ ([.advance 2, .ensureBound 2 0, .advance 2, .advance 2] : List Action)

theorem two_attempts_in_flight : ¬ ∀ s, Reachable System.step .init s → SharedAttempt s := by
  intro h
  have hRun : (run System.step .init doubleReconnect).map (fun s => (s.tasks[1]?, s.tasks[2]?)) =
      some (some (.connecting exampleDispatch 1), some (.connecting exampleDispatch 2)) := by
    decide
  obtain ⟨s, hs, hTasks⟩ := Option.map_eq_some_iff.mp hRun
  obtain ⟨hFirst, hSecond⟩ := Prod.mk.inj hTasks
  have hShared := h s (Reaches.start.run hs)
  exact absurd (hShared.single 1 2 _ _ _ _ hFirst hSecond rfl) (by decide)

theorem shared_attempt_reconnect :
    ∃ s, runWhile System.step (fun s a => decide (UndividedStep s a)) .init reconnect = some s ∧
      s.tasks[1]? = some (.connecting exampleDispatch 1) ∧ SharedAttempt s := by
  have hRun : (runWhile System.step (fun s a => decide (UndividedStep s a)) .init reconnect).map (·.tasks[1]?) =
      some (some (.connecting exampleDispatch 1)) := by
    decide
  obtain ⟨s, hs, hTask⟩ := Option.map_eq_some_iff.mp hRun
  exact ⟨s, hs, hTask, shared_attempt (Reaches.runWhile .start (fun _ _ h => of_decide_eq_true h) hs)⟩

end Eggfetch.Http3
