import Eggfetch.Http3.Moves

/-! Which session a request uses and whose entry a failure removes. A body that fails looks
at the cache in one section and removes by key in another; a request compares the generation
of its session only if its cell has one when it looks. -/
namespace Eggfetch.Http3
open Text Transition

/-- The failed stream of the task, by its request and its cell. -/
def Task.failing : Task → Option (Dispatch × CellId)
  | .evictRead d cell .report | .evictWrite d cell .report | .removeByKey d cell => some (d, cell)
  | _ => none

def Task.removing : Task → Option (Dispatch × CellId)
  | .removeByKey d cell => some (d, cell)
  | _ => none

def Task.waits : Task → Option (Dispatch × CellId)
  | .acquire d cell | .connecting d cell => some (d, cell)
  | _ => none

def Task.undecided (t : Task) (s : Resources) : Option (Dispatch × CellId) :=
  match t with
  | .check d cell => if (s.cells cell).value.isNone then some (d, cell) else none
  | _ => none

def RemovalsOwn (s : System) : Prop :=
  ∀ i t d cell s', s.tasks[i]? = some t → t.failing = some (d, cell) → s.step (.advance i) = some s' →
    ∀ key c, s.cache.lookup key = some c → s'.cache.lookup key ≠ some c → key = d.key ∧ c = cell

def GenerationsOwn (s : System) : Prop :=
  ∀ d cell altGeneration, .sending d cell altGeneration ∈ s.tasks → altGeneration = d.generation

structure Attributed (s : System) : Prop where
  removal : RemovalsOwn s
  generation : GenerationsOwn s

/-- What a step must not do for that. -/
structure Attributable (s : System) (t : Task) : Prop where
  /-- A cell is put into the cache while no failed body is about to remove the entry. -/
  install : ∀ key ∈ t.installs s.toResources, ∀ u ∈ s.tasks, ∀ x ∈ u.removing, x.1.key ≠ key
  /-- A request waits for a session only with requests of its own generation. -/
  join : ∀ x ∈ t.undecided s.toResources, ∀ u ∈ s.tasks, ∀ y ∈ u.waits, y.2 = x.2 →
    y.1.generation = x.1.generation

def AttributableStep (s : System) (a : Action) : Prop := ∀ i ∈ a.task, ∀ t ∈ s.tasks[i]?, Attributable s t

variable {s s' : System} {r r' : Resources} {i : Nat} {t t' u : Task}

def Task.EntryKept (t : Task) (s : Resources) : Prop :=
  ∀ x ∈ t.removing, s.cache.lookup x.1.key = some x.2 ∨ s.cache.lookup x.1.key = none

private theorem remove_entryKept {key : Str} (h : u.EntryKept r) : u.EntryKept (r.remove key) := by
  intro x hx
  by_cases hKey : x.1.key = key
  · rw [hKey]
    exact .inr remove_lookup
  · rw [remove_lookup_ne hKey]
    exact h x hx

theorem Moves.entryKept (hMoves : Moves r i t r' t') (hInstall : ∀ key ∈ t.installs r, ∀ x ∈ u.removing, x.1.key ≠ key)
    (h : u.EntryKept r) : u.EntryKept r' := by
  intro x hx
  cases hMoves.cacheEffect with
  | same hCache =>
    rw [hCache]
    exact h x hx
  | removeByKey key _ hCache | evict _ _ _ _ _ hCache =>
    rw [hCache]
    exact remove_entryKept h x hx
  | install key hInstalls hCache =>
    rw [hCache, install_lookup_ne (hInstall key hInstalls x hx)]
    exact h x hx

theorem Moves.entryKept_self (hMoves : Moves r i t r' t') : t'.EntryKept r' := by
  cases hMoves with
  | bodyFailed hLookup =>
    rintro x ⟨rfl⟩
    exact .inl hLookup
  | @room _ next | @alone _ next | @evictVictim _ next => cases next <;> exact (by intro _ h; cases h)
  | @replaced _ _ next | @evict _ _ next | @spared _ _ next => cases next <;> exact (by intro _ h; cases h)
  | _ => exact (by intro _ h; cases h)

/-- The tasks that wait for a cell are of one generation, that of its session, if it has
one. -/
structure GenerationInv (s : System) : Prop where
  waiting : ∀ t ∈ s.tasks, ∀ u ∈ s.tasks, ∀ x ∈ t.waits, ∀ y ∈ u.waits, x.2 = y.2 →
    x.1.generation = y.1.generation
  value : ∀ t ∈ s.tasks, ∀ x ∈ t.waits, ∀ session, (s.cells x.2).value = some session →
    session.altGeneration = x.1.generation
  sending : GenerationsOwn s

theorem drain_value {c cell : CellId} {session : CachedH3Sender} (h : ((r.drain cell).cells c).value = some session) :
    ∃ before, (r.cells c).value = some before ∧ before.altGeneration = session.altGeneration := by
  by_cases hCell : c = cell
  · subst hCell
    simp only [Resources.drain, Resources.setCell, Function.update_self, Option.map_eq_some_iff] at h
    obtain ⟨before, hBefore, rfl⟩ := h
    exact ⟨before, hBefore, rfl⟩
  · rw [Resources.drain, setCell_cells_of_ne hCell] at h
    exact ⟨session, h, rfl⟩

/-- The session of a cell was there with its generation, or is that of the task that
connects. -/
theorem Moves.value (hMoves : Moves r i t r' t') {c : CellId} (hLt : c < r.created) {session : CachedH3Sender}
    (h : (r'.cells c).value = some session) :
    (∃ before, (r.cells c).value = some before ∧ before.altGeneration = session.altGeneration) ∨
      ∃ d, t = .connecting d c ∧ session.altGeneration = d.generation := by
  cases hMoves with
  | create | insert =>
    rw [install_cells_of_lt hLt] at h
    exact .inl ⟨session, h, rfl⟩
  | connect | stopConnecting =>
    rw [setInitializing_value] at h
    exact .inl ⟨session, h, rfl⟩
  | failDraining => exact .inl (drain_value h)
  | @established d cell =>
    by_cases hCell : c = cell
    · subst hCell
      simp only [Resources.establish, Resources.setCell, Function.update_self] at h
      obtain rfl := Option.some.inj h
      exact .inr ⟨d, rfl, rfl⟩
    · rw [Resources.establish, setCell_cells_of_ne hCell] at h
      exact .inl ⟨session, h, rfl⟩
  | _ => exact .inl ⟨session, h, rfl⟩

/-- A task waits because it did before, or found its cell without a session, or made it. -/
theorem Moves.waits (hMoves : Moves r i t r' t') {x : Dispatch × CellId} (h : t'.waits = some x) :
    t.waits = some x ∨ t.undecided r = some x ∨ x.2 = r.created ∧ (r'.cells x.2).value = none := by
  cases hMoves with
  | @unset d cell hValue =>
    obtain rfl := Option.some.inj h
    exact .inr (.inl (by simp [Task.undecided, hValue]))
  | insert =>
    obtain rfl := Option.some.inj h
    exact .inr (.inr ⟨rfl, by simp [Resources.install, Cell.new]⟩)
  | connect => exact .inl h
  | @room _ next | @alone _ next | @evictVictim _ next => cases next <;> cases h
  | @replaced _ _ next | @evict _ _ next | @spared _ _ next => cases next <;> cases h
  | _ => cases h

theorem Moves.sending (hMoves : Moves r i t r' t') {d : Dispatch} {cell : CellId} {altGeneration : Option Nat}
    (hValue : ∀ x ∈ t.waits, ∀ session, (r.cells x.2).value = some session → session.altGeneration = x.1.generation)
    (h : t' = .sending d cell altGeneration) : altGeneration = d.generation := by
  cases hMoves with
  | usable _ hUsable =>
    obtain ⟨rfl, rfl, rfl⟩ := Task.sending.inj h
    simp only [CachedH3Sender.unusable, Bool.or_eq_false_iff] at hUsable
    simpa using hUsable.1
  | ready hSession =>
    obtain ⟨rfl, rfl, rfl⟩ := Task.sending.inj h
    exact hValue _ rfl _ hSession
  | established =>
    obtain ⟨rfl, rfl, rfl⟩ := Task.sending.inj h
    rfl
  | @room _ next | @alone _ next | @evictVictim _ next => cases next <;> cases h
  | @replaced _ _ next | @evict _ _ next | @spared _ _ next => cases next <;> cases h
  | _ => cases h

theorem waits_cell {x : Dispatch × CellId} (h : t.waits = some x) : t.cell = some x.2 := by
  cases t with
  | acquire d cell | connecting d cell =>
    obtain rfl := Option.some.inj h
    rfl
  | _ => cases h

section Step
variable (hFresh : s.Fresh) (hInv : GenerationInv s) (ht : t ∈ s.tasks)
  (hMoves : Moves s.toResources i t s'.toResources t') (hOk : Attributable s t)
include hFresh hInv ht hMoves hOk

private theorem waiting_new (hu : u ∈ s.tasks) {x y : Dispatch × CellId} (hx : t'.waits = some x) (hy : u.waits = some y)
    (hCell : x.2 = y.2) : x.1.generation = y.1.generation := by
  obtain hBefore | hUndecided | ⟨hNew, -⟩ := hMoves.waits hx
  · exact hInv.waiting t ht u hu x hBefore y hy hCell
  · exact (hOk.join x hUndecided u hu y hy hCell.symm).symm
  · have hLt := hFresh.tasks u hu y.2 (waits_cell hy)
    exact absurd (hCell.symm.trans hNew) (Nat.ne_of_lt hLt)

private theorem value_new {x : Dispatch × CellId} (hx : t'.waits = some x) {session : CachedH3Sender}
    (hValue : (s'.cells x.2).value = some session) : session.altGeneration = x.1.generation := by
  obtain hBefore | hUndecided | ⟨-, hNone⟩ := hMoves.waits hx
  · have hLt := hFresh.tasks t ht x.2 (waits_cell hBefore)
    obtain ⟨before, hSession, hSame⟩ | ⟨d, rfl, hGeneration⟩ := hMoves.value hLt hValue
    · exact hSame ▸ hInv.value t ht x hBefore before hSession
    · have hOwn : (d, x.2) = x := Option.some.inj hBefore
      exact hGeneration.trans (congrArg (·.1.generation) hOwn)
  · cases t with
    | check d cell =>
      simp only [Task.undecided, Option.isNone_iff_eq_none, Option.ite_none_right_eq_some] at hUndecided
      obtain ⟨hNone, hEq⟩ := hUndecided
      obtain rfl := Option.some.inj hEq
      have hLt := hFresh.tasks _ ht cell rfl
      obtain ⟨before, hSession, -⟩ | ⟨d', hTask, -⟩ := hMoves.value hLt hValue
      · exact absurd (hNone.symm.trans hSession) (by simp)
      · cases hTask
    | _ => cases hUndecided
  · exact absurd (hNone.symm.trans hValue) (by simp)

private theorem value_old (hu : u ∈ s.tasks) {x : Dispatch × CellId} (hx : u.waits = some x) {session : CachedH3Sender}
    (hValue : (s'.cells x.2).value = some session) : session.altGeneration = x.1.generation := by
  have hLt := hFresh.tasks u hu x.2 (waits_cell hx)
  obtain ⟨before, hSession, hSame⟩ | ⟨d, rfl, hGeneration⟩ := hMoves.value hLt hValue
  · exact hSame ▸ hInv.value u hu x hx before hSession
  · exact hGeneration.trans (hInv.waiting _ ht u hu (d, x.2) rfl x hx rfl)

end Step

private theorem generationInv_step {a : Action} (hFresh : s.Fresh) (hInv : GenerationInv s) (hOk : AttributableStep s a)
    (hStep : s.step a = some s') : GenerationInv s' := by
  obtain ⟨d, rfl, rfl⟩ | ⟨cell, rfl, rfl⟩ | ⟨i, t, hTask, hGet, t', hTasks, hMoves⟩ := step_cases hStep
  · have hOld : ∀ t, t ∈ s.tasks ++ [.ensureBound d .lookup] → ∀ x, t.waits = some x → t ∈ s.tasks := by
      intro t ht x hx
      obtain hOld | hNew := List.mem_append.mp ht
      · exact hOld
      · obtain rfl := List.mem_singleton.mp hNew
        cases hx
    refine ⟨?_, ?_, ?_⟩
    · intro t ht u hu x hx y hy
      exact hInv.waiting t (hOld t ht x hx) u (hOld u hu y hy) x hx y hy
    · intro t ht x hx
      exact hInv.value t (hOld t ht x hx) x hx
    · intro d' cell altGeneration hMem
      obtain hOld | hNew := List.mem_append.mp hMem
      · exact hInv.sending d' cell altGeneration hOld
      · cases List.mem_singleton.mp hNew
  · refine ⟨hInv.waiting, ?_, hInv.sending⟩
    intro t ht x hx session hSession
    obtain ⟨before, hBefore, hSame⟩ := drain_value hSession
    exact hSame ▸ hInv.value t ht x hx before hBefore
  · have ht := List.mem_of_getElem? hGet
    have hAttributable := hOk i hTask t hGet
    have hCases : ∀ u ∈ s'.tasks, u ∈ s.tasks ∨ u = t' := by
      intro u hu
      rw [hTasks] at hu
      exact List.mem_or_eq_of_mem_set hu
    refine ⟨?_, ?_, ?_⟩
    · intro u hu v hv x hx y hy hCell
      obtain hu | rfl := hCases u hu
      · obtain hv | rfl := hCases v hv
        · exact hInv.waiting u hu v hv x hx y hy hCell
        · exact (waiting_new hFresh hInv ht hMoves hAttributable hu hy hx hCell.symm).symm
      · obtain hv | rfl := hCases v hv
        · exact waiting_new hFresh hInv ht hMoves hAttributable hv hx hy hCell
        · obtain rfl : x = y := Option.some.inj (hx.symm.trans hy)
          rfl
    · intro u hu x hx session hSession
      obtain hu | rfl := hCases u hu
      · exact value_old hFresh hInv ht hMoves hAttributable hu hx hSession
      · exact value_new hFresh hInv ht hMoves hAttributable hx hSession
    · intro d cell altGeneration hMem
      obtain hu | hEq := hCases _ hMem
      · exact hInv.sending d cell altGeneration hu
      · exact hMoves.sending (hInv.value t ht) hEq.symm

private theorem entryKept_step {a : Action} (hInv : ∀ t ∈ s.tasks, t.EntryKept s.toResources) (hOk : AttributableStep s a)
    (hStep : s.step a = some s') : ∀ t ∈ s'.tasks, t.EntryKept s'.toResources := by
  obtain ⟨d, rfl, rfl⟩ | ⟨cell, rfl, rfl⟩ | ⟨i, t, hTask, hGet, t', hTasks, hMoves⟩ := step_cases hStep
  · intro t ht
    obtain hOld | hNew := List.mem_append.mp ht
    · exact hInv t hOld
    · obtain rfl := List.mem_singleton.mp hNew
      exact (by intro _ h; cases h)
  · exact hInv
  · intro u hu
    rw [hTasks] at hu
    obtain hOld | rfl := List.mem_or_eq_of_mem_set hu
    · apply hMoves.entryKept
      · intro key hKey
        exact (hOk i hTask t hGet).install key hKey u hOld
      · exact hInv u hOld
    · exact hMoves.entryKept_self

private theorem removal_of_entryKept (hInv : ∀ t ∈ s.tasks, t.EntryKept s.toResources) {d : Dispatch} {cell : CellId}
    (hGet : s.tasks[i]? = some t) (hFailing : t.failing = some (d, cell)) (hStep : s.step (.advance i) = some s')
    {key : Str} {c : CellId} (hLookup : s.cache.lookup key = some c) (hGone : s'.cache.lookup key ≠ some c) :
    key = d.key ∧ c = cell := by
  obtain ⟨_, h, -⟩ | ⟨_, h, -⟩ | ⟨j, u, hTask, hGet', t', -, hMoves⟩ := step_cases hStep
  · cases h
  · cases h
  · obtain rfl : i = j := Option.some.inj hTask
    obtain rfl : t = u := Option.some.inj (hGet.symm.trans hGet')
    have hKey : ∀ {other}, s'.cache = (s.remove other).cache → key = other := by
      intro other hCache
      by_contra hNe
      exact hGone (by rw [hCache, remove_lookup_ne hNe, hLookup])
    cases hMoves.cacheEffect with
    | same hCache => exact absurd (hCache ▸ hLookup) hGone
    | removeByKey other hRemoves hCache =>
      obtain rfl := hKey hCache
      cases t with
      | removeByKey d' cell' =>
        obtain rfl := Option.some.inj hRemoves
        obtain ⟨rfl, rfl⟩ := Prod.mk.inj (Option.some.inj hFailing)
        obtain hKept | hNone := hInv _ (List.mem_of_getElem? hGet) _ rfl
        · exact ⟨rfl, Option.some.inj (hLookup.symm.trans hKept)⟩
        · exact absurd (hLookup.symm.trans hNone) (by simp)
      | evictVictim => cases hFailing
      | _ => cases hRemoves
    | evict d' cell' next hTask hCached hCache =>
      subst hTask
      obtain rfl := hKey hCache
      cases next with
      | replace => cases hFailing
      | report =>
        obtain ⟨rfl, rfl⟩ := Prod.mk.inj (Option.some.inj hFailing)
        exact ⟨rfl, Option.some.inj (hLookup.symm.trans hCached)⟩
    | install other hInstalls _ =>
      cases t with
      | getOrInsert | insert => cases hFailing
      | _ => cases hInstalls

/-- In every run of attributable steps failures remove their own entries only, and requests
use sessions of their generation. -/
theorem attributed (h : Reaches System.step AttributableStep .init s) : Attributed s := by
  have hEntry : ∀ t ∈ s.tasks, t.EntryKept s.toResources := by
    apply h.invariant
    · simp [System.init]
    · intro s a s' _ hInv hOk hStep
      exact entryKept_step hInv hOk hStep
  have hGeneration : GenerationInv s := by
    apply h.invariant
    · exact ⟨by simp [System.init], by simp [System.init], by simp [System.init, GenerationsOwn]⟩
    · intro s a s' hReaches hInv hOk hStep
      exact generationInv_step (fresh_of_reaches hReaches) hInv hOk hStep
  refine ⟨?_, hGeneration.sending⟩
  intro i t d cell s' hGet hFailing hStep key c hLookup hGone
  exact removal_of_entryKept hEntry hGet hFailing hStep hLookup hGone

instance (s : System) (t : Task) : Decidable (Attributable s t) :=
  decidable_of_iff (_ ∧ _) ⟨fun h => ⟨h.1, h.2⟩, fun h => ⟨h.install, h.join⟩⟩

instance (s : System) (a : Action) : Decidable (AttributableStep s a) :=
  inferInstanceAs (Decidable (∀ i ∈ a.task, ∀ t ∈ s.tasks[i]?, Attributable s t))

def advertised (generation : Nat) : Dispatch := ⟨cacheKey (utf8 "example.com") 443, some generation⟩

/-- A request of a generation gets its cell from the cache, and is about to look at it. -/
def arrival (i generation : Nat) : List Action := [.dispatch (advertised generation), .ensureBound i 0, .advance i]

def firstConnection : List Action := arrival 0 1 ++ ([.advance 0, .advance 0, .advance 0] : List Action)

/-- A body fails and finds its cell cached; a second request replaces that cell before the
body removes it. -/
def lateRemoval : List Action :=
  firstConnection ++ ([.established 0, .responded 0, .drain 0, .bodyFailed 0] : List Action) ++ arrival 1 1 ++
    ([.advance 1, .advance 1, .advance 1, .ensureBound 1 0, .advance 1] : List Action)

/-- A second request, of the next generation, comes while the first one connects. -/
def sharedSession : List Action :=
  firstConnection ++ arrival 1 2 ++ ([.advance 1, .established 0, .advance 1] : List Action)

private theorem lateRemoval_run :
    (run System.step .init lateRemoval).map (fun s => (s.tasks[0]?, s.cache.lookup (advertised 1).key,
      (s.step (.advance 0)).map fun s' => s'.cache.lookup (advertised 1).key)) =
      some (some (.removeByKey (advertised 1) 0), some 1, some none) := by
  decide

private theorem removal_of_another_cell : ¬ ∀ s, Reachable System.step .init s → RemovalsOwn s := by
  intro h
  obtain ⟨s, hs, hState⟩ := Option.map_eq_some_iff.mp lateRemoval_run
  obtain ⟨hTask, hState⟩ := Prod.mk.inj hState
  obtain ⟨hLookup, hState⟩ := Prod.mk.inj hState
  obtain ⟨s', hStep, hGone⟩ := Option.map_eq_some_iff.mp hState
  have hOwn := h s (Reaches.start.run hs) 0 _ _ _ s' hTask rfl hStep (advertised 1).key 1 hLookup
  exact absurd (hOwn (by simp [hGone])).2 (by decide)

private theorem session_of_another_generation : ¬ ∀ s, Reachable System.step .init s → GenerationsOwn s := by
  intro h
  have hRun : (run System.step .init sharedSession).map (·.tasks[1]?) =
      some (some (.sending (advertised 2) 0 (some 1))) := by
    decide
  obtain ⟨s, hs, hTask⟩ := Option.map_eq_some_iff.mp hRun
  exact absurd (h s (Reaches.start.run hs) _ _ _ (List.mem_of_getElem? hTask)) (by decide)

/-- Neither part holds in every run. -/
theorem unattributed : ¬ (∀ s, Reachable System.step .init s → RemovalsOwn s) ∧
    ¬ ∀ s, Reachable System.step .init s → GenerationsOwn s :=
  ⟨removal_of_another_cell, session_of_another_generation⟩

/-- A failed body removes the entry of its own cell. -/
theorem attributed_removal :
    ∃ s, runWhile System.step (fun s a => decide (AttributableStep s a)) .init
        (firstConnection ++ [.established 0, .responded 0, .bodyFailed 0]) = some s ∧
      s.tasks[0]? = some (.removeByKey (advertised 1) 0) ∧ Attributed s := by
  have hRun : (runWhile System.step (fun s a => decide (AttributableStep s a)) .init
      (firstConnection ++ [.established 0, .responded 0, .bodyFailed 0])).map (·.tasks[0]?) =
      some (some (.removeByKey (advertised 1) 0)) := by
    decide
  obtain ⟨s, hs, hTask⟩ := Option.map_eq_some_iff.mp hRun
  exact ⟨s, hs, hTask, attributed (Reaches.runWhile .start (fun _ _ h => of_decide_eq_true h) hs)⟩

end Eggfetch.Http3
