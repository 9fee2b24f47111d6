import Eggfetch.Pool.Model

/-! What a task holds at each point of an acquire, and what one action can do to
that and to the shared resources. Every invariant of the pool is derived from
`step_cases` and never unfolds the machine. -/
namespace Eggfetch.Pool

/-- What a task owns and has to give back. -/
structure Holdings where
  globalPermit : Bool
  waiter : Option EntryId
  permit : Option EntryId
  deriving DecidableEq, Repr

variable {K : Type}

def Task.holdings : Task K → Holdings
  | .start _ | .waitGlobal _ | .done => ⟨false, none, none⟩
  | .grantedGlobal _ => ⟨true, none, none⟩
  | .lookupRead a _ | .lookupWrite a _ | .sweep a _ _ | .sweepWaiters a _ _ _ =>
    ⟨a.globalPermit, none, none⟩
  | .tryOrigin a e | .waitOrigin a e => ⟨a.globalPermit, some e, none⟩
  | .grantedOrigin a e | .takeWaiter a e true => ⟨a.globalPermit, some e, some e⟩
  | .takeWaiter a e false => ⟨a.globalPermit, some e, none⟩
  | .finish a permit => ⟨a.globalPermit, none, permit⟩
  | .guard g permit | .dropGuard g permit => ⟨g, none, permit⟩
  | .unwind g waiter permit => ⟨g, waiter, permit⟩

/-- The key whose entry the task is about to insert, inside the write-locked section. -/
def Task.sweeping : Task K → Option K
  | .sweep _ key _ | .sweepWaiters _ key _ _ => some key
  | _ => none

def Task.isGuard : Task K → Bool
  | .guard _ _ | .dropGuard _ _ => true
  | _ => false

/-- What one action of one task does to the shared resources. -/
inductive Effect [DecidableEq K] (config : PoolConfig) (action : Action K) (i : Nat)
    (r : Resources K) (t : Task K) : Resources K → Task K → Prop
  | keep {t'} : t'.holdings = t.holdings → t'.sweeping = t.sweeping → Effect config action i r t r t'
  | takeGlobal {t' sem sem'} : r.globalSemaphore = some sem → sem.tryAcquireOwned = some sem' →
      t.holdings.globalPermit = false → t'.holdings = { t.holdings with globalPermit := true } →
      t'.sweeping = t.sweeping → Effect config action i r t (r.setGlobal sem') t'
  | dropGlobal {t'} : t.holdings.globalPermit = true →
      t'.holdings = { t.holdings with globalPermit := false } → t'.sweeping = t.sweeping →
      Effect config action i r t r.releaseGlobal t'
  | register {t' key e} : r.lookup key = some e → t.holdings.waiter = none →
      t'.holdings = { t.holdings with waiter := some e } → t'.sweeping = t.sweeping →
      Effect config action i r t (r.fetchAddWaiters e) t'
  | startSweep {t' key} : r.writer = none → r.lookup key = none → t'.holdings = t.holdings →
      t.sweeping = none → t'.sweeping = some key →
      Effect config action i r t { r with writer := some i } t'
  | insert {t' key maxPerOrigin} : config.effectiveMaxInFlightPerOrigin = some maxPerOrigin →
      (r.writer = none ∧ r.lookup key = none ∧ t.sweeping = none) ∨ t.sweeping = some key →
      t.holdings.waiter = none →
      t'.holdings = { t.holdings with waiter := some r.entries.length } → t'.sweeping = none →
      Effect config action i r t (r.insertRegistered key maxPerOrigin) t'
  | evict {a key victim rest x} : action = .advance i → t = .sweepWaiters a key victim rest →
      r.entries[victim.2]? = some x → x.waiters = 0 →
      Effect config action i r t (r.evict victim) (.sweep a key rest)
  | abandon {t' key} : t.sweeping = some key → t'.holdings = t.holdings → t'.sweeping = none →
      Effect config action i r t { r with writer := none } t'
  | takeOrigin {t' e x sem} : r.entries[e]? = some x → x.semaphore.tryAcquireOwned = some sem →
      t.holdings.waiter = some e → t.holdings.permit = none →
      t'.holdings = { t.holdings with permit := some e } → t'.sweeping = t.sweeping →
      Effect config action i r t (r.setOriginSemaphore e sem) t'
  | dropOrigin {t' e} : t.holdings.permit = some e →
      t'.holdings = { t.holdings with permit := none } → t'.sweeping = t.sweeping →
      Effect config action i r t (r.releaseOrigin e) t'
  | dropWaiter {t' e} : t.holdings.waiter = some e →
      t'.holdings = { t.holdings with waiter := none } → t'.sweeping = t.sweeping →
      Effect config action i r t (r.fetchSubWaiters e) t'

/-- Closing a semaphore keeps its permits. -/
inductive Closes (r : Resources K) : Resources K → Prop
  | global : Closes r { r with globalSemaphore := r.globalSemaphore.map ({ · with closed := true }) }
  | origin (e : EntryId) : Closes r (r.modifyEntry e fun x => { x with semaphore.closed := true })

private theorem afterGlobal_holdings (config : PoolConfig) (a : Locals) (origin : Option K) :
    (PoolInner.afterGlobal config a origin).holdings = ⟨a.globalPermit, none, none⟩ ∧
      (PoolInner.afterGlobal config a origin).sweeping = none := by
  unfold PoolInner.afterGlobal
  split <;> exact ⟨rfl, rfl⟩

variable [DecidableEq K] {config : PoolConfig} {s s' : PoolInner K} {i : Nat} {t : Task K}

private theorem advance_cases (h : s.advance config i t = some s') :
    ∃ t', s'.tasks = s.tasks.set i t' ∧
      Effect config (.advance i) i s.toResources t s'.toResources t' := by
  cases t with
  | start origin =>
    simp only [PoolInner.advance] at h
    split at h
    · cases h
      exact ⟨_, rfl, .keep (afterGlobal_holdings ..).1 (afterGlobal_holdings ..).2⟩
    · split at h
      · rename_i hsem _ _ hacq
        cases h
        exact ⟨_, rfl, .takeGlobal hsem hacq rfl (afterGlobal_holdings ..).1 (afterGlobal_holdings ..).2⟩
      · cases h
        exact ⟨_, rfl, .keep rfl rfl⟩
  | waitGlobal origin =>
    simp only [PoolInner.advance] at h
    split at h
    · cases h
      exact ⟨_, rfl, .keep rfl rfl⟩
    · cases h
  | grantedGlobal origin =>
    simp only [PoolInner.advance] at h
    split at h
    · cases h
      exact ⟨_, rfl, .keep rfl rfl⟩
    · cases h
      exact ⟨_, rfl, .keep (afterGlobal_holdings ..).1 (afterGlobal_holdings ..).2⟩
  | lookupRead a key =>
    simp only [PoolInner.advance] at h
    split at h
    · cases h
    · split at h
      · cases h
        exact ⟨_, rfl, .keep rfl rfl⟩
      · split at h
        · rename_i hlook
          cases h
          exact ⟨_, rfl, .register hlook rfl rfl rfl⟩
        · cases h
          exact ⟨_, rfl, .keep rfl rfl⟩
  | lookupWrite a key =>
    simp only [PoolInner.advance] at h
    split at h
    · cases h
    · rename_i hwriter
      have hwriter : s.writer = none := by simpa using hwriter
      split at h
      · cases h
        exact ⟨_, rfl, .keep rfl rfl⟩
      · split at h
        · rename_i hlook
          cases h
          exact ⟨_, rfl, .register hlook rfl rfl rfl⟩
        · cases h
        · rename_i hlook hmax
          split at h
          · cases h
            exact ⟨_, rfl, .startSweep hwriter hlook rfl rfl rfl⟩
          · cases h
            exact ⟨_, rfl, .insert hmax (.inl ⟨hwriter, hlook, rfl⟩) rfl rfl rfl⟩
  | sweep a key rest =>
    cases rest with
    | nil =>
      obtain ⟨m, hmax, rfl⟩ := Option.map_eq_some_iff.mp h
      exact ⟨_, rfl, .insert hmax (.inr rfl) rfl rfl rfl⟩
    | cons => cases h
  | sweepWaiters a key victim rest =>
    simp only [PoolInner.advance] at h
    split at h
    · cases h
    · rename_i x hx
      split at h
      · cases h
        exact ⟨_, rfl, .keep rfl rfl⟩
      · cases h
        exact ⟨_, rfl, .evict rfl rfl hx (by omega)⟩
  | tryOrigin a e =>
    simp only [PoolInner.advance] at h
    split at h
    · cases h
    · rename_i x hx
      split at h
      · rename_i hacq
        cases h
        exact ⟨_, rfl, .takeOrigin hx hacq rfl rfl rfl rfl⟩
      · cases h
        exact ⟨_, rfl, .keep rfl rfl⟩
  | waitOrigin a e =>
    simp only [PoolInner.advance] at h
    split at h
    · cases h
    · split at h
      · cases h
        exact ⟨_, rfl, .keep rfl rfl⟩
      · cases h
  | grantedOrigin a e =>
    simp only [PoolInner.advance] at h
    split at h
    · cases h
    · split at h
      · cases h
        exact ⟨_, rfl, .dropOrigin rfl rfl rfl⟩
      · cases h
        exact ⟨_, rfl, .keep rfl rfl⟩
  | takeWaiter a e permit =>
    cases permit with
    | true =>
      cases h
      exact ⟨_, rfl, .dropWaiter rfl rfl rfl⟩
    | false =>
      cases h
      exact ⟨_, rfl, .dropWaiter rfl rfl rfl⟩
  | finish a permit =>
    cases h
    refine ⟨.guard a.globalPermit permit, ?_, ?_⟩
    · unfold PoolInner.countWait
      split <;> rfl
    · have : ((s.countWait a.waited).setTask i (.guard a.globalPermit permit)).toResources =
          s.toResources := by
        unfold PoolInner.countWait
        split <;> rfl
      rw [this]
      exact .keep rfl rfl
  | guard g permit => cases h
  | dropGuard g permit =>
    cases g with
    | true =>
      cases h
      exact ⟨_, rfl, .dropGlobal rfl rfl rfl⟩
    | false =>
      cases permit with
      | some e =>
        cases h
        exact ⟨_, rfl, .dropOrigin rfl rfl rfl⟩
      | none =>
        cases h
        exact ⟨_, rfl, .keep rfl rfl⟩
  | unwind g waiter permit =>
    cases permit with
    | some e =>
      cases h
      exact ⟨_, rfl, .dropOrigin rfl rfl rfl⟩
    | none =>
      cases waiter with
      | some e =>
        cases h
        exact ⟨_, rfl, .dropWaiter rfl rfl rfl⟩
      | none =>
        cases g with
        | true =>
          cases h
          exact ⟨_, rfl, .dropGlobal rfl rfl rfl⟩
        | false =>
          cases h
          exact ⟨_, rfl, .keep rfl rfl⟩
  | done => cases h

private theorem visit_cases {j : Nat} (h : s.visit config i j t = some s') :
    ∃ t', s'.tasks = s.tasks.set i t' ∧
      Effect config (.visit i j) i s.toResources t s'.toResources t' := by
  cases t with
  | sweep a key rest =>
    simp only [PoolInner.visit] at h
    split at h
    · split at h
      · cases h
      · split at h
        · cases h
          exact ⟨_, rfl, .keep rfl rfl⟩
        · cases h
          exact ⟨_, rfl, .keep rfl rfl⟩
    · cases h
  | _ => cases h

private theorem grant_cases (h : s.grant i t = some s') :
    ∃ t', s'.tasks = s.tasks.set i t' ∧
      Effect config (.grant i) i s.toResources t s'.toResources t' := by
  cases t with
  | waitGlobal origin =>
    simp only [PoolInner.grant] at h
    split at h
    · cases h
    · rename_i sem hsem
      obtain ⟨sem', hacq, rfl⟩ := Option.map_eq_some_iff.mp h
      exact ⟨_, rfl, .takeGlobal hsem hacq rfl rfl rfl⟩
  | waitOrigin a e =>
    simp only [PoolInner.grant] at h
    split at h
    · cases h
    · rename_i x hx
      obtain ⟨sem', hacq, rfl⟩ := Option.map_eq_some_iff.mp h
      exact ⟨_, rfl, .takeOrigin hx hacq rfl rfl rfl rfl⟩
  | _ => cases h

private theorem cancel_cases (h : s.cancel i t = some s') :
    ∃ t', s'.tasks = s.tasks.set i t' ∧
      Effect config (.cancel i) i s.toResources t s'.toResources t' := by
  cases t with
  | start | waitGlobal | grantedGlobal | waitOrigin | grantedOrigin =>
    cases h
    exact ⟨_, rfl, .keep rfl rfl⟩
  | _ => cases h

private theorem dropGuard_cases (h : s.dropGuard i t = some s') :
    ∃ t', s'.tasks = s.tasks.set i t' ∧
      Effect config (.dropGuard i) i s.toResources t s'.toResources t' := by
  cases t with
  | guard =>
    cases h
    exact ⟨_, rfl, .keep rfl rfl⟩
  | _ => cases h

private theorem panic_cases (h : s.panic i t = some s') :
    ∃ t', s'.tasks = s.tasks.set i t' ∧
      Effect config (.panic i) i s.toResources t s'.toResources t' := by
  cases t with
  | sweep | sweepWaiters =>
    cases h
    exact ⟨_, rfl, .abandon rfl rfl rfl⟩
  | _ => cases h

/-- Every action spawns a task, closes a semaphore, or has one effect on one task. -/
theorem step_cases {action : Action K} (h : PoolInner.step config s action = some s') :
    (∃ origin, s'.toResources = s.toResources ∧ s'.tasks = s.tasks ++ [.start origin]) ∨
    (∃ i t t', s.tasks[i]? = some t ∧ s'.tasks = s.tasks.set i t' ∧
      Effect config action i s.toResources t s'.toResources t') ∨
    (s'.tasks = s.tasks ∧ Closes s.toResources s'.toResources) := by
  cases action with
  | spawn origin =>
    cases h
    exact .inl ⟨origin, rfl, rfl⟩
  | advance i =>
    obtain ⟨t, ht, h⟩ := Option.bind_eq_some_iff.mp h
    obtain ⟨t', htasks, heff⟩ := advance_cases h
    exact .inr (.inl ⟨i, t, t', ht, htasks, heff⟩)
  | visit i j =>
    obtain ⟨t, ht, h⟩ := Option.bind_eq_some_iff.mp h
    obtain ⟨t', htasks, heff⟩ := visit_cases h
    exact .inr (.inl ⟨i, t, t', ht, htasks, heff⟩)
  | grant i =>
    obtain ⟨t, ht, h⟩ := Option.bind_eq_some_iff.mp h
    obtain ⟨t', htasks, heff⟩ := grant_cases h
    exact .inr (.inl ⟨i, t, t', ht, htasks, heff⟩)
  | cancel i =>
    obtain ⟨t, ht, h⟩ := Option.bind_eq_some_iff.mp h
    obtain ⟨t', htasks, heff⟩ := cancel_cases h
    exact .inr (.inl ⟨i, t, t', ht, htasks, heff⟩)
  | dropGuard i =>
    obtain ⟨t, ht, h⟩ := Option.bind_eq_some_iff.mp h
    obtain ⟨t', htasks, heff⟩ := dropGuard_cases h
    exact .inr (.inl ⟨i, t, t', ht, htasks, heff⟩)
  | panic i =>
    obtain ⟨t, ht, h⟩ := Option.bind_eq_some_iff.mp h
    obtain ⟨t', htasks, heff⟩ := panic_cases h
    exact .inr (.inl ⟨i, t, t', ht, htasks, heff⟩)
  | closeGlobal =>
    cases h
    exact .inr (.inr ⟨rfl, .global⟩)
  | closeOrigin e =>
    cases h
    exact .inr (.inr ⟨rfl, .origin e⟩)

end Eggfetch.Pool
