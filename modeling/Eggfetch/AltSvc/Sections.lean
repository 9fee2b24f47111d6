import Eggfetch.AltSvc.Model

/-! What each locked section can do to the tables, and what each step of the system does. -/
namespace Eggfetch.AltSvc
open Text

def Table.Shrinks {V : Type} (table table' : Table V) : Prop :=
  ∀ origin v, table'.lookup origin = some v → table.lookup origin = some v

variable {V : Type} {table table' : Table V} {origin other : AltSvcOrigin}

theorem Table.Shrinks.refl (table : Table V) : table.Shrinks table := fun _ _ h => h

theorem Table.shrinks_erase (table : Table V) (origin : AltSvcOrigin) :
    table.Shrinks (table.erase origin) := by
  intro o v h
  by_cases ho : o = origin
  · subst ho
    rw [AList.lookup_erase] at h
    cases h
  · rwa [AList.lookup_erase_ne ho] at h

theorem Table.shrinks_ensureBound (max : Nat) (table : Table V) (except : AltSvcOrigin) (pick : Nat) :
    table.Shrinks (table.ensureBound max except pick) := by
  simp only [Table.ensureBound]
  split
  · exact .refl table
  · split
    · exact table.shrinks_erase _
    · exact .refl table

/-- A binding after an insertion is the inserted one or an earlier one. -/
theorem Table.lookup_insert_cases {v w : V} (h : (table.insert origin v).lookup other = some w) :
    (other = origin ∧ w = v) ∨ (other ≠ origin ∧ table.lookup other = some w) := by
  by_cases ho : other = origin
  · subst ho
    rw [AList.lookup_insert] at h
    exact .inl ⟨rfl, (Option.some.inj h).symm⟩
  · rw [AList.lookup_insert_ne ho] at h
    exact .inr ⟨ho, h⟩

/-- The expiry that `learn_counted` would store. -/
def learnedExpiry (origin : AltSvcOrigin) (values : List Str) (now : Instant) : Option Instant :=
  let combined := (utf8 ", ").intercalate values
  if values.isEmpty ∨ altSvcMaxHeaderBytes < combined.length ∨ isClearValue (trim combined) then none
  else (best origin combined now).map fun alternative => alternative.2.2

/-- The caches that a learn can leave behind. -/
inductive Learned (cache : AltSvcCache) (origin : AltSvcOrigin) (expiry : Option Instant) :
    AltSvcCache → Prop
  | same : Learned cache origin expiry cache
  | removed : Learned cache origin expiry (cache.remove origin)
  | refreshed {existing entry : AltSvcEntry} {x : Instant} :
      cache.entries.lookup origin = some existing → expiry = some x →
      entry.expiresAt = max x existing.expiresAt → entry.generation = existing.generation →
      Learned cache origin expiry { cache with entries := cache.entries.insert origin entry }
  | replaced {table : Table AltSvcEntry} {entry : AltSvcEntry} :
      cache.entries.Shrinks table → expiry = some entry.expiresAt → entry.generation = cache.sequence →
      Learned cache origin expiry ⟨table.insert origin entry, cache.sequence + 1⟩

theorem AltSvcCache.store_cases (cache : AltSvcCache) (origin : AltSvcOrigin) (altHost : Str)
    (altPort : Nat) (expiresAt : Instant) (pick : Nat) :
    Learned cache origin (some expiresAt) (cache.store origin altHost altPort expiresAt pick) := by
  have hreplaced : Learned cache origin (some expiresAt)
      { entries := (ensureBoundLocked cache.entries origin pick).insert origin
          ⟨altHost, altPort, expiresAt, cache.sequence⟩
        sequence := cache.sequence + 1 } :=
    .replaced (Table.shrinks_ensureBound altSvcCacheMaxEntries cache.entries origin pick) rfl rfl
  simp only [store]
  split
  · rename_i existing hlook
    split
    · split
      · exact .refreshed hlook rfl rfl rfl
      · exact .same
    · exact hreplaced
  · exact hreplaced

theorem AltSvcCache.learnCounted_cases (cache : AltSvcCache) (origin : AltSvcOrigin) (values : List Str)
    (now : Instant) (pick : Nat) :
    Learned cache origin (learnedExpiry origin values now) (cache.learnCounted origin values now pick).2 := by
  unfold learnCounted learnedExpiry
  by_cases hempty : values.isEmpty
  · rw [if_pos hempty]
    exact .same
  · by_cases hlong : altSvcMaxHeaderBytes < ((utf8 ", ").intercalate values).length
    · simp only [hempty, hlong, if_true]
      exact .same
    · by_cases hclear : isClearValue (trim ((utf8 ", ").intercalate values)) = true
      · simp only [hempty, hlong, hclear, if_true]
        exact .removed
      · simp only [hempty, hlong, hclear, Bool.false_eq_true, or_self, if_false]
        cases hbest : best origin ((utf8 ", ").intercalate values) now with
        | none =>
          dsimp only
          split <;> exact .removed
        | some alternative => exact store_cases ..

/-- The moves of a task that only read. -/
inductive Follows (s : AltSvcState) : Task → Task → Prop
  | missed {caller : Caller} {origin : AltSvcOrigin} {now : Instant} :
      Follows s (.getFresh caller origin now) .done
  | expired {caller : Caller} {origin : AltSvcOrigin} {now : Instant} {entry : AltSvcEntry} :
      s.cache.entries.lookup origin = some entry → entry.isExpired now = true →
      Follows s (.getFresh caller origin now) (.removeExpired origin now)
  | found {origin : AltSvcOrigin} {now : Instant} {entry : AltSvcEntry} :
      s.cache.entries.lookup origin = some entry →
      Follows s (.getFresh .discovery origin now) (.isSuppressed origin entry now)
  | learned {origin : AltSvcOrigin} {now : Instant} {entry : AltSvcEntry} :
      s.cache.entries.lookup origin = some entry →
      Follows s (.getFresh .learning origin now) (.noteNewAdvertisement origin entry.generation)
  | suppressed {origin : AltSvcOrigin} {now : Instant} {entry : AltSvcEntry} :
      Follows s (.isSuppressed origin entry now) .done
  | attempted {origin : AltSvcOrigin} {now : Instant} {entry : AltSvcEntry} :
      Follows s (.isSuppressed origin entry now) (.attempt origin entry.generation)
  | current {origin : AltSvcOrigin} {generation : Nat} :
      Follows s (.noteNewAdvertisement origin generation) .done
  | stale {origin : AltSvcOrigin} {generation : Nat} {examined : SuppressionEntry} :
      s.suppressor.entries.lookup origin = some examined → examined.generation ≠ generation →
      Follows s (.noteNewAdvertisement origin generation) (.removeStale origin generation examined)

theorem Task.advance_cases {s s' : AltSvcState} {t t' : Task} (h : t.advance s = some (s', t')) :
    (s' = s ∧ Follows s t t') ∨
    (∃ origin now, t = .removeExpired origin now ∧ s' = { s with cache := s.cache.remove origin } ∧
      t' = .done) ∨
    (∃ origin generation examined, t = .removeStale origin generation examined ∧
      s' = { s with suppressor := s.suppressor.remove origin } ∧ t' = .done) := by
  cases t with
  | getFresh caller origin now =>
    simp only [Task.advance] at h
    split at h
    · obtain ⟨rfl, rfl⟩ := Prod.mk.inj (Option.some.inj h)
      exact .inl ⟨rfl, .missed⟩
    · rename_i entry hlook
      split at h
      · rename_i hexpired
        obtain ⟨rfl, rfl⟩ := Prod.mk.inj (Option.some.inj h)
        exact .inl ⟨rfl, .expired hlook hexpired⟩
      · cases caller with
        | discovery =>
          obtain ⟨rfl, rfl⟩ := Prod.mk.inj (Option.some.inj h)
          exact .inl ⟨rfl, .found hlook⟩
        | learning =>
          obtain ⟨rfl, rfl⟩ := Prod.mk.inj (Option.some.inj h)
          exact .inl ⟨rfl, .learned hlook⟩
  | removeExpired origin now =>
    obtain ⟨rfl, rfl⟩ := Prod.mk.inj (Option.some.inj h)
    exact .inr (.inl ⟨origin, now, rfl, rfl, rfl⟩)
  | isSuppressed origin entry now =>
    simp only [Task.advance] at h
    split at h
    · obtain ⟨rfl, rfl⟩ := Prod.mk.inj (Option.some.inj h)
      exact .inl ⟨rfl, .suppressed⟩
    · obtain ⟨rfl, rfl⟩ := Prod.mk.inj (Option.some.inj h)
      exact .inl ⟨rfl, .attempted⟩
  | attempt | done => cases h
  | noteNewAdvertisement origin generation =>
    simp only [Task.advance] at h
    split at h
    · rename_i examined hstale
      obtain ⟨rfl, rfl⟩ := Prod.mk.inj (Option.some.inj h)
      obtain ⟨hlook, hne⟩ := Option.filter_eq_some_iff.mp hstale
      exact .inl ⟨rfl, .stale hlook (by simpa using hne)⟩
    · obtain ⟨rfl, rfl⟩ := Prod.mk.inj (Option.some.inj h)
      exact .inl ⟨rfl, .current⟩
  | removeStale origin generation examined =>
    obtain ⟨rfl, rfl⟩ := Prod.mk.inj (Option.some.inj h)
    exact .inr (.inr ⟨origin, generation, examined, rfl, rfl, rfl⟩)

/-- Everything a step can do. -/
theorem System.step_cases {s s' : System} {action : Action} (h : s.step action = some s') :
    (∃ origin values now pick tasks, action = .learn origin values now pick ∧
      Learned s.cache origin (learnedExpiry origin values now) s'.cache ∧
      s'.suppressor = s.suppressor ∧ s'.tasks = s.tasks ++ tasks ∧
      ∀ t ∈ tasks, t = .getFresh .learning origin now) ∨
    (∃ origin, action = .clear origin ∧ s' = { s with cache := s.cache.remove origin }) ∨
    (∃ origin now, action = .discover origin now ∧
      s' = { s with tasks := s.tasks ++ [.getFresh .discovery origin now] }) ∨
    (∃ i t t' shared, action = .advance i ∧ s.tasks[i]? = some t ∧
      t.advance s.toAltSvcState = some (shared, t') ∧ s' = { shared with tasks := s.tasks.set i t' }) ∨
    (∃ i outcome now pick origin generation, action = .report i outcome now pick ∧
      s.tasks[i]? = some (.attempt origin generation) ∧
      s' = { s with
        suppressor := outcome.report s.suppressor origin generation now pick
        tasks := s.tasks.set i .done }) := by
  cases action with
  | learn origin values now pick =>
    obtain rfl := Option.some.inj h
    have hcases := s.cache.learnCounted_cases origin values now pick
    by_cases hlearned : (s.cache.learnCounted origin values now pick).1.1 = .learned
    · exact .inl ⟨origin, values, now, pick, [.getFresh .learning origin now], rfl, hcases, rfl,
        if_pos hlearned, by simp⟩
    · exact .inl ⟨origin, values, now, pick, [], rfl, hcases, rfl,
        (if_neg hlearned).trans (List.append_nil _).symm, by simp⟩
  | clear origin =>
    obtain rfl := Option.some.inj h
    exact .inr (.inl ⟨origin, rfl, rfl⟩)
  | discover origin now =>
    obtain rfl := Option.some.inj h
    exact .inr (.inr (.inl ⟨origin, now, rfl, rfl⟩))
  | advance i =>
    obtain ⟨t, ht, hmap⟩ := Option.bind_eq_some_iff.mp h
    obtain ⟨⟨shared, t'⟩, hadvance, rfl⟩ := Option.map_eq_some_iff.mp hmap
    exact .inr (.inr (.inr (.inl ⟨i, t, t', shared, rfl, ht, hadvance, rfl⟩)))
  | report i outcome now pick =>
    simp only [System.step] at h
    split at h
    · rename_i origin generation ht
      obtain rfl := Option.some.inj h
      exact .inr (.inr (.inr (.inr ⟨i, outcome, now, pick, origin, generation, rfl, ht, rfl⟩)))
    · cases h

end Eggfetch.AltSvc
