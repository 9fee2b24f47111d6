import Eggfetch.AltSvc.Bounds
import Mathlib.Data.Finset.Card

/-! What the suppressor remembers of a history: its last run of failures, as long as it has room for
every origin that fails. -/
namespace Eggfetch.AltSvc

namespace Operation

/-- The operation does not end a run of failures of this generation at this origin. -/
def keeps (origin : AltSvcOrigin) (generation : Nat) : Operation → Bool
  | recordFailure other g _ _ _ | noteNewAdvertisement other g => other ≠ origin || g = generation
  | recordSuccess other => other ≠ origin
  | _ => true

def failure (origin : AltSvcOrigin) : Operation → Option Instant
  | recordFailure other _ now _ _ => if other = origin then some now else none
  | _ => none

def failing : Operation → Option AltSvcOrigin
  | recordFailure origin _ _ _ _ => some origin
  | _ => none

end Operation

/-- The failures since the last operation that ended a run of this generation. -/
def lastRun (origin : AltSvcOrigin) (generation : Nat) (history : List Operation) : List Instant :=
  (history.rtakeWhile (·.keeps origin generation)).filterMap (·.failure origin)

def suppressedFor (failures : Nat) : Nat := min (secs 5 * 2 ^ (failures - 1)) (secs 300)

/-- The suppressor has a record of the run of this generation, and of nothing else. -/
structure Remembers (s : BrokenRouteSuppressor) (origin : AltSvcOrigin) (generation : Nat) (run : List Instant) : Prop where
  record : ∀ last ∈ run.getLast?, ∃ entry, s.entries.lookup origin = some entry ∧ entry.generation = generation ∧
    entry.failures = min run.length u32Max ∧ entry.suppressedUntil = last + suppressedFor run.length
  silent : run = [] → ∀ entry, s.entries.lookup origin = some entry → entry.generation ≠ generation

def FewOrigins (history : List Operation) : Prop :=
  (history.filterMap Operation.failing).toFinset.card ≤ suppressionMaxEntries

section
variable {s : BrokenRouteSuppressor} {origin other : AltSvcOrigin} {generation failures pick : Nat} {now : Instant}
  {history : List Operation} {operation : Operation} {run : List Instant}

private theorem backoff_eq : BrokenRouteSuppressor.backoff (min failures u32Max) = suppressedFor failures := by
  have hBase : secs 300 ≤ secs 5 * 2 ^ 10 := by decide
  have hCap : u32Max - 1 = 4294967294 := rfl
  rw [BrokenRouteSuppressor.backoff, suppressedFor]
  by_cases hSmall : failures - 1 ≤ 10
  · have hShift : min (min failures u32Max - 1) 10 = failures - 1 := by omega
    rw [hShift]
    rfl
  · have hShift : min (min failures u32Max - 1) 10 = 10 := by omega
    have hPow : 2 ^ 10 ≤ 2 ^ (failures - 1) := Nat.pow_le_pow_right (by decide) (by omega)
    have hMore : secs 300 ≤ secs 5 * 2 ^ (failures - 1) := Nat.le_trans hBase (Nat.mul_le_mul_left _ hPow)
    rw [hShift, Nat.min_eq_right hMore]
    exact Nat.min_eq_right hBase

theorem lastRun_concat : lastRun origin generation (history ++ [operation]) =
    if operation.keeps origin generation then lastRun origin generation history ++ (operation.failure origin).toList else [] := by
  have hOne : [operation].filterMap (·.failure origin) = (operation.failure origin).toList := by
    cases hFailure : operation.failure origin with
    | none => exact List.filterMap_cons_none hFailure
    | some now => exact List.filterMap_cons_some hFailure
  rw [lastRun, List.rtakeWhile_concat]
  split_ifs with hKeeps
  · rw [List.filterMap_append, hOne]
    rfl
  · rfl

theorem after_concat : after (history ++ [operation]) = (after history).apply operation := by
  rw [after, List.foldl_append]
  rfl

theorem FewOrigins.of_concat (h : FewOrigins (history ++ [operation])) : FewOrigins history := by
  refine Nat.le_trans (Finset.card_le_card ?_) h
  intro origin hMem
  rw [List.mem_toFinset] at hMem ⊢
  rw [List.filterMap_append]
  exact List.mem_append_left _ hMem

theorem FewOrigins.of_length (h : history.length ≤ suppressionMaxEntries) : FewOrigins history :=
  Nat.le_trans (List.toFinset_card_le _) (Nat.le_trans (List.length_filterMap_le _ _) h)

/-- An operation that is no failure and touches another origin, or none, changes nothing for this one. -/
theorem Remembers.lookup {s' : BrokenRouteSuppressor} (h : Remembers s origin generation run)
    (hLookup : s'.entries.lookup origin = s.entries.lookup origin) : Remembers s' origin generation run := by
  constructor
  · rw [hLookup]
    exact h.record
  · rw [hLookup]
    exact h.silent

theorem Remembers.nothing (h : ∀ entry, s.entries.lookup origin = some entry → entry.generation ≠ generation) :
    Remembers s origin generation [] where
  record last hLast := by cases hLast
  silent _ := h

theorem Remembers.removed : Remembers (s.remove origin) origin generation [] := by
  refine .nothing fun entry hEntry => ?_
  rw [BrokenRouteSuppressor.remove, AList.lookup_erase] at hEntry
  cases hEntry

theorem remove_lookup_ne (h : origin ≠ other) : (s.remove other).entries.lookup origin = s.entries.lookup origin :=
  AList.lookup_erase_ne h

theorem recordFailure_lookup_ne {reason : H3FailureClass} (hOther : origin ≠ other)
    (hRoom : s.entries.lookup other = none → s.entries.keys.length < suppressionMaxEntries) :
    (s.recordFailure other generation now reason pick).entries.lookup origin = s.entries.lookup origin := by
  rw [BrokenRouteSuppressor.recordFailure]
  cases hLookup : s.entries.lookup other with
  | none =>
    have hKept : BrokenRouteSuppressor.ensureBoundLocked s.entries other pick = s.entries := if_pos (hRoom hLookup)
    dsimp only
    rw [hKept, AList.lookup_insert_ne hOther]
  | some entry =>
    dsimp only
    split_ifs
    · exact AList.lookup_insert_ne hOther
    · exact AList.lookup_insert_ne hOther

private theorem Remembers.recordFailure {reason : H3FailureClass} (h : Remembers s origin generation run) :
    Remembers (s.recordFailure origin generation now reason pick) origin generation (run ++ [now]) := by
  have hFirst : suppressedFor 1 = min suppressionBase suppressionMax := rfl
  constructor
  · intro last hLast
    rw [List.getLast?_concat] at hLast
    obtain rfl := Option.some.inj hLast
    rw [List.length_append, List.length_singleton, BrokenRouteSuppressor.recordFailure]
    cases hRun : run.getLast? with
    | none =>
      obtain rfl := List.getLast?_eq_none_iff.mp hRun
      cases hLookup : s.entries.lookup origin with
      | none => exact ⟨_, AList.lookup_insert _, rfl, rfl, rfl⟩
      | some entry =>
        dsimp only
        rw [if_pos (h.silent rfl entry hLookup)]
        exact ⟨_, AList.lookup_insert _, rfl, rfl, rfl⟩
    | some before =>
      obtain ⟨entry, hLookup, hGeneration, hFailures, -⟩ := h.record before hRun
      have hNext : min (entry.failures + 1) u32Max = min (run.length + 1) u32Max := by
        rw [hFailures]
        omega
      simp only [hLookup, hGeneration, ne_eq, not_true, if_false]
      refine ⟨_, AList.lookup_insert _, rfl, hNext, ?_⟩
      rw [hNext, backoff_eq]
  · intro hNil
    exact absurd hNil (List.append_ne_nil_of_right_ne_nil _ (List.cons_ne_nil _ _))

private theorem Remembers.overtaken {reason : H3FailureClass} {g : Nat} (hOther : g ≠ generation) :
    Remembers (s.recordFailure origin g now reason pick) origin generation [] := by
  refine .nothing fun entry hEntry => ?_
  rw [BrokenRouteSuppressor.recordFailure] at hEntry
  cases hLookup : s.entries.lookup origin with
  | none =>
    simp only [hLookup, AList.lookup_insert, Option.some.injEq] at hEntry
    exact hEntry ▸ hOther
  | some old =>
    simp only [hLookup] at hEntry
    split_ifs at hEntry with hSame
    · rw [AList.lookup_insert, Option.some.injEq] at hEntry
      exact hEntry ▸ hOther
    · rw [AList.lookup_insert, Option.some.injEq] at hEntry
      rw [← hEntry]
      exact not_not.mp hSame ▸ hOther

theorem noteNewAdvertisement_lookup_ne (hOther : origin ≠ other) :
    (s.noteNewAdvertisement other generation).entries.lookup origin = s.entries.lookup origin := by
  rw [BrokenRouteSuppressor.noteNewAdvertisement]
  cases s.staleRecord other generation with
  | none => rfl
  | some examined => exact remove_lookup_ne hOther

private theorem Remembers.noteNewAdvertisement {g : Nat} (h : Remembers s origin generation run) :
    Remembers (s.noteNewAdvertisement origin g) origin generation (if g = generation then run else []) := by
  rw [BrokenRouteSuppressor.noteNewAdvertisement]
  cases hStale : s.staleRecord origin g with
  | none =>
    rw [BrokenRouteSuppressor.staleRecord, Option.filter_eq_none_iff] at hStale
    split_ifs with hSame
    · exact h
    · refine .nothing fun entry hEntry => ?_
      have hGeneration := hStale entry hEntry
      simp only [ne_eq, decide_not, Bool.not_eq_true', decide_eq_false_iff_not, not_not] at hGeneration
      exact hGeneration ▸ hSame
  | some examined =>
    have hNil : (if g = generation then run else []) = [] := by
      split_ifs with hSame
      · rw [BrokenRouteSuppressor.staleRecord, Option.filter_eq_some_iff] at hStale
        obtain ⟨hLookup, hGeneration⟩ := hStale
        cases hRun : run.getLast? with
        | none => exact List.getLast?_eq_none_iff.mp hRun
        | some last =>
          obtain ⟨entry, hEntry, hOwn, -⟩ := h.record last hRun
          obtain rfl := Option.some.inj (hEntry.symm.trans hLookup)
          rw [hOwn, hSame] at hGeneration
          simp at hGeneration
      · rfl
    rw [hNil]
    exact .removed

private theorem mem_failing (h : lastRun origin generation history ≠ []) : origin ∈ history.filterMap Operation.failing := by
  obtain ⟨now, hNow⟩ := List.exists_mem_of_ne_nil _ h
  obtain ⟨operation, hMem, hFailure⟩ := List.mem_filterMap.mp hNow
  refine List.mem_filterMap.mpr ⟨operation, (List.rtakeWhile_suffix _ _).subset hMem, ?_⟩
  cases operation with
  | recordFailure other g now reason pick =>
    rw [Operation.failure] at hFailure
    split_ifs at hFailure with hSame
    exact congrArg some hSame
  | _ => cases hFailure

private theorem room {reason : H3FailureClass} {g : Nat}
    (hRemembers : ∀ origin generation, Remembers s origin generation (lastRun origin generation history))
    (hFew : FewOrigins (history ++ [Operation.recordFailure other g now reason pick])) (hLookup : s.entries.lookup other = none) :
    s.entries.keys.length < suppressionMaxEntries := by
  have hOld : ∀ key ∈ s.entries.keys, key ∈ history.filterMap Operation.failing := by
    intro key hKey
    obtain ⟨entry, hEntry⟩ := Option.isSome_iff_exists.mp (AList.lookup_isSome.mpr (AList.mem_keys.mpr hKey))
    have hRun : lastRun key entry.generation history ≠ [] := fun hNil =>
      (hRemembers key entry.generation).silent hNil entry hEntry rfl
    exact mem_failing hRun
  have hNew : other ∉ s.entries.keys.toFinset := by
    rw [List.mem_toFinset]
    exact AList.lookup_eq_none.mp hLookup
  have hSubset : insert other s.entries.keys.toFinset ⊆
      ((history ++ [Operation.recordFailure other g now reason pick]).filterMap Operation.failing).toFinset := by
    intro key hKey
    rw [List.mem_toFinset, List.filterMap_append, List.mem_append]
    rcases Finset.mem_insert.mp hKey with rfl | hKey
    · exact .inr List.mem_cons_self
    · exact .inl (hOld key (List.mem_toFinset.mp hKey))
  have hCard := Nat.le_trans (Finset.card_le_card hSubset) hFew
  rw [Finset.card_insert_of_notMem hNew, List.toFinset_card_of_nodup s.entries.keys_nodup] at hCard
  exact hCard

private theorem remembers_after (hFew : FewOrigins history) (origin : AltSvcOrigin) (generation : Nat) :
    Remembers (after history).suppressor origin generation (lastRun origin generation history) := by
  induction history using List.reverseRecOn generalizing origin generation with
  | nil => exact .nothing fun entry hEntry => by cases hEntry
  | append_singleton history operation ih =>
    have hBefore := ih hFew.of_concat
    have hSame := hBefore origin generation
    rw [after_concat, lastRun_concat]
    cases operation with
    | learn | getFresh | clear =>
      rw [if_pos (show Operation.keeps _ _ _ = true from rfl)]
      exact (List.append_nil _).symm ▸ hSame
    | recordFailure other g now reason pick =>
      by_cases hOther : other = origin
      · subst hOther
        by_cases hGeneration : g = generation
        · subst hGeneration
          rw [if_pos (by simp [Operation.keeps]), Operation.failure, if_pos rfl]
          exact hSame.recordFailure
        · rw [if_neg (by simp [Operation.keeps, hGeneration])]
          exact .overtaken hGeneration
      · rw [if_pos (by simp [Operation.keeps, hOther]), Operation.failure, if_neg hOther]
        refine (List.append_nil _).symm ▸ hSame.lookup ?_
        exact recordFailure_lookup_ne (Ne.symm hOther) (room hBefore hFew)
    | recordSuccess other =>
      by_cases hOther : other = origin
      · subst hOther
        rw [if_neg (by simp [Operation.keeps])]
        exact .removed
      · rw [if_pos (by simp [Operation.keeps, hOther])]
        exact (List.append_nil _).symm ▸ hSame.lookup (remove_lookup_ne (Ne.symm hOther))
    | noteNewAdvertisement other g =>
      by_cases hOther : other = origin
      · subst hOther
        have hKeeps : (Operation.noteNewAdvertisement other g).keeps other generation = decide (g = generation) := by
          simp [Operation.keeps]
        have hNoted := hSame.noteNewAdvertisement (g := g)
        have hRun : lastRun other generation history ++ ((Operation.noteNewAdvertisement other g).failure other).toList =
            lastRun other generation history := List.append_nil _
        rw [hKeeps, hRun]
        simp only [decide_eq_true_eq]
        exact hNoted
      · rw [if_pos (by simp [Operation.keeps, hOther])]
        exact (List.append_nil _).symm ▸ hSame.lookup (noteNewAdvertisement_lookup_ne (Ne.symm hOther))

/-- A route is suppressed for the backoff that its last run of failures has earned, and no longer. -/
theorem isSuppressed_iff (hFew : FewOrigins history) (origin : AltSvcOrigin) (generation : Nat) (t : Instant) :
    (after history).suppressor.isSuppressed origin generation t = true ↔
      ∃ last, (lastRun origin generation history).getLast? = some last ∧
        t < last + suppressedFor (lastRun origin generation history).length := by
  have hRemembers := remembers_after hFew origin generation
  rw [BrokenRouteSuppressor.isSuppressed]
  cases hRun : (lastRun origin generation history).getLast? with
  | none =>
    have hSilent := hRemembers.silent (List.getLast?_eq_none_iff.mp hRun)
    refine iff_of_false ?_ fun ⟨last, hLast, _⟩ => by cases hLast
    cases hLookup : (after history).suppressor.entries.lookup origin with
    | none => exact Bool.false_ne_true
    | some entry =>
      dsimp only
      rw [if_pos (hSilent entry hLookup)]
      exact Bool.false_ne_true
  | some last =>
    obtain ⟨entry, hLookup, hGeneration, -, hUntil⟩ := hRemembers.record last hRun
    simp only [hLookup, hGeneration, ne_eq, not_true, if_false, decide_eq_true_eq, hUntil]
    exact ⟨fun hBefore => ⟨last, rfl, hBefore⟩, fun ⟨_, hLast, hBefore⟩ => Option.some.inj hLast ▸ hBefore⟩

end

/-- After its second failure in a row a route rests for ten seconds. -/
theorem isSuppressed_twice : ∃ origin, AltSvcOrigin.new (Text.utf8 "https") (Text.utf8 "example.com") 443 = some origin ∧
    (after [.recordFailure origin 1 0 .connectivity 0, .recordFailure origin 1 (secs 6) .closed 0]).suppressor.isSuppressed
      origin 1 (secs 15) = true := by
  refine ⟨⟨Text.utf8 "https", Text.utf8 "example.com", 443⟩, by decide, ?_⟩
  refine (isSuppressed_iff ?_ _ 1 (secs 15)).mpr ⟨secs 6, rfl, by decide⟩
  exact .of_length (by decide)

end Eggfetch.AltSvc
