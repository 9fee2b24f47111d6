import Eggfetch.AltSvc.Sections
import Eggfetch.Transition.Runs

/-! Reports of attempts of several Alt-Svc generations on one origin, in any order. A
failure replaces the recorded generation and a success carries none, so a step respects
the record of a newer generation exactly when what it reports is not older. -/
namespace Eggfetch.AltSvc
open Text Transition

def Action.onOrigin (origin : AltSvcOrigin) : Action → Bool
  | .learn o .. | .clear o | .discover o _ => o = origin
  | .advance _ | .report .. => true

def Outcome.counts (outcome : Outcome) : Bool :=
  outcome == .success || outcome.suppressible.isSome

/-- No report is older than the record it meets, and no notification removes a record that
is not older than its advertisement. -/
def inOrder (s : System) : Action → Bool
  | .report i outcome _ _ =>
    match s.tasks[i]? with
    | some (.attempt origin generation) =>
      !outcome.counts || (s.suppressor.entries.lookup origin).all (·.generation ≤ generation)
    | _ => true
  | .advance i =>
    match s.tasks[i]? with
    | some (.removeStale origin generation _) =>
      (s.suppressor.entries.lookup origin).all (·.generation < generation)
    | _ => true
  | _ => true

def Reports (s : System) (action : Action) (origin : AltSvcOrigin) (generation : Nat) (outcome : Outcome)
    (now : Instant) : Prop :=
  ∃ i pick, action = .report i outcome now pick ∧ s.tasks[i]? = some (.attempt origin generation)

/-- The step removes a record for an advertisement of this generation. -/
def Notifies (s : System) (action : Action) (origin : AltSvcOrigin) (generation : Nat) : Prop :=
  ∃ i examined, action = .advance i ∧ s.tasks[i]? = some (.removeStale origin generation examined)

/-- What a step may do to the suppression of `origin`. -/
structure Lawful (origin : AltSvcOrigin) (s : System) (action : Action) (s' : System) : Prop where
  older : ∀ generation outcome now record, Reports s action origin generation outcome now →
    s.suppressor.entries.lookup origin = some record → generation < record.generation →
    s'.suppressor.entries.lookup origin = some record
  newer : ∀ generation outcome now failureClass, Reports s action origin generation outcome now →
    (∀ record, s.suppressor.entries.lookup origin = some record → record.generation < generation) →
    outcome.suppressible = some failureClass →
    s'.suppressor.entries.lookup origin = some ⟨generation, 1, now + suppressionBase, failureClass⟩
  released : ∀ record, s.suppressor.entries.lookup origin = some record →
    (∀ record', s'.suppressor.entries.lookup origin = some record' →
      record'.generation ≠ record.generation) →
    (∃ now, Reports s action origin record.generation .success now) ∨
    ∃ generation, record.generation < generation ∧ generation < s.cache.sequence ∧
      ((∃ outcome now, Reports s action origin generation outcome now) ∨
        Notifies s action origin generation)

/-- The task is about `origin`, and its generations have been issued. -/
def Task.Issued (origin : AltSvcOrigin) (sequence : Nat) : Task → Prop
  | .getFresh _ o _ | .removeExpired o _ => o = origin
  | .isSuppressed o entry _ => o = origin ∧ entry.generation < sequence
  | .attempt o generation | .noteNewAdvertisement o generation | .removeStale o generation _ =>
    o = origin ∧ generation < sequence
  | .done => True

structure Issued (origin : AltSvcOrigin) (s : System) : Prop where
  entries : ∀ entry, s.cache.entries.lookup origin = some entry → entry.generation < s.cache.sequence
  tasks : ∀ t ∈ s.tasks, t.Issued origin s.cache.sequence

variable {origin : AltSvcOrigin} {s s' : System} {action : Action}

private theorem Task.Issued.mono {t : Task} {m n : Nat} (h : t.Issued origin m) (hle : m ≤ n) :
    t.Issued origin n := by
  cases t with
  | getFresh | removeExpired => exact h
  | isSuppressed | attempt | noteNewAdvertisement | removeStale => exact ⟨h.1, Nat.lt_of_lt_of_le h.2 hle⟩
  | done => trivial

private theorem Follows.issued {shared : AltSvcState} {t t' : Task} (h : Follows shared t t')
    (hentries : ∀ entry, shared.cache.entries.lookup origin = some entry →
      entry.generation < shared.cache.sequence)
    (ht : t.Issued origin shared.cache.sequence) : t'.Issued origin shared.cache.sequence := by
  cases h with
  | missed | suppressed | current => trivial
  | expired => exact ht
  | found hlook | learned hlook =>
    obtain rfl : _ = origin := ht
    exact ⟨rfl, hentries _ hlook⟩
  | attempted | stale => exact ht

/-- A learn issues at most one generation, the next of the sequence. -/
private theorem Learned.issued {cache cache' : AltSvcCache} {expiry : Option Instant}
    (h : Learned cache origin expiry cache')
    (hentries : ∀ entry, cache.entries.lookup origin = some entry → entry.generation < cache.sequence) :
    cache.sequence ≤ cache'.sequence ∧
      ∀ entry, cache'.entries.lookup origin = some entry → entry.generation < cache'.sequence := by
  cases h with
  | same => exact ⟨Nat.le_refl _, hentries⟩
  | removed => exact ⟨Nat.le_refl _, fun entry h => hentries entry (Table.shrinks_erase _ _ _ _ h)⟩
  | refreshed hexisting _ _ hgeneration =>
    refine ⟨Nat.le_refl _, fun entry h => ?_⟩
    rw [AList.lookup_insert] at h
    obtain rfl := Option.some.inj h
    exact hgeneration ▸ hentries _ hexisting
  | replaced _ _ hgeneration =>
    refine ⟨Nat.le_succ _, fun entry h => ?_⟩
    rw [AList.lookup_insert] at h
    obtain rfl := Option.some.inj h
    exact hgeneration ▸ Nat.lt_succ_self _

private theorem Issued.step (h : Issued origin s) (hon : action.onOrigin origin = true)
    (hs : s.step action = some s') : Issued origin s' := by
  rcases System.step_cases hs with
    ⟨o, values, now, pick, tasks, rfl, hlearned, -, htasks, hnew⟩ |
    ⟨o, rfl, rfl⟩ | ⟨o, now, rfl, rfl⟩ | ⟨i, t, t', shared, rfl, ht, hadvance, rfl⟩ |
    ⟨i, outcome, now, pick, o, generation, rfl, ht, rfl⟩
  · obtain rfl : o = origin := by simpa [Action.onOrigin] using hon
    obtain ⟨hle, hentries⟩ := hlearned.issued h.entries
    refine ⟨hentries, fun t ht => ?_⟩
    rw [htasks] at ht
    rcases List.mem_append.mp ht with hold | hadded
    · exact (h.tasks t hold).mono hle
    · rw [hnew t hadded]
      exact rfl
  · exact ⟨fun entry hlook => h.entries entry (Table.shrinks_erase _ _ _ _ hlook), h.tasks⟩
  · obtain rfl : o = origin := by simpa [Action.onOrigin] using hon
    refine ⟨h.entries, fun t ht => ?_⟩
    rcases List.mem_append.mp ht with hold | hadded
    · exact h.tasks t hold
    · rw [List.mem_singleton.mp hadded]
      exact rfl
  · have hissued := h.tasks t (List.mem_of_getElem? ht)
    have hnext : Issued origin { shared with tasks := s.tasks } ∧ t'.Issued origin shared.cache.sequence := by
      rcases Task.advance_cases hadvance with
        ⟨rfl, hfollows⟩ | ⟨o, now, rfl, rfl, rfl⟩ | ⟨o, generation, examined, rfl, rfl, rfl⟩
      · exact ⟨h, hfollows.issued h.entries hissued⟩
      · exact ⟨⟨fun entry hlook => h.entries entry (Table.shrinks_erase _ _ _ _ hlook), h.tasks⟩, trivial⟩
      · exact ⟨⟨h.entries, h.tasks⟩, trivial⟩
    refine ⟨hnext.1.entries, fun u hu => ?_⟩
    rcases List.mem_or_eq_of_mem_set hu with hold | rfl
    · exact hnext.1.tasks u hold
    · exact hnext.2
  · refine ⟨h.entries, fun u hu => ?_⟩
    rcases List.mem_or_eq_of_mem_set hu with hold | rfl
    · exact h.tasks u hold
    · trivial

/-- A step that leaves the suppressor alone and reports nothing of weight is lawful. -/
private theorem Lawful.of_same (hsame : s'.suppressor = s.suppressor)
    (hreport : ∀ generation outcome now, Reports s action origin generation outcome now →
      outcome.suppressible = none) : Lawful origin s action s' := by
  refine ⟨fun _ _ _ record _ hlook _ => hsame ▸ hlook, fun _ _ _ _ hrep _ hsome => ?_,
    fun record hlook hgone => ?_⟩
  · rw [hreport _ _ _ hrep] at hsome
    cases hsome
  · exact absurd rfl (hgone record (hsame ▸ hlook))

private theorem not_reports {i : Nat} {generation : Nat} {outcome : Outcome} {now : Instant}
    (h : Reports s (.advance i) origin generation outcome now) : False := by
  obtain ⟨_, _, heq, -⟩ := h
  cases heq

/-- A removal for an advertisement is lawful exactly when the record is older. -/
private theorem removal_lawful_iff {i generation : Nat} {examined : SuppressionEntry}
    (ht : s.tasks[i]? = some (.removeStale origin generation examined))
    (hissued : generation < s.cache.sequence) (hgone : s'.suppressor.entries.lookup origin = none) :
    Lawful origin s (.advance i) s' ↔
      ∀ record, s.suppressor.entries.lookup origin = some record → record.generation < generation := by
  constructor
  · intro hlawful record hlook
    rcases hlawful.released record hlook (by simp [hgone]) with ⟨now, hrep⟩ | ⟨g, hlt, -, hrep | hnote⟩
    · exact (not_reports hrep).elim
    · obtain ⟨outcome, now, hrep⟩ := hrep
      exact (not_reports hrep).elim
    · obtain ⟨j, examined', heq, hj⟩ := hnote
      obtain rfl := Action.advance.inj heq
      obtain ⟨-, rfl, -⟩ := Task.removeStale.inj (Option.some.inj (ht.symm.trans hj))
      exact hlt
  · intro hall
    refine ⟨fun _ _ _ _ hrep => (not_reports hrep).elim, fun _ _ _ _ hrep => (not_reports hrep).elim,
      fun record hlook _ => .inr ⟨generation, hall record hlook, hissued, .inr ⟨i, examined, rfl, ht⟩⟩⟩

private theorem Reports.unique {i pick generation generation' : Nat} {outcome outcome' : Outcome}
    {now now' : Instant} (ht : s.tasks[i]? = some (.attempt origin generation))
    (h : Reports s (.report i outcome now pick) origin generation' outcome' now') :
    generation' = generation ∧ outcome' = outcome ∧ now' = now := by
  obtain ⟨j, pick', heq, hj⟩ := h
  obtain ⟨rfl, rfl, rfl, rfl⟩ := Action.report.inj heq
  obtain ⟨-, rfl⟩ := Task.attempt.inj (Option.some.inj (ht.symm.trans hj))
  exact ⟨rfl, rfl, rfl⟩

/-- The success of an attempt is lawful exactly when no newer generation is recorded. -/
private theorem success_lawful_iff {i pick generation : Nat} {now : Instant}
    (ht : s.tasks[i]? = some (.attempt origin generation))
    (hissued : generation < s.cache.sequence) (hgone : s'.suppressor.entries.lookup origin = none) :
    Lawful origin s (.report i .success now pick) s' ↔
      ∀ record, s.suppressor.entries.lookup origin = some record → record.generation ≤ generation := by
  have hself : Reports s (.report i .success now pick) origin generation .success now :=
    ⟨i, pick, rfl, ht⟩
  constructor
  · intro hlawful record hlook
    by_contra hnewer
    have hkept := hlawful.older generation .success now record hself hlook (Nat.lt_of_not_le hnewer)
    exact absurd (hgone.symm.trans hkept) (by intro h; cases h)
  · intro hall
    refine ⟨fun g _ _ record hrep hlook hlt => ?_, fun _ _ _ _ hrep _ hsome => ?_, fun record hlook _ => ?_⟩
    · obtain ⟨rfl, -⟩ := hrep.unique ht
      exact absurd (hall record hlook) (Nat.not_le_of_lt hlt)
    · obtain ⟨-, rfl, -⟩ := hrep.unique ht
      cases hsome
    · rcases Nat.eq_or_lt_of_le (hall record hlook) with heq | hlt
      · exact .inl ⟨now, heq ▸ hself⟩
      · exact .inr ⟨generation, hlt, hissued, .inl ⟨.success, now, hself⟩⟩

/-- What a recorded failure leaves: a record of its own generation, a first one unless the
generation was recorded before. -/
private theorem recordFailure_lookup (suppressor : BrokenRouteSuppressor) (origin : AltSvcOrigin) (generation : Nat)
    (now : Instant)
    (reason : H3FailureClass) (pick : Nat) :
    ∃ record', (suppressor.recordFailure origin generation now reason pick).entries.lookup origin =
        some record' ∧ record'.generation = generation ∧
      ((∀ record, suppressor.entries.lookup origin = some record → record.generation ≠ generation) →
        record' = ⟨generation, 1, now + suppressionBase, reason⟩) := by
  have hbase : min suppressionBase suppressionMax = suppressionBase := by decide
  simp only [BrokenRouteSuppressor.recordFailure, hbase]
  cases hlook : suppressor.entries.lookup origin with
  | none => exact ⟨_, AList.lookup_insert _, rfl, fun _ => rfl⟩
  | some entry =>
    by_cases hsame : entry.generation = generation
    · simp only [hsame, ne_eq, not_true_eq_false, if_false]
      exact ⟨_, AList.lookup_insert _, rfl, fun hne => absurd hsame (hne entry rfl)⟩
    · simp only [hsame, ne_eq, not_false_eq_true, if_true]
      exact ⟨_, AList.lookup_insert _, rfl, fun _ => rfl⟩

/-- The failure of an attempt is lawful exactly when no newer generation is recorded. -/
private theorem failure_lawful_iff {i pick generation : Nat} {outcome : Outcome} {now : Instant}
    {reason : H3FailureClass} (ht : s.tasks[i]? = some (.attempt origin generation))
    (hissued : generation < s.cache.sequence) (hreason : outcome.suppressible = some reason)
    (hs' : s'.suppressor = s.suppressor.recordFailure origin generation now reason pick) :
    Lawful origin s (.report i outcome now pick) s' ↔
      ∀ record, s.suppressor.entries.lookup origin = some record → record.generation ≤ generation := by
  have hself : Reports s (.report i outcome now pick) origin generation outcome now := ⟨i, pick, rfl, ht⟩
  obtain ⟨record', hlook', hgeneration, hfirst⟩ := recordFailure_lookup s.suppressor origin
    generation now reason pick
  rw [← hs'] at hlook'
  constructor
  · intro hlawful record hlook
    by_contra hnewer
    have hkept := hlawful.older generation outcome now record hself hlook (Nat.lt_of_not_le hnewer)
    obtain rfl := Option.some.inj (hlook'.symm.trans hkept)
    exact hnewer (Nat.le_of_eq hgeneration)
  · intro hall
    refine ⟨fun g _ _ record hrep hlook hlt => ?_, fun _ _ _ failureClass hrep hnew hsome => ?_,
      fun record hlook hgone => ?_⟩
    · obtain ⟨rfl, -⟩ := hrep.unique ht
      exact absurd (hall record hlook) (Nat.not_le_of_lt hlt)
    · obtain ⟨rfl, rfl, rfl⟩ := hrep.unique ht
      obtain rfl := Option.some.inj (hreason.symm.trans hsome)
      rw [hlook', hfirst fun record hlook => Nat.ne_of_lt (hnew record hlook)]
    · have hne : generation ≠ record.generation := hgeneration ▸ hgone record' hlook'
      have hlt : record.generation < generation := Nat.lt_of_le_of_ne (hall record hlook) hne.symm
      exact .inr ⟨generation, hlt, hissued, .inl ⟨outcome, now, hself⟩⟩

private theorem all_iff {p : SuppressionEntry → Prop} [DecidablePred p] (o : Option SuppressionEntry) :
    o.all (fun r => decide (p r)) = true ↔ ∀ r, o = some r → p r := by
  cases o <;> simp

private theorem Issued.lawful_iff (h : Issued origin s) (hs : s.step action = some s') :
    Lawful origin s action s' ↔ inOrder s action = true := by
  rcases System.step_cases hs with
    ⟨o, values, now, pick, tasks, rfl, -, hsame, -, -⟩ | ⟨o, rfl, rfl⟩ | ⟨o, now, rfl, rfl⟩ |
    ⟨i, t, t', shared, rfl, ht, hadvance, rfl⟩ | ⟨i, outcome, now, pick, o, generation, rfl, ht, rfl⟩
  · exact iff_of_true (.of_same hsame fun _ _ _ ⟨_, _, heq, _⟩ => by cases heq) rfl
  · exact iff_of_true (.of_same rfl fun _ _ _ ⟨_, _, heq, _⟩ => by cases heq) rfl
  · exact iff_of_true (.of_same rfl fun _ _ _ ⟨_, _, heq, _⟩ => by cases heq) rfl
  · have hissued := h.tasks t (List.mem_of_getElem? ht)
    have hnone : ∀ generation outcome now, Reports s (.advance i) origin generation outcome now →
        outcome.suppressible = none := fun _ _ _ hrep => (not_reports hrep).elim
    rcases Task.advance_cases hadvance with
      ⟨rfl, hfollows⟩ | ⟨o, now, rfl, rfl, -⟩ | ⟨o, generation, examined, rfl, rfl, -⟩
    · refine iff_of_true (.of_same rfl hnone) ?_
      cases hfollows <;> simp only [inOrder, ht]
    · exact iff_of_true (.of_same rfl hnone) (by simp only [inOrder, ht])
    · obtain ⟨rfl, hlt⟩ := hissued
      simp only [inOrder, ht, all_iff]
      exact removal_lawful_iff ht hlt (AList.lookup_erase _ _)
  · obtain ⟨rfl, hlt⟩ := h.tasks _ (List.mem_of_getElem? ht)
    cases outcome with
    | success =>
      simp only [inOrder, ht, Outcome.counts, beq_self_eq_true, Bool.true_or, Bool.not_true,
        Bool.false_or, all_iff]
      exact success_lawful_iff ht hlt (AList.lookup_erase _ _)
    | failure failureClass draining =>
      cases hreason : (Outcome.failure failureClass draining).suppressible with
      | none =>
        have hquiet : Outcome.counts (.failure failureClass draining) = false := by
          simp [Outcome.counts, hreason]
        refine iff_of_true (.of_same (by simp [Outcome.report, hreason]) fun _ _ _ hrep => ?_)
          (by simp [inOrder, ht, hquiet])
        obtain ⟨-, rfl, -⟩ := hrep.unique ht
        exact hreason
      | some reason =>
        have hcounts : Outcome.counts (.failure failureClass draining) = true := by
          simp [Outcome.counts, hreason]
        simp only [inOrder, ht, hcounts, Bool.not_true, Bool.false_or, all_iff]
        exact failure_lawful_iff ht hlt hreason (by simp [Outcome.report, hreason])

/-- Every step of a run on one origin is lawful exactly when every step is in order. -/
theorem lawful_run_iff (origin : AltSvcOrigin) (actions : List Action)
    (hon : ∀ action ∈ actions, action.onOrigin origin = true) :
    Along System.step (Lawful origin) init actions ↔
      Along System.step (fun s action _ => inOrder s action = true) init actions :=
  along_congr (Issued origin) ⟨(by intro _ h; cases h), (by intro _ h; cases h)⟩ hon (fun hi ha hs => hi.step ha hs)
    fun hi _ hs => hi.lawful_iff hs

private def home : AltSvcOrigin := ⟨utf8 "https", utf8 "b", 443⟩

/-- An attempt of the first advertisement is in flight, on task 1. -/
private def firstAttempt : List Action :=
  [.learn home [utf8 "h3=\":443\""] 0 0, .discover home 0, .advance 1, .advance 1]

/-- A second advertisement, noted by task 2, and an attempt of it on task 3. -/
private def secondAttempt : List Action :=
  [.learn home [utf8 "h3=\":8443\""] 1 0, .advance 2, .advance 2, .discover home 1, .advance 3, .advance 3]

/-- The first advertisement fails, the second one's notification lifts its suppression, and
the second attempt fails in turn. -/
theorem lawful_run_iff_inTurn :
    Along System.step (Lawful home) init
      (firstAttempt ++ [.report 1 (.failure .connectivity false) 0 0] ++ secondAttempt ++
        [.advance 2, .report 3 (.failure .protocol false) 2 0]) := by
  refine (lawful_run_iff home _ (by decide)).mpr (along_runWhile ?_)
  decide

private theorem lateSuccess_end :
    (run System.step init
      (firstAttempt ++ secondAttempt ++ [.report 3 (.failure .connectivity false) 2 0])).bind (fun s =>
        (s.suppressor.entries.lookup home).bind fun record =>
          (s.step (.report 1 .success 3 0)).bind fun s' =>
            some (record.generation, s.tasks[1]?, s'.suppressor.entries.lookup home)) =
      some (2, some (.attempt home 1), none) := by
  decide

/-- A late success of the first generation lifts the suppression of the second. -/
theorem older_success_unsuppresses :
    ¬ ∀ (origin : AltSvcOrigin) (actions : List Action),
      (∀ action ∈ actions, action.onOrigin origin = true) → (run System.step init actions).isSome →
      Along System.step (Lawful origin) init actions := by
  intro hall
  obtain ⟨s, hs, hend⟩ := Option.bind_eq_some_iff.mp lateSuccess_end
  obtain ⟨record, hlook, hend⟩ := Option.bind_eq_some_iff.mp hend
  obtain ⟨s', hs', hend⟩ := Option.bind_eq_some_iff.mp hend
  obtain ⟨hgeneration, htask, hgone⟩ := by simpa only [Option.some.injEq, Prod.mk.injEq] using hend
  have halong := hall home
    (firstAttempt ++ secondAttempt ++ [.report 3 (.failure .connectivity false) 2 0] ++ [.report 1 .success 3 0])
    (by decide) (by rw [run_append, hs, Option.bind_some, run_cons, hs']; rfl)
  obtain ⟨t, ht, hlawful, -⟩ := halong.of_append hs
  obtain rfl := Option.some.inj (hs'.symm.trans ht)
  have hkept := hlawful.older 1 .success 3 record ⟨1, 0, rfl, htask⟩ hlook (by omega)
  exact absurd (hgone.symm.trans hkept) (by intro h; cases h)

end Eggfetch.AltSvc
