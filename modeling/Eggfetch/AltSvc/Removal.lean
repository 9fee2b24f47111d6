import Eggfetch.AltSvc.Sections
import Eggfetch.Transition.Runs

/-! Removals after a read in an earlier section. `get_fresh` and `note_new_advertisement`
decide under the read lock and remove under the write lock, without another look; both
are safe as long as nothing is written in between that the decision does not cover. -/
namespace Eggfetch.AltSvc
open Text Transition

/-- What a call removes is what it decided to remove: an entry expired at its own `now`,
or the record it examined. -/
structure SafeRemovals (s : System) : Prop where
  entries : ∀ i s', s.step (.advance i) = some s' → ∀ origin entry,
    s.cache.entries.lookup origin = some entry → s'.cache.entries.lookup origin = none →
    ∃ now, s.tasks[i]? = some (.removeExpired origin now) ∧ entry.isExpired now = true
  records : ∀ i s', s.step (.advance i) = some s' → ∀ origin record,
    s.suppressor.entries.lookup origin = some record → s'.suppressor.entries.lookup origin = none →
    ∃ generation, s.tasks[i]? = some (.removeStale origin generation record)

/-- No learn brings an entry that outlives the `now` of a pending removal, and no failure is
recorded for an origin with a pending removal of its record. -/
def undisturbed (s : System) : Action → Bool
  | .learn origin values now _ =>
    s.tasks.all fun
      | .removeExpired pending pendingNow =>
        pending ≠ origin || (learnedExpiry origin values now).all (· ≤ pendingNow)
      | _ => true
  | .report i outcome _ _ =>
    match s.tasks[i]? with
    | some (.attempt origin _) =>
      outcome.suppressible.isNone || s.tasks.all fun
        | .removeStale pending _ _ => pending ≠ origin
        | _ => true
    | _ => true
  | _ => true

def Task.Justified (s : AltSvcState) : Task → Prop
  | .removeExpired origin now =>
    ∀ entry, s.cache.entries.lookup origin = some entry → entry.isExpired now = true
  | .removeStale origin _ examined =>
    ∀ record, s.suppressor.entries.lookup origin = some record → record = examined
  | _ => True

def Justified (s : System) : Prop := ∀ t ∈ s.tasks, t.Justified s.toAltSvcState

private theorem Task.Justified.shrink {s s' : AltSvcState} {t : Task} (h : t.Justified s)
    (hcache : s.cache.entries.Shrinks s'.cache.entries)
    (hsuppressor : s.suppressor.entries.Shrinks s'.suppressor.entries) : t.Justified s' := by
  cases t with
  | removeExpired origin now => exact fun entry hlook => h entry (hcache origin entry hlook)
  | removeStale origin generation examined =>
    exact fun record hlook => h record (hsuppressor origin record hlook)
  | _ => trivial

private theorem Follows.justified {s : AltSvcState} {t t' : Task} (h : Follows s t t') : t'.Justified s := by
  cases h with
  | @expired _ _ now entry hlook hexpired =>
    intro other hother
    obtain rfl := Option.some.inj (hlook.symm.trans hother)
    exact hexpired
  | @stale _ _ examined hlook =>
    intro record hrecord
    exact Option.some.inj (hrecord.symm.trans hlook)
  | _ => trivial

/-- The bindings after a learn: an old one, or one that expires no later than both the
advertisement and the entry before. -/
theorem Learned.lookup {cache cache' : AltSvcCache} {origin other : AltSvcOrigin}
    {expiry : Option Instant} (h : Learned cache origin expiry cache') {entry : AltSvcEntry}
    (hlook : cache'.entries.lookup other = some entry) :
    cache.entries.lookup other = some entry ∨
      (other = origin ∧ ∃ x, expiry = some x ∧ (entry.expiresAt = x ∨
        ∃ existing, cache.entries.lookup origin = some existing ∧
          entry.expiresAt = max x existing.expiresAt)) := by
  cases h with
  | same => exact .inl hlook
  | removed => exact .inl (Table.shrinks_erase _ _ other entry hlook)
  | refreshed hexisting hx hmax _ =>
    rcases Table.lookup_insert_cases hlook with ⟨rfl, rfl⟩ | ⟨-, hold⟩
    · exact .inr ⟨rfl, _, hx, .inr ⟨_, hexisting, hmax⟩⟩
    · exact .inl hold
  | replaced hshrink hx _ =>
    rcases Table.lookup_insert_cases hlook with ⟨rfl, rfl⟩ | ⟨-, hold⟩
    · exact .inr ⟨rfl, _, hx, .inl rfl⟩
    · exact .inl (hshrink other entry hold)

private theorem Outcome.report_lookup {outcome : Outcome} {suppressor : BrokenRouteSuppressor}
    {origin other : AltSvcOrigin} {generation pick : Nat} {now : Instant} {record : SuppressionEntry}
    (hother : other ≠ origin ∨ outcome.suppressible = none)
    (h : (outcome.report suppressor origin generation now pick).entries.lookup other = some record) :
    suppressor.entries.lookup other = some record := by
  cases outcome with
  | success => exact Table.shrinks_erase _ _ other record h
  | failure failureClass draining =>
    simp only [Outcome.report] at h
    split at h
    · rename_i reason hreason
      have hne : other ≠ origin := hother.resolve_right (by simp [hreason])
      simp only [BrokenRouteSuppressor.recordFailure] at h
      split at h
      · split at h
        · rwa [AList.lookup_insert_ne hne] at h
        · rwa [AList.lookup_insert_ne hne] at h
      · rw [AList.lookup_insert_ne hne] at h
        exact Table.shrinks_ensureBound _ _ _ _ other record h
    · exact h

private theorem Justified.step {s s' : System} {action : Action} (h : Justified s)
    (hok : undisturbed s action = true) (hs : s.step action = some s') : Justified s' := by
  rcases System.step_cases hs with
    ⟨origin, values, now, pick, tasks, rfl, hlearned, hsuppressor, htasks, hnew⟩ |
    ⟨origin, rfl, rfl⟩ | ⟨origin, now, rfl, rfl⟩ |
    ⟨i, t, t', shared, rfl, ht, hadvance, rfl⟩ |
    ⟨i, outcome, now, pick, origin, generation, rfl, ht, rfl⟩
  · intro t ht
    rw [htasks] at ht
    rcases List.mem_append.mp ht with hold | hadded
    · have hcover := List.all_eq_true.mp hok t hold
      have hjust := h t hold
      cases t with
      | removeExpired pending pendingNow =>
        intro entry hlook
        rcases hlearned.lookup hlook with hkept | ⟨rfl, x, hx, hexpiry⟩
        · exact hjust entry hkept
        · -- the advertised expiry is covered by the condition, the old entry by the decision
          have hle : x ≤ pendingNow := by simpa [hx] using hcover
          rcases hexpiry with heq | ⟨existing, hexisting, hmax⟩
          · exact decide_eq_true (heq ▸ hle)
          · have hold : existing.expiresAt ≤ pendingNow := by
              simpa [AltSvcEntry.isExpired] using hjust existing hexisting
            exact decide_eq_true (hmax ▸ Nat.max_le.mpr ⟨hle, hold⟩)
      | removeStale pending generation examined =>
        intro record hlook
        rw [hsuppressor] at hlook
        exact hjust record hlook
      | _ => trivial
    · rw [hnew t hadded]
      trivial
  · exact fun t ht => (h t ht).shrink (Table.shrinks_erase _ _) (.refl _)
  · intro t ht
    rcases List.mem_append.mp ht with hold | hadded
    · exact h t hold
    · rw [List.mem_singleton.mp hadded]
      trivial
  · have hshrink : s.cache.entries.Shrinks shared.cache.entries ∧
        s.suppressor.entries.Shrinks shared.suppressor.entries ∧ t'.Justified shared := by
      rcases Task.advance_cases hadvance with
        ⟨rfl, hfollows⟩ | ⟨origin, now, rfl, rfl, rfl⟩ | ⟨origin, generation, examined, rfl, rfl, rfl⟩
      · exact ⟨.refl _, .refl _, hfollows.justified⟩
      · exact ⟨Table.shrinks_erase _ _, .refl _, trivial⟩
      · exact ⟨.refl _, Table.shrinks_erase _ _, trivial⟩
    intro u hu
    rcases List.mem_or_eq_of_mem_set hu with hold | rfl
    · exact (h u hold).shrink hshrink.1 hshrink.2.1
    · exact hshrink.2.2
  · intro u hu
    rcases List.mem_or_eq_of_mem_set hu with hold | rfl
    · have hjust := h u hold
      cases u with
      | removeStale pending generation' examined =>
        intro record hlook
        refine hjust record (Outcome.report_lookup ?_ hlook)
        simp only [undisturbed, ht, Bool.or_eq_true, List.all_eq_true] at hok
        rcases hok with hnone | hall
        · exact .inr (Option.isNone_iff_eq_none.mp hnone)
        · exact .inl (by simpa using hall _ hold)
      | removeExpired => exact hjust
      | _ => trivial
    · trivial

private theorem Justified.safeRemovals {s : System} (h : Justified s) : SafeRemovals s := by
  have hremoval : ∀ i s', s.step (.advance i) = some s' →
      (s'.cache = s.cache ∨ ∃ origin now, s.tasks[i]? = some (.removeExpired origin now) ∧
        s'.cache = s.cache.remove origin) ∧
      (s'.suppressor = s.suppressor ∨ ∃ origin generation examined,
        s.tasks[i]? = some (.removeStale origin generation examined) ∧
        s'.suppressor = s.suppressor.remove origin) := by
    intro i s' hs
    obtain ⟨t, ht, hmap⟩ := Option.bind_eq_some_iff.mp hs
    obtain ⟨⟨shared, t'⟩, hadvance, rfl⟩ := Option.map_eq_some_iff.mp hmap
    rcases Task.advance_cases hadvance with
      ⟨rfl, -⟩ | ⟨origin, now, rfl, rfl, -⟩ | ⟨origin, generation, examined, rfl, rfl, -⟩
    · exact ⟨.inl rfl, .inl rfl⟩
    · exact ⟨.inr ⟨origin, now, ht, rfl⟩, .inl rfl⟩
    · exact ⟨.inl rfl, .inr ⟨origin, generation, examined, ht, rfl⟩⟩
  constructor
  · intro i s' hs origin entry hlook hgone
    rcases (hremoval i s' hs).1 with hsame | ⟨removed, now, ht, hcache⟩
    · rw [hsame, hlook] at hgone
      cases hgone
    · rw [hcache] at hgone
      by_cases heq : origin = removed
      · subst heq
        exact ⟨now, ht, h _ (List.mem_of_getElem? ht) entry hlook⟩
      · have hkept := (AList.lookup_erase_ne (s := s.cache.entries) heq).trans hlook
        exact absurd (hgone.symm.trans hkept) (by intro h; cases h)
  · intro i s' hs origin record hlook hgone
    rcases (hremoval i s' hs).2 with hsame | ⟨removed, generation, examined, ht, hsuppressor⟩
    · rw [hsame, hlook] at hgone
      cases hgone
    · rw [hsuppressor] at hgone
      by_cases heq : origin = removed
      · subst heq
        obtain rfl := h _ (List.mem_of_getElem? ht) record hlook
        exact ⟨generation, ht⟩
      · have hkept := (AList.lookup_erase_ne (s := s.suppressor.entries) heq).trans hlook
        exact absurd (hgone.symm.trans hkept) (by intro h; cases h)

/-- Removals are safe in every state of every undisturbed run. -/
theorem undisturbed_safeRemovals (s : System)
    (h : Reaches System.step (fun s action => undisturbed s action = true) init s) :
    SafeRemovals s := by
  have hjustified : Justified s := h.invariant (by intro _ h; cases h) fun _ hi hok hs => hi.step hok hs
  exact hjustified.safeRemovals

private def site : AltSvcOrigin := ⟨utf8 "https", utf8 "a", 443⟩

/-- An entry that lives one second, looked up two seconds later. -/
private def expiredLookup : List Action :=
  [.learn site [utf8 "h3=\":443\"; ma=1"] 0 0, .discover site (secs 2), .advance 1]

/-- Whether `site` has an entry before and after the next section of task `i`. -/
private def entryAround (i : Nat) (s : System) : Option (Bool × Bool) :=
  (s.step (.advance i)).map fun s' =>
    ((s.cache.entries.lookup site).isSome, (s'.cache.entries.lookup site).isSome)

/-- An expired entry is removed by the call that saw it expired. -/
theorem undisturbed_safeRemovals_expired :
    ∃ s, runWhile System.step undisturbed init expiredLookup = some s ∧
      entryAround 1 s = some (true, false) ∧ SafeRemovals s := by
  have hrun : (runWhile System.step undisturbed init expiredLookup).bind (entryAround 1) =
      some (true, false) := by decide
  obtain ⟨s, hs, haround⟩ := Option.bind_eq_some_iff.mp hrun
  exact ⟨s, hs, haround, undisturbed_safeRemovals s (Reaches.runWhile .start (fun _ _ h => h) hs)⟩

/-- The advertisement is refreshed for a day between the lookup and its removal. -/
private def refreshedLookup : List Action :=
  expiredLookup ++ ([.learn site [utf8 "h3=\":443\""] (secs 2) 0] : List Action)

/-- An attempt of the first advertisement fails; the second one's notification reads that
record, and before it removes anything an attempt of the second one fails as well. -/
private def refailedRoute : List Action :=
  [.learn site [utf8 "h3=\":443\""] 0 0, .discover site 0, .advance 1, .advance 1,
    .report 1 (.failure .connectivity false) 0 0,
    .learn site [utf8 "h3=\":8443\""] 1 0, .advance 2, .discover site 1, .advance 3, .advance 3,
    .advance 2, .report 3 (.failure .connectivity false) 1 0]

private theorem refreshedLookup_end :
    (run System.step init refreshedLookup).bind (fun s =>
      (s.cache.entries.lookup site).bind fun entry =>
        (s.step (.advance 1)).bind fun s' =>
          some (entry.isExpired (secs 2), s'.cache.entries.lookup site, s.tasks[1]?)) =
      some (false, none, some (.removeExpired site (secs 2))) := by
  decide

private theorem refailedRoute_end :
    (run System.step init refailedRoute).bind (fun s =>
      (s.suppressor.entries.lookup site).bind fun record =>
        (s.step (.advance 2)).bind fun s' =>
          some (record.generation, s'.suppressor.entries.lookup site, (s.tasks[2]?).map fun
            | .removeStale _ _ examined => examined.generation
            | _ => 0)) =
      some (2, none, some 1) := by
  decide

/-- A fresh entry is removed by an old lookup, and a new failure record by a notification
that examined the one before. -/
theorem fresh_entry_lost :
    (¬ ∀ s, Reachable System.step init s → SafeRemovals s) ∧
    ¬ ∀ s, Reachable System.step init s → ∀ i s' origin record, s.step (.advance i) = some s' →
      s.suppressor.entries.lookup origin = some record → s'.suppressor.entries.lookup origin = none →
      ∃ generation, s.tasks[i]? = some (.removeStale origin generation record) := by
  constructor
  · intro hall
    obtain ⟨s, hs, hend⟩ := Option.bind_eq_some_iff.mp refreshedLookup_end
    obtain ⟨entry, hlook, hend⟩ := Option.bind_eq_some_iff.mp hend
    obtain ⟨s', hs', hend⟩ := Option.bind_eq_some_iff.mp hend
    obtain ⟨hfresh, hgone, htask⟩ := by simpa only [Option.some.injEq, Prod.mk.injEq] using hend
    obtain ⟨now, ht, hexpired⟩ := (hall s (Reaches.run .start hs)).entries 1 s' hs' site entry hlook hgone
    obtain ⟨-, rfl⟩ := by simpa using htask.symm.trans ht
    rw [hfresh] at hexpired
    cases hexpired
  · intro hall
    obtain ⟨s, hs, hend⟩ := Option.bind_eq_some_iff.mp refailedRoute_end
    obtain ⟨record, hlook, hend⟩ := Option.bind_eq_some_iff.mp hend
    obtain ⟨s', hs', hend⟩ := Option.bind_eq_some_iff.mp hend
    obtain ⟨hnew, hgone, htask⟩ := by simpa only [Option.some.injEq, Prod.mk.injEq] using hend
    obtain ⟨generation, ht⟩ := hall s (Reaches.run .start hs) 2 s' site record hs' hlook hgone
    rw [ht] at htask
    have hold : record.generation = 1 := by simpa using htask
    omega

end Eggfetch.AltSvc
