import Eggfetch.AltSvc.Sections

/-! Histories of whole calls on the cache and the suppressor: their bounds, the generations
they hand out, and what a learn does to other origins. A learn makes room before it knows
whether its origin needs any, so that the replacement of an entry in a full table costs
another origin its entry. -/
namespace Eggfetch.AltSvc
open Text

/-- `get_fresh`, both sections. -/
def AltSvcCache.getFresh (cache : AltSvcCache) (origin : AltSvcOrigin) (now : Instant) :
    Option AltSvcEntry × AltSvcCache :=
  match cache.entries.lookup origin with
  | none => (none, cache)
  | some entry => if entry.isExpired now then (none, cache.remove origin) else (some entry, cache)

/-- `note_new_advertisement`, both sections. -/
def BrokenRouteSuppressor.noteNewAdvertisement (s : BrokenRouteSuppressor) (origin : AltSvcOrigin)
    (generation : Nat) : BrokenRouteSuppressor :=
  match s.staleRecord origin generation with
  | some _ => s.remove origin
  | none => s

inductive Operation where
  | learn (origin : AltSvcOrigin) (values : List Str) (now : Instant) (pick : Nat)
  | getFresh (origin : AltSvcOrigin) (now : Instant)
  | clear (origin : AltSvcOrigin)
  | recordFailure (origin : AltSvcOrigin) (generation : Nat) (now : Instant) (reason : H3FailureClass)
      (pick : Nat)
  | recordSuccess (origin : AltSvcOrigin)
  | noteNewAdvertisement (origin : AltSvcOrigin) (generation : Nat)
  deriving DecidableEq, Repr

def AltSvcState.apply (s : AltSvcState) : Operation → AltSvcState
  | .learn origin values now pick => { s with cache := (s.cache.learnCounted origin values now pick).2 }
  | .getFresh origin now => { s with cache := (s.cache.getFresh origin now).2 }
  | .clear origin => { s with cache := (s.cache.clear origin).2 }
  | .recordFailure origin generation now reason pick =>
    { s with suppressor := s.suppressor.recordFailure origin generation now reason pick }
  | .recordSuccess origin => { s with suppressor := s.suppressor.recordSuccess origin }
  | .noteNewAdvertisement origin generation =>
    { s with suppressor := s.suppressor.noteNewAdvertisement origin generation }

def after (history : List Operation) : AltSvcState := history.foldl AltSvcState.apply .new

/-- Header values as a learn takes them. -/
inductive Advertisement where
  /-- No values, or too long. -/
  | ignored
  /-- `clear`, or no usable `h3` alternative. -/
  | withdrawn
  | route (host : Str) (port : Nat) (expiresAt : Instant)
  deriving DecidableEq, Repr

def advertisement (origin : AltSvcOrigin) (values : List Str) (now : Instant) : Advertisement :=
  let combined := (utf8 ", ").intercalate values
  if values.isEmpty ∨ altSvcMaxHeaderBytes < combined.length then .ignored
  else if isClearValue (trim combined) then .withdrawn
  else
    match best origin combined now with
    | none => .withdrawn
    | some (host, port, expiresAt) => .route host port expiresAt

def AltSvcEntry.SameEndpoint (e e' : AltSvcEntry) : Prop := e.altHost = e'.altHost ∧ e.altPort = e'.altPort

def AltSvcCache.advertised (cache : AltSvcCache) (origin : AltSvcOrigin) (pick : Nat) :
    Advertisement → AltSvcCache
  | .ignored => cache
  | .withdrawn => cache.remove origin
  | .route host port expiresAt => cache.store origin host port expiresAt pick

/-- What the next call after a history keeps to. -/
structure Sound (history : List Operation) (operation : Operation) : Prop where
  cacheBound : ((after history).apply operation).cache.entries.keys.length ≤ altSvcCacheMaxEntries
  suppressorBound :
    ((after history).apply operation).suppressor.entries.keys.length ≤ suppressionMaxEntries
  /-- A generation stays with its origin and endpoint; a new one is larger than all before. -/
  issued : ∀ origin entry, ((after history).apply operation).cache.entries.lookup origin = some entry →
    (∃ old, (after history).cache.entries.lookup origin = some old ∧ old.SameEndpoint entry ∧
      old.generation = entry.generation) ∨
    ∀ earlier, earlier <+: history → ∀ other old, (after earlier).cache.entries.lookup other = some old →
      old.generation < entry.generation
  repeated : ∀ origin values now pick entry expiresAt, operation = .learn origin values now pick →
    (after history).cache.entries.lookup origin = some entry →
    advertisement origin values now = .route entry.altHost entry.altPort expiresAt →
    ((after history).apply operation).cache.entries.lookup origin =
      some { entry with expiresAt := max expiresAt entry.expiresAt }
  withdrawn : ∀ origin, ((∃ values now pick, operation = .learn origin values now pick ∧
      advertisement origin values now = .withdrawn) ∨ operation = .clear origin) →
    ∀ now, (((after history).apply operation).cache.getFresh origin now).1 = none
  separate : ∀ origin values now pick, operation = .learn origin values now pick →
    ((after history).cache.entries.lookup origin).isSome →
    ∀ other, other ≠ origin → ((after history).apply operation).cache.entries.lookup other =
      (after history).cache.entries.lookup other

/-- A full cache learns another endpoint for an origin that it has. -/
def AltSvcState.crowded (s : AltSvcState) : Operation → Bool
  | .learn origin values now _ =>
    match s.cache.entries.lookup origin, advertisement origin values now with
    | some entry, .route host port _ =>
      altSvcCacheMaxEntries ≤ s.cache.entries.keys.length ∧ ¬ (entry.altHost = host ∧ entry.altPort = port)
    | _, _ => false
  | _ => false

section table
variable {V : Type} {table : Table V} {origin other : AltSvcOrigin} {max pick : Nat} {v : V}

theorem Table.length_erase_le (table : Table V) (origin : AltSvcOrigin) :
    (table.erase origin).keys.length ≤ table.keys.length := by
  rw [AList.keys_erase]
  exact List.length_erase_le

theorem Table.length_insert_le (table : Table V) (origin : AltSvcOrigin) (v : V) :
    (table.insert origin v).keys.length ≤ table.keys.length + 1 := by
  rw [AList.keys_insert, List.length_cons]
  have := @List.length_erase_le _ _ origin table.keys
  omega

theorem Table.length_insert_of_mem (hmem : origin ∈ table) :
    (table.insert origin v).keys.length = table.keys.length := by
  have hkey : origin ∈ table.keys := AList.mem_keys.mp hmem
  rw [AList.keys_insert, List.length_cons, List.length_erase_of_mem hkey]
  have := List.length_pos_of_mem hkey
  omega

/-- The victim of a full table. -/
theorem Table.ensureBound_full (hfull : max ≤ table.keys.length)
    (hothers : table.keys.filter (· ≠ origin) ≠ []) :
    ∃ victim ∈ table.keys, victim ≠ origin ∧ table.ensureBound max origin pick = table.erase victim := by
  have hpos := List.length_pos_of_ne_nil hothers
  have hlt := Nat.mod_lt pick hpos
  have hget := List.getElem?_eq_getElem hlt
  have hvictim := List.mem_filter.mp (List.getElem_mem hlt)
  refine ⟨_, hvictim.1, by simpa using hvictim.2, ?_⟩
  simp only [Table.ensureBound, Nat.not_lt.mpr hfull, if_false, hget]

/-- Room for one more, or for the same again. -/
theorem Table.ensureBound_insert_le (hmax : 1 ≤ max) (hbound : table.keys.length ≤ max)
    (origin : AltSvcOrigin) (pick : Nat) (v : V) :
    ((table.ensureBound max origin pick).insert origin v).keys.length ≤ max := by
  by_cases hroom : table.keys.length < max
  · rw [Table.ensureBound, if_pos hroom]
    have := Table.length_insert_le table origin v
    omega
  · by_cases hothers : table.keys.filter (· ≠ origin) = []
    · have honly : ∀ key ∈ table.keys, key = origin := by
        intro key hkey
        simpa using List.filter_eq_nil_iff.mp hothers key hkey
      have hkeys : table.keys ≠ [] := List.ne_nil_of_length_pos (by omega)
      obtain ⟨key, hkey⟩ := List.exists_mem_of_ne_nil _ hkeys
      obtain rfl := honly key hkey
      have hsame : table.ensureBound max key pick = table := by
        simp only [Table.ensureBound, hroom, if_false, hothers, List.getElem?_nil]
      rw [hsame, Table.length_insert_of_mem (AList.mem_keys.mpr hkey)]
      exact hbound
    · obtain ⟨victim, hvictim, -, heq⟩ := @Table.ensureBound_full V table origin max pick (by omega) hothers
      have hlength := Table.length_insert_le (table.erase victim) origin v
      rw [AList.keys_erase, List.length_erase_of_mem hvictim] at hlength
      rw [heq]
      omega

end table

section call
variable {cache : AltSvcCache} {origin other : AltSvcOrigin} {host : Str} {port pick : Nat}
  {expiresAt now : Instant} {entry : AltSvcEntry} {s : AltSvcState} {operation : Operation}

theorem AltSvcCache.learnCounted_eq (cache : AltSvcCache) (origin : AltSvcOrigin) (values : List Str)
    (now : Instant) (pick : Nat) :
    (cache.learnCounted origin values now pick).2 =
      cache.advertised origin pick (advertisement origin values now) := by
  unfold learnCounted advertisement
  by_cases hempty : values.isEmpty
  · simp only [hempty, if_true, true_or]
    rfl
  · by_cases hlong : altSvcMaxHeaderBytes < ((utf8 ", ").intercalate values).length
    · simp only [hempty, hlong, if_true, or_true]
      rfl
    · by_cases hclear : isClearValue (trim ((utf8 ", ").intercalate values)) = true
      · simp only [hempty, hlong, hclear, if_true, Bool.false_eq_true, or_self, if_false]
        rfl
      · simp only [hempty, hlong, hclear, Bool.false_eq_true, or_self, if_false]
        cases best origin ((utf8 ", ").intercalate values) now with
        | none =>
          dsimp only
          split <;> rfl
        | some alternative => rfl

/-- The same endpoint again: its entry stays, with the later expiry. -/
theorem AltSvcCache.store_same (hlook : cache.entries.lookup origin = some entry)
    (hhost : entry.altHost = host) (hport : entry.altPort = port) :
    (cache.store origin host port expiresAt pick).sequence = cache.sequence ∧
      (cache.store origin host port expiresAt pick).entries.lookup origin =
        some { entry with expiresAt := max expiresAt entry.expiresAt } ∧
      (∀ other, other ≠ origin → (cache.store origin host port expiresAt pick).entries.lookup other =
        cache.entries.lookup other) ∧
      (cache.store origin host port expiresAt pick).entries.keys.length = cache.entries.keys.length := by
  subst hhost hport
  have hmem : origin ∈ cache.entries := AList.lookup_isSome.mp (by rw [hlook]; rfl)
  simp only [store, hlook, and_self, if_true]
  split_ifs with hmoved
  · exact ⟨rfl, AList.lookup_insert _, fun other hne => AList.lookup_insert_ne hne,
      Table.length_insert_of_mem hmem⟩
  · refine ⟨rfl, ?_, fun _ _ => rfl, rfl⟩
    rw [hlook, not_not.mp hmoved]

theorem AltSvcCache.store_other (h : ∀ entry, cache.entries.lookup origin = some entry →
      ¬ (entry.altHost = host ∧ entry.altPort = port)) :
    cache.store origin host port expiresAt pick =
      { entries := (ensureBoundLocked cache.entries origin pick).insert origin
          ⟨host, port, expiresAt, cache.sequence⟩
        sequence := cache.sequence + 1 } := by
  unfold store
  cases hlook : cache.entries.lookup origin with
  | none => rfl
  | some entry => exact if_neg (h entry hlook)

/-- A learn stores the endpoint that it finds, or another one. -/
theorem AltSvcCache.same_or_other (cache : AltSvcCache) (origin : AltSvcOrigin) (host : Str) (port : Nat) :
    (∃ entry, cache.entries.lookup origin = some entry ∧ entry.altHost = host ∧ entry.altPort = port) ∨
      ∀ entry, cache.entries.lookup origin = some entry → ¬ (entry.altHost = host ∧ entry.altPort = port) := by
  by_cases h : ∃ entry, cache.entries.lookup origin = some entry ∧ entry.altHost = host ∧ entry.altPort = port
  · exact .inl h
  · exact .inr fun entry hlook hsame => h ⟨entry, hlook, hsame⟩

theorem AltSvcCache.getFresh_cases (cache : AltSvcCache) (origin : AltSvcOrigin) (now : Instant) :
    (cache.getFresh origin now).2 = cache ∨ (cache.getFresh origin now).2 = cache.remove origin := by
  unfold getFresh
  split
  · exact .inl rfl
  · split
    · exact .inr rfl
    · exact .inl rfl

private theorem AltSvcCache.advertised_issued (cache : AltSvcCache) (origin : AltSvcOrigin) (pick : Nat)
    (advertised : Advertisement) :
    cache.sequence ≤ (cache.advertised origin pick advertised).sequence ∧
    ∀ other entry, (cache.advertised origin pick advertised).entries.lookup other = some entry →
      (∃ old, cache.entries.lookup other = some old ∧ old.SameEndpoint entry ∧
        old.generation = entry.generation) ∨
      (entry.generation = cache.sequence ∧
        cache.sequence < (cache.advertised origin pick advertised).sequence) := by
  have hkept : ∀ other (entry : AltSvcEntry), cache.entries.lookup other = some entry →
      ∃ old, cache.entries.lookup other = some old ∧ old.SameEndpoint entry ∧
        old.generation = entry.generation := fun _ entry hlook => ⟨entry, hlook, ⟨rfl, rfl⟩, rfl⟩
  cases advertised with
  | ignored => exact ⟨le_rfl, fun other entry hlook => .inl (hkept other entry hlook)⟩
  | withdrawn =>
    refine ⟨le_rfl, fun other entry hlook => .inl (hkept other entry ?_)⟩
    exact cache.entries.shrinks_erase origin other entry hlook
  | route host port expiresAt =>
    show cache.sequence ≤ (cache.store _ _ _ _ _).sequence ∧ ∀ other entry,
      (cache.store _ _ _ _ _).entries.lookup other = some entry → _ ∨ _ ∧ _ < (cache.store _ _ _ _ _).sequence
    rcases cache.same_or_other origin host port with ⟨old, hold, hhost, hport⟩ | hother
    · obtain ⟨hsequence, hself, hothers, -⟩ := @store_same cache origin host port pick expiresAt old hold
        hhost hport
      refine ⟨hsequence.ge, fun other entry hlook => .inl ?_⟩
      by_cases heq : other = origin
      · subst heq
        rw [hself] at hlook
        obtain rfl := Option.some.inj hlook
        exact ⟨old, hold, ⟨rfl, rfl⟩, rfl⟩
      · rw [hothers other heq] at hlook
        exact hkept other entry hlook
    · rw [store_other hother]
      refine ⟨Nat.le_succ _, fun other entry hlook => ?_⟩
      rcases Table.lookup_insert_cases hlook with ⟨-, rfl⟩ | ⟨-, hrest⟩
      · exact .inr ⟨rfl, Nat.lt_succ_self _⟩
      · exact .inl (hkept other entry (Table.shrinks_ensureBound _ _ _ _ other entry hrest))

theorem AltSvcState.apply_issued (s : AltSvcState) (operation : Operation) :
    s.cache.sequence ≤ (s.apply operation).cache.sequence ∧
    ∀ origin entry, (s.apply operation).cache.entries.lookup origin = some entry →
      (∃ old, s.cache.entries.lookup origin = some old ∧ old.SameEndpoint entry ∧
        old.generation = entry.generation) ∨
      (entry.generation = s.cache.sequence ∧ s.cache.sequence < (s.apply operation).cache.sequence) := by
  have hsame := s.cache.advertised_issued
  cases operation with
  | learn origin values now pick =>
    simp only [apply, AltSvcCache.learnCounted_eq]
    exact hsame origin pick _
  | getFresh origin now =>
    simp only [apply]
    rcases s.cache.getFresh_cases origin now with heq | heq
    · rw [heq]
      exact hsame origin 0 .ignored
    · rw [heq]
      exact hsame origin 0 .withdrawn
  | clear origin => exact hsame origin 0 .withdrawn
  | recordFailure origin | recordSuccess origin | noteNewAdvertisement origin => exact hsame origin 0 .ignored

/-- The invariant of every history. -/
structure Bounded (s : AltSvcState) : Prop where
  cache : s.cache.entries.keys.length ≤ altSvcCacheMaxEntries
  suppressor : s.suppressor.entries.keys.length ≤ suppressionMaxEntries
  issued : ∀ origin entry, s.cache.entries.lookup origin = some entry → entry.generation < s.cache.sequence

theorem AltSvcCache.advertised_length (hbound : cache.entries.keys.length ≤ altSvcCacheMaxEntries)
    (origin : AltSvcOrigin) (pick : Nat) (advertised : Advertisement) :
    (cache.advertised origin pick advertised).entries.keys.length ≤ altSvcCacheMaxEntries := by
  cases advertised with
  | ignored => exact hbound
  | withdrawn => exact (Table.length_erase_le cache.entries origin).trans hbound
  | route host port expiresAt =>
    show (cache.store _ _ _ _ _).entries.keys.length ≤ _
    rcases cache.same_or_other origin host port with ⟨old, hold, hhost, hport⟩ | hother
    · rw [(store_same hold hhost hport).2.2.2]
      exact hbound
    · rw [store_other hother]
      exact Table.ensureBound_insert_le (by decide) hbound origin pick _

theorem BrokenRouteSuppressor.recordFailure_length {t : BrokenRouteSuppressor}
    (hbound : t.entries.keys.length ≤ suppressionMaxEntries) (origin : AltSvcOrigin) (generation : Nat)
    (now : Instant) (reason : H3FailureClass) (pick : Nat) :
    (t.recordFailure origin generation now reason pick).entries.keys.length ≤ suppressionMaxEntries := by
  unfold recordFailure
  cases hlook : t.entries.lookup origin with
  | none => exact Table.ensureBound_insert_le (by decide) hbound origin pick _
  | some entry =>
    have hmem : origin ∈ t.entries := AList.lookup_isSome.mp (by rw [hlook]; rfl)
    dsimp only
    split
    · exact (Table.length_insert_of_mem hmem).trans_le hbound
    · exact (Table.length_insert_of_mem hmem).trans_le hbound

theorem Bounded.apply (hbounded : Bounded s) (operation : Operation) : Bounded (s.apply operation) := by
  have herase : ∀ origin, (s.suppressor.remove origin).entries.keys.length ≤ suppressionMaxEntries :=
    fun origin => (Table.length_erase_le _ origin).trans hbounded.suppressor
  refine ⟨?_, ?_, ?_⟩
  · cases operation with
    | learn origin values now pick =>
      simp only [AltSvcState.apply, AltSvcCache.learnCounted_eq]
      exact AltSvcCache.advertised_length hbounded.cache origin pick _
    | getFresh origin now =>
      simp only [AltSvcState.apply]
      rcases s.cache.getFresh_cases origin now with heq | heq
      · rw [heq]
        exact hbounded.cache
      · rw [heq]
        exact (Table.length_erase_le _ origin).trans hbounded.cache
    | clear origin => exact (Table.length_erase_le _ origin).trans hbounded.cache
    | recordFailure | recordSuccess | noteNewAdvertisement => exact hbounded.cache
  · cases operation with
    | recordFailure origin generation now reason pick =>
      exact BrokenRouteSuppressor.recordFailure_length hbounded.suppressor origin generation now reason pick
    | recordSuccess origin => exact herase origin
    | noteNewAdvertisement origin generation =>
      simp only [AltSvcState.apply, BrokenRouteSuppressor.noteNewAdvertisement]
      split
      · exact herase origin
      · exact hbounded.suppressor
    | learn | getFresh | clear => exact hbounded.suppressor
  · intro origin entry hlook
    obtain ⟨hmono, hissued⟩ := s.apply_issued operation
    rcases hissued origin entry hlook with ⟨old, hold, -, hgeneration⟩ | ⟨hnew, hlt⟩
    · rw [← hgeneration]
      exact (hbounded.issued origin old hold).trans_le hmono
    · rw [hnew]
      exact hlt

private theorem AltSvcCache.separate_iff (hlook : cache.entries.lookup origin = some entry) :
    (∀ other, other ≠ origin → (cache.store origin host port expiresAt pick).entries.lookup other =
        cache.entries.lookup other) ↔
      ¬ (altSvcCacheMaxEntries ≤ cache.entries.keys.length ∧
        ¬ (entry.altHost = host ∧ entry.altPort = port)) := by
  rcases cache.same_or_other origin host port with ⟨old, hold, hhost, hport⟩ | hother
  · obtain rfl := Option.some.inj (hold.symm.trans hlook)
    exact iff_of_true (store_same hold hhost hport).2.2.1 fun h => h.2 ⟨hhost, hport⟩
  · rw [store_other hother]
    have hchanged := hother entry hlook
    by_cases hfull : altSvcCacheMaxEntries ≤ cache.entries.keys.length
    · refine iff_of_false (fun hsep => ?_) fun h => h ⟨hfull, hchanged⟩
      have hkey : origin ∈ cache.entries.keys := AList.mem_keys.mp (AList.lookup_isSome.mp (by rw [hlook]; rfl))
      have hothers : cache.entries.keys.filter (· ≠ origin) ≠ [] := by
        intro hnil
        have honly : ∀ key ∈ cache.entries.keys, key = origin := by
          intro key hkey
          simpa using List.filter_eq_nil_iff.mp hnil key hkey
        have hnodup := cache.entries.keys_nodup
        rw [List.eq_replicate_of_mem honly, List.nodup_replicate] at hnodup
        have hmany : altSvcCacheMaxEntries ≤ 1 := hfull.trans hnodup
        exact absurd hmany (by decide)
      obtain ⟨victim, hvictim, hne, heq⟩ :=
        @Table.ensureBound_full _ cache.entries origin altSvcCacheMaxEntries pick hfull hothers
      have hlost := hsep victim hne
      rw [ensureBoundLocked, heq, AList.lookup_insert_ne hne, AList.lookup_erase] at hlost
      have hsome := AList.lookup_isSome.mpr (AList.mem_keys.mpr hvictim)
      rw [← hlost] at hsome
      cases hsome
    · refine iff_of_true (fun other hne => ?_) fun h => hfull h.1
      rw [ensureBoundLocked, Table.ensureBound, if_pos (Nat.not_le.mp hfull)]
      exact AList.lookup_insert_ne hne

end call

section history
variable {history earlier : List Operation} {operation : Operation} {origin : AltSvcOrigin}

theorem after_append (history : List Operation) (operation : Operation) :
    after (history ++ [operation]) = (after history).apply operation := List.foldl_concat ..

theorem bounded_after (history : List Operation) : Bounded (after history) := by
  induction history using List.reverseRecOn with
  | nil => exact ⟨Nat.zero_le _, Nat.zero_le _, fun _ _ hlook => by cases hlook⟩
  | append_singleton history operation ih =>
    rw [after_append]
    exact ih.apply operation

private theorem sequence_mono (hearlier : earlier <+: history) :
    (after earlier).cache.sequence ≤ (after history).cache.sequence := by
  obtain ⟨rest, rfl⟩ := hearlier
  induction rest using List.reverseRecOn with
  | nil => rw [List.append_nil]
  | append_singleton rest operation ih =>
    rw [← List.append_assoc, after_append]
    exact ih.trans ((after (earlier ++ rest)).apply_issued operation).1

private theorem getFresh_remove (cache : AltSvcCache) (origin : AltSvcOrigin) (now : Instant) :
    ((cache.remove origin).getFresh origin now).1 = none := by
  simp only [AltSvcCache.getFresh, AltSvcCache.remove, AList.lookup_erase]

private theorem crowded_learn {values : List Str} {now : Instant} {pick : Nat} {entry : AltSvcEntry}
    (hlook : (after history).cache.entries.lookup origin = some entry) :
    (∀ other, other ≠ origin → ((after history).apply (.learn origin values now pick)).cache.entries.lookup
      other = (after history).cache.entries.lookup other) ↔
      (after history).crowded (.learn origin values now pick) = false := by
  simp only [AltSvcState.apply, AltSvcCache.learnCounted_eq, AltSvcState.crowded, hlook]
  cases advertisement origin values now with
  | ignored => exact iff_of_true (fun _ _ => rfl) rfl
  | withdrawn => exact iff_of_true (fun other hne => AList.lookup_erase_ne hne) rfl
  | route host port expiresAt =>
    rw [decide_eq_false_iff_not]
    exact AltSvcCache.separate_iff hlook

theorem sound_iff_not_crowded (history : List Operation) (operation : Operation) :
    Sound history operation ↔ (after history).crowded operation = false := by
  constructor
  · intro hsound
    cases operation with
    | learn origin values now pick =>
      cases hlook : (after history).cache.entries.lookup origin with
      | none => simp only [AltSvcState.crowded, hlook]
      | some entry =>
        exact (crowded_learn hlook).mp (hsound.separate origin values now pick rfl (by rw [hlook]; rfl))
    | getFresh | clear | recordFailure | recordSuccess | noteNewAdvertisement => rfl
  · intro hroom
    have hbounded := (bounded_after history).apply operation
    refine ⟨hbounded.cache, hbounded.suppressor, ?_, ?_, ?_, ?_⟩
    · intro origin entry hlook
      refine ((after history).apply_issued operation |>.2 origin entry hlook).imp_right ?_
      rintro ⟨hnew, -⟩ earlier hearlier other old hold
      rw [hnew]
      exact ((bounded_after earlier).issued other old hold).trans_le (sequence_mono hearlier)
    · rintro origin values now pick entry expiresAt rfl hlook hroute
      simp only [AltSvcState.apply, AltSvcCache.learnCounted_eq, hroute]
      exact (AltSvcCache.store_same hlook rfl rfl).2.1
    · rintro origin (⟨values, now, pick, rfl, hwithdrawn⟩ | rfl) later
      · simp only [AltSvcState.apply, AltSvcCache.learnCounted_eq, hwithdrawn]
        exact getFresh_remove _ origin later
      · exact getFresh_remove _ origin later
    · rintro origin values now pick rfl hsome
      obtain ⟨entry, hlook⟩ := Option.isSome_iff_exists.mp hsome
      exact (crowded_learn hlook).mpr hroom

end history

/-- Every call of a history is sound when none of them replaces an endpoint in a full cache,
and only then. -/
theorem history_sound_iff (history : List Operation) :
    (∀ past operation, past ++ [operation] <+: history → Sound past operation) ↔
      ∀ past operation, past ++ [operation] <+: history → (after past).crowded operation = false := by
  constructor
  · exact fun hall past operation hpast => (sound_iff_not_crowded past operation).mp (hall past operation hpast)
  · exact fun hall past operation hpast => (sound_iff_not_crowded past operation).mpr (hall past operation hpast)

private def short (n : Nat) : AltSvcOrigin := ⟨utf8 "https", [UInt8.ofNat n], 443⟩

/-- `n` origins have learned one endpoint each. -/
private def filled (n : Nat) : List Operation :=
  (List.range n).map fun i => .learn (short i) [utf8 "h3=\":1\""] 0 0

private def moved : Operation := .learn (short 0) [utf8 "h3=\":2\""] 0 0

private theorem advertisement_one (origin : AltSvcOrigin) :
    advertisement origin [utf8 "h3=\":1\""] 0 = .route origin.host 1 (secs 86400) := rfl

private theorem advertisement_two (origin : AltSvcOrigin) :
    advertisement origin [utf8 "h3=\":2\""] 0 = .route origin.host 2 (secs 86400) := rfl

private theorem short_inj {i j : Nat} (hi : i < 256) (hj : j < 256) (h : short i = short j) : i = j := by
  have hByte : UInt8.ofNat i = UInt8.ofNat j := (List.cons.inj (AltSvcOrigin.mk.inj h).2.1).1
  have hNat := congrArg UInt8.toNat hByte
  rw [UInt8.toNat_ofNat', UInt8.toNat_ofNat'] at hNat
  omega

/-- A table with room keeps what it has and takes a new origin. -/
private theorem after_filled {n : Nat} (hn : n ≤ altSvcCacheMaxEntries) :
    (after (filled n)).cache.entries.keys = ((List.range n).map short).reverse ∧
      ∀ i < n, ∃ entry, (after (filled n)).cache.entries.lookup (short i) = some entry ∧ entry.altPort = 1 := by
  induction n with
  | zero => exact ⟨rfl, fun i hi => absurd hi (Nat.not_lt_zero i)⟩
  | succ n ih =>
    have hMax : altSvcCacheMaxEntries = 64 := rfl
    obtain ⟨hKeys, hPorts⟩ := ih (by omega)
    have hNew : short n ∉ (after (filled n)).cache.entries := by
      rw [AList.mem_keys, hKeys, List.mem_reverse, List.mem_map]
      rintro ⟨i, hi, hSame⟩
      have hLess := List.mem_range.mp hi
      have hEq := short_inj (by omega) (by omega) hSame
      omega
    have hNone := AList.lookup_eq_none.mpr hNew
    have hRoom : (after (filled n)).cache.entries.keys.length < altSvcCacheMaxEntries := by
      rw [hKeys, List.length_reverse, List.length_map, List.length_range]
      omega
    have hEntries : (after (filled (n + 1))).cache.entries = (after (filled n)).cache.entries.insert (short n)
        ⟨(short n).host, 1, secs 86400, (after (filled n)).cache.sequence⟩ := by
      rw [filled, List.range_succ, List.map_append, ← filled, List.map_singleton, after_append, AltSvcState.apply,
        AltSvcCache.learnCounted_eq, advertisement_one, AltSvcCache.advertised, AltSvcCache.store_other (by simp [hNone]),
        AltSvcCache.ensureBoundLocked, Table.ensureBound, if_pos hRoom]
    refine ⟨?_, fun i hi => ?_⟩
    · rw [hEntries, AList.keys, AList.entries_insert_of_notMem hNew, List.keys_cons, ← AList.keys, hKeys, List.range_succ,
        List.map_append, List.reverse_append, List.map_singleton, List.reverse_singleton, List.singleton_append]
    · rw [hEntries]
      by_cases hLast : i = n
      · rw [hLast]
        exact ⟨_, AList.lookup_insert _, rfl⟩
      · have hNe : short i ≠ short n := fun h => hLast (short_inj (by omega) (by omega) h)
        rw [AList.lookup_insert_ne hNe]
        exact hPorts i (by omega)

/-- A full cache that learns another endpoint for an origin it has drops another origin. -/
theorem full_cache_evicts :
    ¬ ∀ (history past : List Operation) (operation : Operation), past ++ [operation] <+: history →
      Sound past operation := by
  intro hall
  have hSound := hall (filled altSvcCacheMaxEntries ++ [moved]) (filled altSvcCacheMaxEntries) moved List.prefix_rfl
  have hCrowded := (sound_iff_not_crowded _ moved).mp hSound
  obtain ⟨hKeys, hPorts⟩ := after_filled le_rfl
  obtain ⟨entry, hLookup, hPort⟩ := hPorts 0 (by decide)
  rw [moved, AltSvcState.crowded, hLookup, advertisement_two] at hCrowded
  refine of_decide_eq_false hCrowded ⟨?_, fun h => ?_⟩
  · rw [hKeys, List.length_reverse, List.length_map, List.length_range]
  · rw [hPort] at h
    exact absurd h.2 (by decide)

end Eggfetch.AltSvc
