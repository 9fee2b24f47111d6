import Eggfetch.CookieJar.Batch
import Eggfetch.CookieJar.Confined

/-! The order of the cookies of a request, over whole histories of a jar. The creation counter is shared with
every other jar of the process. -/
namespace Eggfetch.CookieJar
open Text Http

/-- A jar, and the cookies that the process has built, in the order of their indices. -/
structure World where
  jar : JarInner
  built : List Cookie

inductive Event where
  | operation (op : Operation)
  /-- Another jar, or a caller of the parser, builds a cookie. -/
  | elsewhere (c : Cookie)

def World.fresh (start : UInt64) : World := ⟨new start.toNat, []⟩

def parsedCookies (lib : Library) (responseUrl : Url) (responseHost : Str) : List (Str × Time) → Nat → List Cookie
  | [], _ => []
  | (headerValue, parseNow) :: rest, counter =>
    match parseSetCookie lib counter parseNow headerValue responseUrl responseHost with
    | none => parsedCookies lib responseUrl responseHost rest counter
    | some c => c :: parsedCookies lib responseUrl responseHost rest (nextCreation counter)

def isAccepted (name value : Str) : Bool := isValidCookieName name && isValidCookieValue value

def defaultCookie (counter : Nat) (name value : Str) : Cookie where
  name
  value
  domain := []
  hostOnly := false
  path := utf8 "/"
  secure := false
  httpOnly := false
  sameSite := none
  expires := none
  persistent := false
  creationIndex := counter

section
variable (lib : Library) (jar : JarInner)

def builds : Operation → List Cookie
  | .updateFromResponse url _ headers => parsedCookies lib url (url.host.getD []) headers jar.creationCounter
  | .setDefaultCookie name value => if isAccepted name value then [defaultCookie jar.creationCounter name value] else []
  | _ => []

def isPossible (built : List Cookie) : Operation → Bool
  | .set _ c => built.contains c
  | _ => true

def World.step (w : World) : Event → Option World
  | .operation op =>
    if isPossible w.built op then
      (CookieJar.step lib w.jar op).map fun jar => ⟨jar, w.built ++ builds lib w.jar op⟩
    else none
  | .elsewhere c =>
    some ⟨{ w.jar with creationCounter := nextCreation w.jar.creationCounter },
      w.built ++ [{ c with creationIndex := w.jar.creationCounter }]⟩

/-- `state` holds at every point of the history, and `turn` of every step that is taken. -/
def Along (state : World → Prop) (turn : World → Event → Prop) : World → List Event → Prop
  | w, [] => state w
  | w, event :: rest => state w ∧ turn w event ∧ ∀ w', w.step lib event = some w' → Along state turn w' rest

def drops (key : CookieKey) : Operation → Bool
  | .updateFromResponse url now headers =>
    (collect lib url (url.host.getD []) now headers jar.creationCounter).2.1.contains key
  | .set now c => isAccepted c.name c.value && c.isExpired now && c.key lib == key
  | .setDefaultCookie _ _ => false
  | .delete name domain path => CookieKey.new lib name domain path == key
  | .clear => true
  | .expireStale now => (jar.get key).any (·.isExpired now)
  | .expireIfDue now => (jar.get key).any (·.isExpired now)

def writes : Operation → List Cookie
  | .updateFromResponse url now headers => (collect lib url (url.host.getD []) now headers jar.creationCounter).1
  | .set now c => if isAccepted c.name c.value && !c.isExpired now then [c] else []
  | .setDefaultCookie name value => if isAccepted name value then [defaultCookie jar.creationCounter name value] else []
  | _ => []

def clock : Operation → Option Time
  | .updateFromResponse _ now _ => some now
  | .set now _ => some now
  | .expireStale now => some now
  | .expireIfDue now => some now
  | _ => none

/-- The cookie whose creation time counts for a key: the one that is there and has not expired, or the first that
is written. -/
def entered (op : Operation) (key : CookieKey) : Option Cookie :=
  ((jar.get key).filter fun c => !drops lib jar key op && !(clock op).any (c.isExpired ·)).or
    ((writes lib jar op).find? fun c => c.key lib == key)

def leaves (op : Operation) (key : CookieKey) : Option Cookie :=
  (((writes lib jar op).filter fun c => c.key lib = key).getLast?).or
    (if drops lib jar key op then none else jar.get key)

/-- A longer path, or the same length and an earlier creation. -/
def Precedes (a b : Cookie) : Prop :=
  b.path.length < a.path.length ∨ (a.path.length = b.path.length ∧ a.creationIndex < b.creationIndex)

def headerText (sent : List Cookie) : Option Str :=
  if sent.isEmpty then none else some ((utf8 "; ").intercalate (sent.map Cookie.nameValuePair))

/-- `sent` is the list that the jar sends, whichever order its map is iterated in. -/
structure SentInOrder (now : Time) (url : Url) (sent : List Cookie) : Prop where
  header : ∀ values, values.Perm ((jar.expireIfDue now).cookies.map Prod.snd) →
    JarInner.cookiesForUrl lib values url = headerText sent
  sorted : sent.Pairwise Precedes
  single : (sent.map fun c => (c.name, c.path)).Nodup
  stored : ∀ c ∈ sent, c ∈ (jar.expireIfDue now).cookies.map Prod.snd ∧ Sends lib url c = true
  first : ∀ c ∈ (jar.expireIfDue now).cookies.map Prod.snd, Sends lib url c = true →
    ∃ s ∈ sent, s.name = c.name ∧ s.path = c.path ∧ (s = c ∨ Precedes s c)

def Ordered (w : World) : Prop := ∀ now url, ∃ sent, SentInOrder lib w.jar now url sent

/-- Among the cookies that match, one that the operation writes again stands to one that it leaves alone as it
did when it was entered. -/
def KeepsPositions (w : World) : Event → Prop
  | .operation op => ∀ w', w.step lib (.operation op) = some w' →
      ∀ (url : Url) (key other : CookieKey) (before after d : Cookie), key ≠ other →
        entered lib w.jar op key = some before → w'.jar.get key = some after →
        entered lib w.jar op other = some d → w'.jar.get other = some d →
        Sends lib url before = true → Sends lib url after = true → Sends lib url d = true →
        (Precedes before d ↔
          [after, d].Sublist (JarInner.sortedMatches lib (w'.jar.cookies.map Prod.snd) url))
  | .elsewhere _ => True

/-- No cookie is written again past one of the same path that the operation leaves alone. -/
def NoOvertaking (w : World) : Event → Prop
  | .operation op => isPossible w.built op = true →
      ∀ (url : Url) (key other : CookieKey) (before after d : Cookie), key ≠ other →
        entered lib w.jar op key = some before → leaves lib w.jar op key = some after →
        entered lib w.jar op other = some d → leaves lib w.jar op other = some d →
        Sends lib url before = true → Sends lib url after = true → Sends lib url d = true →
        before.path = d.path →
        (before.creationIndex < d.creationIndex ↔ after.creationIndex < d.creationIndex)
  | .elsewhere _ => True

end

section
variable {lib : Library} {jar jar' : JarInner} {op : Operation} {key : CookieKey}

private theorem lookup_filter_cookie {m : List (CookieKey × Cookie)} (hNodup : (JarInner.keys m).Nodup) (keep : Cookie → Bool) :
    (m.filter fun p => keep p.2).lookup key = (m.lookup key).filter keep := by
  have hFiltered : (JarInner.keys (m.filter fun p => keep p.2)).Nodup := hNodup.sublist (List.filter_sublist.map _)
  ext c
  rw [Option.filter_eq_some_iff]
  constructor
  · intro h
    obtain ⟨hMem, hKeep⟩ := List.mem_filter.mp (JarInner.mem_of_lookup h)
    exact ⟨JarInner.lookup_of_mem hNodup hMem, hKeep⟩
  · rintro ⟨h, hKeep⟩
    exact JarInner.lookup_of_mem hFiltered (List.mem_filter.mpr ⟨JarInner.mem_of_lookup h, hKeep⟩)

private theorem get_expireStale (h : Exact jar) (now : Time) (key : CookieKey) :
    (jar.expireStale now).get key = if (jar.get key).any (·.isExpired now) then none else jar.get key := by
  have hGet : (jar.expireStale now).get key = (jar.get key).filter fun c => !c.isExpired now :=
    lookup_filter_cookie h.nodup fun c => !c.isExpired now
  rw [hGet]
  cases jar.get key with
  | none => rfl
  | some c =>
    rw [Option.filter_some, Option.any_some]
    cases c.isExpired now <;> rfl

private theorem get_removeCookie (other : CookieKey) :
    (jar.removeCookie other).get key = if other == key then none else jar.get key := by
  rw [JarInner.get, JarInner.removeCookie_cookies, JarInner.mapRemove, lookup_filter, JarInner.get]
  refine if_congr ?_ rfl rfl
  rw [beq_iff_eq, eq_comm]

private theorem get_insertCookie (c : Cookie) :
    (jar.insertCookie (c.key lib) c).get key = ([c].filter fun c => c.key lib = key).getLast?.or (jar.get key) := by
  rw [JarInner.get, JarInner.insertCookie_cookies, lookup_mapInsert, JarInner.get]
  by_cases hKey : c.key lib = key
  · rw [if_pos hKey.symm, List.filter_cons_of_pos (by simpa using hKey)]
    rfl
  · rw [if_neg fun h => hKey h.symm, List.filter_cons_of_neg (by simpa using hKey)]
    rfl

/-- Every operation first drops and then writes. -/
theorem get_step (h : Exact jar) (hStep : step lib jar op = some jar') (key : CookieKey) :
    jar'.get key = leaves lib jar op key := by
  cases op with
  | updateFromResponse url now headers =>
    obtain rfl := Option.some.inj hStep
    rw [get_updateFromResponse, leaves, drops, writes]
    refine congrArg _ (if_congr ?_ rfl rfl)
    rw [List.contains_iff_mem]
  | set now c =>
    obtain rfl := Option.some.inj hStep
    rw [leaves, drops, writes, isAccepted, JarInner.set]
    cases isValidCookieName c.name with
    | false => rfl
    | true =>
      cases isValidCookieValue c.value with
      | false => rfl
      | true =>
        cases c.isExpired now with
        | true => exact get_removeCookie (c.key lib)
        | false => exact get_insertCookie c
  | setDefaultCookie name value =>
    obtain rfl := Option.some.inj hStep
    rw [leaves, drops, writes, isAccepted, JarInner.setDefaultCookie]
    cases isValidCookieName name with
    | false => rfl
    | true =>
      cases isValidCookieValue value with
      | false => rfl
      | true => exact get_insertCookie (defaultCookie jar.creationCounter name value)
  | delete name domain path =>
    obtain rfl := Option.some.inj hStep
    exact get_removeCookie (CookieKey.new lib name domain path)
  | clear =>
    obtain rfl := Option.some.inj hStep
    rfl
  | expireStale now =>
    obtain rfl := Option.some.inj hStep
    exact get_expireStale h now key
  | expireIfDue now =>
    obtain rfl := Option.some.inj hStep
    rw [h.expireIfDue_eq]
    exact get_expireStale h now key

end

/-- The indices of the next `n` cookies; the counter wraps around. -/
def indices (next n : Nat) : List Nat := (List.range n).map fun i => (next + i) % 2 ^ 64

theorem indices_append (first n m : Nat) : indices first (n + m) = indices first n ++ indices (first + n) m := by
  rw [indices, indices, indices, List.range_add, List.map_append, List.map_map]
  refine congrArg _ (List.map_congr_left fun i _ => ?_)
  rw [Function.comp_apply, Nat.add_assoc]

theorem indices_succ (first n : Nat) : indices first (n + 1) = first % 2 ^ 64 :: indices (first + 1) n := by
  rw [Nat.add_comm n 1, indices_append]
  rfl

theorem nextCreation_mod (n : Nat) : nextCreation (n % 2 ^ 64) = (n + 1) % 2 ^ 64 := Nat.mod_add_mod n (2 ^ 64) 1

private theorem indices_nodup {first n : Nat} (h : first + n ≤ 2 ^ 64) : (indices first n).Nodup := by
  refine List.nodup_range.map_on fun i hi j hj hEq => ?_
  rw [List.mem_range] at hi hj
  rw [Nat.mod_eq_of_lt (by omega), Nat.mod_eq_of_lt (by omega)] at hEq
  omega

section
variable {lib : Library} {url : Url} {host : Str} {now : Time}

theorem collect_eq (headers : List (Str × Time)) (counter : Nat) :
    (collect lib url host now headers counter).1 =
        (parsedCookies lib url host headers counter).filter (fun c => !c.isExpired now) ∧
      (collect lib url host now headers counter).2.2 =
        nextCreation^[(parsedCookies lib url host headers counter).length] counter := by
  induction headers generalizing counter with
  | nil => exact ⟨rfl, rfl⟩
  | cons p headers ih =>
    rw [collect, parsedCookies]
    cases parseSetCookie lib counter p.2 p.1 url host with
    | none => exact ih counter
    | some c =>
      obtain ⟨hInsert, hCounter⟩ := ih (nextCreation counter)
      dsimp only
      cases hExpired : c.isExpired now with
      | true =>
        rw [List.filter_cons_of_neg (by rw [hExpired]; decide), List.length_cons, Function.iterate_succ_apply]
        exact ⟨hInsert, hCounter⟩
      | false =>
        rw [List.filter_cons_of_pos (by rw [hExpired]; rfl), List.length_cons, Function.iterate_succ_apply]
        exact ⟨congrArg (c :: ·) hInsert, hCounter⟩

theorem iterate_nextCreation (next n : Nat) : nextCreation^[n] (next % 2 ^ 64) = (next + n) % 2 ^ 64 := by
  induction n generalizing next with
  | zero => rfl
  | succ n ih =>
    rw [Function.iterate_succ_apply, nextCreation_mod, ih, Nat.add_right_comm, Nat.add_assoc]

theorem parsed_indices (headers : List (Str × Time)) (next : Nat) :
    (parsedCookies lib url host headers (next % 2 ^ 64)).map Cookie.creationIndex =
      indices next (parsedCookies lib url host headers (next % 2 ^ 64)).length := by
  induction headers generalizing next with
  | nil => rfl
  | cons p headers ih =>
    rw [parsedCookies, parseSetCookie_index]
    cases parseSetCookie lib 0 p.2 p.1 url host with
    | none => exact ih next
    | some c =>
      dsimp only [Option.map_some]
      rw [nextCreation_mod, List.map_cons, List.length_cons, indices_succ, ih]

end

/-- Cookies are stored under their keys and carry the indices that the counter gave them. -/
structure Counted (lib : Library) (start : UInt64) (w : World) : Prop where
  exact : Exact w.jar
  counter : w.jar.creationCounter = (start.toNat + w.built.length) % 2 ^ 64
  indexed : w.built.map Cookie.creationIndex = indices start.toNat w.built.length
  stored : ∀ p ∈ w.jar.cookies, p.1 = p.2.key lib ∧ p.2 ∈ w.built

section
variable {lib : Library} {jar jar' : JarInner} {op : Operation} {start : UInt64} {w w' : World}

private theorem insertCookie_counter (key : CookieKey) (c : Cookie) :
    (jar.insertCookie key c).creationCounter = jar.creationCounter := by
  unfold JarInner.insertCookie
  dsimp only
  split
  · rfl
  · split
    · rfl
    · split <;> rfl
  · rfl

private theorem removeCookie_counter (key : CookieKey) : (jar.removeCookie key).creationCounter = jar.creationCounter := by
  unfold JarInner.removeCookie
  dsimp only
  split <;> rfl

private theorem step_counter {next : Nat} (hCounter : jar.creationCounter = next % 2 ^ 64) (hStep : step lib jar op = some jar') :
    jar'.creationCounter = (next + (builds lib jar op).length) % 2 ^ 64 ∧
      (builds lib jar op).map Cookie.creationIndex = indices next (builds lib jar op).length := by
  cases op with
  | updateFromResponse url now headers =>
    obtain rfl := Option.some.inj hStep
    rw [creationCounter_updateFromResponse, (collect_eq headers jar.creationCounter).2, builds, hCounter]
    exact ⟨iterate_nextCreation next _, parsed_indices headers next⟩
  | set now c =>
    obtain rfl := Option.some.inj hStep
    refine ⟨Eq.trans ?_ hCounter, rfl⟩
    rw [JarInner.set]
    cases isValidCookieName c.name with
    | false => rfl
    | true =>
      cases isValidCookieValue c.value with
      | false => rfl
      | true =>
        cases c.isExpired now with
        | true => exact removeCookie_counter (c.key lib)
        | false => exact insertCookie_counter (c.key lib) c
  | setDefaultCookie name value =>
    obtain rfl := Option.some.inj hStep
    rw [JarInner.setDefaultCookie, builds, isAccepted]
    cases isValidCookieName name with
    | false => exact ⟨hCounter, rfl⟩
    | true =>
      cases isValidCookieValue value with
      | false => exact ⟨hCounter, rfl⟩
      | true =>
        refine ⟨(insertCookie_counter _ _).trans ?_, ?_⟩
        · rw [hCounter]
          exact nextCreation_mod next
        · rw [hCounter]
          rfl
  | delete name domain path =>
    obtain rfl := Option.some.inj hStep
    exact ⟨(removeCookie_counter _).trans hCounter, rfl⟩
  | clear =>
    obtain rfl := Option.some.inj hStep
    exact ⟨hCounter, rfl⟩
  | expireStale now =>
    obtain rfl := Option.some.inj hStep
    exact ⟨hCounter, rfl⟩
  | expireIfDue now =>
    obtain rfl := Option.some.inj hStep
    refine ⟨Eq.trans ?_ hCounter, rfl⟩
    unfold JarInner.expireIfDue
    split <;> rfl

private theorem mem_writes {built : List Cookie} (hPossible : isPossible built op = true) {c : Cookie}
    (h : c ∈ writes lib jar op) : c ∈ built ++ builds lib jar op := by
  cases op with
  | updateFromResponse url now headers =>
    rw [writes, (collect_eq headers jar.creationCounter).1] at h
    exact List.mem_append_right _ (List.mem_filter.mp h).1
  | set now c' =>
    rw [writes] at h
    split at h
    · obtain rfl := List.mem_singleton.mp h
      exact List.mem_append_left _ (List.contains_iff_mem.mp hPossible)
    · exact absurd h List.not_mem_nil
  | setDefaultCookie name value => exact List.mem_append_right _ h
  | delete name domain path => exact absurd h List.not_mem_nil
  | clear => exact absurd h List.not_mem_nil
  | expireStale now => exact absurd h List.not_mem_nil
  | expireIfDue now => exact absurd h List.not_mem_nil

private theorem mem_step (h : Exact jar) (hStep : step lib jar op = some jar') {p : CookieKey × Cookie} (hp : p ∈ jar'.cookies) :
    p ∈ jar.cookies ∨ (p.1 = p.2.key lib ∧ p.2 ∈ writes lib jar op) := by
  have hGet : jar'.get p.1 = some p.2 := JarInner.lookup_of_mem (h.step hStep).nodup hp
  rw [get_step h hStep, leaves, Option.or_eq_some_iff] at hGet
  rcases hGet with hLast | ⟨-, hKept⟩
  · obtain ⟨hMem, hKey⟩ := List.mem_filter.mp (List.mem_of_getLast? hLast)
    exact .inr ⟨(of_decide_eq_true hKey).symm, hMem⟩
  · split at hKept
    · cases hKept
    · exact .inl (JarInner.mem_of_lookup hKept)

theorem counted_fresh (lib : Library) (start : UInt64) : Counted lib start (.fresh start) where
  exact := exact_new _
  counter := (Nat.mod_eq_of_lt start.toNat_lt).symm
  indexed := rfl
  stored := fun _ hp => absurd hp List.not_mem_nil

theorem Counted.step (h : Counted lib start w) {event : Event} (hStep : w.step lib event = some w') : Counted lib start w' := by
  cases event with
  | elsewhere c =>
    obtain rfl := Option.some.inj hStep
    refine ⟨⟨h.exact.nodup, h.exact.minimum⟩, ?_, ?_, fun p hp => ⟨(h.stored p hp).1, List.mem_append_left _ (h.stored p hp).2⟩⟩
    · rw [List.length_append, List.length_singleton, ← Nat.add_assoc, ← nextCreation_mod, ← h.counter]
    · rw [List.map_append, h.indexed, List.length_append, indices_append, h.counter]
      rfl
  | operation op =>
    rw [World.step] at hStep
    split at hStep
    · next hPossible =>
      obtain ⟨jar', hJar, rfl⟩ := Option.map_eq_some_iff.mp hStep
      obtain ⟨hCounter, hIndexed⟩ := step_counter h.counter hJar
      refine ⟨h.exact.step hJar, ?_, ?_, fun p hp => ?_⟩
      · rw [List.length_append, ← Nat.add_assoc]
        exact hCounter
      · rw [List.map_append, h.indexed, hIndexed, List.length_append, indices_append]
      · rcases mem_step h.exact hJar hp with hOld | ⟨hKey, hWritten⟩
        · exact ⟨(h.stored p hOld).1, List.mem_append_left _ (h.stored p hOld).2⟩
        · exact ⟨hKey, mem_writes hPossible hWritten⟩
    · cases hStep

end

section
variable {lib : Library} {start : UInt64} {w w' : World} {url : Url} {values : List Cookie}

private theorem Counted.index_inj (h : Counted lib start w) (hFew : start.toNat + w.built.length ≤ 2 ^ 64) {c d : Cookie}
    (hc : c ∈ w.built) (hd : d ∈ w.built) (hIndex : c.creationIndex = d.creationIndex) : c = d := by
  have hNodup : (w.built.map Cookie.creationIndex).Nodup := h.indexed ▸ indices_nodup hFew
  exact List.inj_on_of_nodup_map hNodup hc hd hIndex

instance : Std.Total JarInner.sortsBefore where
  total a b := by
    unfold JarInner.sortsBefore
    omega

instance : IsTrans Cookie JarInner.sortsBefore where
  trans a b c := by
    unfold JarInner.sortsBefore
    omega

theorem Precedes.asymm {a b : Cookie} (h : Precedes a b) : ¬ Precedes b a := by
  unfold Precedes at *
  omega

def Distinct (values : List Cookie) : Prop :=
  values.Nodup ∧ ∀ c ∈ values, ∀ d ∈ values, c.creationIndex = d.creationIndex → c = d

theorem sortedMatches_mem {c : Cookie} : c ∈ JarInner.sortedMatches lib values url ↔ c ∈ values ∧ Sends lib url c = true := by
  rw [sortedMatches_eq, List.mem_insertionSort, List.mem_filter]

theorem sortedMatches_sorted (h : Distinct values) : (JarInner.sortedMatches lib values url).Pairwise Precedes := by
  have hNodup : (JarInner.sortedMatches lib values url).Nodup :=
    ((List.perm_insertionSort _ _).nodup_iff).mpr (h.1.filter _)
  have hSorted : (JarInner.sortedMatches lib values url).Pairwise JarInner.sortsBefore := List.pairwise_insertionSort _ _
  refine (hSorted.and hNodup).imp_of_mem fun {a b} ha hb ⟨hBefore, hNe⟩ => ?_
  have hIndex : a.creationIndex ≠ b.creationIndex := fun hEq =>
    hNe (h.2 a (sortedMatches_mem.mp ha).1 b (sortedMatches_mem.mp hb).1 hEq)
  unfold JarInner.sortsBefore at hBefore
  unfold Precedes
  omega

private theorem sortedMatches_perm (h : Distinct values) {values' : List Cookie} (hPerm : values'.Perm values) :
    JarInner.sortedMatches lib values' url = JarInner.sortedMatches lib values url := by
  have h' : Distinct values' :=
    ⟨hPerm.nodup_iff.mpr h.1, fun c hc d hd => h.2 c (hPerm.mem_iff.mp hc) d (hPerm.mem_iff.mp hd)⟩
  have hSame : (JarInner.sortedMatches lib values' url).Perm (JarInner.sortedMatches lib values url) :=
    (List.perm_insertionSort _ _).trans ((hPerm.filter _).trans (List.perm_insertionSort _ _).symm)
  exact hSame.eq_of_pairwise (fun a b _ _ hab hba => absurd hba hab.asymm) (sortedMatches_sorted h') (sortedMatches_sorted h)

private theorem pair_sublist_iff (h : Distinct values) {c d : Cookie} (hc : c ∈ JarInner.sortedMatches lib values url)
    (hd : d ∈ JarInner.sortedMatches lib values url) (hne : c ≠ d) :
    [c, d].Sublist (JarInner.sortedMatches lib values url) ↔ Precedes c d := by
  have hSorted : (JarInner.sortedMatches lib values url).Pairwise Precedes := sortedMatches_sorted h
  constructor
  · intro hSub
    exact List.rel_of_pairwise_cons (hSorted.sublist hSub) List.mem_cons_self
  · intro hPrecedes
    have hPair : [c, d].Pairwise Precedes := List.pairwise_pair.mpr hPrecedes
    have hSubperm : [c, d].Subperm (JarInner.sortedMatches lib values url) := by
      refine List.subperm_of_subset (by simpa using hne) fun x hx => ?_
      rcases List.mem_pair.mp hx with rfl | rfl
      · exact hc
      · exact hd
    obtain ⟨sorted, hPerm, hSub⟩ := hSubperm
    have hEq : sorted = [c, d] :=
      hPerm.eq_of_pairwise (fun a b _ _ hab hba => absurd hba hab.asymm) (hSorted.sublist hSub) hPair
    exact hEq ▸ hSub

end

theorem dedup_sublist (seen : List (Str × Str)) (cs : List Cookie) : (JarInner.dedup seen cs).Sublist cs := by
  induction cs generalizing seen with
  | nil => exact List.Sublist.slnil
  | cons c cs ih =>
    rw [JarInner.dedup]
    split
    · exact (ih seen).cons c
    · exact (ih _).cons_cons c

private theorem notMem_dedup {seen : List (Str × Str)} {cs : List Cookie} {c : Cookie} (h : c ∈ JarInner.dedup seen cs) :
    (c.name, c.path) ∉ seen := by
  induction cs generalizing seen with
  | nil => cases h
  | cons d cs ih =>
    rw [JarInner.dedup] at h
    split at h
    · exact ih h
    · next hNew =>
      rcases List.mem_cons.mp h with rfl | h
      · exact hNew
      · exact fun hSeen => ih h (List.mem_cons_of_mem _ hSeen)

theorem dedup_single (seen : List (Str × Str)) (cs : List Cookie) :
    ((JarInner.dedup seen cs).map fun c => (c.name, c.path)).Nodup := by
  induction cs generalizing seen with
  | nil => exact List.nodup_nil
  | cons c cs ih =>
    rw [JarInner.dedup]
    split
    · exact ih seen
    · rw [List.map_cons, List.nodup_cons]
      refine ⟨fun hMem => ?_, ih _⟩
      obtain ⟨d, hd, hEq⟩ := List.mem_map.mp hMem
      exact notMem_dedup hd (hEq ▸ List.mem_cons_self)

private theorem dedup_first {seen : List (Str × Str)} {cs : List Cookie} (hSorted : cs.Pairwise Precedes)
    {c : Cookie} (hc : c ∈ cs)
    (hNew : (c.name, c.path) ∉ seen) :
    ∃ s ∈ JarInner.dedup seen cs, s.name = c.name ∧ s.path = c.path ∧ (s = c ∨ Precedes s c) := by
  induction cs generalizing seen with
  | nil => cases hc
  | cons d cs ih =>
    obtain ⟨hHead, hTail⟩ := List.pairwise_cons.mp hSorted
    rw [JarInner.dedup]
    split
    · next hSeen =>
      rcases List.mem_cons.mp hc with rfl | hc
      · exact absurd hSeen hNew
      · exact ih hTail hc hNew
    · by_cases hSame : (d.name, d.path) = (c.name, c.path)
      · obtain ⟨hName, hPath⟩ := Prod.mk.inj hSame
        refine ⟨d, List.mem_cons_self, hName, hPath, ?_⟩
        rcases List.mem_cons.mp hc with rfl | hc
        · exact .inl rfl
        · exact .inr (hHead c hc)
      · rcases List.mem_cons.mp hc with rfl | hc
        · exact absurd rfl hSame
        · have hStill : (c.name, c.path) ∉ (d.name, d.path) :: seen := by
            rw [List.mem_cons, not_or]
            exact ⟨fun h => hSame h.symm, hNew⟩
          obtain ⟨s, hs, hRest⟩ := ih hTail hc hStill
          exact ⟨s, List.mem_cons_of_mem _ hs, hRest⟩

section
variable {lib : Library} {start : UInt64} {w w' : World} {url : Url} {op : Operation}

theorem Counted.distinct (h : Counted lib start w) (hFew : start.toNat + w.built.length ≤ 2 ^ 64) :
    Distinct (w.jar.cookies.map Prod.snd) := by
  have hKeys : (w.jar.cookies.map Prod.snd).map (Cookie.key lib) = JarInner.keys w.jar.cookies := by
    rw [List.map_map]
    exact List.map_congr_left fun p hp => (h.stored p hp).1.symm
  have hBuilt : ∀ c ∈ w.jar.cookies.map Prod.snd, c ∈ w.built := by
    intro c hc
    obtain ⟨p, hp, rfl⟩ := List.mem_map.mp hc
    exact (h.stored p hp).2
  exact ⟨List.Nodup.of_map (Cookie.key lib) (hKeys ▸ h.exact.nodup),
    fun c hc d hd hIndex => h.index_inj hFew (hBuilt c hc) (hBuilt d hd) hIndex⟩

private theorem nameValuePair_eq (c : Cookie) : JarInner.piece c = c.nameValuePair := by
  have hEquals : utf8 "=" = [0x3d] := by decide
  rw [JarInner.piece, Cookie.nameValuePair, hEquals, List.append_assoc]
  rfl

private theorem Counted.ordered (h : Counted lib start w) (hFew : start.toNat + w.built.length ≤ 2 ^ 64) : Ordered lib w := by
  intro now url
  have hRead : Counted lib start ⟨w.jar.expireIfDue now, w.built⟩ := by
    have hStep := h.step (rfl : w.step lib (.operation (.expireIfDue now)) = some _)
    rwa [show builds lib w.jar (.expireIfDue now) = [] from rfl, List.append_nil] at hStep
  have hDistinct : Distinct ((w.jar.expireIfDue now).cookies.map Prod.snd) := hRead.distinct hFew
  have hSorted : (JarInner.sortedMatches lib ((w.jar.expireIfDue now).cookies.map Prod.snd) url).Pairwise Precedes :=
    sortedMatches_sorted hDistinct
  refine ⟨JarInner.dedup [] (JarInner.sortedMatches lib ((w.jar.expireIfDue now).cookies.map Prod.snd) url), ?_, ?_, ?_, ?_, ?_⟩
  · intro values hPerm
    have hSeparator : utf8 "; " = [semicolon, 0x20] := by decide
    rw [JarInner.cookiesForUrl_eq, sortedMatches_perm hDistinct hPerm, headerText, hSeparator]
    simp only [List.isEmpty_iff]
    rw [List.map_congr_left fun c _ => nameValuePair_eq c]
  · exact hSorted.sublist (dedup_sublist [] _)
  · exact dedup_single [] _
  · exact fun c hc => sortedMatches_mem.mp ((dedup_sublist [] _).subset hc)
  · exact fun c hc hSends => dedup_first hSorted (sortedMatches_mem.mpr ⟨hc, hSends⟩) List.not_mem_nil

private theorem path_of_sends {c : Cookie} (h : Sends lib url c = true) : c.path <+: url.path := by
  have hPath : pathMatches url.path c.path = true := by
    rw [Sends, cookieMatches] at h
    split at h
    · cases h
    · split at h
      · exact h
      · split at h
        · exact (Bool.and_eq_true_iff.mp h).2
        · exact (Bool.and_eq_true_iff.mp h).2
  rcases pathMatch_of_pathMatches hPath with hEq | ⟨hPrefix, -⟩
  · exact hEq ▸ List.prefix_rfl
  · exact hPrefix

theorem Counted.entered_key (h : Counted lib start w) {key : CookieKey} {c : Cookie} (hc : entered lib w.jar op key = some c) :
    c.key lib = key := by
  rw [entered, Option.or_eq_some_iff] at hc
  rcases hc with hLive | ⟨-, hFirst⟩
  · have hGet : w.jar.get key = some c := (Option.filter_eq_some_iff.mp hLive).1
    exact (h.stored _ (JarInner.mem_of_lookup hGet)).1.symm
  · have hSame := List.find?_some hFirst
    exact beq_iff_eq.mp hSame

theorem Counted.get_key (h : Counted lib start w) {key : CookieKey} {c : Cookie} (hc : w.jar.get key = some c) :
    c.key lib = key := (h.stored _ (JarInner.mem_of_lookup hc)).1.symm

/-- A rewritten cookie keeps its place before or behind another one exactly where the indices agree. -/
theorem Counted.position_iff (h : Counted lib start w) (h' : Counted lib start w') (hFew : start.toNat + w'.built.length ≤ 2 ^ 64)
    {key other : CookieKey} {before after d : Cookie} (hne : key ≠ other) (hBefore : entered lib w.jar op key = some before)
    (hAfter : w'.jar.get key = some after) (hd : w'.jar.get other = some d) (hSendsBefore : Sends lib url before = true)
    (hSendsAfter : Sends lib url after = true) (hSends : Sends lib url d = true) :
    (Precedes before d ↔ [after, d].Sublist (JarInner.sortedMatches lib (w'.jar.cookies.map Prod.snd) url)) ↔
      (before.path = d.path → (before.creationIndex < d.creationIndex ↔ after.creationIndex < d.creationIndex)) := by
  have hPath : after.path = before.path :=
    congrArg CookieKey.path ((h'.get_key hAfter).trans (h.entered_key hBefore).symm)
  have hApart : after ≠ d := fun hEq => hne ((h'.get_key hAfter).symm.trans ((congrArg _ hEq).trans (h'.get_key hd)))
  have hIn {key : CookieKey} {c : Cookie} (hc : w'.jar.get key = some c) (hSends : Sends lib url c = true) :
      c ∈ JarInner.sortedMatches lib (w'.jar.cookies.map Prod.snd) url :=
    sortedMatches_mem.mpr ⟨List.mem_map.mpr ⟨_, JarInner.mem_of_lookup hc, rfl⟩, hSends⟩
  -- two paths of one length that match the same URL are the same
  have hLength : before.path.length = d.path.length ↔ before.path = d.path := by
    refine ⟨fun hEq => ?_, congrArg List.length⟩
    have hPrefix := List.prefix_of_prefix_length_le (path_of_sends hSendsBefore) (path_of_sends hSends) hEq.le
    exact hPrefix.eq_of_length hEq
  rw [pair_sublist_iff (h'.distinct hFew) (hIn hAfter hSendsAfter) (hIn hd hSends) hApart, ← hLength]
  unfold Precedes
  rw [hPath]
  omega

private theorem step_possible (h : Exact w.jar) (hPossible : isPossible w.built op = true) :
    ∃ w', w.step lib (.operation op) = some w' ∧ ∀ key, w'.jar.get key = leaves lib w.jar op key := by
  obtain ⟨jar', hJar⟩ : ∃ jar', CookieJar.step lib w.jar op = some jar' := by cases op <;> exact ⟨_, rfl⟩
  refine ⟨⟨jar', w.built ++ builds lib w.jar op⟩, ?_, get_step h hJar⟩
  rw [World.step, if_pos hPossible, hJar]
  rfl

theorem Counted.keepsPositions_iff (h : Counted lib start w) {event : Event}
    (hFew : ∀ w', w.step lib event = some w' → start.toNat + w'.built.length ≤ 2 ^ 64) :
    KeepsPositions lib w event ↔ NoOvertaking lib w event := by
  cases event with
  | elsewhere c => exact Iff.rfl
  | operation op =>
    constructor
    · intro hKeeps hPossible url key other before after d hne hBefore hAfter hd hStays hSendsBefore hSendsAfter hSends
      obtain ⟨w', hStep, hGet⟩ := step_possible h.exact hPossible
      rw [← hGet] at hAfter hStays
      exact (h.position_iff (h.step hStep) (hFew w' hStep) hne hBefore hAfter hStays hSendsBefore hSendsAfter hSends).mp
        (hKeeps w' hStep url key other before after d hne hBefore hAfter hd hStays hSendsBefore hSendsAfter hSends)
    · intro hNone w' hStep url key other before after d hne hBefore hAfter hd hStays hSendsBefore hSendsAfter hSends
      have hPossible : isPossible w.built op = true := by
        by_contra hNot
        rw [World.step, if_neg hNot] at hStep
        cases hStep
      obtain ⟨w'', hSame, hGet⟩ := show ∃ w'', w.step lib (.operation op) = some w'' ∧ ∀ key,
        w''.jar.get key = leaves lib w.jar op key from
        step_possible h.exact hPossible
      obtain rfl := Option.some.inj (hStep.symm.trans hSame)
      refine (h.position_iff (h.step hStep) (hFew w' hStep) hne hBefore hAfter hStays hSendsBefore hSendsAfter hSends).mpr ?_
      rw [hGet] at hAfter hStays
      exact hNone hPossible url key other before after d hne hBefore hAfter hd hStays hSendsBefore hSendsAfter hSends

private theorem Counted.along_iff (h : Counted lib start w) {history : List Event}
    (hFew : Along lib (fun w => start.toNat + w.built.length ≤ 2 ^ 64) (fun _ _ => True) w history) :
    Along lib (Ordered lib) (KeepsPositions lib) w history ↔ Along lib (fun _ => True) (NoOvertaking lib) w history := by
  induction history generalizing w with
  | nil => exact ⟨fun _ => trivial, fun _ => h.ordered hFew⟩
  | cons event rest ih =>
    obtain ⟨hNow, -, hRest⟩ := hFew
    have hNext : ∀ w', w.step lib event = some w' → start.toNat + w'.built.length ≤ 2 ^ 64 := by
      intro w' hStep
      cases rest with
      | nil => exact hRest w' hStep
      | cons next rest => exact (hRest w' hStep).1
    refine and_congr (iff_of_true (h.ordered hNow) trivial) (and_congr (h.keepsPositions_iff hNext) ?_)
    exact forall_congr' fun w' => forall_congr' fun hStep => ih (h.step hStep) (hRest w' hStep)

end

def FewCookies (lib : Library) (start : UInt64) (history : List Event) : Prop :=
  Along lib (fun w => start.toNat + w.built.length ≤ 2 ^ 64) (fun _ _ => True) (.fresh start) history

/-- In a history of fewer than `2 ^ 64` cookies every list that is sent is in order, and a rewritten cookie keeps its
place at every step, exactly where none overtakes another. -/
theorem sent_in_order_iff (lib : Library) (start : UInt64) (history : List Event) (hFew : FewCookies lib start history) :
    Along lib (Ordered lib) (KeepsPositions lib) (.fresh start) history ↔
      Along lib (fun _ => True) (NoOvertaking lib) (.fresh start) history :=
  (counted_fresh lib start).along_iff hFew

private def plainLibrary : Library where
  parseEncoded headerValue :=
    let (name, value) := splitOnce equals headerValue
    some { name, value }
  toLowercase := toAsciiLowercase
  isIpAddress _ := false

private def siteUrl : Url := { scheme := utf8 "https", host := some (utf8 "example.com"), path := utf8 "/" }

private def response (values : List String) : Event :=
  .operation (.updateFromResponse siteUrl 0 (values.map fun value => (utf8 value, 0)))

/-- A second value for the younger of two cookies. -/
theorem sent_in_order_iff_two :
    FewCookies plainLibrary 1 [response ["a=1", "b=2"], response ["b=3"]] ∧
      (Along plainLibrary (Ordered plainLibrary) (KeepsPositions plainLibrary) (.fresh 1)
          [response ["a=1", "b=2"], response ["b=3"]] ↔
        Along plainLibrary (fun _ => True) (NoOvertaking plainLibrary) (.fresh 1)
          [response ["a=1", "b=2"], response ["b=3"]]) := by
  have hFew : FewCookies plainLibrary 1 [response ["a=1", "b=2"], response ["b=3"]] := by
    refine ⟨by decide, trivial, fun w₁ h₁ => ?_⟩
    obtain rfl := Option.some.inj h₁
    refine ⟨by decide, trivial, fun w₂ h₂ => ?_⟩
    obtain rfl := Option.some.inj h₂
    show (1 : UInt64).toNat + _ ≤ 2 ^ 64
    decide
  exact ⟨hFew, sent_in_order_iff plainLibrary 1 _ hFew⟩

/-- A refreshed cookie goes behind the others: `a=1; b=2` becomes `b=2; a=3`. -/
theorem not_sent_in_order :
    ¬ ∀ lib start history, Along lib (Ordered lib) (KeepsPositions lib) (.fresh start) history := by
  intro hall
  obtain ⟨-, -, hNext⟩ := hall plainLibrary 1 [response ["a=1", "b=2"], response ["a=3"]]
  obtain ⟨-, hKeeps, -⟩ := hNext _ rfl
  have hIff := hKeeps _ rfl siteUrl ⟨utf8 "a", utf8 "example.com", utf8 "/"⟩ ⟨utf8 "b", utf8 "example.com", utf8 "/"⟩
    _ _ _ (by decide) rfl rfl rfl rfl (by decide) (by decide) (by decide)
  have hFirst := hIff.mp (.inr (by decide))
  exact absurd hFirst (by decide)

end Eggfetch.CookieJar
