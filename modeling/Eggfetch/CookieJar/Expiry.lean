import Eggfetch.CookieJar.Header
import Mathlib.Order.Bounds.Basic

/-! The cached minimum of the expiries. It is kept up to date by every operation, so a read
that expires only when it is due answers as one that always expires. -/
namespace Eggfetch.CookieJar
open Text Http Transition

/-- `o` is the minimum of `s`, if there is one. -/
def LeastOf {α : Type} [LE α] (s : Set α) : Option α → Prop
  | none => s = ∅
  | some t => IsLeast s t

theorem leastOf_min? (l : List Time) : LeastOf {t | t ∈ l} l.min? := by
  cases h : l.min? with
  | none =>
    obtain rfl := List.min?_eq_none_iff.mp h
    exact Set.eq_empty_of_forall_notMem fun t ht => List.not_mem_nil ht
  | some t => exact List.min?_eq_some_iff.mp h

theorem LeastOf.unique {α : Type} [PartialOrder α] {s : Set α} {o o' : Option α} (h : LeastOf s o) (h' : LeastOf s o') :
    o = o' := by
  cases o with
  | none =>
    cases o' with
    | none => rfl
    | some t =>
      rw [show s = ∅ from h] at h'
      exact absurd h'.1 (Set.notMem_empty t)
  | some t =>
    cases o' with
    | none =>
      rw [show s = ∅ from h'] at h
      exact absurd h.1 (Set.notMem_empty t)
    | some t' => exact congrArg some (IsLeast.unique h h')

namespace JarInner
variable {m : List (CookieKey × Cookie)} {key : CookieKey} {c : Cookie}

def expiries (cookies : List (CookieKey × Cookie)) : List Time :=
  cookies.filterMap fun p => p.2.persistentExpiry

def keys (cookies : List (CookieKey × Cookie)) : List CookieKey := cookies.map Prod.fst

theorem lookup_of_mem (hnodup : (keys m).Nodup) (hmem : (key, c) ∈ m) : m.lookup key = some c := by
  induction m with
  | nil => cases hmem
  | cons p m ih =>
    obtain ⟨hfresh, hnodup⟩ := List.nodup_cons.mp hnodup
    rcases List.mem_cons.mp hmem with rfl | hmem
    · simp
    · have hne : key ≠ p.1 := by
        rintro rfl
        exact hfresh (List.mem_map.mpr ⟨_, hmem, rfl⟩)
      rw [List.lookup_cons, beq_false_of_ne hne]
      exact ih hnodup hmem

theorem mem_of_lookup (h : m.lookup key = some c) : (key, c) ∈ m := by
  induction m with
  | nil => cases h
  | cons p m ih =>
    rw [List.lookup_cons] at h
    cases hkey : key == p.1 with
    | true =>
      rw [hkey] at h
      obtain rfl := Option.some.inj h
      rw [eq_of_beq hkey]
      exact List.mem_cons_self
    | false =>
      rw [hkey] at h
      exact List.mem_cons_of_mem _ (ih h)

theorem mem_expiries {t : Time} : t ∈ expiries m ↔ ∃ p ∈ m, p.2.persistentExpiry = some t := List.mem_filterMap

/-- The expiries, by the entry of one key and the others. -/
theorem mem_expiries_iff (hnodup : (keys m).Nodup) (key : CookieKey) {t : Time} :
    t ∈ expiries m ↔ (m.lookup key).bind Cookie.persistentExpiry = some t ∨ t ∈ expiries (mapRemove m key) := by
  simp only [mem_expiries, mapRemove, List.mem_filter, decide_eq_true_eq]
  constructor
  · rintro ⟨⟨key', c⟩, hmem, hexpiry⟩
    by_cases hkey : key' = key
    · subst hkey
      exact .inl (by rw [lookup_of_mem hnodup hmem]; exact hexpiry)
    · exact .inr ⟨_, ⟨hmem, hkey⟩, hexpiry⟩
  · rintro (hexpiry | ⟨p, ⟨hmem, -⟩, hexpiry⟩)
    · obtain ⟨c, hlookup, hexpiry⟩ := Option.bind_eq_some_iff.mp hexpiry
      exact ⟨_, mem_of_lookup hlookup, hexpiry⟩
    · exact ⟨p, hmem, hexpiry⟩

theorem mem_expiries_mapInsert {t : Time} :
    t ∈ expiries (mapInsert m key c) ↔ c.persistentExpiry = some t ∨ t ∈ expiries (mapRemove m key) := by
  simp only [mem_expiries, mapInsert, mapRemove, List.mem_cons, exists_eq_or_imp]

theorem keys_mapRemove (h : (keys m).Nodup) (key : CookieKey) : (keys (mapRemove m key)).Nodup :=
  h.sublist ((List.filter_sublist).map _)

theorem keys_mapInsert (h : (keys m).Nodup) (key : CookieKey) (c : Cookie) : (keys (mapInsert m key c)).Nodup := by
  refine List.nodup_cons.mpr ⟨?_, keys_mapRemove h key⟩
  simp

theorem keys_foldl_mapRemove (h : (keys m).Nodup) (toRemove : List CookieKey) :
    (keys (toRemove.foldl mapRemove m)).Nodup := by
  induction toRemove generalizing m with
  | nil => exact h
  | cons key rest ih => exact ih (keys_mapRemove h key)

theorem keys_foldl_mapInsert (lib : Library) (h : (keys m).Nodup) (toInsert : List Cookie) :
    (keys (toInsert.foldl (fun m c => mapInsert m (c.key lib) c) m)).Nodup := by
  induction toInsert generalizing m with
  | nil => exact h
  | cons c rest ih => exact ih (keys_mapInsert h _ c)

end JarInner

/-- The keys are distinct, and the cached expiry is the minimum. -/
structure Exact (jar : JarInner) : Prop where
  nodup : (JarInner.keys jar.cookies).Nodup
  minimum : jar.nextExpiry = (JarInner.expiries jar.cookies).min?

theorem Exact.leastOf {jar : JarInner} (h : Exact jar) :
    LeastOf {t | t ∈ JarInner.expiries jar.cookies} jar.nextExpiry := by
  rw [h.minimum]
  exact leastOf_min? _

theorem exact_of_leastOf {jar : JarInner} (hnodup : (JarInner.keys jar.cookies).Nodup)
    (hmin : LeastOf {t | t ∈ JarInner.expiries jar.cookies} jar.nextExpiry) : Exact jar :=
  ⟨hnodup, hmin.unique (leastOf_min? _)⟩

theorem exact_recompute {jar : JarInner} (hnodup : (JarInner.keys jar.cookies).Nodup) :
    Exact jar.recomputeNextExpiry := ⟨hnodup, rfl⟩

/-- An insertion keeps the minimum: the new cookie lowers it, or the replaced one was the
minimum and it is computed again, or it stands. -/
theorem Exact.insertCookie {jar : JarInner} (h : Exact jar) (key : CookieKey) (c : Cookie) :
    Exact (jar.insertCookie key c) := by
  have hnodup := JarInner.keys_mapInsert h.nodup key c
  have hmin := h.leastOf
  have hold : ∀ t, t ∈ JarInner.expiries jar.cookies ↔
      (jar.cookies.lookup key).bind Cookie.persistentExpiry = some t ∨
        t ∈ JarInner.expiries (JarInner.mapRemove jar.cookies key) := fun t =>
    JarInner.mem_expiries_iff h.nodup key
  have hnew : ∀ t, t ∈ JarInner.expiries (JarInner.mapInsert jar.cookies key c) ↔
      c.persistentExpiry = some t ∨ t ∈ JarInner.expiries (JarInner.mapRemove jar.cookies key) := fun t =>
    JarInner.mem_expiries_mapInsert
  unfold JarInner.insertCookie
  dsimp only [JarInner.get]
  cases hcurrent : jar.nextExpiry with
  | none =>
    rw [hcurrent] at hmin
    have hempty : ∀ t, t ∉ JarInner.expiries (JarInner.mapRemove jar.cookies key) := fun t ht =>
      Set.eq_empty_iff_forall_notMem.mp hmin t ((hold t).mpr (.inr ht))
    cases hexpiry : c.persistentExpiry with
    | none =>
      refine exact_of_leastOf hnodup (Set.eq_empty_iff_forall_notMem.mpr fun t ht => ?_)
      rcases (hnew t).mp ht with hsome | ht
      · cases hexpiry.symm.trans hsome
      · exact hempty t ht
    | some expiry =>
      refine exact_of_leastOf hnodup ⟨(hnew expiry).mpr (.inl hexpiry), fun t ht => ?_⟩
      rcases (hnew t).mp ht with hsome | ht
      · exact (Option.some.inj (hexpiry.symm.trans hsome)).le
      · exact absurd ht (hempty t)
  | some current =>
    rw [hcurrent] at hmin
    obtain ⟨hmem, hle⟩ := hmin
    have hrest : ∀ t ∈ JarInner.expiries (JarInner.mapRemove jar.cookies key), current ≤ t := fun t ht =>
      hle ((hold t).mpr (.inr ht))
    cases hexpiry : c.persistentExpiry with
    | none =>
      simp only [Option.any_none, Option.all_none, Bool.false_eq_true, if_false, and_true]
      split_ifs with hreplaced
      · exact exact_recompute hnodup
      · refine exact_of_leastOf hnodup ⟨(hnew current).mpr (.inr ?_), fun t ht => ?_⟩
        · exact ((hold current).mp hmem).resolve_left hreplaced
        · rcases (hnew t).mp ht with hsome | ht
          · cases hexpiry.symm.trans hsome
          · exact hrest t ht
    | some expiry =>
      have hcases : ∀ t, c.persistentExpiry = some t → t = expiry := fun t hsome =>
        Option.some.inj (hsome.symm.trans hexpiry)
      simp only [Option.any_some, Option.all_some, decide_eq_true_eq]
      split_ifs with hlower hreplaced
      · refine exact_of_leastOf hnodup ⟨(hnew expiry).mpr (.inl hexpiry), fun t ht => ?_⟩
        rcases (hnew t).mp ht with hsome | ht
        · exact (hcases t hsome).ge
        · exact hlower.le.trans (hrest t ht)
      · exact exact_recompute hnodup
      · refine exact_of_leastOf hnodup ⟨(hnew current).mpr ?_, fun t ht => ?_⟩
        · -- the replaced cookie was not the only minimum, or the new one has the same expiry
          rcases (hold current).mp hmem with hreplaced' | hkept
          · have hge : ¬ current < expiry := fun hlt => hreplaced ⟨hreplaced', hlt⟩
            exact .inl (by rw [hexpiry, le_antisymm (not_lt.mp hge) (not_lt.mp hlower)])
          · exact .inr hkept
        · rcases (hnew t).mp ht with hsome | ht
          · exact hcases t hsome ▸ not_lt.mp hlower
          · exact hrest t ht

theorem Exact.removeCookie {jar : JarInner} (h : Exact jar) (key : CookieKey) : Exact (jar.removeCookie key) := by
  have hnodup := JarInner.keys_mapRemove h.nodup key
  have hmin := h.leastOf
  have hold : ∀ t, t ∈ JarInner.expiries jar.cookies ↔
      (jar.cookies.lookup key).bind Cookie.persistentExpiry = some t ∨
        t ∈ JarInner.expiries (JarInner.mapRemove jar.cookies key) := fun t =>
    JarInner.mem_expiries_iff h.nodup key
  unfold JarInner.removeCookie
  simp only
  split
  · exact exact_recompute hnodup
  · rename_i hremoved
    refine exact_of_leastOf hnodup ?_
    dsimp only
    cases hcurrent : jar.nextExpiry with
    | none =>
      rw [hcurrent] at hmin
      refine Set.eq_empty_iff_forall_notMem.mpr fun t ht => ?_
      exact Set.eq_empty_iff_forall_notMem.mp hmin t ((hold t).mpr (.inr ht))
    | some current =>
      rw [hcurrent] at hmin hremoved
      exact ⟨((hold current).mp hmin.1).resolve_left hremoved, fun t ht => hmin.2 ((hold t).mpr (.inr ht))⟩

theorem Exact.expireStale {jar : JarInner} (h : Exact jar) (now : Time) : Exact (jar.expireStale now) :=
  exact_recompute (h.nodup.sublist ((List.filter_sublist).map _))

/-- A jar that is not due has nothing to expire. -/
theorem Exact.expireIfDue_eq {jar : JarInner} (h : Exact jar) (now : Time) :
    jar.expireIfDue now = jar.expireStale now := by
  unfold JarInner.expireIfDue
  split_ifs with hdue
  · rfl
  · have hlive : ∀ p ∈ jar.cookies, (!p.2.isExpired now) = true := by
      intro p hp
      rw [Cookie.isExpired]
      cases hexpiry : p.2.persistentExpiry with
      | none => rfl
      | some expiry =>
        have hmem : expiry ∈ JarInner.expiries jar.cookies := JarInner.mem_expiries.mpr ⟨p, hp, hexpiry⟩
        have hmin := h.leastOf
        cases hcurrent : jar.nextExpiry with
        | none =>
          rw [hcurrent] at hmin
          exact absurd hmem (Set.eq_empty_iff_forall_notMem.mp hmin expiry)
        | some current =>
          rw [hcurrent] at hmin hdue
          have hlt : now < current := by simpa using hdue
          simpa using hlt.trans_le (hmin.2 hmem)
    unfold JarInner.expireStale JarInner.recomputeNextExpiry
    rw [List.filter_eq_self.mpr hlive]
    exact congrArg (fun o => { jar with nextExpiry := o }) h.minimum

theorem Exact.updateFromResponse {jar : JarInner} (lib : Library) (h : Exact jar) (url : Url) (now : Time)
    (headers : List (Str × Time)) : Exact (jar.updateFromResponse lib url now headers) := by
  unfold JarInner.updateFromResponse
  dsimp only
  split_ifs
  · exact ⟨h.nodup, h.minimum⟩
  · exact exact_recompute
      (JarInner.keys_foldl_mapInsert lib (JarInner.keys_foldl_mapRemove h.nodup _) _)

theorem Exact.set {jar jar' : JarInner} {lib : Library} (h : Exact jar) {now : Time} {c : Cookie}
    (hset : jar.set lib now c = .ok jar') : Exact jar' := by
  unfold JarInner.set at hset
  split at hset
  · cases hset
  · split at hset
    · cases hset
    · split at hset
      · obtain rfl := Except.ok.inj hset
        exact h.removeCookie _
      · obtain rfl := Except.ok.inj hset
        exact h.insertCookie _ c

theorem Exact.setDefaultCookie {jar jar' : JarInner} {lib : Library} (h : Exact jar) {name value : Str}
    (hset : jar.setDefaultCookie lib name value = .ok jar') : Exact jar' := by
  unfold JarInner.setDefaultCookie at hset
  split at hset
  · cases hset
  · split at hset
    · cases hset
    · obtain rfl := Except.ok.inj hset
      have hcounted : Exact { jar with creationCounter := nextCreation jar.creationCounter } := ⟨h.nodup, h.minimum⟩
      exact hcounted.insertCookie _ _

theorem Exact.step {jar jar' : JarInner} {lib : Library} {op : Operation} (h : Exact jar)
    (hstep : step lib jar op = some jar') : Exact jar' := by
  cases op with
  | updateFromResponse url now headers =>
    obtain rfl := Option.some.inj hstep
    exact h.updateFromResponse lib url now headers
  | set now c =>
    obtain rfl := Option.some.inj hstep
    cases hset : jar.set lib now c with
    | error e => exact h
    | ok jar' => exact h.set hset
  | setDefaultCookie name value =>
    obtain rfl := Option.some.inj hstep
    cases hset : jar.setDefaultCookie lib name value with
    | error e => exact h
    | ok jar' => exact h.setDefaultCookie hset
  | delete name domain path =>
    obtain rfl := Option.some.inj hstep
    exact h.removeCookie _
  | clear =>
    obtain rfl := Option.some.inj hstep
    exact ⟨List.nodup_nil, rfl⟩
  | expireStale now =>
    obtain rfl := Option.some.inj hstep
    exact h.expireStale now
  | expireIfDue now =>
    obtain rfl := Option.some.inj hstep
    rw [h.expireIfDue_eq]
    exact h.expireStale now

theorem exact_new (creationCounter : Nat) : Exact (new creationCounter) := ⟨List.nodup_nil, rfl⟩

private theorem exact_reachable {lib : Library} {creationCounter : Nat} {jar : JarInner}
    (h : Reachable (step lib) (new creationCounter) jar) : Exact jar :=
  h.invariant (exact_new creationCounter) fun _ hexact _ hstep => hexact.step hstep

inductive Query where
  | cookiesForUrl (url : Url)
  | allCookies
  | get (name : Str) (domain path : Option Str)

inductive Answer where
  | header (text : Option Str)
  | cookies (cookies : List Cookie)
  | cookie (c : Option Cookie)

def JarInner.getCookie (lib : Library) (jar : JarInner) (values : List Cookie) (name : Str) :
    Option Str → Option Str → Option Cookie
  | some domain, some path => jar.get (CookieKey.new lib name domain path)
  | _, _ =>
    match values.filter fun c => c.name = name with
    | [c] => some c
    | _ => none

/-- What a query reads after the expiry; `order` is the order in which the map is iterated. -/
def answer (lib : Library) (order : List Cookie → List Cookie) (jar : JarInner) : Query → Answer
  | .cookiesForUrl url => .header (JarInner.cookiesForUrl lib (order (jar.cookies.map Prod.snd)) url)
  | .allCookies => .cookies (order (jar.cookies.map Prod.snd))
  | .get name domain path => .cookie (jar.getCookie lib (order (jar.cookies.map Prod.snd)) name domain path)

inductive Action where
  | operation (op : Operation)
  | query (now : Time) (q : Query)

def answers (lib : Library) (order : List Cookie → List Cookie) (expire : JarInner → Time → JarInner) :
    JarInner → List Action → List Answer
  | _, [] => []
  | jar, .operation op :: rest => answers lib order expire ((step lib jar op).getD jar) rest
  | jar, .query now q :: rest =>
    let jar := expire jar now
    answer lib order jar q :: answers lib order expire jar rest

/-- The cached minimum is exact, and expiry when it is due is expiry at once. -/
structure ExpiryExact (lib : Library) (creationCounter : Nat) : Prop where
  minimum : ∀ jar, Reachable (step lib) (new creationCounter) jar →
    jar.nextExpiry = (jar.cookies.filterMap fun p => p.2.persistentExpiry).min?
  eager : ∀ order actions,
    answers lib order JarInner.expireIfDue (new creationCounter) actions =
      answers lib order JarInner.expireStale (new creationCounter) actions
  /-- A query at `now` reads no cookie whose expiry has come. -/
  live : ∀ jar, Reachable (step lib) (new creationCounter) jar → ∀ now, ∀ p ∈ (jar.expireIfDue now).cookies,
    ∀ expiry ∈ p.2.persistentExpiry, now < expiry

theorem Exact.answers_eq {lib : Library} {jar : JarInner} (h : Exact jar) (order : List Cookie → List Cookie)
    (actions : List Action) :
    answers lib order JarInner.expireIfDue jar actions = answers lib order JarInner.expireStale jar actions := by
  induction actions generalizing jar with
  | nil => rfl
  | cons action rest ih =>
    cases action with
    | operation op =>
      obtain ⟨jar', hstep⟩ : ∃ jar', CookieJar.step lib jar op = some jar' := by cases op <;> exact ⟨_, rfl⟩
      simp only [answers, hstep, Option.getD_some]
      exact ih (h.step hstep)
    | query now q =>
      simp only [answers, h.expireIfDue_eq]
      exact congrArg _ (ih (h.expireStale now))

theorem Exact.live {jar : JarInner} (h : Exact jar) (now : Time) :
    ∀ p ∈ (jar.expireIfDue now).cookies, ∀ expiry ∈ p.2.persistentExpiry, now < expiry := by
  rw [h.expireIfDue_eq]
  intro p hp expiry hexpiry
  have hlive := (List.mem_filter.mp hp).2
  rw [Cookie.isExpired, Option.mem_def.mp hexpiry] at hlive
  simpa using hlive

/-- In every run of the jar, lazy expiry cannot be told from eager expiry. -/
theorem expiry_exact (lib : Library) (creationCounter : Nat) : ExpiryExact lib creationCounter where
  minimum := fun _ h => (exact_reachable h).minimum
  eager := fun order actions => (exact_new creationCounter).answers_eq order actions
  live := fun _ h => (exact_reachable h).live

end Eggfetch.CookieJar
