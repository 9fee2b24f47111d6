import Eggfetch.CookieJar.Header

/-! The `Set-Cookie` fields of one response. They are sorted into removals and insertions,
and the removals are applied first: a deletion after a set of the same cookie is lost. -/
namespace Eggfetch.CookieJar
open Text Http

def SetsKey (lib : Library) (url : Url) (now : Time) (headers : List (Str × Time)) (key : CookieKey) : Prop :=
  ∃ p ∈ headers, ∃ c ∈ parseSetCookie lib 0 p.2 p.1 url (url.host.getD []),
    c.isExpired now = false ∧ c.key lib = key

def DeletesKey (lib : Library) (url : Url) (now : Time) (headers : List (Str × Time)) (key : CookieKey) : Prop :=
  ∃ p ∈ headers, ∃ c ∈ parseSetCookie lib 0 p.2 p.1 url (url.host.getD []),
    c.isExpired now = true ∧ c.key lib = key

/-- The header values take effect as if each list came with a response of its own. -/
def InOrder (lib : Library) (jar : JarInner) (url : Url) (now : Time) (first second : List (Str × Time)) : Prop :=
  ∀ key, (jar.updateFromResponse lib url now (first ++ second)).get key =
    ((jar.updateFromResponse lib url now first).updateFromResponse lib url now second).get key

section
variable {lib : Library} {m : List (CookieKey × Cookie)} {key : CookieKey}

theorem lookup_filter (key : CookieKey) (other : CookieKey) :
    (m.filter fun p : CookieKey × Cookie => p.1 ≠ other).lookup key = if key = other then none else m.lookup key := by
  induction m with
  | nil => simp
  | cons p m ih =>
    by_cases hother : p.1 = other
    · rw [List.filter_cons_of_neg (by simpa using hother), ih]
      by_cases hkey : key = other
      · simp [hkey]
      · have hne : (key == p.1) = false := by simpa [hother] using hkey
        rw [if_neg hkey, if_neg hkey, List.lookup_cons, hne]
    · rw [List.filter_cons_of_pos (by simpa using hother), List.lookup_cons, List.lookup_cons, ih]
      by_cases hkey : key = other
      · subst hkey
        have hne : (key == p.1) = false := beq_false_of_ne fun heq => hother heq.symm
        simp [hne]
      · simp [hkey]

theorem lookup_mapInsert (other : CookieKey) (c : Cookie) :
    (JarInner.mapInsert m other c).lookup key = if key = other then some c else m.lookup key := by
  rw [JarInner.mapInsert, List.lookup_cons, lookup_filter]
  by_cases hkey : key = other
  · simp [hkey]
  · rw [beq_false_of_ne hkey, if_neg hkey, if_neg hkey]

theorem lookup_foldl_mapRemove (toRemove : List CookieKey) :
    (toRemove.foldl JarInner.mapRemove m).lookup key = if key ∈ toRemove then none else m.lookup key := by
  induction toRemove generalizing m with
  | nil => simp
  | cons other rest ih =>
    rw [List.foldl_cons, ih, JarInner.mapRemove, lookup_filter]
    by_cases hrest : key ∈ rest <;> by_cases hkey : key = other <;> simp [hrest, hkey]

private theorem lookup_foldl_mapInsert (toInsert : List Cookie) :
    (toInsert.foldl (fun m c => JarInner.mapInsert m (c.key lib) c) m).lookup key =
      ((toInsert.filter fun c => c.key lib = key).getLast?).or (m.lookup key) := by
  induction toInsert generalizing m with
  | nil => rfl
  | cons c rest ih =>
    rw [List.foldl_cons, ih, lookup_mapInsert]
    by_cases hkey : c.key lib = key
    · rw [List.filter_cons_of_pos (by simpa using hkey), if_pos hkey.symm]
      cases hlast : (rest.filter fun c => c.key lib = key).getLast? with
      | none =>
        rw [List.getLast?_eq_none_iff.mp hlast]
        rfl
      | some last =>
        obtain ⟨init, hinit⟩ := List.getLast?_eq_some_iff.mp hlast
        rw [hinit, ← List.cons_append, List.getLast?_concat]
        rfl
    · rw [List.filter_cons_of_neg (by simpa using hkey), if_neg fun h => hkey h.symm]

end

section
variable {lib : Library} {url : Url} {host : Str} {now : Time}

theorem collect_append (first second : List (Str × Time)) (counter : Nat) :
    collect lib url host now (first ++ second) counter =
      ((collect lib url host now first counter).1 ++
          (collect lib url host now second (collect lib url host now first counter).2.2).1,
        (collect lib url host now first counter).2.1 ++
          (collect lib url host now second (collect lib url host now first counter).2.2).2.1,
        (collect lib url host now second (collect lib url host now first counter).2.2).2.2) := by
  induction first generalizing counter with
  | nil => rfl
  | cons p first ih =>
    rw [List.cons_append, collect, collect]
    cases parseSetCookie lib counter p.2 p.1 url host with
    | none => exact ih counter
    | some c =>
      dsimp only
      rw [ih]
      cases c.isExpired now <;> rfl

/-- The index is all that a counter changes of a parsed cookie. -/
theorem parseSetCookie_index (counter : Nat) (parseNow : Time) (headerValue : Str) :
    parseSetCookie lib counter parseNow headerValue url host =
      (parseSetCookie lib 0 parseNow headerValue url host).map fun c => { c with creationIndex := counter } := by
  unfold parseSetCookie
  cases lib.parseEncoded headerValue with
  | none => rfl
  | some parsed =>
    simp only [Option.bind_eq_bind, Option.bind_some]
    cases isValidCookieName parsed.name with
    | false => rfl
    | true =>
      simp only [Bool.not_true, Bool.false_eq_true, if_false]
      cases cookieDomain lib parsed host <;> rfl

variable (lib now) in
private theorem mem_collect_iff (url : Url) (headers : List (Str × Time)) (counter : Nat) (key : CookieKey) :
    ((∃ c ∈ (collect lib url (url.host.getD []) now headers counter).1, c.key lib = key) ↔
        SetsKey lib url now headers key) ∧
      (key ∈ (collect lib url (url.host.getD []) now headers counter).2.1 ↔
        DeletesKey lib url now headers key) := by
  induction headers generalizing counter with
  | nil => simp [collect, SetsKey, DeletesKey]
  | cons p headers ih =>
    rw [collect, parseSetCookie_index]
    simp only [SetsKey, DeletesKey, List.mem_cons, exists_eq_or_imp]
    cases hparse : parseSetCookie lib 0 p.2 p.1 url (url.host.getD []) with
    | none => simpa [SetsKey, DeletesKey] using ih counter
    | some c =>
      obtain ⟨hsets, hdeletes⟩ := ih (nextCreation counter)
      have hexpired : Cookie.isExpired { c with creationIndex := counter } now = c.isExpired now := rfl
      have hkey : Cookie.key lib { c with creationIndex := counter } = c.key lib := rfl
      simp only [Option.map_some, hexpired]
      cases hnow : c.isExpired now with
      | true =>
        simp only [if_true, List.mem_cons, hkey]
        constructor
        · rw [hsets]
          simp [SetsKey, hnow]
        · rw [hdeletes]
          simp [DeletesKey, hnow, eq_comm (a := key) (b := c.key lib)]
      | false =>
        simp only [Bool.false_eq_true, if_false, List.mem_cons, exists_eq_or_imp, hkey]
        constructor
        · rw [hsets]
          simp [SetsKey, hnow]
        · rw [hdeletes]
          simp [DeletesKey, hnow]

end

section
variable {lib : Library} {jar : JarInner} {url : Url} {now : Time}

/-- What a response leaves under a key. -/
theorem get_updateFromResponse (headers : List (Str × Time)) (key : CookieKey) :
    (jar.updateFromResponse lib url now headers).get key =
      (((collect lib url (url.host.getD []) now headers jar.creationCounter).1.filter
          fun c => c.key lib = key).getLast?).or
        (if key ∈ (collect lib url (url.host.getD []) now headers jar.creationCounter).2.1 then none
          else jar.get key) := by
  unfold JarInner.updateFromResponse
  dsimp only
  split
  · rename_i hempty
    simp only [Bool.and_eq_true, List.isEmpty_iff] at hempty
    rw [hempty.1, hempty.2]
    rfl
  · exact (lookup_foldl_mapInsert _).trans (congrArg _ (lookup_foldl_mapRemove _))

theorem creationCounter_updateFromResponse (headers : List (Str × Time)) :
    (jar.updateFromResponse lib url now headers).creationCounter =
      (collect lib url (url.host.getD []) now headers jar.creationCounter).2.2 := by
  unfold JarInner.updateFromResponse
  dsimp only
  split <;> rfl

end

private theorem last_isSome {lib : Library} {cs : List Cookie} {key : CookieKey} :
    (cs.filter fun c => c.key lib = key).getLast?.isSome ↔ ∃ c ∈ cs, c.key lib = key := by
  rw [Option.isSome_iff_ne_none, Ne, List.getLast?_eq_none_iff]
  simp [List.filter_eq_nil_iff]

/-- Two lists of header values take effect in order exactly if no cookie that the first sets
is deleted by the second, unless the second sets it too. -/
theorem in_order_iff (lib : Library) (jar : JarInner) (url : Url) (now : Time) (first second : List (Str × Time)) :
    InOrder lib jar url now first second ↔
      ∀ key, SetsKey lib url now first key → DeletesKey lib url now second key → SetsKey lib url now second key := by
  unfold InOrder
  refine forall_congr' fun key => ?_
  obtain ⟨hsets, -⟩ := mem_collect_iff lib now url first jar.creationCounter key
  obtain ⟨hsets', hdeletes'⟩ := mem_collect_iff lib now url second
    (collect lib url (url.host.getD []) now first jar.creationCounter).2.2 key
  simp only [get_updateFromResponse, creationCounter_updateFromResponse, collect_append, List.filter_append,
    List.getLast?_append, List.mem_append, ← hsets, ← hsets', ← hdeletes', ← last_isSome]
  generalize collect lib url (url.host.getD []) now first jar.creationCounter = a
  generalize collect lib url (url.host.getD []) now second a.2.2 = b
  cases (b.1.filter fun c => c.key lib = key).getLast? with
  | some c => simp
  | none =>
    -- nothing in the second list sets the cookie
    by_cases hremoved : key ∈ b.2.1
    · cases (a.1.filter fun c => c.key lib = key).getLast? <;> simp [hremoved]
    · cases (a.1.filter fun c => c.key lib = key).getLast? <;> simp [hremoved]

/-- What the parser returns for a session cookie and for its deletion. -/
private def sessionLibrary : Library where
  parseEncoded := fun headerValue =>
    if headerValue = utf8 "sid=1" then some { name := utf8 "sid", value := utf8 "1" }
    else if headerValue = utf8 "sid=; Max-Age=0" then
      some { name := utf8 "sid", value := [], maxAge := some 0 }
    else none
  toLowercase := toAsciiLowercase
  isIpAddress := fun _ => false

private def loginUrl : Url := { scheme := utf8 "https", host := some (utf8 "example.com"), path := utf8 "/" }

/-- A cookie that one response sets and deletes stays in the jar. -/
theorem deletion_lost :
    ¬ ∀ (lib : Library) (jar : JarInner) (url : Url) (now : Time) (first second : List (Str × Time)),
      InOrder lib jar url now first second := by
  intro hall
  have hsame := hall sessionLibrary (new 1) loginUrl (10 ^ 18) [(utf8 "sid=1", 10 ^ 18)]
    [(utf8 "sid=; Max-Age=0", 10 ^ 18)] ⟨utf8 "sid", utf8 "example.com", utf8 "/"⟩
  exact absurd hsame (by decide)

end Eggfetch.CookieJar
