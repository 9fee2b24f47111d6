import Eggfetch.CookieJar.Model
import Eggfetch.Http.Headers
import Eggfetch.Transition.Runs

/-! The `Cookie` header written from the jar reads back as the matched cookies, in
every jar whose stored values are cookie octets and whose names have no `=`. The
server-driven path does not check the percent-decoded value, so a jar can hold others. -/
namespace Eggfetch.CookieJar
open Text Http Transition

def semicolon : UInt8 := 0x3b
def equals : UInt8 := 0x3d

/-- A jar and every header read from it are in order. -/
structure Sound (lib : Library) (jar : JarInner) : Prop where
  stored : ∀ p ∈ jar.cookies, isValidCookieName p.2.name = true ∧ isValidCookieValue p.2.value = true
  absent : ∀ now values url, values.Perm ((jar.expireIfDue now).cookies.map Prod.snd) →
    (JarInner.cookiesForUrl lib values url = none ↔ JarInner.dedup [] (JarInner.sortedMatches lib values url) = [])
  header : ∀ now values url text, values.Perm ((jar.expireIfDue now).cookies.map Prod.snd) →
    JarInner.cookiesForUrl lib values url = some text → validateHeaderValue text = true ∧
      (splitOnPair semicolon 0x20 text).map (splitOnce equals) =
        (JarInner.dedup [] (JarInner.sortedMatches lib values url)).map fun c => (c.name, c.value)

def Cookie.isClean (c : Cookie) : Bool :=
  isValidCookieName c.name && isValidCookieValue c.value && !c.name.contains equals

def ParsedCookie.decodesClean (parsed : ParsedCookie) : Bool :=
  isValidCookieValue parsed.value && !parsed.name.contains equals

/-- A parsed cookie that `update_from_response` stores. -/
def ParsedCookie.isStored (lib : Library) (responseUrl : Url) (now parseNow : Time)
    (parsed : ParsedCookie) : Bool :=
  let expiration := resolveExpiration parseNow parsed
  isValidCookieName parsed.name && (cookieDomain lib parsed (responseUrl.host.getD [])).isSome &&
    !(if expiration.1 then expiration.2 else none).any (· ≤ now)

/-- No operand of the operation puts an unclean cookie into the jar. -/
def storesClean (lib : Library) (_ : JarInner) : Operation → Bool
  | .updateFromResponse responseUrl now headers => headers.all fun p =>
    match lib.parseEncoded p.1 with
    | none => true
    | some parsed => !parsed.isStored lib responseUrl now p.2 || parsed.decodesClean
  | .set now c =>
    !(isValidCookieName c.name && isValidCookieValue c.value && !c.isExpired now) || !c.name.contains equals
  | .setDefaultCookie name value =>
    !(isValidCookieName name && isValidCookieValue value) || !name.contains equals
  | _ => true

private theorem parseSetCookie_some {lib : Library} {n : Nat} {now : Time} {header host : Str} {url : Url}
    {c : Cookie} (h : parseSetCookie lib n now header url host = some c) :
    ∃ parsed, lib.parseEncoded header = some parsed ∧ isValidCookieName parsed.name = true ∧
      (cookieDomain lib parsed host).isSome ∧ c.name = parsed.name ∧ c.value = parsed.value ∧
      (c.persistent, c.expires) = resolveExpiration now parsed := by
  unfold parseSetCookie at h
  obtain ⟨parsed, hparsed, h⟩ := Option.bind_eq_some_iff.mp h
  cases hname : isValidCookieName parsed.name with
  | false => simp [hname] at h
  | true =>
    simp only [hname, Bool.not_true, Bool.false_eq_true, if_false] at h
    obtain ⟨domain, hdomain, h⟩ := Option.bind_eq_some_iff.mp h
    cases h
    exact ⟨parsed, hparsed, hname, by rw [hdomain]; rfl, rfl, rfl, rfl⟩

theorem mem_collect {lib : Library} {url : Url} {host : Str} {now : Time}
    {headers : List (Str × Time)} {n : Nat} {c : Cookie}
    (h : c ∈ (collect lib url host now headers n).1) :
    c.isExpired now = false ∧ ∃ p ∈ headers, ∃ m, parseSetCookie lib m p.2 p.1 url host = some c := by
  induction headers generalizing n with
  | nil => cases h
  | cons p rest ih =>
    obtain ⟨header, parseNow⟩ := p
    simp only [collect] at h
    split at h
    · obtain ⟨hexp, q, hq, hparse⟩ := ih h
      exact ⟨hexp, q, List.mem_cons_of_mem _ hq, hparse⟩
    · rename_i d hd
      split at h
      · obtain ⟨hexp, q, hq, hparse⟩ := ih h
        exact ⟨hexp, q, List.mem_cons_of_mem _ hq, hparse⟩
      · rename_i hlive
        rcases List.mem_cons.mp h with rfl | h
        · exact ⟨by simpa using hlive, _, List.mem_cons_self, n, hd⟩
        · obtain ⟨hexp, q, hq, hparse⟩ := ih h
          exact ⟨hexp, q, List.mem_cons_of_mem _ hq, hparse⟩

namespace JarInner
variable {m : List (CookieKey × Cookie)} {key : CookieKey} {c : Cookie} {p : CookieKey × Cookie}

theorem mem_mapInsert (h : p ∈ mapInsert m key c) : p ∈ m ∨ p = (key, c) := by
  rcases List.mem_cons.mp h with rfl | h
  · exact .inr rfl
  · exact .inl (List.mem_filter.mp h).1

theorem mem_foldl_remove {keys : List CookieKey} (h : p ∈ keys.foldl mapRemove m) : p ∈ m := by
  induction keys generalizing m with
  | nil => exact h
  | cons key keys ih => exact (List.mem_filter.mp (ih h)).1

theorem mem_foldl_insert {lib : Library} {cs : List Cookie}
    (h : p ∈ cs.foldl (fun m c => mapInsert m (c.key lib) c) m) :
    p ∈ m ∨ (p.1 = p.2.key lib ∧ p.2 ∈ cs) := by
  induction cs generalizing m with
  | nil => exact .inl h
  | cons c cs ih =>
    rcases ih h with h | h
    · rcases mem_mapInsert h with h | rfl
      · exact .inl h
      · exact .inr ⟨rfl, List.mem_cons_self⟩
    · exact .inr ⟨h.1, List.mem_cons_of_mem _ h.2⟩

theorem insertCookie_cookies (jar : JarInner) :
    (jar.insertCookie key c).cookies = mapInsert jar.cookies key c := by
  unfold insertCookie
  simp only
  split
  · rfl
  · split
    · rfl
    · split <;> rfl
  · rfl

theorem removeCookie_cookies (jar : JarInner) :
    (jar.removeCookie key).cookies = mapRemove jar.cookies key := by
  unfold removeCookie
  simp only
  split <;> rfl

theorem mem_updateFromResponse {lib : Library} {jar : JarInner} {url : Url} {now : Time}
    {headers : List (Str × Time)} (h : p ∈ (jar.updateFromResponse lib url now headers).cookies) :
    p ∈ jar.cookies ∨ (p.1 = p.2.key lib ∧
      p.2 ∈ (collect lib url (url.host.getD []) now headers jar.creationCounter).1) := by
  unfold updateFromResponse at h
  simp only at h
  split at h
  · exact .inl h
  · exact (mem_foldl_insert h).imp_left mem_foldl_remove

theorem mem_expireIfDue {jar : JarInner} {now : Time} (h : p ∈ (jar.expireIfDue now).cookies) :
    p ∈ jar.cookies := by
  unfold expireIfDue at h
  split at h
  · exact (List.mem_filter.mp h).1
  · exact h

end JarInner

def Clean (jar : JarInner) : Prop := ∀ p ∈ jar.cookies, p.2.isClean = true

theorem Clean.update {lib : Library} {jar : JarInner} {url : Url} {now : Time}
    {headers : List (Str × Time)} (h : Clean jar)
    (hok : storesClean lib jar (.updateFromResponse url now headers) = true) :
    Clean (jar.updateFromResponse lib url now headers) := by
  intro p hp
  rcases JarInner.mem_updateFromResponse hp with hp | ⟨-, hp⟩
  · exact h p hp
  · obtain ⟨hlive, q, hq, n, hparse⟩ := mem_collect hp
    obtain ⟨parsed, hparsed, hname, hdomain, hn, hv, hexp⟩ := parseSetCookie_some hparse
    have hthis := List.all_eq_true.mp hok q hq
    have hper : p.2.persistent = (resolveExpiration q.2 parsed).1 := congrArg Prod.fst hexp
    have hex : p.2.expires = (resolveExpiration q.2 parsed).2 := congrArg Prod.snd hexp
    rw [Cookie.isExpired, Cookie.persistentExpiry, hper, hex] at hlive
    simp only [hparsed, ParsedCookie.isStored, ParsedCookie.decodesClean, hname, hdomain, hlive] at hthis
    simpa [Cookie.isClean, hn, hv, hname] using hthis

theorem Clean.insert {jar : JarInner} {key : CookieKey} {c : Cookie} (h : Clean jar)
    (hc : c.isClean = true) : Clean (jar.insertCookie key c) := by
  intro p hp
  rw [JarInner.insertCookie_cookies] at hp
  rcases JarInner.mem_mapInsert hp with hp | rfl
  · exact h p hp
  · exact hc

theorem Clean.remove {jar : JarInner} (h : Clean jar) (key : CookieKey) : Clean (jar.removeCookie key) := by
  intro p hp
  rw [JarInner.removeCookie_cookies] at hp
  exact h p (List.mem_filter.mp hp).1

theorem Clean.set {lib : Library} {jar : JarInner} {now : Time} {c : Cookie} (h : Clean jar)
    (hok : storesClean lib jar (.set now c) = true) :
    Clean ((jar.set lib now c).toOption.getD jar) := by
  unfold JarInner.set
  split
  · exact h
  · rename_i hname
    split
    · exact h
    · rename_i hvalue
      split
      · exact h.remove _
      · rename_i hlive
        refine h.insert ?_
        simp only [Bool.not_eq_true, Bool.not_eq_false'] at hname hvalue hlive
        simpa [storesClean, Cookie.isClean, hname, hvalue, hlive] using hok

theorem Clean.setDefault {lib : Library} {jar : JarInner} {name value : Str} (h : Clean jar)
    (hok : storesClean lib jar (.setDefaultCookie name value) = true) :
    Clean ((jar.setDefaultCookie lib name value).toOption.getD jar) := by
  unfold JarInner.setDefaultCookie
  split
  · exact h
  · rename_i hname
    split
    · exact h
    · rename_i hvalue
      have hcounter : Clean { jar with creationCounter := nextCreation jar.creationCounter } := h
      refine hcounter.insert ?_
      simp only [Bool.not_eq_true, Bool.not_eq_false'] at hname hvalue
      simpa [storesClean, Cookie.isClean, hname, hvalue] using hok

theorem Clean.expireIfDue {jar : JarInner} (h : Clean jar) (now : Time) : Clean (jar.expireIfDue now) :=
  fun p hp => h p (JarInner.mem_expireIfDue hp)

theorem Clean.step {lib : Library} {jar jar' : JarInner} {op : Operation} (h : Clean jar)
    (hok : storesClean lib jar op = true) (hs : step lib jar op = some jar') : Clean jar' := by
  cases op with
  | updateFromResponse url now headers => cases hs; exact h.update hok
  | set now c => cases hs; exact h.set hok
  | setDefaultCookie name value => cases hs; exact h.setDefault hok
  | delete name domain path => cases hs; exact h.remove _
  | clear =>
    cases hs
    intro _ h
    cases h
  | expireStale now => cases hs; exact fun p hp => h p (List.mem_filter.mp hp).1
  | expireIfDue now => cases hs; exact h.expireIfDue now

namespace JarInner

private theorem utf8_separator : utf8 "; " = [semicolon, 0x20] := by decide

private theorem utf8_equals : utf8 "=" = [equals] := by decide

def piece (c : Cookie) : Str := c.name ++ utf8 "=" ++ c.value

private theorem joinLoop_append {seen : List (Str × Str)} {result : Str} (hne : result ≠ [])
    (cs : List Cookie) :
    joinLoop seen result cs = result ++ (dedup seen cs).flatMap fun c => [semicolon, 0x20] ++ piece c := by
  induction cs generalizing seen result with
  | nil => simp [joinLoop, dedup]
  | cons c cs ih =>
    unfold joinLoop dedup
    split
    · exact ih hne
    · rw [if_neg (by simpa using hne), ih (by simp [hne])]
      simp [piece, utf8_separator]

private theorem intercalate_flatMap (a b : UInt8) (first : Str) (rest : List Str) :
    [a, b].intercalate (first :: rest) = first ++ rest.flatMap ([a, b] ++ ·) := by
  induction rest generalizing first with
  | nil => simp
  | cons next rest ih => rw [List.intercalate_cons_cons, ih]; simp

private theorem joinLoop_eq (cs : List Cookie) (seen : List (Str × Str)) :
    joinLoop seen [] cs = [semicolon, 0x20].intercalate ((dedup seen cs).map piece) := by
  induction cs generalizing seen with
  | nil => rfl
  | cons c cs ih =>
    unfold joinLoop dedup
    split
    · exact ih seen
    · have hne : c.name ++ utf8 "=" ++ c.value ≠ [] := by simp [utf8_equals]
      rw [List.map_cons, intercalate_flatMap, List.flatMap_map]
      exact joinLoop_append hne cs

private theorem joinLoop_eq_nil {cs : List Cookie} (h : dedup [] cs ≠ []) : joinLoop [] [] cs ≠ [] := by
  obtain ⟨c, rest, hcs⟩ := List.exists_cons_of_ne_nil h
  rw [joinLoop_eq, hcs, List.map_cons, intercalate_flatMap]
  simp [piece, utf8_equals]

theorem mem_dedup {cs : List Cookie} {seen : List (Str × Str)} (h : c ∈ dedup seen cs) :
    c ∈ cs := by
  induction cs generalizing seen with
  | nil => cases h
  | cons d cs ih =>
    unfold dedup at h
    split at h
    · exact List.mem_cons_of_mem _ (ih h)
    · rcases List.mem_cons.mp h with rfl | h
      · exact List.mem_cons_self
      · exact List.mem_cons_of_mem _ (ih h)

private theorem dedup_nil_iff {cs : List Cookie} : dedup [] cs = [] ↔ cs = [] := by
  cases cs with
  | nil => simp [dedup]
  | cons c cs => simp [dedup]

theorem cookiesForUrl_eq (lib : Library) (values : List Cookie) (url : Url) :
    cookiesForUrl lib values url =
      if dedup [] (sortedMatches lib values url) = [] then none
      else some ([semicolon, 0x20].intercalate ((dedup [] (sortedMatches lib values url)).map piece)) := by
  unfold cookiesForUrl
  by_cases hnil : dedup [] (sortedMatches lib values url) = []
  · simp [dedup_nil_iff.mp hnil, dedup]
  · have hne := joinLoop_eq_nil hnil
    have hmatched : sortedMatches lib values url ≠ [] := fun h => hnil (dedup_nil_iff.mpr h)
    simp only [List.isEmpty_iff]
    rw [if_neg hmatched, if_neg hne, if_neg hnil, joinLoop_eq]

end JarInner

section
variable {c : Cookie}

private theorem clean_name (h : c.isClean = true) {b : UInt8} (hb : b ∈ c.name) :
    0x20 < b ∧ b ≠ 0x7f ∧ b ≠ semicolon ∧ b ≠ equals := by
  simp only [Cookie.isClean, isValidCookieName, Bool.and_eq_true, Bool.not_eq_true', List.any_eq_false,
    Bool.or_eq_true, not_or, decide_eq_true_eq, beq_iff_eq] at h
  obtain ⟨⟨⟨-, hbytes⟩, -⟩, heq⟩ := h
  obtain ⟨⟨⟨⟨⟨hlow, hdel⟩, -⟩, -⟩, hsemi⟩, -⟩ := hbytes b hb
  refine ⟨UInt8.not_le.mp hlow, hdel, hsemi, ?_⟩
  rintro rfl
  simp [hb] at heq

private theorem clean_value (h : c.isClean = true) {b : UInt8} (hb : b ∈ c.value) :
    0x20 < b ∧ b ≠ 0x7f ∧ b ≠ semicolon := by
  simp only [Cookie.isClean, isValidCookieValue, Bool.and_eq_true, List.all_eq_true, Bool.or_eq_true,
    decide_eq_true_eq, beq_iff_eq] at h
  have hoctet := h.1.2 b hb
  simp only [semicolon, UInt8.le_iff_toNat_le, UInt8.lt_iff_toNat_lt, ne_eq, ← UInt8.toNat_inj] at hoctet ⊢
  simp at hoctet ⊢
  omega

private theorem piece_bytes (h : c.isClean = true) {b : UInt8} (hb : b ∈ JarInner.piece c) :
    0x20 < b ∧ b ≠ 0x7f ∧ b ≠ semicolon := by
  simp only [JarInner.piece, JarInner.utf8_equals, List.mem_append, List.mem_singleton] at hb
  rcases hb with (hb | rfl) | hb
  · obtain ⟨hlow, hdel, hsemi, -⟩ := clean_name h hb
    exact ⟨hlow, hdel, hsemi⟩
  · decide
  · exact clean_value h hb

private theorem piece_split (h : c.isClean = true) :
    splitOnce equals (JarInner.piece c) = (c.name, c.value) := by
  rw [JarInner.piece, JarInner.utf8_equals, List.append_assoc]
  exact splitOnce_append (fun hb => (clean_name h hb).2.2.2 rfl) c.value

end

private theorem intercalate_valid {pieces : List Str}
    (h : ∀ piece ∈ pieces, ∀ b ∈ piece, 0x20 < b ∧ b ≠ 0x7f ∧ b ≠ semicolon) :
    validateHeaderValue ([semicolon, 0x20].intercalate pieces) = true := by
  have hpiece : ∀ piece ∈ pieces, ∀ b ∈ piece, ¬ (b < 0x20 ∨ b = 0x7f) := by
    rintro piece hp b hb (hlow | hdel)
    · exact absurd (h piece hp b hb).1 (UInt8.lt_asymm hlow)
    · exact (h piece hp b hb).2.1 hdel
  have hall : ∀ b ∈ [semicolon, 0x20].intercalate pieces, ¬ (b < 0x20 ∨ b = 0x7f) := by
    cases pieces with
    | nil =>
      intros
      contradiction
    | cons first rest =>
      rw [JarInner.intercalate_flatMap]
      intro b hb
      rcases List.mem_append.mp hb with hb | hb
      · exact hpiece first List.mem_cons_self b hb
      · obtain ⟨piece, hp, hb⟩ := List.mem_flatMap.mp hb
        rcases List.mem_append.mp hb with hb | hb
        · simp only [List.mem_cons, List.not_mem_nil, or_false] at hb
          rcases hb with rfl | rfl <;> decide
        · exact hpiece piece (List.mem_cons_of_mem _ hp) b hb
  simp only [validateHeaderValue, Bool.not_eq_true', List.any_eq_false]
  intro b hb
  have := hall b hb
  simp only [not_or] at this
  simp [this.1, this.2]

theorem Clean.sound {jar : JarInner} (lib : Library) (h : Clean jar) : Sound lib jar := by
  have hstored : ∀ p ∈ jar.cookies, isValidCookieName p.2.name = true ∧ isValidCookieValue p.2.value = true := by
    intro p hp
    have hc := h p hp
    simp only [Cookie.isClean, Bool.and_eq_true] at hc
    exact hc.1
  have hmatched : ∀ now values url, values.Perm ((jar.expireIfDue now).cookies.map Prod.snd) →
      ∀ c ∈ JarInner.dedup [] (JarInner.sortedMatches lib values url), c.isClean = true := by
    intro now values url hperm c hc
    have hsorted := (List.mem_insertionSort _).mp (JarInner.mem_dedup hc)
    obtain ⟨p, hp, rfl⟩ := List.mem_map.mp (hperm.mem_iff.mp (List.mem_filter.mp hsorted).1)
    exact h.expireIfDue now p hp
  refine ⟨hstored, fun now values url _ => ?_, fun now values url text hperm htext => ?_⟩
  · rw [JarInner.cookiesForUrl_eq]
    split
    · rename_i hnil
      simp [hnil]
    · rename_i hne
      simp [hne]
  · have hclean := hmatched now values url hperm
    rw [JarInner.cookiesForUrl_eq] at htext
    split at htext
    · cases htext
    · rename_i hne
      obtain rfl := Option.some.inj htext
      have hbytes : ∀ piece ∈ (JarInner.dedup [] (JarInner.sortedMatches lib values url)).map JarInner.piece,
          ∀ b ∈ piece, 0x20 < b ∧ b ≠ 0x7f ∧ b ≠ semicolon := by
        intro piece hpiece b hb
        obtain ⟨c, hc, rfl⟩ := List.mem_map.mp hpiece
        exact piece_bytes (hclean c hc) hb
      refine ⟨intercalate_valid hbytes, ?_⟩
      rw [splitOnPair_intercalate _ (by simpa using hne)
        fun piece hp hb => (hbytes piece hp _ hb).2.2 rfl, List.map_map]
      exact List.map_congr_left fun c hc => piece_split (hclean c hc)

/-- In every run that stores only clean cookies the jar stays valid, and each header
written from it is legal and splits back into the matched pairs. -/
theorem stores_clean_sound (lib : Library) (creationCounter : Nat) (jar : JarInner)
    (h : Reaches (step lib) (fun jar op => storesClean lib jar op = true) (new creationCounter) jar) :
    Sound lib jar :=
  Clean.sound lib (h.invariant (by intro _ h; cases h) fun _ hi hok hs => hi.step hok hs)

private def hexValue (b : UInt8) : Option UInt8 :=
  if 0x30 ≤ b ∧ b ≤ 0x39 then some (b - 0x30)
  else if 0x41 ≤ b ∧ b ≤ 0x46 then some (b - 0x37)
  else if 0x61 ≤ b ∧ b ≤ 0x66 then some (b - 0x57) else none

private def percentDecode : Str → Str
  | 0x25 :: a :: b :: rest =>
    match hexValue a, hexValue b with
    | some hi, some lo => (hi * 16 + lo) :: percentDecode rest
    | _, _ => 0x25 :: percentDecode (a :: b :: rest)
  | x :: rest => x :: percentDecode rest
  | [] => []

private def trim (s : Str) : Str :=
  ((s.dropWhile (· == 0x20)).reverse.dropWhile (· == 0x20)).reverse

/-- The pair of a header value without attributes, split and percent-decoded. -/
private def parsePair (headerValue : Str) : Option ParsedCookie :=
  let pair := (splitOnce semicolon headerValue).1
  let (name, value) := splitOnce equals pair
  if pair.contains equals && !(trim name).isEmpty then
    some { name := percentDecode (trim name), value := percentDecode (trim value) }
  else none

private def pairLibrary : Library := ⟨parsePair, toAsciiLowercase, fun _ => false⟩

private def rootUrl : Url := { scheme := utf8 "https", host := some (utf8 "example.com"), path := utf8 "/" }

/-- A server cookie and a default cookie, both clean. -/
theorem stores_clean_sound_session :
    ∃ jar, runWhile (step pairLibrary) (storesClean pairLibrary) (new 1)
        [.updateFromResponse rootUrl 0 [(utf8 "session=abc%2D1", 0)],
          .setDefaultCookie (utf8 "lang") (utf8 "en")] = some jar ∧
      jar.cookies.map (fun p => p.2.value) = [utf8 "en", utf8 "abc-1"] ∧ Sound pairLibrary jar := by
  have hrun : ((runWhile (step pairLibrary) (storesClean pairLibrary) (new 1)
      [.updateFromResponse rootUrl 0 [(utf8 "session=abc%2D1", 0)],
        .setDefaultCookie (utf8 "lang") (utf8 "en")]).map
          fun jar => jar.cookies.map (fun p => p.2.value)) = some [utf8 "en", utf8 "abc-1"] := by decide
  obtain ⟨jar, hjar, hvalues⟩ := Option.map_eq_some_iff.mp hrun
  exact ⟨jar, hjar, hvalues, stores_clean_sound pairLibrary 1 jar (Reaches.runWhile .start (fun _ _ h => h) hjar)⟩

/-- A percent-encoded separator in a server's cookie value reaches the jar. -/
theorem decoded_separator_unsound :
    ¬ ∀ jar, Reachable (step pairLibrary) (new 1) jar → Sound pairLibrary jar := by
  intro hall
  have hrun : ((run (step pairLibrary) (new 1)
      [.updateFromResponse rootUrl 0 [(utf8 "a=%3B%20b=1", 0)]]).map
        fun jar => jar.cookies.map (fun p => p.2.value)) = some [utf8 "; b=1"] := by decide
  obtain ⟨jar, hjar, hvalues⟩ := Option.map_eq_some_iff.mp hrun
  obtain ⟨p, hcookies, hp⟩ := List.map_eq_singleton_iff.mp hvalues
  have hvalid := ((hall jar (Reaches.run .start hjar)).stored p (by simp [hcookies])).2
  rw [hp] at hvalid
  exact absurd hvalid (by decide)

end Eggfetch.CookieJar
