import Eggfetch.CookieJar.Expiry

/-! Which cookies leave for a URL. A jar that is filled by responses alone sends a cookie back
to the host that set it, or to the hosts under the `Domain` that its host is under as well. -/
namespace Eggfetch.CookieJar
open Text Http Transition

/-- One call of `update_from_response`. -/
structure Update where
  responseUrl : Url
  now : Time
  setCookieHeaders : List (Str × Time)

def Update.host (update : Update) : Str := update.responseUrl.host.getD []

def jarAfter (lib : Library) (creationCounter : Nat) (history : List Update) : JarInner :=
  history.foldl (fun jar u => jar.updateFromResponse lib u.responseUrl u.now u.setCookieHeaders)
    (new creationCounter)

def SetBy (lib : Library) (update : Update) (c : Cookie) : Prop :=
  ∃ p ∈ update.setCookieHeaders, ∃ counter,
    parseSetCookie lib counter p.2 p.1 update.responseUrl update.host = some c

def SameHost (a b : Str) : Prop := toAsciiLowercase a = toAsciiLowercase b

/-- RFC 6265 5.1.3: the same name, or a name under it; an address only if it is the same. -/
def DomainMatch (lib : Library) (host domain : Str) : Prop :=
  SameHost host domain ∨
    (lib.isIpAddress host = false ∧ lib.isIpAddress domain = false ∧
      ∃ label suffix, label ≠ [] ∧ host = label ++ 0x2e :: suffix ∧ SameHost suffix domain)

def PathMatch (requestPath cookiePath : Str) : Prop :=
  requestPath = cookiePath ∨
    (cookiePath <+: requestPath ∧
      (cookiePath.getLast? = some 0x2f ∨ requestPath[cookiePath.length]? = some 0x2f))

/-- The host of `url` may see a cookie that this response set. -/
def SharedWith (lib : Library) (url : Url) (update : Update) (c : Cookie) : Prop :=
  if c.hostOnly then SameHost (url.host.getD []) update.host
  else DomainMatch lib update.host c.domain ∧ DomainMatch lib (url.host.getD []) c.domain

/-- A cookie of the jar that the host of `url` may see. -/
def Relevant (lib : Library) (creationCounter : Nat) (history : List Update) (url : Url) (c : Cookie) : Prop :=
  c ∈ (jarAfter lib creationCounter history).cookies.map Prod.snd ∧
    ∃ update ∈ history, SetBy lib update c ∧ SharedWith lib url update c

/-- A `Cookie` header the jar may write at `now`; the map is iterated in some order. -/
def Writes (lib : Library) (jar : JarInner) (now : Time) (url : Url) (header : Option Str) : Prop :=
  ∃ values, values.Perm ((jar.expireIfDue now).cookies.map Prod.snd) ∧
    JarInner.cookiesForUrl lib values url = header

/-- Cookies stay with the hosts they are for. -/
structure CookiesConfined (lib : Library) (creationCounter : Nat) (history : List Update) (url : Url) : Prop where
  sent : ∀ now values, values.Perm (((jarAfter lib creationCounter history).expireIfDue now).cookies.map Prod.snd) →
    ∀ c ∈ JarInner.sortedMatches lib values url,
      (∃ update ∈ history, SetBy lib update c ∧ SharedWith lib url update c) ∧
      PathMatch url.path c.path ∧ (c.secure = true → url.scheme = utf8 "https")
  /-- Another jar with the same relevant cookies writes the same headers. -/
  independent : ∀ creationCounter' history',
    (∀ c, Relevant lib creationCounter history url c ↔ Relevant lib creationCounter' history' url c) →
    ∀ now header, Writes lib (jarAfter lib creationCounter history) now url header ↔
      Writes lib (jarAfter lib creationCounter' history') now url header

section
variable {lib : Library} {creationCounter : Nat} {history : List Update} {url : Url} {c : Cookie}

theorem eqIgnoreAsciiCase_iff {s t : Str} : eqIgnoreAsciiCase s t = true ↔ SameHost s t := by
  simp [eqIgnoreAsciiCase, SameHost]

theorem SameHost.length {s t : Str} (h : SameHost s t) : s.length = t.length := by
  have hlength := congrArg List.length h
  simpa [toAsciiLowercase] using hlength

theorem domainMatches_iff {host domain : Str} : domainMatches lib host domain = true ↔ DomainMatch lib host domain := by
  unfold domainMatches DomainMatch
  by_cases hsame : SameHost host domain
  · rw [if_pos (eqIgnoreAsciiCase_iff.mpr hsame)]
    exact ⟨fun _ => .inl hsame, fun _ => rfl⟩
  · rw [if_neg (fun h => hsame (eqIgnoreAsciiCase_iff.mp h)), or_iff_right hsame]
    cases hhost : lib.isIpAddress host with
    | true => simp
    | false =>
      cases hdomain : lib.isIpAddress domain with
      | true => simp
      | false =>
        simp only [Bool.or_false, Bool.false_eq_true, if_false, true_and, Bool.and_eq_true, decide_eq_true_eq,
          beq_iff_eq, eqIgnoreAsciiCase_iff]
        constructor
        · rintro ⟨⟨hlength, hdot⟩, hsuffix⟩
          obtain ⟨hlt, hget⟩ := List.getElem?_eq_some_iff.mp hdot
          have hindex : host.length - domain.length - 1 + 1 = host.length - domain.length := by omega
          refine ⟨host.take (host.length - domain.length - 1), host.drop (host.length - domain.length), ?_, ?_, hsuffix⟩
          · intro hnil
            have hempty := congrArg List.length hnil
            simp only [List.length_take, List.length_nil] at hempty
            omega
          · have hdrop := List.drop_eq_getElem_cons hlt
            rw [hget, hindex] at hdrop
            rw [← hdrop, List.take_append_drop]
        · rintro ⟨label, suffix, hlabel, rfl, hsuffix⟩
          have hlength := hsuffix.length
          have hpos : 0 < label.length := List.length_pos_iff.mpr hlabel
          simp only [List.length_append, List.length_cons]
          have hsplit : label.length + (suffix.length + 1) - domain.length = label.length + 1 := by omega
          refine ⟨⟨by omega, ?_⟩, ?_⟩
          · rw [hsplit, Nat.add_sub_cancel, List.getElem?_append_right (Nat.le_refl _), Nat.sub_self]
            rfl
          · rw [hsplit, List.drop_append, List.drop_of_length_le (Nat.le_succ _)]
            simpa using hsuffix

theorem pathMatch_of_pathMatches {requestPath cookiePath : Str} (h : pathMatches requestPath cookiePath = true) :
    PathMatch requestPath cookiePath := by
  unfold pathMatches at h
  split_ifs at h with hroot hsame hstart hslash
  · exact .inl hsame
  · refine .inr ⟨List.isPrefixOf_iff_prefix.mp (by simpa using hstart), .inl hslash⟩
  · refine .inr ⟨List.isPrefixOf_iff_prefix.mp (by simpa using hstart), .inr (by simpa using h)⟩

private theorem parseSetCookie_domain {counter : Nat} {now : Time} {headerValue host : Str}
    (h : parseSetCookie lib counter now headerValue url host = some c) :
    (c.hostOnly = true ∧ c.domain = host) ∨
      (c.hostOnly = false ∧ c.domain ≠ [] ∧ DomainMatch lib host c.domain) := by
  unfold parseSetCookie at h
  obtain ⟨parsed, -, h⟩ := Option.bind_eq_some_iff.mp h
  cases hname : isValidCookieName parsed.name with
  | false => simp [hname] at h
  | true =>
    simp only [hname, Bool.not_true, Bool.false_eq_true, if_false] at h
    obtain ⟨domain, hdomain, h⟩ := Option.bind_eq_some_iff.mp h
    cases h
    unfold cookieDomain at hdomain
    split at hdomain
    · dsimp only at hdomain
      split_ifs at hdomain with hempty haddress hmatch
      obtain rfl := Option.some.inj hdomain
      refine .inr ⟨rfl, by simpa using hempty, domainMatches_iff.mp (by simpa using hmatch)⟩
    · obtain rfl := Option.some.inj hdomain
      exact .inl ⟨rfl, rfl⟩

/-- A cookie of a response matches the URLs that may see it, on its path. -/
theorem cookieMatches_of_setBy {update : Update} (hset : SetBy lib update c)
    (h : cookieMatches lib c (url.host.getD []) url.path (url.scheme == utf8 "https") = true) :
    SharedWith lib url update c ∧ PathMatch url.path c.path ∧ (c.secure = true → url.scheme = utf8 "https") := by
  obtain ⟨p, -, counter, hparse⟩ := hset
  have hdomain := parseSetCookie_domain hparse
  unfold cookieMatches at h
  unfold SharedWith
  split_ifs at h with hinsecure hdefault honly
  · -- no response sets a cookie without a domain
    rcases hdomain with ⟨htrue, -⟩ | ⟨-, hne, -⟩
    · simp [htrue] at hdefault
    · exact absurd (by simpa using (Bool.and_eq_true_iff.mp hdefault).2) hne
  · obtain ⟨hhost, hpath⟩ := Bool.and_eq_true_iff.mp h
    refine ⟨?_, pathMatch_of_pathMatches hpath, fun hsecure => ?_⟩
    · rcases hdomain with ⟨-, heq⟩ | ⟨hfalse, -⟩
      · rw [if_pos honly, ← heq]
        exact eqIgnoreAsciiCase_iff.mp hhost
      · cases honly.symm.trans hfalse
    · simpa [hsecure] using hinsecure
  · obtain ⟨hhost, hpath⟩ := Bool.and_eq_true_iff.mp h
    refine ⟨?_, pathMatch_of_pathMatches hpath, fun hsecure => ?_⟩
    · rcases hdomain with ⟨htrue, -⟩ | ⟨-, -, hmatch⟩
      · exact absurd htrue honly
      · rw [if_neg honly]
        exact ⟨hmatch, domainMatches_iff.mp hhost⟩
    · simpa [hsecure] using hinsecure

theorem jarAfter_concat (update : Update) :
    jarAfter lib creationCounter (history ++ [update]) =
      (jarAfter lib creationCounter history).updateFromResponse lib update.responseUrl update.now
        update.setCookieHeaders := by
  simp [jarAfter, List.foldl_append]

theorem exact_jarAfter (lib : Library) (creationCounter : Nat) (history : List Update) :
    Exact (jarAfter lib creationCounter history) := by
  induction history using List.reverseRecOn with
  | nil => exact exact_new creationCounter
  | append_singleton history update ih =>
    rw [jarAfter_concat]
    exact ih.updateFromResponse lib _ _ _

/-- Every entry of the jar is under the key of its cookie, which a response set. -/
theorem setBy_of_mem (lib : Library) (creationCounter : Nat) (history : List Update) :
    ∀ p ∈ (jarAfter lib creationCounter history).cookies,
      p.1 = p.2.key lib ∧ ∃ update ∈ history, SetBy lib update p.2 := by
  induction history using List.reverseRecOn with
  | nil => exact fun p hp => absurd hp List.not_mem_nil
  | append_singleton history update ih =>
    rw [jarAfter_concat]
    intro p hp
    rcases JarInner.mem_updateFromResponse hp with hp | ⟨hkey, hp⟩
    · obtain ⟨hkey, earlier, hearlier, hset⟩ := ih p hp
      exact ⟨hkey, earlier, List.mem_append_left _ hearlier, hset⟩
    · obtain ⟨-, header, hheader, counter, hparse⟩ := mem_collect hp
      exact ⟨hkey, update, List.mem_append_right _ List.mem_cons_self, header, hheader, counter, hparse⟩

private theorem nodup_cookies (lib : Library) (creationCounter : Nat) (history : List Update) :
    ((jarAfter lib creationCounter history).cookies.map Prod.snd).Nodup := by
  have hkeys : ((jarAfter lib creationCounter history).cookies.map Prod.snd).map (Cookie.key lib) =
      JarInner.keys (jarAfter lib creationCounter history).cookies := by
    rw [List.map_map]
    exact List.map_congr_left fun p hp => (setBy_of_mem lib creationCounter history p hp).1.symm
  exact List.Nodup.of_map (Cookie.key lib) (hkeys ▸ (exact_jarAfter lib creationCounter history).nodup)

/-- What a read of the jar sees: the cookies that have not expired. -/
theorem mem_expireIfDue_iff {jar : JarInner} (h : Exact jar) (now : Time) :
    c ∈ (jar.expireIfDue now).cookies.map Prod.snd ↔ c ∈ jar.cookies.map Prod.snd ∧ c.isExpired now = false := by
  rw [h.expireIfDue_eq]
  simp only [JarInner.expireStale, JarInner.recomputeNextExpiry, List.mem_map, List.mem_filter,
    Bool.not_eq_true']
  constructor
  · rintro ⟨p, ⟨hmem, hlive⟩, rfl⟩
    exact ⟨⟨p, hmem, rfl⟩, hlive⟩
  · rintro ⟨⟨p, hmem, rfl⟩, hlive⟩
    exact ⟨p, ⟨hmem, hlive⟩, rfl⟩

theorem nodup_expireIfDue (lib : Library) (creationCounter : Nat) (history : List Update) (now : Time) :
    (((jarAfter lib creationCounter history).expireIfDue now).cookies.map Prod.snd).Nodup := by
  rw [(exact_jarAfter lib creationCounter history).expireIfDue_eq]
  exact (nodup_cookies lib creationCounter history).sublist ((List.filter_sublist).map _)

/-- The test of `cookies_for_url`. -/
def Sends (lib : Library) (url : Url) (c : Cookie) : Bool :=
  cookieMatches lib c (url.host.getD []) url.path (url.scheme == utf8 "https")

theorem sortedMatches_eq (values : List Cookie) :
    JarInner.sortedMatches lib values url = (values.filter (Sends lib url)).insertionSort JarInner.sortsBefore := rfl

private theorem cookiesForUrl_congr {values values' : List Cookie}
    (h : values.filter (Sends lib url) = values'.filter (Sends lib url)) :
    JarInner.cookiesForUrl lib values url = JarInner.cookiesForUrl lib values' url := by
  have hsorted : JarInner.sortedMatches lib values url = JarInner.sortedMatches lib values' url := by
    rw [sortedMatches_eq, sortedMatches_eq, h]
  rw [JarInner.cookiesForUrl, JarInner.cookiesForUrl, hsorted]

theorem relevant_of_sends {jar : JarInner} (hjar : jar = jarAfter lib creationCounter history) (now : Time)
    (hmem : c ∈ (jar.expireIfDue now).cookies.map Prod.snd) (hsends : Sends lib url c = true) :
    Relevant lib creationCounter history url c ∧ PathMatch url.path c.path ∧
      (c.secure = true → url.scheme = utf8 "https") := by
  subst hjar
  obtain ⟨hmem, -⟩ := (mem_expireIfDue_iff (exact_jarAfter lib creationCounter history) now).mp hmem
  obtain ⟨p, hp, rfl⟩ := List.mem_map.mp hmem
  obtain ⟨-, update, hupdate, hset⟩ := setBy_of_mem lib creationCounter history p hp
  obtain ⟨hshared, hpath, hsecure⟩ := cookieMatches_of_setBy hset hsends
  exact ⟨⟨hmem, update, hupdate, hset, hshared⟩, hpath, hsecure⟩

private theorem filter_sends_perm {creationCounter' : Nat} {history' : List Update}
    (h : ∀ c, Relevant lib creationCounter history url c ↔ Relevant lib creationCounter' history' url c) (now : Time) :
    ((((jarAfter lib creationCounter history).expireIfDue now).cookies.map Prod.snd).filter (Sends lib url)).Perm
      ((((jarAfter lib creationCounter' history').expireIfDue now).cookies.map Prod.snd).filter (Sends lib url)) := by
  refine (List.perm_ext_iff_of_nodup ((nodup_expireIfDue lib creationCounter history now).filter _)
    ((nodup_expireIfDue lib creationCounter' history' now).filter _)).mpr fun c => ?_
  simp only [List.mem_filter]
  constructor
  · rintro ⟨hmem, hsends⟩
    have hlive := ((mem_expireIfDue_iff (exact_jarAfter lib creationCounter history) now).mp hmem).2
    have hrelevant := (h c).mp (relevant_of_sends rfl now hmem hsends).1
    exact ⟨(mem_expireIfDue_iff (exact_jarAfter lib creationCounter' history') now).mpr ⟨hrelevant.1, hlive⟩, hsends⟩
  · rintro ⟨hmem, hsends⟩
    have hlive := ((mem_expireIfDue_iff (exact_jarAfter lib creationCounter' history') now).mp hmem).2
    have hrelevant := (h c).mpr (relevant_of_sends rfl now hmem hsends).1
    exact ⟨(mem_expireIfDue_iff (exact_jarAfter lib creationCounter history) now).mpr ⟨hrelevant.1, hlive⟩, hsends⟩

private theorem writes_of_relevant {creationCounter' : Nat} {history' : List Update} {now : Time} {header : Option Str}
    (h : ∀ c, Relevant lib creationCounter history url c ↔ Relevant lib creationCounter' history' url c)
    (hwrites : Writes lib (jarAfter lib creationCounter history) now url header) :
    Writes lib (jarAfter lib creationCounter' history') now url header := by
  obtain ⟨values, hperm, rfl⟩ := hwrites
  let others := (((jarAfter lib creationCounter' history').expireIfDue now).cookies.map Prod.snd).filter
    fun c => !Sends lib url c
  refine ⟨values.filter (Sends lib url) ++ others, ?_, cookiesForUrl_congr ?_⟩
  · have hmatched := (hperm.filter (Sends lib url)).trans (filter_sends_perm h now)
    exact (hmatched.append_right others).trans (List.filter_append_perm (Sends lib url) _)
  · simp [others, List.filter_append, List.filter_filter]

end

/-- In every history of responses, a cookie reaches the hosts it is for and no other. -/
theorem cookies_confined (lib : Library) (creationCounter : Nat) (history : List Update) (url : Url) :
    CookiesConfined lib creationCounter history url where
  sent := by
    intro now values hperm c hc
    rw [sortedMatches_eq, List.mem_insertionSort, List.mem_filter] at hc
    obtain ⟨hrelevant, hpath, hsecure⟩ := relevant_of_sends rfl now (hperm.mem_iff.mp hc.1) hc.2
    exact ⟨hrelevant.2, hpath, hsecure⟩
  independent := fun _ _ h _ _ => ⟨writes_of_relevant h, writes_of_relevant fun c => (h c).symm⟩

end Eggfetch.CookieJar
