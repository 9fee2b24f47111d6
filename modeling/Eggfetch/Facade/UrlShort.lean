import Eggfetch.Facade.UrlRoundTrip

/-! What becomes of a URL whose default port is left out of its text. -/
namespace Eggfetch.Facade.Urls
open Text

/-- The characters at which a URL is cut, and those that are taken out of it. -/
def isDelim (c : Char) : Bool := "[]:@/?#%\t\n\r".toList.contains c

/-- What the URL type relies on in `str.lower`. -/
structure Lowers (lower : List Char → List Char) : Prop where
  nonempty : ∀ s, lower s = [] → s = []
  idem : ∀ s, lower (lower s) = lower s
  delims : ∀ s, (lower s).filter isDelim = s.filter isDelim

/-- What it relies on in the check of a netloc, which looks at the address between brackets and at the decompositions of
characters: an accepted netloc stays accepted in lower case, without the port of a host, without brackets that hold no colon, and
without an empty password or an empty userinfo. -/
structure Stable (lower : List Char → List Char) (check : List Char → Bool) : Prop where
  cased : ∀ x host y, check (x ++ (host ++ y)) = true → check (x ++ (lower host ++ y)) = true
  port : ∀ (info : Option (List Char)) (host digits : List Char), '[' ∉ host → ':' ∉ host → digits.all Char.isDigit = true →
    check ((info.elim [] fun info => info ++ ['@']) ++ (host ++ ':' :: digits)) = true →
      check ((info.elim [] fun info => info ++ ['@']) ++ host) = true
  brackets : ∀ (info : Option (List Char)) (junk host y : List Char), ':' ∉ host →
    check ((info.elim [] fun info => info ++ ['@']) ++ (junk ++ '[' :: (host ++ ']' :: y))) = true →
      check ((info.elim [] fun info => info ++ ['@']) ++ host) = true
  password : ∀ x y, check (x ++ ':' :: '@' :: y) = true → check (x ++ '@' :: y) = true
  userinfo : ∀ y, check ('@' :: y) = true → check y = true

/-- The host of the URL can stand before the end of a netloc, and the brackets that are left match. -/
structure Shortens (lower : List Char → List Char) (u : SplitResult) : Prop where
  colon : ':' ∉ u.hostinfo.1
  bracket : '[' ∉ u.hostinfo.1
  balanced : balanced (u.shortNetloc lower) = true

/-- What a URL owes to its text. -/
structure Renders (lower : List Char → List Char) (u : SplitResult) : Prop where
  relative : u.scheme = [] → u.netloc = [] → ¬ ['/', '/'] <+: u.path
  port : u.scheme ≠ [] → u.port ≠ none
  rooted : u.scheme ≠ [] → u.netloc = [] → u.path = [] ∨ u.path.head? = some '/'
  short : u.scheme ≠ [] → ∀ port, u.port = some port → u.isDefaultPort port = true → Shortens lower u

section
variable {lower : List Char → List Char} {check : List Char → Bool} {u v : SplitResult}

theorem mem_filter_delim {s t : List Char} (h : s.filter isDelim = t.filter isDelim) {c : Char} (hc : isDelim c = true) :
    c ∈ s ↔ c ∈ t := by
  have hMem : c ∈ s.filter isDelim ↔ c ∈ t.filter isDelim := by rw [h]
  rw [List.mem_filter, List.mem_filter, and_iff_left hc, and_iff_left hc] at hMem
  exact hMem

def lowerZone (lower : List Char → List Char) (host : List Char) : List Char :=
  lower (partition '%' host).1 ++ if (partition '%' host).2.1 then '%' :: (partition '%' host).2.2 else []

theorem hostname_eq (lower : List Char → List Char) (u : SplitResult) :
    u.hostname lower = if u.hostinfo.1 = [] then none else some (lowerZone lower u.hostinfo.1) := rfl

theorem lowerZone_delims (hLower : Lowers lower) (host : List Char) :
    (lowerZone lower host).filter isDelim = host.filter isDelim := by
  rw [lowerZone, List.filter_append, hLower.delims]
  rcases exists_first '%' host with hNone | ⟨x, y, rfl, hx⟩
  · rw [partition_whole hNone]
    simp only [Bool.false_eq_true, if_false, List.filter_nil, List.append_nil]
  · rw [partition_cut hx]
    simp only [if_true, List.filter_append]

theorem lowerZone_idem (hLower : Lowers lower) (host : List Char) :
    lowerZone lower (lowerZone lower host) = lowerZone lower host := by
  have hPercent : isDelim '%' = true := rfl
  rcases exists_first '%' host with hNone | ⟨x, y, rfl, hx⟩
  · have hSame : lowerZone lower host = lower host := by
      rw [lowerZone, partition_whole hNone]
      simp only [Bool.false_eq_true, if_false, List.append_nil]
    have hNone' : '%' ∉ lower host := fun hMem => hNone ((mem_filter_delim (hLower.delims host) hPercent).mp hMem)
    rw [hSame, lowerZone, partition_whole hNone']
    simp only [Bool.false_eq_true, if_false, List.append_nil, hLower.idem]
  · have hSame : lowerZone lower (x ++ '%' :: y) = lower x ++ '%' :: y := by
      rw [lowerZone, partition_cut hx]
      simp only [if_true]
    have hx' : '%' ∉ lower x := fun hMem => hx ((mem_filter_delim (hLower.delims x) hPercent).mp hMem)
    rw [hSame, lowerZone, partition_cut hx']
    simp only [if_true, hLower.idem]

theorem lowerZone_nonempty (hLower : Lowers lower) {host : List Char} (h : host ≠ []) : lowerZone lower host ≠ [] := by
  rw [lowerZone]
  rcases exists_first '%' host with hNone | ⟨x, y, rfl, hx⟩
  · rw [partition_whole hNone]
    simp only [Bool.false_eq_true, if_false, List.append_nil]
    exact fun hNil => h (hLower.nonempty host hNil)
  · rw [partition_cut hx]
    exact List.append_ne_nil_of_right_ne_nil _ (List.cons_ne_nil '%' y)

def shortInfo (u : SplitResult) : Option (List Char) :=
  match u.username, u.password with
  | some username, some password =>
    if password ≠ [] then some (username ++ ':' :: password) else if username ≠ [] then some username else none
  | some username, none => if username ≠ [] then some username else none
  | none, _ => none

theorem shortNetloc_eq (lower : List Char → List Char) (u : SplitResult) :
    u.shortNetloc lower = ((shortInfo u).elim [] fun info => info ++ ['@']) ++ (u.hostname lower).getD [] := by
  rw [SplitResult.shortNetloc, shortInfo]
  cases u.username with
  | none => rfl
  | some username =>
    cases u.password with
    | none =>
      simp only
      split
      · rw [Option.elim_some, List.append_assoc, List.singleton_append]
      · rfl
    | some password =>
      simp only
      split
      · rw [Option.elim_some, List.append_assoc, List.append_assoc, List.singleton_append, List.cons_append]
      · split
        · rw [Option.elim_some, List.append_assoc, List.singleton_append]
        · rfl

theorem rpartition_info (info : Option (List Char)) {host : List Char} (hAt : '@' ∉ host) :
    rpartition '@' ((info.elim [] fun info => info ++ ['@']) ++ host) = (info.getD [], info.isSome, host) := by
  cases info with
  | none => exact rpartition_whole hAt
  | some info =>
    rw [Option.elim_some, List.append_assoc, List.singleton_append]
    exact rpartition_cut hAt info

def hostPart (u : SplitResult) : List Char := (rpartition '@' u.netloc).2.2

def infoPart (u : SplitResult) : Option (List Char) :=
  if (rpartition '@' u.netloc).2.1 then some (rpartition '@' u.netloc).1 else none

theorem netloc_eq (u : SplitResult) : u.netloc = ((infoPart u).elim [] fun info => info ++ ['@']) ++ hostPart u ∧
    '@' ∉ hostPart u := by
  rw [infoPart, hostPart]
  rcases exists_last '@' u.netloc with hNone | ⟨x, y, hSplit, hy⟩
  · rw [rpartition_whole hNone]
    exact ⟨rfl, hNone⟩
  · rw [hSplit, rpartition_cut hy]
    exact ⟨by simp only [if_true, Option.elim_some, List.append_assoc, List.singleton_append], hy⟩

theorem userinfo_eq (u : SplitResult) : u.userinfo = match infoPart u with
    | some info => (some (partition ':' info).1, if (partition ':' info).2.1 then some (partition ':' info).2.2 else none)
    | none => (none, none) := by
  rw [SplitResult.userinfo, infoPart]
  rcases rpartition '@' u.netloc with ⟨info, _ | _, host⟩ <;> rfl

/-- The userinfo that is kept says what the whole one said. -/
theorem shortInfo_userinfoText (hInfo : infoPart v = shortInfo u) : v.userinfoText = u.userinfoText := by
  have hShort : shortInfo u = match u.userinfo with
      | (some username, some password) =>
        if password ≠ [] then some (username ++ ':' :: password) else if username ≠ [] then some username else none
      | (some username, none) => if username ≠ [] then some username else none
      | (none, _) => none := by
    rw [shortInfo, SplitResult.username, SplitResult.password]
    rcases u.userinfo with ⟨_ | username, _ | password⟩ <;> rfl
  rw [SplitResult.userinfoText, SplitResult.userinfoText, SplitResult.username, SplitResult.password, SplitResult.username,
    SplitResult.password, userinfo_eq v, hInfo, hShort, userinfo_eq u]
  cases infoPart u with
  | none => rfl
  | some info =>
    rcases exists_first ':' info with hNone | ⟨x, y, rfl, hx⟩
    · simp only [partition_whole hNone, Bool.false_eq_true, if_false]
      by_cases hNil : info = []
      · rw [if_neg (not_not_intro hNil), hNil]
        rfl
      · rw [if_pos hNil]
        simp only [partition_whole hNone, Bool.false_eq_true, if_false]
    · simp only [partition_cut hx, if_true]
      by_cases hPassword : y = []
      · rw [if_neg (not_not_intro hPassword)]
        by_cases hNil : x = []
        · rw [if_neg (not_not_intro hNil), hNil]
          rfl
        · rw [if_pos hNil, hPassword]
          simp only [partition_whole hx, Bool.false_eq_true, if_false, Option.getD_some, Option.getD_none]
      · rw [if_pos hPassword]
        simp only [partition_cut hx, if_true]

/-- How a host and a port are written. -/
theorem hostinfo_cases (u : SplitResult) :
    ('[' ∉ hostPart u ∧ ':' ∉ u.hostinfo.1 ∧
      (hostPart u = u.hostinfo.1 ∧ u.hostinfo.2 = none ∨ ∃ port, hostPart u = u.hostinfo.1 ++ ':' :: port ∧
        u.hostinfo.2 = if port = [] then none else some port)) ∨
    ∃ junk rest, hostPart u = junk ++ '[' :: (u.hostinfo.1 ++ rest) ∧ '[' ∉ junk ∧ ']' ∉ u.hostinfo.1 ∧
      (u.hostinfo.2 ≠ none → ∃ y, rest = ']' :: y) := by
  rw [SplitResult.hostinfo, ← hostPart]
  rcases exists_first '[' (hostPart u) with hNone | ⟨junk, bracketed, hSplit, hJunk⟩
  · refine Or.inl ⟨hNone, ?_⟩
    simp only [partition_whole hNone, Bool.false_eq_true, if_false]
    rcases exists_first ':' (hostPart u) with hColon | ⟨x, y, hPart, hx⟩
    · rw [partition_whole hColon]
      exact ⟨hColon, Or.inl ⟨rfl, rfl⟩⟩
    · rw [hPart, partition_cut hx]
      exact ⟨hx, Or.inr ⟨y, rfl, rfl⟩⟩
  · refine Or.inr ?_
    rw [hSplit, partition_cut hJunk]
    simp only [if_true]
    rcases exists_first ']' bracketed with hClose | ⟨x, y, rfl, hx⟩
    · rw [partition_whole hClose]
      exact ⟨junk, [], by rw [List.append_nil], hJunk, hClose, fun hPort => absurd rfl hPort⟩
    · rw [partition_cut hx]
      exact ⟨junk, ']' :: y, rfl, hJunk, hx, fun _ => ⟨y, rfl⟩⟩

theorem hostinfo_mem {c : Char} (hc : c ∈ u.hostinfo.1) : c ∈ hostPart u := by
  rcases hostinfo_cases u with ⟨-, -, ⟨hPart, -⟩ | ⟨port, hPart, -⟩⟩ | ⟨junk, rest, hPart, -⟩
  · rw [hPart]
    exact hc
  · rw [hPart]
    exact List.mem_append_left _ hc
  · rw [hPart]
    exact List.mem_append_right _ (List.mem_cons_of_mem _ (List.mem_append_left _ hc))

def shortHost (lower : List Char → List Char) (u : SplitResult) : List Char := (u.hostname lower).getD []

theorem shortHost_eq (u : SplitResult) : shortHost lower u = if u.hostinfo.1 = [] then [] else lowerZone lower u.hostinfo.1 := by
  rw [shortHost, hostname_eq]
  split <;> rfl

theorem shortHost_delims (hLower : Lowers lower) (u : SplitResult) :
    (shortHost lower u).filter isDelim = u.hostinfo.1.filter isDelim := by
  rw [shortHost_eq]
  split
  · next hNil => rw [hNil]
  · exact lowerZone_delims hLower _

theorem shortHost_at (hLower : Lowers lower) (u : SplitResult) : '@' ∉ shortHost lower u := by
  intro hMem
  have hHost := (mem_filter_delim (shortHost_delims hLower u) rfl).mp hMem
  exact (netloc_eq u).2 (hostinfo_mem hHost)

/-- What is kept of a userinfo: all of it, or it without the colon of an empty password, or nothing where nothing stands there. -/
theorem shortInfo_cases (u : SplitResult) :
    shortInfo u = infoPart u ∨ (∃ username, username ≠ [] ∧ infoPart u = some (username ++ [':']) ∧ shortInfo u = some username) ∨
      (infoPart u = some [] ∨ infoPart u = some [':']) ∧ shortInfo u = none := by
  have hUser := userinfo_eq u
  rw [shortInfo, SplitResult.username, SplitResult.password, hUser]
  cases infoPart u with
  | none => exact Or.inl rfl
  | some info =>
    rcases exists_first ':' info with hNone | ⟨x, y, rfl, hx⟩
    · simp only [partition_whole hNone, Bool.false_eq_true, if_false]
      by_cases hNil : info = []
      · rw [if_neg (not_not_intro hNil), hNil]
        exact Or.inr (Or.inr ⟨Or.inl rfl, rfl⟩)
      · rw [if_pos hNil]
        exact Or.inl rfl
    · simp only [partition_cut hx, if_true]
      by_cases hPassword : y = []
      · rw [if_neg (not_not_intro hPassword), hPassword]
        by_cases hNil : x = []
        · rw [if_neg (not_not_intro hNil), hNil]
          exact Or.inr (Or.inr ⟨Or.inr rfl, rfl⟩)
        · rw [if_pos hNil]
          exact Or.inr (Or.inl ⟨x, hNil, rfl, rfl⟩)
      · rw [if_pos hPassword]
        exact Or.inl rfl

private theorem mem_shortInfo {c : Char} (hc : c ∈ (shortInfo u).elim [] fun info => info ++ ['@']) : c ∈ u.netloc := by
  rw [(netloc_eq u).1]
  refine List.mem_append_left _ ?_
  rcases shortInfo_cases u with hSame | ⟨username, -, hInfo, hShort⟩ | ⟨-, hShort⟩
  · rw [hSame] at hc
    exact hc
  · rw [hShort, Option.elim_some, List.mem_append] at hc
    rw [hInfo, Option.elim_some, List.mem_append, List.mem_append]
    exact hc.imp_left Or.inl
  · rw [hShort] at hc
    cases hc

theorem mem_shortNetloc (hLower : Lowers lower) {c : Char} (hDelim : isDelim c = true) (hc : c ∈ u.shortNetloc lower) :
    c ∈ u.netloc := by
  rw [shortNetloc_eq, List.mem_append] at hc
  rcases hc with hInfo | hHost
  · exact mem_shortInfo hInfo
  · rw [(netloc_eq u).1]
    exact List.mem_append_right _ (hostinfo_mem ((mem_filter_delim (shortHost_delims hLower u) hDelim).mp hHost))

/-- The check that the netloc has passed passes without the port. -/
theorem check_shortNetloc (hStable : Stable lower check) (hCheck : check u.netloc = true) {port : Nat}
    (hPort : u.port = some (some port))
    (hColon : ':' ∉ u.hostinfo.1) : check (u.shortNetloc lower) = true := by
  have hWritten : u.hostinfo.2 ≠ none := by
    intro hNone
    rw [SplitResult.port, hNone] at hPort
    cases hPort
  have hHost : check (((infoPart u).elim [] fun info => info ++ ['@']) ++ u.hostinfo.1) = true := by
    rw [(netloc_eq u).1] at hCheck
    rcases hostinfo_cases u with ⟨hBracket, -, ⟨-, hNone⟩ | ⟨digits, hPart, hDigits⟩⟩ | ⟨junk, rest, hPart, -, -, hRest⟩
    · exact absurd hNone hWritten
    · have hAll : digits.all Char.isDigit = true := by
        rw [SplitResult.port, hDigits] at hPort
        by_cases hNil : digits = []
        · rw [hNil]
          rfl
        · simp only [if_neg hNil] at hPort
          split at hPort
          · next hAll => exact hAll
          · cases hPort
      rw [hPart] at hCheck hBracket
      exact hStable.port _ _ digits (fun hMem => hBracket (List.mem_append_left _ hMem)) hColon hAll hCheck
    · obtain ⟨y, rfl⟩ := hRest hWritten
      rw [hPart] at hCheck
      exact hStable.brackets _ junk _ y hColon hCheck
  have hCased : check (((infoPart u).elim [] fun info => info ++ ['@']) ++ shortHost lower u) = true := by
    rw [shortHost_eq]
    by_cases hNil : u.hostinfo.1 = []
    · rw [hNil] at hHost
      rw [if_pos hNil]
      exact hHost
    · rw [if_neg hNil, lowerZone]
      apply hStable.cased
      rcases exists_first '%' u.hostinfo.1 with hNone | ⟨x, y, hSplit, hx⟩
      · rw [partition_whole hNone]
        simp only [Bool.false_eq_true, if_false, List.append_nil]
        exact hHost
      · rw [hSplit] at hHost ⊢
        rw [partition_cut hx]
        exact hHost
  rw [shortNetloc_eq, ← shortHost]
  rcases shortInfo_cases u with hSame | ⟨username, -, hInfo, hShort⟩ | ⟨hInfo, hShort⟩
  · rw [hSame]
    exact hCased
  · rw [hInfo, Option.elim_some, List.append_assoc, List.append_assoc] at hCased
    rw [hShort, Option.elim_some, List.append_assoc]
    exact hStable.password _ _ hCased
  · rw [hShort]
    rcases hInfo with hInfo | hInfo
    · rw [hInfo] at hCased
      exact hStable.userinfo _ hCased
    · rw [hInfo] at hCased
      exact hStable.userinfo _ (hStable.password [] _ hCased)

theorem shortNetloc_parts (hLower : Lowers lower) (hNetloc : v.netloc = u.shortNetloc lower) :
    infoPart v = shortInfo u ∧ hostPart v = shortHost lower u := by
  have hRead := rpartition_info (shortInfo u) (shortHost_at hLower u)
  rw [infoPart, hostPart, hNetloc, shortNetloc_eq, ← shortHost, hRead]
  refine ⟨?_, rfl⟩
  cases shortInfo u <;> rfl

/-- A host without brackets and colons is the host again, and no port is left. -/
theorem hostname_short (hLower : Lowers lower) (hColon : ':' ∉ u.hostinfo.1) (hBracket : '[' ∉ u.hostinfo.1)
    (hNetloc : v.netloc = u.shortNetloc lower) : v.hostname lower = u.hostname lower ∧ v.hostinfo.2 = none := by
  have hDelims := shortHost_delims hLower u
  have hColon' : ':' ∉ shortHost lower u := fun hMem => hColon ((mem_filter_delim hDelims rfl).mp hMem)
  have hBracket' : '[' ∉ shortHost lower u := fun hMem => hBracket ((mem_filter_delim hDelims rfl).mp hMem)
  have hInfo : v.hostinfo = (shortHost lower u, none) := by
    rw [SplitResult.hostinfo, ← hostPart, (shortNetloc_parts hLower hNetloc).2, partition_whole hBracket']
    simp only [Bool.false_eq_true, if_false, partition_whole hColon']
    rfl
  rw [hInfo]
  refine ⟨?_, rfl⟩
  rw [hostname_eq, hostname_eq, hInfo, shortHost_eq]
  by_cases hNil : u.hostinfo.1 = []
  · simp only [if_pos hNil, if_true]
  · simp only [if_neg hNil, if_neg (lowerZone_nonempty hLower hNil), lowerZone_idem hLower]

/-- A host with a colon or a bracket is another host there. -/
theorem hostname_lost (hLower : Lowers lower) (h : ':' ∈ u.hostinfo.1 ∨ '[' ∈ u.hostinfo.1)
    (hNetloc : v.netloc = u.shortNetloc lower) :
    v.hostname lower ≠ u.hostname lower := by
  intro hEq
  have hNe : u.hostinfo.1 ≠ [] := by
    intro hNil
    rw [hNil] at h
    rcases h with h | h <;> cases h
  have hZone : lowerZone lower v.hostinfo.1 = lowerZone lower u.hostinfo.1 := by
    rw [hostname_eq, hostname_eq, if_neg hNe] at hEq
    split at hEq
    · cases hEq
    · exact Option.some.inj hEq
  have hSame : v.hostinfo.1.filter isDelim = u.hostinfo.1.filter isDelim := by
    rw [← lowerZone_delims hLower, hZone, lowerZone_delims hLower]
  have hShort := shortHost_delims hLower u
  have hPart := (shortNetloc_parts hLower hNetloc).2
  rcases hostinfo_cases v with ⟨hBracket, hColon, -⟩ | ⟨junk, rest, hWritten, -⟩
  · rw [hPart, mem_filter_delim hShort rfl] at hBracket
    rw [mem_filter_delim hSame rfl] at hColon
    exact h.elim hColon hBracket
  · -- a bracket is used up in front of the host that is read
    have hFewer := congrArg (fun s => (s.filter isDelim).count '[') (hPart.symm.trans hWritten)
    simp only [hShort, ← hSame, List.filter_append, List.filter_cons, List.count_append] at hFewer
    have hBracket : isDelim '[' = true := rfl
    rw [if_pos hBracket, List.count_cons_self, List.count_append] at hFewer
    omega

end
end Eggfetch.Facade.Urls
