import Eggfetch.Facade.Authority
import Eggfetch.Facade.Mounts

/-! When the mount that is matched is a most specific one in every order of the mounts. -/
namespace Eggfetch.Facade.Urls
open Text

section
variable {τ : Type} (lower : List Char → List Char) (check : List Char → Bool)

def patternOf (mount : List Char × τ) : MountPattern := (parseMountPattern lower check mount.1).getD ⟨[], none, none, [], false⟩

/-- The pattern matches, and no pattern that matches is more specific. -/
def IsMostSpecific (url : SplitResult) (mounts : List (List Char × τ)) (mount : List Char × τ) : Prop :=
  documentedMatch lower (patternOf lower check mount) (documentedTarget lower url) = true ∧
    ∀ other ∈ mounts, documentedMatch lower (patternOf lower check other) (documentedTarget lower url) = true →
      specificity lower (patternOf lower check other) ≤ specificity lower (patternOf lower check mount)

/-- In every order of the mounts the same transport is chosen, by a most specific pattern, and none only where none matches. -/
def MountLaw (url : SplitResult) (mounts : List (List Char × τ)) : Prop :=
  ∃ chosen : Option τ, ∀ order, order.Perm mounts → ∃ best, matchMount lower check url order = some best ∧
  best.map Prod.snd = chosen ∧
    (∀ mount, best = some mount → IsMostSpecific lower check url mounts mount) ∧
    (best = none → ∀ mount ∈ mounts, documentedMatch lower (patternOf lower check mount) (documentedTarget lower url) = false)

def SamePattern (p q : MountPattern) : Prop := { p with host := p.host.map lower } = { q with host := q.host.map lower }

/-- A most specific pattern is admitted, and every other pattern that is admitted scores less or is the same
with the same transport; where no pattern matches none is admitted. -/
structure Unambiguous (url : SplitResult) (mounts : List (List Char × τ)) (target : Target) : Prop where
  found : ∀ mount ∈ mounts, IsMostSpecific lower check url mounts mount → admits lower (patternOf lower check mount) target = true
  alone : ∀ mount ∈ mounts, IsMostSpecific lower check url mounts mount → ∀ other ∈ mounts,
    admits lower (patternOf lower check other) target = true →
      score (patternOf lower check other) < score (patternOf lower check mount) ∨
        SamePattern lower (patternOf lower check other) (patternOf lower check mount) ∧ other.2 = mount.2
  unmatched : (∀ mount ∈ mounts, documentedMatch lower (patternOf lower check mount) (documentedTarget lower url) = false) →
    ∀ mount ∈ mounts, admits lower (patternOf lower check mount) target = false

end

section
variable {τ : Type} {lower : List Char → List Char} {check : List Char → Bool} {p q : MountPattern} {target : Target}

theorem samePattern_iff : SamePattern lower p q ↔
    p.scheme = q.scheme ∧ p.host.map lower = q.host.map lower ∧ p.port = q.port ∧ p.path = q.path ∧
    p.isWildcard = q.isWildcard := by
  rw [SamePattern, MountPattern.mk.injEq]

theorem hostMatches_congr {patHost patHost' : Option (List Char)} (h : patHost.map lower = patHost'.map lower)
    (urlHost : Option (List Char))
    (isWildcard : Bool) : hostMatches lower urlHost patHost isWildcard = hostMatches lower urlHost patHost' isWildcard := by
  cases patHost with
  | none =>
    obtain rfl := Option.map_eq_none_iff.mp h.symm
    rfl
  | some host =>
    obtain ⟨host', rfl, hSame⟩ := Option.map_eq_some_iff.mp h.symm
    cases urlHost with
    | none => rfl
    | some urlHost => rw [hostMatches, hostMatches, hSame]

theorem host_none_congr {host host' : Option (List Char)} (h : host.map lower = host'.map lower) :
    host = none ↔ host' = none := by
  rw [← Option.map_eq_none_iff (f := lower), h, Option.map_eq_none_iff]

theorem SamePattern.admits (h : SamePattern lower p q) (target : Target) : admits lower p target = admits lower q target := by
  obtain ⟨hScheme, hHost, hPort, hPath, hWildcard⟩ := samePattern_iff.mp h
  have hNone : p.host.isNone = q.host.isNone := by
    rw [Bool.eq_iff_iff, Option.isNone_iff_eq_none, Option.isNone_iff_eq_none]
    exact host_none_congr hHost
  rw [Urls.admits, Urls.admits, hScheme, hPort, hPath, hWildcard, hNone, hostMatches_congr hHost]

theorem SamePattern.documentedMatch (h : SamePattern lower p q) (target : Target) :
    documentedMatch lower p target = documentedMatch lower q target := by
  obtain ⟨hScheme, hHost, hPort, hPath, hWildcard⟩ := samePattern_iff.mp h
  rw [Urls.documentedMatch, Urls.documentedMatch, hScheme, hPort, hPath, hWildcard, hostMatches_congr hHost]

theorem SamePattern.score (h : SamePattern lower p q) : score p = score q := by
  obtain ⟨hScheme, hHost, hPort, hPath, hWildcard⟩ := samePattern_iff.mp h
  rw [Urls.score, Urls.score, hScheme, hPort, hPath, hWildcard]
  simp only [host_none_congr hHost]

theorem SamePattern.specificity (h : SamePattern lower p q) : specificity lower p = specificity lower q := by
  obtain ⟨hScheme, hHost, hPort, hPath, hWildcard⟩ := samePattern_iff.mp h
  have hClass : documentedClass p = documentedClass q := by
    rw [documentedClass, documentedClass, hScheme, hPort, hPath, hWildcard]
    cases hp : p.host with
    | none =>
      rw [(host_none_congr hHost).mp hp]
    | some host =>
      rw [hp] at hHost
      obtain ⟨host', hq, -⟩ := Option.map_eq_some_iff.mp hHost.symm
      rw [hq]
  have hLower : lower (p.host.getD []) = lower (q.host.getD []) := by
    cases hp : p.host with
    | none => rw [(host_none_congr hHost).mp hp]
    | some host =>
      rw [hp] at hHost
      obtain ⟨host', hq, hSame⟩ := Option.map_eq_some_iff.mp hHost.symm
      rw [hq]
      exact hSame.symm
  rw [Urls.specificity, Urls.specificity, hClass, hLower, hPort, hPath, hWildcard, hScheme]

theorem path_of_match (h : documentedMatch lower p target = true) : p.path <+: target.path := by
  rw [documentedMatch, Bool.and_eq_true, Bool.or_eq_true, Bool.or_eq_true, decide_eq_true_iff, decide_eq_true_iff,
    List.isPrefixOf_iff_prefix] at h
  rcases h.2 with (hNil | hSame) | hPrefix
  · rw [hNil]
    exact List.nil_prefix
  · exact ⟨[], by rw [List.append_nil, hSame]⟩
  · exact (List.prefix_append _ _).trans hPrefix

theorem host_of_match (h : documentedMatch lower p target = true) {host : List Char} (hHost : p.host = some host) :
    ∃ urlHost, target.host = some urlHost ∧ if p.isWildcard then '.' ::
    lower host <:+ lower urlHost else lower host = lower urlHost := by
  rw [documentedMatch, Bool.and_eq_true, Bool.and_eq_true, Bool.and_eq_true] at h
  obtain ⟨⟨⟨-, hMatch⟩, -⟩, -⟩ := h
  rw [hHost] at hMatch
  cases hUrl : target.host with
  | none =>
    rw [hUrl] at hMatch
    cases hMatch
  | some urlHost =>
    rw [hUrl, hostMatches] at hMatch
    refine ⟨urlHost, rfl, ?_⟩
    split at hMatch
    · next hWildcard =>
      rw [if_pos hWildcard]
      exact List.isSuffixOf_iff_suffix.mp hMatch
    · next hExact =>
      rw [if_neg hExact]
      exact of_decide_eq_true hMatch

private theorem documentedClass_none (h : p.host = none) : documentedClass p ≤ 1 := by
  rw [documentedClass, h]
  simp only
  split <;> decide

private theorem documentedClass_some {host : List Char} (h : p.host = some host) : 2 ≤ documentedClass p := by
  rw [documentedClass, h]
  simp only
  split_ifs <;> decide

private theorem documentedClass_inj (hPort : (p.port ≠ none) ↔ q.port ≠ none) (hPath : p.path ≠ [] ↔ q.path ≠ [])
    (hClass : documentedClass p = documentedClass q) :
    (p.host = none ↔ q.host = none) ∧ (p.host ≠ none → p.isWildcard = q.isWildcard) := by
  cases hp : p.host with
  | none =>
    have hLow := documentedClass_none hp
    refine ⟨iff_of_true rfl ?_, fun hSome => absurd rfl hSome⟩
    cases hq : q.host with
    | none => rfl
    | some host =>
      have hHigh := documentedClass_some hq
      omega
  | some host =>
    have hHigh := documentedClass_some hp
    cases hq : q.host with
    | none =>
      have hLow := documentedClass_none hq
      omega
    | some host' =>
      refine ⟨iff_of_false (Option.some_ne_none _) (Option.some_ne_none _), fun _ => ?_⟩
      rw [documentedClass, documentedClass, hp, hq] at hClass
      simp only [hPort, hPath] at hClass
      have hFlag := Nat.add_left_cancel hClass
      cases hpw : p.isWildcard <;> cases hqw : q.isWildcard <;> rw [hpw, hqw] at hFlag <;> first | rfl | cases hFlag

private theorem samePattern_of_specificity (hp : documentedMatch lower p target = true)
    (hq : documentedMatch lower q target = true)
    (hpWildcard : p.host = none → p.isWildcard = false) (hqWildcard : q.host = none → q.isWildcard = false)
    (h : specificity lower p = specificity lower q) : SamePattern lower p q := by
  obtain ⟨hClass, hRest⟩ := Prod.mk.inj (toLex_inj.mp h)
  obtain ⟨hPortFlag, hRest⟩ := Prod.mk.inj (toLex_inj.mp hRest)
  obtain ⟨hPathLength, hRest⟩ := Prod.mk.inj (toLex_inj.mp hRest)
  obtain ⟨hWildcardLength, hSchemeFlag⟩ := Prod.mk.inj (toLex_inj.mp hRest)
  have hPortSome : (p.port ≠ none) ↔ q.port ≠ none := by
    split_ifs at hPortFlag with hp hq hq
    · exact iff_of_true hp hq
    · exact iff_of_false hp hq
  have hSchemeSome : (p.scheme ≠ []) ↔ q.scheme ≠ [] := by
    split_ifs at hSchemeFlag with hp hq hq
    · exact iff_of_true hp hq
    · exact iff_of_false hp hq
  have hPath : p.path = q.path := List.prefix_of_prefix_length_le (path_of_match hp) (path_of_match hq) hPathLength.le
    |>.eq_of_length hPathLength
  obtain ⟨hHostNone, hWildcardSome⟩ := documentedClass_inj hPortSome (by rw [hPath]) hClass
  have hWildcard : p.isWildcard = q.isWildcard := by
    by_cases hNone : p.host = none
    · rw [hpWildcard hNone, hqWildcard (hHostNone.mp hNone)]
    · exact hWildcardSome hNone
  have hHost : p.host.map lower = q.host.map lower := by
    cases hpHost : p.host with
    | none => rw [hHostNone.mp hpHost]
    | some host =>
      obtain ⟨host', hqHost⟩ : ∃ host', q.host = some host' := by
        rw [← Option.ne_none_iff_exists']
        intro hNone
        rw [hHostNone.mpr hNone] at hpHost
        cases hpHost
      obtain ⟨urlHost, hUrl, hpMatch⟩ := host_of_match hp hpHost
      obtain ⟨urlHost', hUrl', hqMatch⟩ := host_of_match hq hqHost
      obtain rfl := Option.some.inj (hUrl.symm.trans hUrl')
      rw [hpHost, hqHost, hWildcard] at hWildcardLength
      rw [hWildcard] at hpMatch
      rw [hqHost, Option.map_some, Option.map_some, Option.some.injEq]
      split at hpMatch
      · next hIs =>
        rw [if_pos hIs] at hqMatch
        rw [if_pos hIs, if_pos hIs] at hWildcardLength
        have hLength : ('.' :: lower host).length = ('.' :: lower host').length := congrArg Nat.succ hWildcardLength
        have hSuffix := List.suffix_of_suffix_length_le hpMatch hqMatch hLength.le
        exact (List.cons.inj (hSuffix.eq_of_length hLength)).2
      · next hIs =>
        rw [if_neg hIs] at hqMatch
        exact hpMatch.trans hqMatch.symm
  rw [documentedMatch, Bool.and_eq_true, Bool.and_eq_true, Bool.and_eq_true, Bool.or_eq_true, Bool.or_eq_true, decide_eq_true_iff,
    decide_eq_true_iff, decide_eq_true_iff, Option.isNone_iff_eq_none] at hp hq
  have hScheme : p.scheme = q.scheme := by
    by_cases hNil : p.scheme = []
    · rw [hNil, not_not.mp fun hSome => hSchemeSome.mpr hSome hNil]
    · rw [hp.1.1.1.resolve_left hNil, hq.1.1.1.resolve_left (hSchemeSome.mp hNil)]
  have hPort : p.port = q.port := by
    by_cases hNone : p.port = none
    · rw [hNone, not_not.mp fun hSome => hPortSome.mpr hSome hNone]
    · rw [hp.1.2.resolve_left hNone, hq.1.2.resolve_left (hPortSome.mp hNone)]
  exact samePattern_iff.mpr ⟨hScheme, hHost, hPort, hPath, hWildcard⟩

section
variable {mount : List Char × τ} {mounts order : List (List Char × τ)} {url : SplitResult}

theorem parse_of_valid (h : validateMountPattern lower check mount.1 = true) :
    parseMountPattern lower check mount.1 = some (patternOf lower check mount) ∧
      ((patternOf lower check mount).host = none → (patternOf lower check mount).isWildcard = false) := by
  have hParsed : ∃ p, parseMountPattern lower check mount.1 = some p ∧ (p.host = none → p.isWildcard = false) := by
    rw [validateMountPattern, Bool.or_eq_true, decide_eq_true_iff] at h
    rw [parseMountPattern]
    by_cases hAll : mount.1 = "all://".toList
    · rw [if_pos hAll]
      exact ⟨_, rfl, fun _ => rfl⟩
    · rw [if_neg hAll]
      obtain ⟨parsed, hParsed, hTests⟩ := (Option.any_eq_true _ _).mp (h.resolve_left hAll)
      simp only [Bool.and_eq_true] at hTests
      obtain ⟨port, hPort⟩ := Option.isSome_iff_exists.mp hTests.2
      rw [hParsed, Option.bind_eq_bind, Option.bind_some, hPort, Option.bind_eq_bind, Option.bind_some]
      by_cases hWild : "*.".toList.isPrefixOf ((parsed.hostname lower).getD []) = true
      · simp only [if_pos hWild]
        exact ⟨_, rfl, fun hNone => by cases hNone⟩
      · simp only [if_neg hWild]
        by_cases hStar : (parsed.hostname lower).getD [] = ['*']
        · simp only [if_pos hStar]
          exact ⟨_, rfl, fun hNone => by cases hNone⟩
        · simp only [if_neg hStar]
          exact ⟨_, rfl, fun _ => rfl⟩
  obtain ⟨p, hp, hWild⟩ := hParsed
  have hSame : patternOf lower check mount = p := by rw [patternOf, hp, Option.getD_some]
  rw [hSame]
  exact ⟨hp, hWild⟩

theorem consider_eq {best : Option (List Char × τ) × Int} (h : validateMountPattern lower check mount.1 = true) :
    consider lower check target best mount =
      if admits lower (patternOf lower check mount) target && best.2 < score (patternOf lower check mount) then
        some (some mount, (score (patternOf lower check mount) : Int)) else some best := by
  unfold consider
  rw [(parse_of_valid h).1]
  rfl

/-- The loop ends with what it began with, or with a pattern of the highest score, which is higher. -/
theorem foldlM_consider (hValid : ∀ mount ∈ order, validateMountPattern lower check mount.1 = true)
    (best : Option (List Char × τ) × Int) :
    ∃ last, order.foldlM (consider lower check target) best = some last ∧
      (∀ mount ∈ order, admits lower (patternOf lower check mount) target = true →
        (score (patternOf lower check mount) : Int) ≤ last.2) ∧
      (last = best ∨ best.2 < last.2 ∧ ∃ mount ∈ order, admits lower (patternOf lower check mount) target = true ∧
        last.1 = some mount ∧
        last.2 = score (patternOf lower check mount)) := by
  induction order generalizing best with
  | nil => exact ⟨best, rfl, fun mount hMount => absurd hMount List.not_mem_nil, Or.inl rfl⟩
  | cons first order ih =>
    obtain ⟨hFirst, hOrder⟩ := List.forall_mem_cons.mp hValid
    rw [List.foldlM_cons, consider_eq hFirst]
    by_cases hTaken : (admits lower (patternOf lower check first) target &&
      decide (best.2 < score (patternOf lower check first))) = true
    · rw [if_pos hTaken]
      rw [Bool.and_eq_true, decide_eq_true_iff] at hTaken
      obtain ⟨last, hLast, hMax, hFrom⟩ := ih hOrder (some first, score (patternOf lower check first))
      refine ⟨last, hLast, List.forall_mem_cons.mpr ⟨fun _ => ?_, hMax⟩, Or.inr ?_⟩
      · rcases hFrom with rfl | ⟨hHigher, -⟩
        · exact le_refl _
        · exact hHigher.le
      · rcases hFrom with rfl | ⟨hHigher, mount, hMount, hRest⟩
        · exact ⟨hTaken.2, first, List.mem_cons_self, hTaken.1, rfl, rfl⟩
        · exact ⟨hTaken.2.trans hHigher, mount, List.mem_cons_of_mem first hMount, hRest⟩
    · rw [if_neg hTaken]
      obtain ⟨last, hLast, hMax, hFrom⟩ := ih hOrder best
      refine ⟨last, hLast, List.forall_mem_cons.mpr ⟨fun hAdmits => ?_, hMax⟩, hFrom.imp_right ?_⟩
      · rw [hAdmits, Bool.true_and, decide_eq_true_iff, not_lt] at hTaken
        rcases hFrom with rfl | ⟨hHigher, -⟩
        · exact hTaken
        · exact hTaken.trans hHigher.le
      · rintro ⟨hHigher, mount, hMount, hRest⟩
        exact ⟨hHigher, mount, List.mem_cons_of_mem first hMount, hRest⟩

/-- No pattern is admitted, or the mount that is matched has the highest score of those that are. -/
theorem matchMount_cases (hValid : ∀ mount ∈ order, validateMountPattern lower check mount.1 = true) (hNil : order ≠ [])
    (hTarget : targetOf lower check url = some target) :
    (matchMount lower check url order = some none ∧ ∀ mount ∈ order, admits lower (patternOf lower check mount) target = false) ∨
      ∃ mount ∈ order, matchMount lower check url order = some (some mount) ∧
      admits lower (patternOf lower check mount) target = true ∧
        ∀ other ∈ order, admits lower (patternOf lower check other) target = true →
          score (patternOf lower check other) ≤ score (patternOf lower check mount) := by
  obtain ⟨last, hLast, hMax, hFrom⟩ := @foldlM_consider _ _ _ target _ hValid (none, -1)
  have hMatch : matchMount lower check url order = some last.1 := by
    cases order with
    | nil => exact absurd rfl hNil
    | cons first order =>
      rw [matchMount, hTarget, Option.bind_eq_bind, Option.bind_some, hLast, Option.bind_eq_bind, Option.bind_some]
      exact List.cons_ne_nil first order
  rcases hFrom with rfl | ⟨-, mount, hMount, hAdmits, hBest, hScore⟩
  · refine Or.inl ⟨hMatch, fun mount hMount => ?_⟩
    by_contra hAdmits
    have hHigh := hMax mount hMount (Bool.not_eq_false _ ▸ hAdmits)
    simp only at hHigh
    omega
  · rw [hBest] at hMatch
    refine Or.inr ⟨mount, hMount, hMatch, hAdmits, fun other hOther hOtherAdmits => ?_⟩
    have hHigh := hMax other hOther hOtherAdmits
    rw [hScore] at hHigh
    exact Int.ofNat_le.mp hHigh

private theorem matchMount_first {first : List Char × τ}
    (hValid : ∀ mount ∈ first :: order, validateMountPattern lower check mount.1 = true)
    (hTarget : targetOf lower check url = some target) (hAdmits : admits lower (patternOf lower check first) target = true)
    (hMax : ∀ other ∈ order, admits lower (patternOf lower check other) target = true →
      score (patternOf lower check other) ≤ score (patternOf lower check first)) :
    matchMount lower check url (first :: order) = some (some first) := by
  obtain ⟨hFirst, hOrder⟩ := List.forall_mem_cons.mp hValid
  have hTaken : (admits lower (patternOf lower check first) target &&
      decide ((-1 : Int) < score (patternOf lower check first))) = true := by
    rw [hAdmits, Bool.true_and, decide_eq_true_iff]
    omega
  obtain ⟨last, hLast, -, hFrom⟩ := @foldlM_consider _ _ _ target _ hOrder (some first, score (patternOf lower check first))
  rw [matchMount, hTarget, Option.bind_eq_bind, Option.bind_some, List.foldlM_cons, consider_eq hFirst, if_pos hTaken]
  · rcases hFrom with rfl | ⟨hHigher, other, hOther, hOtherAdmits, -, hScore⟩
    · exact congrArg (Option.bind · fun best => some best.1) hLast
    · have hLow := hMax other hOther hOtherAdmits
      rw [hScore] at hHigher
      omega
  · exact List.cons_ne_nil first order

theorem exists_mostSpecific (h : ∃ mount ∈ mounts,
    documentedMatch lower (patternOf lower check mount) (documentedTarget lower url) = true) :
    ∃ mount ∈ mounts, IsMostSpecific lower check url mounts mount := by
  obtain ⟨matching, hMatching⟩ : ∃ matching, mounts.filter
      (fun mount => documentedMatch lower (patternOf lower check mount) (documentedTarget lower url)) = matching := ⟨_, rfl⟩
  have hMem : ∀ mount, mount ∈ matching ↔
      mount ∈ mounts ∧ documentedMatch lower (patternOf lower check mount) (documentedTarget lower url) = true := by
    intro mount
    rw [← hMatching, List.mem_filter]
  cases hBest : matching.argmax fun mount => specificity lower (patternOf lower check mount) with
  | none =>
    obtain ⟨mount, hMount, hMatch⟩ := h
    have hIn := (hMem mount).mpr ⟨hMount, hMatch⟩
    rw [List.argmax_eq_none.mp hBest] at hIn
    cases hIn
  | some best =>
    obtain ⟨hBestMount, hBestMatch⟩ := (hMem best).mp (List.argmax_mem hBest)
    refine ⟨best, hBestMount, hBestMatch, fun other hOther hMatch => ?_⟩
    exact @List.le_of_mem_argmax _ _ _ (fun mount => specificity lower (patternOf lower check mount)) _ _ _
      ((hMem other).mpr ⟨hOther, hMatch⟩) hBest

theorem IsMostSpecific.same {other : List Char × τ} (hValid : ∀ mount ∈ mounts, validateMountPattern lower check mount.1 = true)
    (hMount : mount ∈ mounts) (hOther : other ∈ mounts) (h : IsMostSpecific lower check url mounts mount)
    (h' : IsMostSpecific lower check url mounts other) :
    SamePattern lower (patternOf lower check other) (patternOf lower check mount) :=
  samePattern_of_specificity h'.1 h.1 (parse_of_valid (hValid other hOther)).2 (parse_of_valid (hValid mount hMount)).2
    (le_antisymm (h.2 other hOther h'.1) (h'.2 mount hMount h.1))

theorem IsMostSpecific.congr {other : List Char × τ} (h : IsMostSpecific lower check url mounts mount)
    (hSame : SamePattern lower (patternOf lower check other) (patternOf lower check mount)) :
    IsMostSpecific lower check url mounts other := by
  rw [IsMostSpecific, hSame.documentedMatch, hSame.specificity]
  exact h

private theorem unambiguous_of_mountLaw (hValid : ∀ mount ∈ mounts, validateMountPattern lower check mount.1 = true)
    (hNil : mounts ≠ [])
    (hTarget : targetOf lower check url = some target) (h : MountLaw lower check url mounts) :
    Unambiguous lower check url mounts target := by
  obtain ⟨chosen, hOrders⟩ := h
  obtain ⟨best, hBest, -, hSpecific, hNone⟩ := hOrders mounts (List.Perm.refl mounts)
  -- a pattern of the highest score is chosen in some order
  have hChosen : ∀ mount ∈ mounts, admits lower (patternOf lower check mount) target = true →
      (∀ other ∈ mounts, admits lower (patternOf lower check other) target = true →
        score (patternOf lower check other) ≤ score (patternOf lower check mount)) →
      IsMostSpecific lower check url mounts mount ∧ some mount.2 = chosen := by
    intro mount hMount hAdmits hMax
    obtain ⟨before, behind, rfl⟩ := List.append_of_mem hMount
    have hOrder : (mount :: (before ++ behind)).Perm (before ++ mount :: behind) := List.perm_middle.symm
    have hFirst := matchMount_first (fun other hOther => hValid other (hOrder.mem_iff.mp hOther)) hTarget hAdmits
      fun other hOther hOtherAdmits => hMax other (hOrder.mem_iff.mp (List.mem_cons_of_mem mount hOther)) hOtherAdmits
    obtain ⟨best, hBest, hTransport, hSpecific, -⟩ := hOrders _ hOrder
    obtain rfl := Option.some.inj (hFirst.symm.trans hBest)
    exact ⟨hSpecific mount rfl, hTransport⟩
  rcases matchMount_cases hValid hNil hTarget with ⟨hMatch, hRefused⟩ | ⟨top, hTop, hMatch, hTopAdmits, hTopMax⟩
  · obtain rfl := Option.some.inj (hMatch.symm.trans hBest)
    have hUnmatched := hNone rfl
    have hNoBest : ∀ mount ∈ mounts, ¬ IsMostSpecific lower check url mounts mount := by
      intro mount hMount hBestMount
      have hFalse := hUnmatched mount hMount
      rw [hBestMount.1] at hFalse
      cases hFalse
    exact ⟨fun mount hMount hIs => absurd hIs (hNoBest mount hMount), fun mount hMount hIs => absurd hIs (hNoBest mount hMount),
      fun _ => hRefused⟩
  · have hTopBest := (hChosen top hTop hTopAdmits hTopMax).1
    have hLikeTop : ∀ mount ∈ mounts, IsMostSpecific lower check url mounts mount →
        SamePattern lower (patternOf lower check mount) (patternOf lower check top) :=
      fun mount hMount hIs => hTopBest.same hValid hTop hMount hIs
    refine ⟨fun mount hMount hIs => ?_, fun mount hMount hIs other hOther hOtherAdmits => ?_, fun hUnmatched => ?_⟩
    · rw [(hLikeTop mount hMount hIs).admits]
      exact hTopAdmits
    · have hScore := (hLikeTop mount hMount hIs).score
      rcases lt_or_ge (score (patternOf lower check other)) (score (patternOf lower check mount)) with hLess | hGe
      · exact Or.inl hLess
      · have hMountAdmits : admits lower (patternOf lower check mount) target = true := by
          rw [(hLikeTop mount hMount hIs).admits]
          exact hTopAdmits
        have hOtherChosen := hChosen other hOther hOtherAdmits fun third hThird hAdmits =>
          (hTopMax third hThird hAdmits).trans (hScore.symm.le.trans hGe)
        have hMountChosen := hChosen mount hMount hMountAdmits fun third hThird hAdmits =>
          (hTopMax third hThird hAdmits).trans hScore.symm.le
        exact Or.inr ⟨hIs.same hValid hMount hOther hOtherChosen.1, Option.some.inj (hOtherChosen.2.trans hMountChosen.2.symm)⟩
    · have hFalse := hUnmatched top hTop
      rw [hTopBest.1] at hFalse
      cases hFalse

private theorem mountLaw_of_unambiguous (hValid : ∀ mount ∈ mounts, validateMountPattern lower check mount.1 = true)
    (hNil : mounts ≠ [])
    (hTarget : targetOf lower check url = some target) (h : Unambiguous lower check url mounts target) :
    MountLaw lower check url mounts := by
  have hOrderNil : ∀ {order : List (List Char × τ)}, order.Perm mounts → order ≠ [] := by
    rintro order hPerm rfl
    exact hNil (List.nil_perm.mp hPerm)
  by_cases hSome : ∃ mount ∈ mounts, documentedMatch lower (patternOf lower check mount) (documentedTarget lower url) = true
  · obtain ⟨best, hBest, hIs⟩ := exists_mostSpecific hSome
    refine ⟨some best.2, fun order hPerm => ?_⟩
    have hOrderValid : ∀ mount ∈ order, validateMountPattern lower check mount.1 = true :=
      fun mount hMount => hValid mount (hPerm.mem_iff.mp hMount)
    rcases matchMount_cases hOrderValid (hOrderNil hPerm) hTarget with ⟨-, hRefused⟩ | ⟨top, hTop, hMatch, hTopAdmits, hTopMax⟩
    · have hFalse := hRefused best (hPerm.mem_iff.mpr hBest)
      rw [h.found best hBest hIs] at hFalse
      cases hFalse
    · have hHigh := hTopMax best (hPerm.mem_iff.mpr hBest) (h.found best hBest hIs)
      obtain ⟨hSame, hTransport⟩ := (h.alone best hBest hIs top (hPerm.mem_iff.mp hTop) hTopAdmits).resolve_left
        (not_lt.mpr hHigh)
      refine ⟨some top, hMatch, congrArg some hTransport, fun mount hMount => ?_, fun hNone => by cases hNone⟩
      obtain rfl := Option.some.inj hMount
      exact hIs.congr hSame
  · have hUnmatched : ∀ mount ∈ mounts, documentedMatch lower (patternOf lower check mount)
        (documentedTarget lower url) = false := by
      intro mount hMount
      rw [← Bool.not_eq_true]
      exact fun hMatch => hSome ⟨mount, hMount, hMatch⟩
    refine ⟨none, fun order hPerm => ?_⟩
    have hOrderValid : ∀ mount ∈ order, validateMountPattern lower check mount.1 = true :=
      fun mount hMount => hValid mount (hPerm.mem_iff.mp hMount)
    rcases matchMount_cases hOrderValid (hOrderNil hPerm) hTarget with ⟨hMatch, -⟩ | ⟨top, hTop, -, hTopAdmits, -⟩
    · exact ⟨none, hMatch, rfl, fun mount hMount => (by cases hMount), fun _ => hUnmatched⟩
    · rw [h.unmatched hUnmatched top (hPerm.mem_iff.mp hTop)] at hTopAdmits
      cases hTopAdmits

/-- The documented choice is made in every order of the mounts exactly where it is unambiguous to the loop. -/
theorem mounts_lawful (hValid : ∀ mount ∈ mounts, validateMountPattern lower check mount.1 = true) :
    MountLaw lower check url mounts ↔
    mounts = [] ∨ ∃ target, targetOf lower check url = some target ∧ Unambiguous lower check url mounts target := by
  by_cases hNil : mounts = []
  · refine iff_of_true ⟨none, fun order hPerm => ?_⟩ (Or.inl hNil)
    rw [hNil] at hPerm ⊢
    obtain rfl := List.perm_nil.mp hPerm
    exact ⟨none, rfl, rfl, fun mount hMount => (by cases hMount), fun _ mount hMount => absurd hMount List.not_mem_nil⟩
  · rw [or_iff_right hNil]
    constructor
    · intro hLaw
      cases hTarget : targetOf lower check url with
      | none =>
        obtain ⟨chosen, hOrders⟩ := hLaw
        obtain ⟨best, hBest, -⟩ := hOrders mounts (List.Perm.refl mounts)
        rw [matchMount, hTarget] at hBest
        · cases hBest
        · exact hNil
      | some target => exact ⟨target, rfl, unambiguous_of_mountLaw hValid hNil hTarget hLaw⟩
    · rintro ⟨target, hTarget, hUnambiguous⟩
      exact mountLaw_of_unambiguous hValid hNil hTarget hUnambiguous

end
end

def hostUrl (netloc : String) : SplitResult := ⟨"http".toList, netloc.toList, ['/'], [], []⟩

theorem mounts_lawful_example : MountLaw asciiLower (fun _ =>
    true) (hostUrl "h") [("all://".toList, 0), ("http://h".toList, 1)] := by
  have hValid : ∀ mount ∈ [("all://".toList, 0), ("http://h".toList, 1)],
      validateMountPattern asciiLower (fun _ => true) mount.1 = true := by
    decide
  have hTarget : targetOf asciiLower (fun _ => true) (hostUrl "h") = some ⟨"http".toList, some ['h'], none, []⟩ := by decide
  have hBest : ∀ mount ∈ [("all://".toList, 0), ("http://h".toList, 1)], IsMostSpecific asciiLower (fun _ => true) (hostUrl "h")
      [("all://".toList, 0), ("http://h".toList, 1)] mount → mount = ("http://h".toList, 1) := by
    intro mount hMount hIs
    rcases List.mem_pair.mp hMount with rfl | rfl
    · exact absurd (hIs.2 ("http://h".toList, 1) (by decide) (by decide)) (by decide)
    · rfl
  refine (mounts_lawful hValid).mpr (Or.inr ⟨_, hTarget,
    ⟨fun mount hMount hIs => ?_, fun mount hMount hIs other hOther _ => ?_, fun h => ?_⟩⟩)
  · rw [hBest mount hMount hIs]
    decide
  · rw [hBest mount hMount hIs]
    rcases List.mem_pair.mp hOther with rfl | rfl
    · exact Or.inl (by decide)
    · exact Or.inr ⟨rfl, rfl⟩
  · exact absurd (h ("all://".toList, 0) (by decide)) (by decide)

/-- `all://h` and `http://h` are chosen by their order; a pattern with the default port never matches; a long
path is chosen in front of a port. -/
theorem not_mounts_lawful :
    matchMount asciiLower (fun _ => true) (hostUrl "h") [("all://h".toList, 0), ("http://h".toList, 1)] =
    some (some ("all://h".toList, 0)) ∧
    matchMount asciiLower (fun _ => true) (hostUrl "h") [("http://h".toList, 1), ("all://h".toList, 0)] =
    some (some ("http://h".toList, 1)) ∧
    ¬ MountLaw asciiLower (fun _ => true) (hostUrl "h") [("all://h".toList, 0), ("http://h".toList, 1)] ∧
    matchMount asciiLower (fun _ => true) (hostUrl "h:80") [("http://h:80".toList, 0)] = some none ∧
    documentedMatch asciiLower (patternOf asciiLower (fun _ => true) ("http://h:80".toList, 0))
    (documentedTarget asciiLower (hostUrl "h:80")) =
      true := by
  refine ⟨by decide, by decide, ?_, by decide, by decide⟩
  rintro ⟨chosen, hOrders⟩
  obtain ⟨best, hBest, -, hSpecific, -⟩ := hOrders _ (List.Perm.refl _)
  have hFirst : matchMount asciiLower (fun _ => true) (hostUrl "h") [("all://h".toList, 0), ("http://h".toList, 1)] =
      some (some ("all://h".toList, 0)) := by decide
  obtain rfl := Option.some.inj (hFirst.symm.trans hBest)
  exact absurd ((hSpecific _ rfl).2 ("http://h".toList, 1) (by decide) (by decide)) (by decide)

end Eggfetch.Facade.Urls
