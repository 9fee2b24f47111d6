import Eggfetch.Facade.Authority
import Eggfetch.Facade.UrlText
import Eggfetch.Text.Search

/-! When the text of a URL is read as the URL again. -/
namespace Eggfetch.Facade.Urls
open Text

def Schemeless (s : List Char) : Prop :=
  ∀ x y, s = x ++ ':' :: y → ':' ∉ x → (x.head?.any Char.isAlpha && x.all isSchemeChar) = false

structure IsScheme (scheme : List Char) : Prop where
  head : scheme.head?.any Char.isAlpha = true
  all : scheme.all isSchemeChar = true
  lower : scheme.map Char.toLower = scheme

/-- What holds of the parts that `urlsplit` cuts. -/
structure Cut (check : List Char → Bool) (u : SplitResult) : Prop where
  scheme : u.scheme = [] ∨ IsScheme u.scheme
  netloc : ∀ c ∈ u.netloc, isNetlocEnd c = false
  accepted : (balanced u.netloc && check u.netloc) = true
  path : '?' ∉ u.path ∧ '#' ∉ u.path
  rooted : u.netloc ≠ [] → u.path = [] ∨ u.path.head? = some '/'
  query : '#' ∉ u.query
  kept : ∀ c ∈ u.netloc ++ u.tail, isRemoved c = false
  start : u.scheme = [] → u.netloc = [] → ∀ c, u.path.head? = some c → isC0OrSpace c = false
  schemeless : u.scheme = [] → u.netloc = [] → Schemeless u.path

section
variable {check : List Char → Bool} {u v : SplitResult}

theorem splitScheme_schemeless {s : List Char} (h : Schemeless s) : splitScheme s = ([], s) := by
  rw [splitScheme]
  rcases exists_first ':' s with hNone | ⟨x, y, rfl, hx⟩
  · rw [partition_whole hNone]
    rfl
  · rw [partition_cut hx]
    simp only [Bool.true_and, h x y rfl hx, Bool.false_eq_true, if_false]

private theorem colon_not_scheme {scheme : List Char} (h : scheme.all isSchemeChar = true) : ':' ∉ scheme := by
  intro hMem
  have hChar := List.all_eq_true.mp h _ hMem
  cases hChar

theorem splitScheme_scheme {scheme : List Char} (h : IsScheme scheme) (rest : List Char) :
    splitScheme (scheme ++ ':' :: rest) = (scheme, rest) := by
  rw [splitScheme, partition_cut (colon_not_scheme h.all)]
  simp only [h.head, h.all, Bool.and_self, if_true, h.lower]

theorem splitNetloc_netloc {netloc rest : List Char} (h : ∀ c ∈ netloc, isNetlocEnd c = false)
    (hRest : ∀ c, rest.head? = some c → isNetlocEnd c = true) :
    splitNetloc ('/' :: '/' :: (netloc ++ rest)) = (netloc, rest) := by
  have hKeep : ∀ c ∈ netloc, (!isNetlocEnd c) = true := fun c hc => by rw [h c hc]; rfl
  rw [splitNetloc, List.takeWhile_append_of_pos hKeep, List.dropWhile_append_of_pos hKeep]
  cases rest with
  | nil => rw [List.takeWhile_nil, List.append_nil, List.dropWhile_nil]
  | cons c rest =>
    have hStop : (!isNetlocEnd c) = false := by rw [hRest c rfl]; rfl
    simp only [List.takeWhile_cons, List.dropWhile_cons, hStop, Bool.false_eq_true, if_false, List.append_nil]

theorem splitNetloc_none {s : List Char} (h : ¬ ['/', '/'] <+: s) : splitNetloc s = ([], s) := by
  rw [splitNetloc.eq_def]
  split
  · exact absurd ⟨_, rfl⟩ h
  · rfl

private theorem cut_tail (hPath : '?' ∉ u.path ∧ '#' ∉ u.path) (hQuery : '#' ∉ u.query) :
    ∃ front, (∃ found, partition '#' u.tail = (front, found, u.fragment)) ∧ ∃ found,
    partition '?' front = (u.path, found, u.query) := by
  refine ⟨u.path ++ (if u.query = [] then [] else '?' :: u.query), ?_, ?_⟩
  · have hFront : '#' ∉ u.path ++ (if u.query = [] then [] else '?' :: u.query) := by
      rw [List.mem_append, not_or]
      refine ⟨hPath.2, ?_⟩
      split
      · exact List.not_mem_nil
      · exact List.not_mem_cons_of_ne_of_not_mem (by decide) hQuery
    rw [SplitResult.tail]
    generalize u.path ++ (if u.query = [] then [] else '?' :: u.query) = front at hFront ⊢
    split
    · next hFragment =>
      rw [List.append_nil, partition_whole hFront, hFragment]
      exact ⟨false, rfl⟩
    · rw [partition_cut hFront]
      exact ⟨true, rfl⟩
  · split
    · next hNil =>
      rw [List.append_nil, partition_whole hPath.1, hNil]
      exact ⟨false, rfl⟩
    · rw [partition_cut hPath.1]
      exact ⟨true, rfl⟩

theorem tail_head (hRooted : u.path = [] ∨ u.path.head? = some '/') : ∀ c, u.tail.head? = some c → isNetlocEnd c = true := by
  intro c hc
  cases hPath : u.path with
  | nil =>
    rw [SplitResult.tail, hPath, List.nil_append] at hc
    split at hc
    · split at hc
      · cases hc
      · cases hc
        rfl
    · cases hc
      rfl
  | cons d path =>
    rw [hPath] at hRooted
    rw [SplitResult.tail, hPath] at hc
    cases hc
    rcases hRooted with hNil | hHead
    · cases hNil
    · cases hHead
      rfl

theorem filter_kept {s : List Char} (h : ∀ c ∈ s, isRemoved c = false) : s.filter (!isRemoved ·) = s :=
  List.filter_eq_self.mpr fun c hc => by rw [h c hc]; rfl

theorem isAlpha_toLower {c : Char} (h : c.isAlpha = true) : c.toLower.isAlpha = true := by
  rcases toLower_cases c with ⟨hLow, hHigh, hNat⟩ | ⟨-, hSame⟩
  · exact isAlpha_iff.mpr (Or.inr ⟨by omega, by omega⟩)
  · rw [hSame]
    exact h

private theorem isAlpha_not_space {c : Char} (h : c.isAlpha = true) : isC0OrSpace c = false := by
  rw [isC0OrSpace, decide_eq_false_iff_not]
  rcases isAlpha_iff.mp h with hUpper | hLower <;> omega

private theorem isSchemeChar_toLower {c : Char} (h : isSchemeChar c = true) : isSchemeChar c.toLower = true := by
  rcases toLower_cases c with ⟨hLow, hHigh, hNat⟩ | ⟨-, hSame⟩
  · have hAlpha : c.toLower.isAlpha = true := isAlpha_iff.mpr (Or.inr ⟨by omega, by omega⟩)
    rw [isSchemeChar, Char.isAlphanum, hAlpha]
    rfl
  · rw [hSame]
    exact h

theorem isScheme_start {scheme : List Char} (h : IsScheme scheme) (rest : List Char) :
    (scheme ++ rest).dropWhile isC0OrSpace = scheme ++ rest := by
  have hHead := h.head
  cases scheme with
  | nil => cases hHead
  | cons c scheme =>
    rw [List.cons_append, List.dropWhile_cons_of_neg]
    rw [isAlpha_not_space hHead]
    exact Bool.false_ne_true

theorem urlsplit_parts {front scheme netloc url : List Char} (hStart : url.dropWhile isC0OrSpace = url)
    (hKept : ∀ c ∈ url, isRemoved c = false) (hScheme : splitScheme url = (scheme, front))
    (hNetloc : splitNetloc front = (netloc, u.tail))
    (hPath : '?' ∉ u.path ∧ '#' ∉ u.path) (hQuery : '#' ∉ u.query) :
    urlsplit check url = if balanced netloc &&
    check netloc then some ⟨scheme, netloc, u.path, u.query, u.fragment⟩ else none := by
  obtain ⟨rest, ⟨found, hFragment⟩, ⟨found', hSplit⟩⟩ := cut_tail hPath hQuery
  rw [urlsplit, hStart, filter_kept hKept, hScheme]
  simp only [hNetloc, hFragment, hSplit]

theorem splitScheme_cases (url : List Char) :
    (splitScheme url = ([], url) ∧ Schemeless url) ∨
      ∃ scheme rest, splitScheme url = (scheme, rest) ∧ IsScheme scheme ∧ rest <:+ url := by
  rcases exists_first ':' url with hNone | ⟨x, y, rfl, hx⟩
  · have hSchemeless : Schemeless url := fun x y hSplit =>
      absurd (by rw [hSplit]; exact List.mem_append_right x List.mem_cons_self) hNone
    exact Or.inl ⟨splitScheme_schemeless hSchemeless, hSchemeless⟩
  · by_cases hTest : (x.head?.any Char.isAlpha && x.all isSchemeChar) = true
    · refine Or.inr ⟨x.map Char.toLower, y, ?_, ?_, ⟨x ++ [':'], by rw [List.append_assoc, List.singleton_append]⟩⟩
      · rw [splitScheme, partition_cut hx]
        simp only [Bool.true_and, hTest, if_true]
      · rw [Bool.and_eq_true] at hTest
        obtain ⟨hHead, hAll⟩ := hTest
        constructor
        · cases x with
          | nil => cases hHead
          | cons c x => exact isAlpha_toLower hHead
        · rw [List.all_map]
          exact List.all_eq_true.mpr fun c hc => isSchemeChar_toLower (List.all_eq_true.mp hAll c hc)
        · rw [List.map_map]
          exact List.map_congr_left fun c _ => toLower_toLower c
    · have hSchemeless : Schemeless (x ++ ':' :: y) := by
        intro x' y' hSplit hx'
        have hSame := congrArg (List.takeWhile (· != ':')) hSplit
        rw [takeWhile_cut hx, takeWhile_cut hx'] at hSame
        rw [← hSame]
        exact Bool.eq_false_iff.mpr hTest
      exact Or.inl ⟨splitScheme_schemeless hSchemeless, hSchemeless⟩

theorem splitNetloc_cases (url : List Char) :
    (splitNetloc url = ([], url) ∧ ¬ ['/', '/'] <+: url) ∨
      ∃ netloc rest, splitNetloc url = (netloc, rest) ∧ url = '/' :: '/' :: (netloc ++ rest) ∧
      (∀ c ∈ netloc, isNetlocEnd c = false) ∧
        ∀ c, rest.head? = some c → isNetlocEnd c = true := by
  by_cases hSlashes : ['/', '/'] <+: url
  · obtain ⟨rest, rfl⟩ := hSlashes
    refine Or.inr ⟨rest.takeWhile (!isNetlocEnd ·), rest.dropWhile (!isNetlocEnd ·), rfl, ?_, ?_, ?_⟩
    · rw [List.takeWhile_append_dropWhile]
      rfl
    · intro c hc
      have hKeep := List.mem_takeWhile_imp hc
      rw [Bool.not_eq_true'] at hKeep
      exact hKeep
    · intro c hc
      have hStop := List.head?_dropWhile_not (!isNetlocEnd ·) rest
      rw [hc] at hStop
      rw [← Bool.not_eq_false']
      simpa using hStop
  · exact Or.inl ⟨splitNetloc_none hSlashes, hSlashes⟩

theorem partition_fst_start (c : Char) (s : List Char) : (partition c s).1 <+: s := List.takeWhile_prefix _

theorem not_mem_partition_fst (c : Char) (s : List Char) : c ∉ (partition c s).1 := not_mem_takeWhile c s

theorem partition_snd_suffix (c : Char) (s : List Char) : (partition c s).2.2 <:+ s :=
  (List.drop_suffix _ _).trans (List.dropWhile_suffix _)

theorem Schemeless.front {s t : List Char} (h : Schemeless t) (hPrefix : s <+: t) : Schemeless s := by
  obtain ⟨rest, rfl⟩ := hPrefix
  rintro x y rfl hx
  exact h x (y ++ rest) (by rw [List.append_assoc, List.cons_append]) hx

theorem schemeless_rooted {s : List Char} (h : ∀ c, s.head? = some c → isNetlocEnd c = true) : Schemeless s := by
  rintro x y rfl -
  cases x with
  | nil => rfl
  | cons c x =>
    have hEnd := h c rfl
    have hAlpha : c.isAlpha = false := by
      rw [isNetlocEnd, Bool.or_eq_true, Bool.or_eq_true, beq_iff_eq, beq_iff_eq, beq_iff_eq] at hEnd
      rcases hEnd with (rfl | rfl) | rfl <;> rfl
    rw [List.head?_cons, Option.any_some, hAlpha, Bool.false_and]

theorem isNetlocEnd_not_space {c : Char} (h : isNetlocEnd c = true) : isC0OrSpace c = false := by
  rw [isNetlocEnd, Bool.or_eq_true, Bool.or_eq_true, beq_iff_eq, beq_iff_eq, beq_iff_eq] at h
  rcases h with (rfl | rfl) | rfl <;> rfl

private theorem tail_kept {url : List Char} (hUrl : ∀ c ∈ url, isRemoved c = false)
    (hPath : u.path = (partition '?' (partition '#' url).1).1)
    (hQuery : u.query = (partition '?' (partition '#' url).1).2.2) (hFragment : u.fragment = (partition '#' url).2.2) :
    ∀ c ∈ u.tail, isRemoved c = false := by
  have hFront := (partition_fst_start '#' url).subset
  intro c hc
  rw [SplitResult.tail, List.mem_append, List.mem_append] at hc
  rcases hc with (hMem | hMem) | hMem
  · rw [hPath] at hMem
    exact hUrl c (hFront ((partition_fst_start '?' _).subset hMem))
  · split at hMem
    · cases hMem
    · rcases List.mem_cons.mp hMem with rfl | hMem
      · rfl
      · rw [hQuery] at hMem
        exact hUrl c (hFront ((partition_snd_suffix '?' _).subset hMem))
  · split at hMem
    · cases hMem
    · rcases List.mem_cons.mp hMem with rfl | hMem
      · rfl
      · rw [hFragment] at hMem
        exact hUrl c ((partition_snd_suffix '#' url).subset hMem)

theorem urlsplit_cut {text : List Char} (h : urlsplit check text = some u) : Cut check u := by
  obtain ⟨url, hUrl⟩ : ∃ url, (text.dropWhile isC0OrSpace).filter (!isRemoved ·) = url := ⟨_, rfl⟩
  have hKept : ∀ c ∈ url, isRemoved c = false := by
    intro c hc
    rw [← hUrl] at hc
    have hTest := List.of_mem_filter hc
    rw [Bool.not_eq_true'] at hTest
    exact hTest
  have hStart : ∀ c, url.head? = some c → isC0OrSpace c = false := by
    intro c hc
    have hTest := List.head?_dropWhile_not isC0OrSpace text
    cases hDrop : text.dropWhile isC0OrSpace with
    | nil =>
      rw [hDrop] at hUrl
      rw [← hUrl] at hc
      cases hc
    | cons d more =>
      rw [hDrop] at hTest hUrl
      have hFirst : isRemoved d = false := by
        rw [isRemoved, Bool.or_eq_false_iff, Bool.or_eq_false_iff, beq_eq_false_iff_ne, beq_eq_false_iff_ne, beq_eq_false_iff_ne]
        refine ⟨⟨?_, ?_⟩, ?_⟩ <;> rintro rfl <;> cases hTest
      rw [← hUrl, List.filter_cons_of_pos (by rw [hFirst]; rfl)] at hc
      cases hc
      exact hTest
  obtain ⟨scheme, rest, hScheme⟩ : ∃ scheme rest, splitScheme url = (scheme, rest) := ⟨_, _, rfl⟩
  obtain ⟨netloc, tail, hNetloc⟩ : ∃ netloc tail, splitNetloc rest = (netloc, tail) := ⟨_, _, rfl⟩
  rw [urlsplit, hUrl, hScheme] at h
  simp only [hNetloc] at h
  split at h
  · next hAccepted =>
    have hTail : u.path = (partition '?' (partition '#' tail).1).1 ∧ u.query = (partition '?' (partition '#' tail).1).2.2 ∧
        u.fragment = (partition '#' tail).2.2 ∧ u.scheme = scheme ∧ u.netloc = netloc := by
      cases h
      exact ⟨rfl, rfl, rfl, rfl, rfl⟩
    obtain ⟨hPath, hQuery, hFragment, rfl, rfl⟩ := hTail
    have hPrefix : u.path <+: tail := by
      rw [hPath]
      exact (partition_fst_start '?' _).trans (partition_fst_start '#' _)
    have hHead : ∀ c, u.path.head? = some c → tail.head? = some c := by
      intro c hc
      obtain ⟨more, hMore⟩ := hPrefix
      rw [← hMore, List.head?_append, hc, Option.some_or]
    have hSuffix : rest <:+ url := by
      rcases splitScheme_cases url with ⟨hNone, -⟩ | ⟨scheme', rest', hSome, -, hSuffix⟩
      · rw [hScheme] at hNone
        rw [(Prod.mk.inj hNone).2]
      · rw [hScheme] at hSome
        rw [(Prod.mk.inj hSome).2]
        exact hSuffix
    have hRelative : u.scheme = [] → rest = url ∧ Schemeless url := by
      intro hNil
      rcases splitScheme_cases url with ⟨hNone, hSchemeless⟩ | ⟨scheme', rest', hSome, hIs, -⟩
      · rw [hScheme] at hNone
        exact ⟨(Prod.mk.inj hNone).2, hSchemeless⟩
      · rw [hScheme] at hSome
        have hHeadAlpha := hIs.head
        rw [← (Prod.mk.inj hSome).1, hNil] at hHeadAlpha
        cases hHeadAlpha
    have hFront := not_mem_partition_fst '#' tail
    have hCut : ('?' ∉ u.path ∧ '#' ∉ u.path) ∧ '#' ∉ u.query := by
      rw [hPath, hQuery]
      exact ⟨⟨not_mem_partition_fst '?' _, fun hMem => hFront ((partition_fst_start '?' _).subset hMem)⟩,
        fun hMem => hFront ((partition_snd_suffix '?' _).subset hMem)⟩
    have hScheme' : u.scheme = [] ∨ IsScheme u.scheme := by
      rcases splitScheme_cases url with ⟨hNone, -⟩ | ⟨scheme', rest', hSome, hIs, -⟩
      · rw [hScheme] at hNone
        exact Or.inl (Prod.mk.inj hNone).1
      · rw [hScheme] at hSome
        rw [(Prod.mk.inj hSome).1]
        exact Or.inr hIs
    rcases splitNetloc_cases rest with ⟨hNone, -⟩ | ⟨netloc', tail', hSome, hRest, hInside, hEnds⟩
    · rw [hNetloc] at hNone
      obtain ⟨hNil, rfl⟩ := Prod.mk.inj hNone
      refine ⟨hScheme', ?_, hAccepted, hCut.1, fun hNe => absurd hNil hNe, hCut.2, ?_, ?_, ?_⟩
      · rw [hNil]
        intro c hc
        cases hc
      · rw [hNil, List.nil_append]
        exact tail_kept (fun c hc => hKept c (hSuffix.subset hc)) hPath hQuery hFragment
      · intro hRelativeScheme _ c hc
        rw [(hRelative hRelativeScheme).1] at hHead
        exact hStart c (hHead c hc)
      · intro hRelativeScheme _
        rw [(hRelative hRelativeScheme).1] at hPrefix
        exact (hRelative hRelativeScheme).2.front hPrefix
    · rw [hNetloc] at hSome
      obtain ⟨rfl, rfl⟩ := Prod.mk.inj hSome
      have hAll : ∀ c ∈ u.netloc ++ tail, isRemoved c = false := by
        intro c hc
        refine hKept c (hSuffix.subset ?_)
        rw [hRest]
        exact List.mem_cons_of_mem _ (List.mem_cons_of_mem _ hc)
      have hEnd : ∀ c, u.path.head? = some c → isNetlocEnd c = true := fun c hc => hEnds c (hHead c hc)
      refine ⟨hScheme', hInside, hAccepted, hCut.1, fun _ => ?_, hCut.2, ?_, fun _ _ c hc => isNetlocEnd_not_space (hEnd c hc),
        fun _ _ => schemeless_rooted hEnd⟩
      · cases hCases : u.path with
        | nil => exact Or.inl rfl
        | cons c path =>
          rw [hCases] at hEnd hCut
          have hc := hEnd c rfl
          rw [isNetlocEnd, Bool.or_eq_true, Bool.or_eq_true, beq_iff_eq, beq_iff_eq, beq_iff_eq] at hc
          rcases hc with (rfl | rfl) | rfl
          · exact Or.inr rfl
          · exact absurd List.mem_cons_self hCut.1.1
          · exact absurd List.mem_cons_self hCut.1.2
      · intro c hc
        rcases List.mem_append.mp hc with hMem | hMem
        · exact hAll c (List.mem_append_left _ hMem)
        · exact tail_kept (fun c hc => hAll c (List.mem_append_right _ hc)) hPath hQuery hFragment c hMem
  · cases h

private theorem slashes_start (rest : List Char) : ('/' :: rest).dropWhile isC0OrSpace = '/' :: rest := rfl

theorem scheme_kept {scheme : List Char} (h : scheme.all isSchemeChar = true) : ∀ c ∈ scheme, isRemoved c = false := by
  intro c hc
  have hChar := List.all_eq_true.mp h c hc
  rw [isRemoved, Bool.or_eq_false_iff, Bool.or_eq_false_iff, beq_eq_false_iff_ne, beq_eq_false_iff_ne, beq_eq_false_iff_ne]
  refine ⟨⟨?_, ?_⟩, ?_⟩ <;> rintro rfl <;> cases hChar

/-- A URL with a scheme, whatever netloc is written into it. -/
theorem urlsplit_scheme (hCut : Cut check u) (hScheme : IsScheme u.scheme) {netloc : List Char}
    (hEnds : ∀ c ∈ netloc, isNetlocEnd c = false) (hKept : ∀ c ∈ netloc, isRemoved c = false)
    (hRooted : u.path = [] ∨ u.path.head? = some '/') :
    urlsplit check (u.scheme ++ ':' :: '/' :: '/' :: (netloc ++ u.tail)) =
      if balanced netloc && check netloc then some { u with netloc := netloc } else none := by
  refine urlsplit_parts (isScheme_start hScheme _) ?_ (splitScheme_scheme hScheme _)
    (splitNetloc_netloc hEnds (tail_head hRooted))
    hCut.path hCut.query
  intro c hc
  have hTail := hCut.kept
  rw [List.mem_append, List.mem_cons, List.mem_cons, List.mem_cons, List.mem_append] at hc
  rcases hc with hc | rfl | rfl | rfl | hc | hc
  · exact scheme_kept hScheme.all c hc
  · rfl
  · rfl
  · rfl
  · exact hKept c hc
  · exact hTail c (List.mem_append_right _ hc)

theorem urlsplit_network (hCut : Cut check u) (hScheme : u.scheme = []) (hNetloc : u.netloc ≠ []) :
    urlsplit check ('/' :: '/' :: (u.netloc ++ u.tail)) = some u := by
  have hSchemeless : Schemeless ('/' :: '/' :: (u.netloc ++ u.tail)) := schemeless_rooted fun c hc => by cases hc; rfl
  have hKept : ∀ c ∈ '/' :: '/' :: (u.netloc ++ u.tail), isRemoved c = false := by
    intro c hc
    rw [List.mem_cons, List.mem_cons] at hc
    rcases hc with rfl | rfl | hc
    · rfl
    · rfl
    · exact hCut.kept c hc
  rw [urlsplit_parts (slashes_start _) hKept (splitScheme_schemeless hSchemeless)
    (splitNetloc_netloc hCut.netloc (tail_head (hCut.rooted hNetloc))) hCut.path hCut.query, hCut.accepted, if_pos rfl, ← hScheme]

theorem Schemeless.append {s t : List Char} (h : Schemeless s) (ht : ∀ c, t.head? = some c → isNetlocEnd c = true) :
    Schemeless (s ++ t) := by
  intro x y hSplit hx
  rcases List.append_eq_append_iff.mp hSplit with ⟨a, rfl, hTail⟩ | ⟨b, hHead, hTail⟩
  · cases a with
    | nil =>
      have hColon := ht ':' (by rw [hTail]; rfl)
      cases hColon
    | cons c a =>
      have hEnd := ht c (by rw [hTail]; rfl)
      have hChar : isSchemeChar c = false := by
        rw [isNetlocEnd, Bool.or_eq_true, Bool.or_eq_true, beq_iff_eq, beq_iff_eq, beq_iff_eq] at hEnd
        rcases hEnd with (rfl | rfl) | rfl <;> rfl
      rw [List.all_append, List.all_cons, hChar, Bool.false_and, Bool.and_false, Bool.and_false]
  · cases b with
    | nil =>
      have hColon := ht ':' (by rw [← List.nil_append t, ← hTail]; rfl)
      cases hColon
    | cons c b =>
      obtain ⟨rfl, -⟩ := List.cons.inj hTail
      exact h x b hHead hx

def SplitResult.rest (parts : SplitResult) : List Char :=
  (if parts.query = [] then [] else '?' :: parts.query) ++ (if parts.fragment = [] then [] else '#' :: parts.fragment)

theorem tail_eq (u : SplitResult) : u.tail = u.path ++ u.rest := by
  rw [SplitResult.tail, SplitResult.rest, List.append_assoc]

theorem rest_head : ∀ c, u.rest.head? = some c → c = '?' ∨ c = '#' := by
  intro c hc
  rw [SplitResult.rest] at hc
  split at hc
  · split at hc
    · cases hc
    · cases hc
      exact Or.inr rfl
  · cases hc
    exact Or.inl rfl

theorem rest_end : ∀ c, u.rest.head? = some c → isNetlocEnd c = true := by
  intro c hc
  rcases rest_head c hc with rfl | rfl <;> rfl

theorem urlsplit_relative (hCut : Cut check u) (hScheme : u.scheme = []) (hNetloc : u.netloc = [])
    (hPath : ¬ ['/', '/'] <+: u.path) :
    urlsplit check u.tail = some u := by
  have hStart : u.tail.dropWhile isC0OrSpace = u.tail := by
    have hHead := hCut.start hScheme hNetloc
    rw [tail_eq]
    cases hCases : u.path with
    | nil =>
      cases hRest : u.rest with
      | nil => rfl
      | cons c rest =>
        have hSpace := isNetlocEnd_not_space (rest_end c (by rw [hRest]; rfl))
        rw [List.nil_append, List.dropWhile_cons_of_neg (by rw [hSpace]; exact Bool.false_ne_true)]
    | cons c path =>
      have hSpace := hHead c (by rw [hCases]; rfl)
      rw [List.cons_append, List.dropWhile_cons_of_neg (by rw [hSpace]; exact Bool.false_ne_true)]
  have hSchemeless : Schemeless u.tail := by
    rw [tail_eq]
    exact (hCut.schemeless hScheme hNetloc).append rest_end
  have hSlashes : ¬ ['/', '/'] <+: u.tail := by
    rw [tail_eq]
    cases hRest : u.rest with
    | nil =>
      rw [List.append_nil]
      exact hPath
    | cons c rest =>
      have hEnd := rest_head c (by rw [hRest]; rfl)
      refine fun hPrefix => hPath (prefix_of_append_cons ?_ hPrefix)
      rcases hEnd with rfl | rfl <;> decide
  have hKept : ∀ c ∈ u.tail, isRemoved c = false := fun c hc => hCut.kept c (List.mem_append_right _ hc)
  have hAccepted := hCut.accepted
  rw [hNetloc] at hAccepted
  rw [urlsplit_parts hStart hKept (splitScheme_schemeless hSchemeless) (splitNetloc_none hSlashes) hCut.path hCut.query,
    hAccepted,
    if_pos rfl]
  rcases u with ⟨scheme, netloc, path, query, fragment⟩
  simp only at hScheme hNetloc
  rw [hScheme, hNetloc]

private theorem splitNetloc_path (u : SplitResult) (path : List Char) :
    splitNetloc ('/' :: '/' :: (path ++ u.rest)) =
      (path.takeWhile (!isNetlocEnd ·), SplitResult.tail { u with path := path.dropWhile (!isNetlocEnd ·) }) := by
  have hTail : path ++ u.rest =
      path.takeWhile (!isNetlocEnd ·) ++ SplitResult.tail { u with path := path.dropWhile (!isNetlocEnd ·) } := by
    rw [tail_eq, ← List.append_assoc, List.takeWhile_append_dropWhile]
    rfl
  rw [hTail]
  apply splitNetloc_netloc
  · intro c hc
    have hKeep := List.mem_takeWhile_imp hc
    rw [Bool.not_eq_true'] at hKeep
    exact hKeep
  · intro c hc
    rw [tail_eq] at hc
    cases hBehind : path.dropWhile (!isNetlocEnd ·) with
    | nil =>
      rw [hBehind] at hc
      exact rest_end (u := { u with path := [] }) c hc
    | cons d more =>
      rw [hBehind] at hc
      cases hc
      have hStop := List.head?_dropWhile_not (!isNetlocEnd ·) path
      rw [hBehind] at hStop
      simpa using hStop

/-- The path that is read where a path has been taken for a netloc. -/
theorem urlsplit_path (hCut : Cut check u) {text path scheme : List Char} (hStart : text.dropWhile isC0OrSpace = text)
    (hKept : ∀ c ∈ text, isRemoved c = false) (hScheme : splitScheme text = (scheme, '/' :: '/' :: (path ++ u.rest)))
    (hPath : ∀ c ∈ path, c ∈ u.path) (h : urlsplit check text = some v) : v.path = path.dropWhile (!isNetlocEnd ·) := by
  have hBehind : ∀ c ∈ path.dropWhile (!isNetlocEnd ·), c ∈ u.path := fun c hc => hPath c ((List.dropWhile_sublist _).subset hc)
  have hRead := @urlsplit_parts check { u with path := path.dropWhile (!isNetlocEnd ·) } _ scheme _ text hStart hKept hScheme
    (splitNetloc_path u path) ⟨fun hc => hCut.path.1 (hBehind _ hc), fun hc => hCut.path.2 (hBehind _ hc)⟩ hCut.query
  rw [h] at hRead
  split at hRead
  · cases hRead
    rfl
  · cases hRead

/-- A path that starts like a netloc is read as one. -/
theorem urlsplit_slashes (hCut : Cut check u) {path : List Char} (hPath : u.path = '/' :: '/' :: path)
    (h : urlsplit check u.tail = some v) : v.path ≠ u.path := by
  have hTail : u.tail = '/' :: '/' :: (path ++ u.rest) := by
    rw [tail_eq, hPath]
    rfl
  have hSchemeless : Schemeless u.tail := by
    rw [hTail]
    exact schemeless_rooted fun c hc => by cases hc; rfl
  have hScheme : splitScheme u.tail = ([], '/' :: '/' :: (path ++ u.rest)) := by
    rw [splitScheme_schemeless hSchemeless, hTail]
  have hRead : v.path = path.dropWhile (!isNetlocEnd ·) := by
    refine urlsplit_path hCut (by rw [hTail]; rfl) (fun c hc =>
      hCut.kept c (List.mem_append_right _ hc)) hScheme (fun c hc => ?_) h
    rw [hPath]
    exact List.mem_cons_of_mem _ (List.mem_cons_of_mem _ hc)
  have hShorter : (path.dropWhile (!isNetlocEnd ·)).length ≤ path.length := (List.dropWhile_sublist _).length_le
  intro hEq
  rw [hRead, hPath] at hEq
  rw [hEq, List.length_cons, List.length_cons] at hShorter
  omega

/-- So is a path behind a scheme that has no netloc and starts with no slash. -/
theorem urlsplit_unrooted (hCut : Cut check u) (hScheme : IsScheme u.scheme) (hPath : ¬ (u.path = [] ∨ u.path.head? = some '/'))
    (h : urlsplit check (u.scheme ++ ':' :: '/' :: '/' :: u.tail) = some v) : v.path ≠ u.path := by
  have hKept : ∀ c ∈ u.scheme ++ ':' :: '/' :: '/' :: u.tail, isRemoved c = false := by
    intro c hc
    rw [List.mem_append, List.mem_cons, List.mem_cons, List.mem_cons] at hc
    rcases hc with hc | rfl | rfl | rfl | hc
    · exact scheme_kept hScheme.all c hc
    · rfl
    · rfl
    · rfl
    · exact hCut.kept c (List.mem_append_right _ hc)
  have hSplit : splitScheme (u.scheme ++ ':' :: '/' :: '/' :: u.tail) = (u.scheme, '/' :: '/' :: (u.path ++ u.rest)) := by
    rw [splitScheme_scheme hScheme, tail_eq]
  have hRead : v.path = u.path.dropWhile (!isNetlocEnd ·) :=
    urlsplit_path hCut (isScheme_start hScheme _) hKept hSplit (fun c hc => hc) h
  rw [hRead]
  cases hCases : u.path with
  | nil => exact absurd (Or.inl hCases) hPath
  | cons c path =>
    have hEnd : isNetlocEnd c = false := by
      have hSlash : c ≠ '/' := by
        rintro rfl
        exact hPath (Or.inr (by rw [hCases]; rfl))
      have hOthers := hCut.path
      rw [hCases, List.mem_cons, not_or, List.mem_cons, not_or] at hOthers
      rw [isNetlocEnd, Bool.or_eq_false_iff, Bool.or_eq_false_iff, beq_eq_false_iff_ne, beq_eq_false_iff_ne, beq_eq_false_iff_ne]
      exact ⟨⟨hSlash, Ne.symm hOthers.1.1⟩, Ne.symm hOthers.2.1⟩
    have hShorter : (path.dropWhile (!isNetlocEnd ·)).length ≤ path.length := (List.dropWhile_sublist _).length_le
    intro hEq
    rw [List.dropWhile_cons_of_pos (by rw [hEnd]; rfl)] at hEq
    rw [hEq, List.length_cons] at hShorter
    omega

end
end Eggfetch.Facade.Urls
