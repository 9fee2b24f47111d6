import Eggfetch.Facade.QueryText
import Eggfetch.Facade.Rendering

/-! Changing a URL (`URL.copy_with` and `URL.copy_remove_param` of `_urls.py`). -/
namespace Eggfetch.Facade.Urls
open Text

/-- The keyword arguments of `copy_with`. `some none` is a `None` that is passed. -/
structure Changes where
  params : Option Params := none
  rawPath : Option (List Char) := none
  scheme : Option (Option (List Char)) := none
  netloc : Option (Option (List Char)) := none
  path : Option (Option (List Char)) := none
  query : Option (Option (List Char)) := none
  fragment : Option (Option (List Char)) := none

/-- `if value is not None: values[name] = value`. -/
def value (given : Option (Option (List Char))) (old : List Char) : List Char := (given.getD none).getD old

/-- Bytes that `decode("ascii")` accepts. -/
def isAscii (given : Option (Option (List Char))) : Bool := (given.getD none).all (·.all (·.toNat < 0x80))

namespace SplitResult
variable (decode : List UInt8 → List Char)

def params (parts : SplitResult) : Params := if parts.query = [] then [] else parseQsl decode parts.query

/-- `none` is the error of a component that is not ASCII. -/
def copyWith (parts : SplitResult) (url : Option SplitResult) (kwargs : Changes) : Option SplitResult :=
  let new := url.getD parts
  let kwargs := match kwargs.params with
    | some params =>
      let query := urlencode params
      { kwargs with query := some (if query = [] then none else some query) }
    | none => kwargs
  let kwargs := match kwargs.rawPath with
    | some rawPath =>
      let (path, separator, query) := partition '?' rawPath
      { kwargs with path := some (some path), query := some (if separator then some query else none) }
    | none => kwargs
  if isAscii kwargs.netloc && isAscii kwargs.query then
    some ⟨value kwargs.scheme new.scheme, value kwargs.netloc new.netloc, value kwargs.path new.path,
      value kwargs.query new.query,
      value kwargs.fragment new.fragment⟩
  else none

def copyRemoveParam (parts : SplitResult) (key : List Char) : Option SplitResult :=
  parts.copyWith none { params := some ((parts.params decode).filter (·.1 ≠ key)) }

end SplitResult

section
variable {lower : List Char → List Char} {check : List Char → Bool} {decode : List UInt8 → List Char} {u : SplitResult}

/-- An empty query is not written. -/
theorem copyWith_params (params : Params) : u.copyWith none { params := some params } =
    some { u with query := if params = [] then u.query else urlencode params } := by
  rw [SplitResult.copyWith]
  by_cases hNil : params = []
  · rw [hNil]
    rfl
  · have hText : urlencode params ≠ [] := fun h => hNil (urlencode_eq_nil.mp h)
    have hAscii : isAscii (some (some (urlencode params))) = true := urlencode_ascii params
    simp only [if_neg hNil, if_neg hText, hAscii]
    rfl

private theorem copyWith_query_none : u.copyWith none { query := some none } = some u := rfl

private theorem copyRemoveParam_params (hDecode : ∀ s, decode (encode s) = s) (key : List Char) :
    (∃ v, u.copyRemoveParam decode key = some v ∧ v.params decode = (u.params decode).filter (·.1 ≠ key)) ↔
      u.params decode = [] ∨ ∃ param ∈ u.params decode, param.1 ≠ key := by
  obtain ⟨left, hLeft⟩ : ∃ left, (u.params decode).filter (·.1 ≠ key) = left := ⟨_, rfl⟩
  rw [SplitResult.copyRemoveParam, hLeft, copyWith_params]
  by_cases hNil : left = []
  · have hNone : ¬ ∃ param ∈ u.params decode, param.1 ≠ key := by
      rintro ⟨param, hParam, hKey⟩
      have hMem : param ∈ left := by
        rw [← hLeft]
        exact List.mem_filter.mpr ⟨hParam, decide_eq_true hKey⟩
      rw [hNil] at hMem
      cases hMem
    rw [if_pos hNil, or_iff_left hNone, hNil]
    constructor
    · rintro ⟨v, hv, hParams⟩
      cases hv
      exact hParams
    · exact fun hParams => ⟨u, rfl, hParams⟩
  · rw [if_neg hNil]
    refine iff_of_true ⟨_, rfl, ?_⟩ (Or.inr ?_)
    · have hText : urlencode left ≠ [] := fun h => hNil (urlencode_eq_nil.mp h)
      rw [SplitResult.params, if_neg hText]
      exact parseQsl_urlencode hDecode left
    · obtain ⟨param, hParam⟩ := List.exists_mem_of_ne_nil left hNil
      rw [← hLeft, List.mem_filter, decide_eq_true_iff] at hParam
      exact ⟨param, hParam⟩

private theorem copyWith_no_params : (∃ v, u.copyWith none { params := some [] } = some v ∧ v.query = []) ↔ u.query = [] := by
  rw [copyWith_params, if_pos rfl]
  exact ⟨fun ⟨v, hv, hQuery⟩ => by cases hv; exact hQuery, fun hQuery => ⟨_, rfl, hQuery⟩⟩

private theorem copyWith_no_query : (∃ v, u.copyWith none { query := some none } = some v ∧ v.query = []) ↔ u.query = [] := by
  rw [copyWith_query_none]
  exact ⟨fun ⟨v, hv, hQuery⟩ => by cases hv; exact hQuery, fun hQuery => ⟨u, rfl, hQuery⟩⟩

end

/-- A URL is read again from its text exactly where `Renders` holds. Removing a parameter leaves the others exactly where another
is left, and a query is removed exactly where there was none. -/
theorem url_lawful {lower : List Char → List Char} {check : List Char → Bool} {decode : List UInt8 → List Char}
    (hLower : Lowers lower)
    (hStable : Stable lower check) (hDecode : ∀ s, decode (encode s) = s) {text : List Char} {u : SplitResult}
    (h : urlsplit check text = some u) :
    (RoundTrip lower check u ↔ Renders lower u) ∧
      (∀ key, (∃ v, u.copyRemoveParam decode key = some v ∧ v.params decode = (u.params decode).filter (·.1 ≠ key)) ↔
        u.params decode = [] ∨ ∃ param ∈ u.params decode, param.1 ≠ key) ∧
      ((∃ v, u.copyWith none { query := some none } = some v ∧ v.query = []) ↔ u.query = []) ∧
      ((∃ v, u.copyWith none { params := some [] } = some v ∧ v.query = []) ↔ u.query = []) :=
  ⟨roundTrip_iff hLower hStable h, copyRemoveParam_params hDecode, copyWith_no_query, copyWith_no_params⟩

theorem asciiLower_lowers : Lowers asciiLower := by
  refine ⟨fun s h => List.map_eq_nil_iff.mp h, asciiLower_idem, fun s => ?_⟩
  induction s with
  | nil => rfl
  | cons c s ih =>
    have hSame : isDelim c.toLower = isDelim c ∧ (isDelim c = true → c.toLower = c) := by
      rcases toLower_cases c with ⟨hLow, hHigh, hNat⟩ | ⟨-, hSame⟩
      · have hUpper : isDelim c = false := by
          by_contra hDelim
          rw [Bool.not_eq_false, isDelim, List.contains_iff_mem] at hDelim
          have hAll : "[]:@/?#%\t\n\r".toList.all (fun c => c.toNat < 65 || 90 < c.toNat) = true := by decide
          have hOut := List.all_eq_true.mp hAll c hDelim
          rw [Bool.or_eq_true, decide_eq_true_iff, decide_eq_true_iff] at hOut
          omega
        have hLower : isDelim c.toLower = false := by
          by_contra hDelim
          rw [Bool.not_eq_false, isDelim, List.contains_iff_mem] at hDelim
          have hAll : "[]:@/?#%\t\n\r".toList.all (fun c => c.toNat < 97 || 122 < c.toNat) = true := by decide
          have hOut := List.all_eq_true.mp hAll _ hDelim
          rw [Bool.or_eq_true, decide_eq_true_iff, decide_eq_true_iff] at hOut
          omega
        rw [hUpper, hLower]
        exact ⟨rfl, fun hFalse => absurd hFalse Bool.false_ne_true⟩
      · rw [hSame]
        exact ⟨rfl, fun _ => rfl⟩
    have hCons : asciiLower (c :: s) = c.toLower :: asciiLower s := rfl
    rw [hCons, List.filter_cons, List.filter_cons, hSame.1, ih]
    split
    · next hDelim => rw [hSame.2 hDelim]
    · rfl

theorem stable_true : Stable asciiLower fun _ => true :=
  ⟨fun _ _ _ _ => rfl, fun _ _ _ _ _ _ _ => rfl, fun _ _ _ _ _ _ => rfl, fun _ _ _ => rfl, fun _ _ => rfl⟩

def decodeText (bytes : List UInt8) : List Char := bytes.toByteArray.utf8Decode?.elim [] Array.toList

private theorem decodeText_encode (s : List Char) : decodeText (encode s) = s := by
  have hBytes : (encode s).toByteArray = s.utf8Encode := rfl
  rw [decodeText, hBytes, List.utf8Decode?_utf8Encode]
  rfl

theorem url_lawful_example : RoundTrip asciiLower (fun _ => true)
    ⟨"http".toList, "u:@H:80".toList, "/p".toList, "a=1&b=2".toList, []⟩ := by
  have hSplit : urlsplit (fun _ => true) "HTTP://u:@H:80/p?a=1&b=2".toList =
      some ⟨"http".toList, "u:@H:80".toList, "/p".toList, "a=1&b=2".toList, []⟩ := by decide
  refine (url_lawful asciiLower_lowers stable_true decodeText_encode hSplit).1.mpr ⟨?_, ?_, ?_, ?_⟩
  · intro hScheme
    cases hScheme
  · intro _
    decide
  · intro _ hNetloc
    cases hNetloc
  · intro _ _ _ _
    exact ⟨by decide, by decide, by decide⟩

/-- The brackets of `https://[::1]:443/` are lost with its port, and the last parameter of a query stays. -/
theorem not_url_lawful :
    (∃ u, urlsplit (fun _ => true) "https://[::1]:443/".toList = some u ∧ ¬ RoundTrip asciiLower (fun _ => true) u) ∧
      ∃ u, urlsplit (fun _ => true) "http://h/?a=1".toList = some u ∧ u.copyRemoveParam decodeText "a".toList = some u ∧
        u.copyWith none { query := some none } = some u ∧ u.query = "a=1".toList := by
  refine ⟨⟨⟨"https".toList, "[::1]:443".toList, ['/'], [], []⟩, by decide, fun hTrip => ?_⟩,
    ⟨⟨"http".toList, "h".toList, ['/'], "a=1".toList, []⟩, by decide, ?_, rfl, rfl⟩⟩
  · have hSplit : urlsplit (fun _ => true) "https://[::1]:443/".toList =
        some ⟨"https".toList, "[::1]:443".toList, ['/'], [], []⟩ := by
      decide
    have hRenders := (roundTrip_iff asciiLower_lowers stable_true hSplit).mp hTrip
    have hShort := hRenders.short (by decide) (some 443) (by decide) (by decide)
    exact absurd hShort.colon (by decide)
  · have hParams : SplitResult.params decodeText ⟨"http".toList, "h".toList, ['/'], "a=1".toList, []⟩ = [(['a'], ['1'])] := by
      decide
    rw [SplitResult.copyRemoveParam, hParams]
    decide

end Eggfetch.Facade.Urls
