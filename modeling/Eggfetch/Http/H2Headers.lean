import Eggfetch.Http.Headers
import Eggfetch.Text.Trim

/-! Fields that HTTP/2 forbids in a request (`h2_headers.rs`). -/
namespace Eggfetch.Http
open Text

def H2_FORBIDDEN_HEADERS : List Str :=
  ["connection", "keep-alive", "proxy-connection", "transfer-encoding", "upgrade"].map utf8

/-- The test on one `TE` value. A value that is no visible text is tested as the empty text. -/
def teAllowed (teValue : Str) : Bool :=
  let teStr := if isVisibleAscii teValue then teValue else []
  ((teStr.splitOn 0x2c).map fun v => toAsciiLowercase (trim v)).all (· == utf8 "trailers")

def stripH2ForbiddenHeaders (headers : Headers) : Headers :=
  let headers := headers.removeAll H2_FORBIDDEN_HEADERS
  match headers.get (utf8 "te") with
  | some teValue => if teAllowed teValue then headers else headers.remove (utf8 "te")
  | none => headers

/-- A comma-separated list with `trailers` as its only member. -/
def ListsOnlyTrailers (value : Str) : Prop :=
  ∃ items, items ≠ [] ∧ value = [0x2c].intercalate items ∧
    ∀ item ∈ items, eqIgnoreAsciiCase (trim item) (utf8 "trailers") = true

/-- A name that a `Connection` value nominates. -/
def Nominated (headers : Headers) (name : Str) : Prop :=
  ∃ value ∈ headers.getAll (utf8 "connection"), ∃ item ∈ value.splitOn 0x2c, toAsciiLowercase (trim item) = name

variable {headers : Headers} {name value : Str}

/-- The token is lower case, so lowering the other side is comparing without case. -/
theorem eqIgnoreAsciiCase_trailers (item : Str) :
    eqIgnoreAsciiCase item (utf8 "trailers") = true ↔ toAsciiLowercase item = utf8 "trailers" := by
  have hLower : toAsciiLowercase (utf8 "trailers") = utf8 "trailers" := by decide
  rw [eqIgnoreAsciiCase, hLower, decide_eq_true_iff]

private theorem comma_not_mem (h : eqIgnoreAsciiCase (trim value) (utf8 "trailers") = true) : (0x2c : UInt8) ∉ value := by
  have hTrailers : ∀ b ∈ utf8 "trailers", b ≠ 0x2c := by
    have hAll : (utf8 "trailers").all (· != 0x2c) = true := by decide
    exact fun b hb => bne_iff_ne.mp (List.all_eq_true.mp hAll b hb)
  have hBlank : ∀ c ∈ whitespace, (0x2c : UInt8) ∉ c := by
    have hAll : whitespace.all (fun c => !c.contains 0x2c) = true := by decide
    intro c hc hMem
    have hNot := List.all_eq_true.mp hAll c hc
    rw [List.contains_iff_mem.mpr hMem] at hNot
    cases hNot
  intro hMem
  have hTrim : (0x2c : UInt8) ∈ trim value := (mem_trim_iff hBlank value).mpr hMem
  have hLower : asciiLower 0x2c ∈ toAsciiLowercase (trim value) := List.mem_map_of_mem hTrim
  rw [(eqIgnoreAsciiCase_trailers _).mp h] at hLower
  exact hTrailers _ hLower (by decide)

private theorem teAllowed_iff : teAllowed value = true ↔ isVisibleAscii value = true ∧ ListsOnlyTrailers value := by
  have hItems (text : Str) : ((text.splitOn 0x2c).map fun v => toAsciiLowercase (trim v)).all (· == utf8 "trailers") = true ↔
      ∀ item ∈ text.splitOn 0x2c, eqIgnoreAsciiCase (trim item) (utf8 "trailers") = true := by
    rw [List.all_map, List.all_eq_true]
    exact forall₂_congr fun item _ => beq_iff_eq.trans (eqIgnoreAsciiCase_trailers _).symm
  rw [teAllowed]
  by_cases hVisible : isVisibleAscii value = true
  · rw [if_pos hVisible, hItems]
    refine ⟨fun h => ⟨hVisible, value.splitOn 0x2c, List.splitOn_ne_nil _ _, (List.intercalate_splitOn _).symm, h⟩, ?_⟩
    rintro ⟨-, items, hNil, rfl, hAll⟩
    rwa [List.splitOn_intercalate _ (fun item h => comma_not_mem (hAll item h)) hNil]
  · rw [if_neg hVisible]
    refine ⟨fun h => absurd h (by decide), fun h => absurd h.1 hVisible⟩

theorem te_not_forbidden : utf8 "te" ∉ H2_FORBIDDEN_HEADERS := by decide

/-- What is left under each name. -/
theorem getAll_stripH2ForbiddenHeaders (headers : Headers) (name : Str) :
    (stripH2ForbiddenHeaders headers).getAll name =
      if name ∈ H2_FORBIDDEN_HEADERS then []
      else if name = utf8 "te" ∧ ¬ ((headers.get (utf8 "te")).all teAllowed = true) then []
      else headers.getAll name := by
  have hTe : (headers.removeAll H2_FORBIDDEN_HEADERS).get (utf8 "te") = headers.get (utf8 "te") := by
    rw [Headers.get, Headers.getAll_removeAll, if_neg te_not_forbidden, Headers.get]
  rw [stripH2ForbiddenHeaders, hTe]
  cases hValue : headers.get (utf8 "te") with
  | none => simp [Headers.getAll_removeAll]
  | some teValue =>
    by_cases hAllowed : teAllowed teValue = true
    · simp [hAllowed, Headers.getAll_removeAll]
    · by_cases hName : name = utf8 "te"
      · subst hName
        simp [hAllowed, te_not_forbidden]
      · simp [hAllowed, hName, Headers.remove, Headers.getAll_removeAll]

/-- The five fields go, a `TE` field given once stays only if it lists nothing but `trailers`, and every other field,
whether or not a `Connection` field nominates it, keeps its values in their order. -/
theorem stripH2ForbiddenHeaders_keeps (headers : Headers) :
    (∀ name ∈ H2_FORBIDDEN_HEADERS, (stripH2ForbiddenHeaders headers).getAll name = []) ∧
    ((headers.getAll (utf8 "te")).length ≤ 1 →
      ∀ value ∈ (stripH2ForbiddenHeaders headers).getAll (utf8 "te"), ListsOnlyTrailers value) ∧
    ((∀ value ∈ headers.getAll (utf8 "te"), isVisibleAscii value = true ∧ ListsOnlyTrailers value) →
      (stripH2ForbiddenHeaders headers).getAll (utf8 "te") = headers.getAll (utf8 "te")) ∧
    ∀ name, name ∉ H2_FORBIDDEN_HEADERS → name ≠ utf8 "te" →
      (stripH2ForbiddenHeaders headers).getAll name = headers.getAll name := by
  refine ⟨fun name h => ?_, fun hOnce value hValue => ?_, fun hAll => ?_, fun name hForbidden hTe => ?_⟩
  · rw [getAll_stripH2ForbiddenHeaders, if_pos h]
  · rw [getAll_stripH2ForbiddenHeaders, if_neg te_not_forbidden] at hValue
    split at hValue
    · cases hValue
    case isFalse hKept =>
      rw [not_and_not_right] at hKept
      obtain ⟨single, hSingle⟩ : ∃ single, headers.getAll (utf8 "te") = [single] := by
        rw [← List.length_eq_one_iff]
        have hPos := List.length_pos_of_mem hValue
        omega
      rw [hSingle, List.mem_singleton] at hValue
      have hAllowed := hKept rfl
      rw [Headers.get, hSingle] at hAllowed
      rw [hValue]
      exact (teAllowed_iff.mp hAllowed).2
  · rw [getAll_stripH2ForbiddenHeaders, if_neg te_not_forbidden, if_neg]
    rw [not_and_not_right]
    intro _
    rw [Headers.get, Option.all_eq_true]
    exact fun value hHead => teAllowed_iff.mpr (hAll value (List.mem_of_mem_head? hHead))
  · rw [getAll_stripH2ForbiddenHeaders, if_neg hForbidden, if_neg fun h => hTe h.1]

/-- A field that `Connection` nominates is sent all the same. -/
theorem nominated_remains :
    ¬ ∀ headers : Headers, (∀ name ∈ H2_FORBIDDEN_HEADERS, (stripH2ForbiddenHeaders headers).getAll name = []) ∧
      (∀ value ∈ (stripH2ForbiddenHeaders headers).getAll (utf8 "te"), ListsOnlyTrailers value) ∧
      (∀ name, Nominated headers name → (stripH2ForbiddenHeaders headers).getAll name = []) ∧
      ∀ name, name ∉ H2_FORBIDDEN_HEADERS → name ≠ utf8 "te" → ¬ Nominated headers name →
        (stripH2ForbiddenHeaders headers).getAll name = headers.getAll name := by
  intro hAll
  have hNominated : Nominated ((Headers.empty.insertRaw (utf8 "connection") (utf8 "X-Hop")).insertRaw (utf8 "x-hop") (utf8 "1"))
      (utf8 "x-hop") := by
    refine ⟨utf8 "X-Hop", ?_, utf8 "X-Hop", by decide, by decide⟩
    have hNe : utf8 "connection" ≠ utf8 "x-hop" := by decide
    rw [Headers.insertRaw, Headers.getAll_set_of_ne hNe, Headers.getAll_insertRaw_self]
    exact List.mem_singleton_self _
  have hGone := (hAll _).2.2.1 _ hNominated
  rw [getAll_stripH2ForbiddenHeaders, if_neg (by decide), if_neg (by decide), Headers.getAll_insertRaw_self] at hGone
  exact List.cons_ne_nil _ _ hGone

end Eggfetch.Http
