import Eggfetch.Proxy.Response

/-! When the length that a response declares is one to trust. -/
namespace Eggfetch.Proxy
open Text Http

def valuesNamed (headers : ResponseHeaders) (name : Str) : List Str :=
  (headers.filter fun header => eqIgnoreAsciiCase header.1 name).map Prod.snd

def listsChunked (value : Str) : Bool := (value.splitOn 0x2c).any isChunkedToken

/-- What one `Content-Length` says. -/
def parseLength (value : Str) : Option Nat :=
  if (Utf8.fromUtf8 value).isSome then none else parseUnsigned u64Max (trim value)

/-- The fields agree on a length, and no coding hides it. -/
structure Declares (headers : ResponseHeaders) (n : Nat) : Prop where
  plain : ∀ value ∈ valuesNamed headers (utf8 "transfer-encoding"), listsChunked value = false
  some : valuesNamed headers (utf8 "content-length") ≠ []
  agree : ∀ value ∈ valuesNamed headers (utf8 "content-length"), parseLength value = Option.some n

def Unparseable (value : Str) : Prop := (Utf8.fromUtf8 value).isSome = false ∧ parseLength value = none

/-- Fields that say no number, before fields that agree on `n`. -/
def AgreesLate (values bad : List Str) (n : Nat) : Prop :=
  ∃ good, values = bad ++ good ∧ good ≠ [] ∧ (∀ value ∈ bad, Unparseable value) ∧ ∀ value ∈ good, parseLength value = some n

section loop
variable {headers : ResponseHeaders} {values : List Str} {n : Nat}

private theorem valuesNamed_cons (header : Str × Str) (name : Str) :
    valuesNamed (header :: headers) name =
      if eqIgnoreAsciiCase header.1 name then header.2 :: valuesNamed headers name else valuesNamed headers name := by
  unfold valuesNamed
  rw [List.filter_cons]
  split_ifs <;> rfl

def lengthsLoop : List Str → Option Nat → Option Nat
  | [], contentLength => contentLength
  | value :: rest, none => if (Utf8.fromUtf8 value).isSome then none else lengthsLoop rest (parseLength value)
  | value :: rest, some existing => if parseLength value = some existing then lengthsLoop rest (some existing) else none

private theorem responseContentLengthLoop_eq (headers : ResponseHeaders) (contentLength : Option Nat) (chunked : Bool) :
    responseContentLengthLoop headers contentLength chunked =
      if chunked || (valuesNamed headers (utf8 "transfer-encoding")).any fun value => listsChunked (utf8OrDefault value) then
        none
      else lengthsLoop (valuesNamed headers (utf8 "content-length")) contentLength := by
  induction headers generalizing contentLength chunked with
  | nil => cases chunked <;> rfl
  | cons header headers ih =>
    obtain ⟨name, value⟩ := header
    have hCodings : ∀ b : Bool, (b || (valuesNamed ((name, value) :: headers) (utf8 "transfer-encoding")).any fun value =>
        listsChunked (utf8OrDefault value)) =
        ((b || eqIgnoreAsciiCase name (utf8 "transfer-encoding") && listsChunked (utf8OrDefault value)) ||
          (valuesNamed headers (utf8 "transfer-encoding")).any fun value => listsChunked (utf8OrDefault value)) := by
      intro b
      rw [valuesNamed_cons]
      cases hName : eqIgnoreAsciiCase name (utf8 "transfer-encoding") <;> simp [Bool.or_assoc]
    rw [hCodings, valuesNamed_cons, responseContentLengthLoop.eq_def]
    dsimp only
    by_cases hLength : eqIgnoreAsciiCase name (utf8 "content-length") = true
    · rw [if_pos hLength, if_pos hLength]
      by_cases hText : (Utf8.fromUtf8 value).isSome = true
      · -- an unreadable length ends the loop, whatever it has
        have hParse : parseLength value = none := if_pos hText
        cases contentLength <;> simp [lengthsLoop, hText, hParse]
      · have hParse : parseLength value = parseUnsigned u64Max (trim value) := if_neg hText
        rw [if_neg hText]
        cases contentLength with
        | none =>
          rw [lengthsLoop, if_neg hText, hParse]
          exact ih _ _
        | some existing =>
          rw [lengthsLoop, hParse]
          cases hCurrent : parseUnsigned u64Max (trim value) with
          | none => simp
          | some current =>
            dsimp only
            by_cases hSame : existing = current
            · rw [if_pos hSame, if_pos (congrArg some hSame.symm)]
              exact ih _ _
            · rw [if_neg hSame, if_neg fun hEq => hSame (Option.some.inj hEq).symm]
              simp
    · rw [if_neg hLength, if_neg hLength]
      exact ih _ _

private theorem lengthsLoop_some (values : List Str) (existing : Nat) :
    lengthsLoop values (some existing) = some n ↔ existing = n ∧ ∀ value ∈ values, parseLength value = some n := by
  induction values with
  | nil => simp [lengthsLoop]
  | cons value values ih =>
    rw [lengthsLoop]
    split_ifs with hSame
    · rw [ih, List.forall_mem_cons]
      constructor
      · rintro ⟨rfl, hRest⟩
        exact ⟨rfl, hSame, hRest⟩
      · rintro ⟨rfl, -, hRest⟩
        exact ⟨rfl, hRest⟩
    · constructor
      · exact fun h => absurd h (by simp)
      · rintro ⟨rfl, hAll⟩
        exact absurd (hAll value List.mem_cons_self) hSame

private theorem lengthsLoop_none (values : List Str) :
    lengthsLoop values none = some n ↔ ∃ bad, AgreesLate values bad n := by
  induction values with
  | nil =>
    constructor
    · exact fun h => absurd h (by simp [lengthsLoop])
    · rintro ⟨bad, good, hValues, hGood, -⟩
      exact absurd (List.append_eq_nil_iff.mp hValues.symm).2 hGood
  | cons value values ih =>
    rw [lengthsLoop]
    split_ifs with hText
    · have hParse : parseLength value = none := if_pos hText
      constructor
      · exact fun h => absurd h (by simp)
      · rintro ⟨bad, good, hValues, hGood, hBad, hAgree⟩
        exfalso
        cases bad with
        | nil =>
          have hNumber := hAgree value (by rw [← List.nil_append good, ← hValues]; exact List.mem_cons_self)
          rw [hParse] at hNumber
          cases hNumber
        | cons first bad =>
          obtain ⟨rfl, -⟩ := List.cons.inj hValues
          have hRead := (hBad value List.mem_cons_self).1
          rw [hText] at hRead
          cases hRead
    · cases hParse : parseLength value with
      | none =>
        rw [ih]
        constructor
        · rintro ⟨bad, good, hValues, hGood, hBad, hAgree⟩
          refine ⟨value :: bad, good, congrArg (value :: ·) hValues, hGood, ?_, hAgree⟩
          exact List.forall_mem_cons.mpr ⟨⟨Bool.eq_false_iff.mpr hText, hParse⟩, hBad⟩
        · rintro ⟨bad, good, hValues, hGood, hBad, hAgree⟩
          cases bad with
          | nil =>
            have hNumber := hAgree value (by rw [← List.nil_append good, ← hValues]; exact List.mem_cons_self)
            rw [hParse] at hNumber
            cases hNumber
          | cons first bad =>
            obtain ⟨rfl, hRest⟩ := List.cons.inj hValues
            exact ⟨bad, good, hRest, hGood, (List.forall_mem_cons.mp hBad).2, hAgree⟩
      | some current =>
        rw [lengthsLoop_some]
        constructor
        · rintro ⟨rfl, hRest⟩
          refine ⟨[], value :: values, rfl, List.cons_ne_nil _ _, List.forall_mem_nil _, ?_⟩
          exact List.forall_mem_cons.mpr ⟨hParse, hRest⟩
        · rintro ⟨bad, good, hValues, hGood, hBad, hAgree⟩
          cases bad with
          | nil =>
            obtain rfl : value :: values = good := hValues
            obtain ⟨hFirst, hRest⟩ := List.forall_mem_cons.mp hAgree
            exact ⟨Option.some.inj (hParse.symm.trans hFirst), hRest⟩
          | cons first bad =>
            obtain ⟨rfl, -⟩ := List.cons.inj hValues
            have hNone := (hBad value List.mem_cons_self).2
            rw [hParse] at hNone
            cases hNone

private theorem responseContentLength_eq_some_iff :
    responseContentLength headers = some n ↔
      (∀ value ∈ valuesNamed headers (utf8 "transfer-encoding"), listsChunked (utf8OrDefault value) = false) ∧
        ∃ bad, AgreesLate (valuesNamed headers (utf8 "content-length")) bad n := by
  rw [responseContentLength, responseContentLengthLoop_eq, Bool.false_or, ← lengthsLoop_none]
  split_ifs with hChunked
  · obtain ⟨value, hMem, hLists⟩ := List.any_eq_true.mp hChunked
    constructor
    · exact fun h => absurd h (by simp)
    · exact fun h => absurd ((h.1 value hMem).symm.trans hLists) Bool.false_ne_true
  · constructor
    · intro h
      refine ⟨?_, h⟩
      intro value hMem
      exact Bool.eq_false_iff.mpr fun hLists => hChunked (List.any_eq_true.mpr ⟨value, hMem, hLists⟩)
    · exact And.right

end loop

/-- A length is taken although a field before it is no number, or although a coding that is not UTF-8 hides it. -/
def Misled (headers : ResponseHeaders) : Prop :=
  (∀ value ∈ valuesNamed headers (utf8 "transfer-encoding"), listsChunked (utf8OrDefault value) = false) ∧
    ∃ bad n, AgreesLate (valuesNamed headers (utf8 "content-length")) bad n ∧
      (bad ≠ [] ∨ ∃ value ∈ valuesNamed headers (utf8 "transfer-encoding"), listsChunked value = true)

private theorem listsChunked_nil : listsChunked [] = false := by decide

private theorem listsChunked_utf8OrDefault {value : Str} (h : listsChunked value = false) :
    listsChunked (utf8OrDefault value) = false := by
  unfold utf8OrDefault
  split_ifs
  · exact listsChunked_nil
  · exact h

/-- The client trusts the declared lengths and no others, unless it is misled. -/
theorem responseContentLength_iff (headers : ResponseHeaders) :
    (∀ n, responseContentLength headers = some n ↔ Declares headers n) ↔ ¬Misled headers := by
  constructor
  · rintro hExact ⟨hPlain, bad, n, hAgrees, hMisled⟩
    have hDeclares := (hExact n).mp (responseContentLength_eq_some_iff.mpr ⟨hPlain, bad, hAgrees⟩)
    rcases hMisled with hBad | ⟨value, hMem, hLists⟩
    · obtain ⟨good, hValues, -, hNone, -⟩ := hAgrees
      obtain ⟨value, hMem⟩ := List.exists_mem_of_ne_nil bad hBad
      have hNumber := hDeclares.agree value (by rw [hValues]; exact List.mem_append_left _ hMem)
      rw [(hNone value hMem).2] at hNumber
      cases hNumber
    · exact absurd ((hDeclares.plain value hMem).symm.trans hLists) Bool.false_ne_true
  · intro hLed n
    rw [responseContentLength_eq_some_iff]
    constructor
    · rintro ⟨hPlain, bad, hAgrees⟩
      have hNil : bad = [] := by
        by_contra hBad
        exact hLed ⟨hPlain, bad, n, hAgrees, .inl hBad⟩
      have hCodings : ∀ value ∈ valuesNamed headers (utf8 "transfer-encoding"), listsChunked value = false := by
        intro value hMem
        by_contra hLists
        exact hLed ⟨hPlain, bad, n, hAgrees, .inr ⟨value, hMem, Bool.eq_true_of_not_eq_false hLists⟩⟩
      obtain ⟨good, hValues, hGood, -, hAgree⟩ := hAgrees
      rw [hNil, List.nil_append] at hValues
      refine ⟨hCodings, ?_, ?_⟩
      · rw [hValues]
        exact hGood
      · rw [hValues]
        exact hAgree
    · rintro ⟨hPlain, hSome, hAgree⟩
      refine ⟨?_, [], _, rfl, hSome, List.forall_mem_nil _, hAgree⟩
      intro value hMem
      exact listsChunked_utf8OrDefault (hPlain value hMem)

/-- `content-length: x` before `content-length: 5`. -/
theorem not_responseContentLength_iff :
    ¬∀ headers n, responseContentLength headers = some n ↔ Declares headers n := by
  intro hExact
  have hFive := (hExact [(utf8 "content-length", utf8 "x"), (utf8 "content-length", utf8 "5")] 5).mp (by decide)
  have hFirst := hFive.agree (utf8 "x") (by decide)
  exact absurd hFirst (by decide)

end Eggfetch.Proxy
