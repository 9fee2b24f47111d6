import Eggfetch.Proxy.Framed

/-! The headers that `apply_content_length` lets through, against the body that they go with. -/
namespace Eggfetch.Proxy
open Text Http

def HeaderMap.without (headers : HeaderMap) (name : Str) : List Field := headers.iter.filter (·.name != name)

/-- The headers tell the length of the body once, as its digits, or tell none if none is known. -/
structure Describes (body : RequestBody) (headers sent : HeaderMap) : Prop where
  known : ∀ n, body.declaredLength = some n → sent.values contentLength = [decimalBytes n]
  unknown : body.declaredLength = none → sent.values contentLength = []
  others : sent.without contentLength = headers.without contentLength

/-- What comes through describes the body, and a value that does not is refused. -/
structure LengthChecked (headers : HeaderMap) (body : RequestBody) : Prop where
  describes : ∀ sent, applyContentLength headers body = .ok sent → Describes body headers sent
  refuses : ∀ value ∈ headers.values contentLength, (∀ n, body.declaredLength = some n → value ≠ decimalBytes n) →
    ∃ e, applyContentLength headers body = .error e

/-- A first value that reads as the length of the body is the only one, and is its digits. -/
def FirstIsAll (headers : HeaderMap) (body : RequestBody) : Prop :=
  ∀ n first rest, body.declaredLength = some n → headers.values contentLength = first :: rest →
    parseUnsigned u64Max first = some n → first = decimalBytes n ∧ rest = []

section
variable {headers sent : HeaderMap} {body : RequestBody} {n : Nat}

private theorem isVisibleAscii_parsed {max : Nat} {value : Str} (h : parseUnsigned max value = some n) :
    isVisibleAscii value = true := by
  rw [isVisibleAscii, List.all_eq_true]
  intro b hMem
  rcases parseUnsigned_bytes h b hMem with rfl | hDigit
  · decide
  · simp only [isDigit, Bool.and_eq_true, decide_eq_true_eq] at hDigit
    have hLow : (0x20 : UInt8) ≤ b := UInt8.le_trans (by decide) hDigit.1
    have hHigh : b < 0x7f := UInt8.lt_of_le_of_lt hDigit.2 (by decide)
    simp [hLow, hHigh]

/-- Only the first value is read. -/
theorem applyContentLength_first {first : Str} {rest : List Str} (hDeclared : body.declaredLength = some n)
    (hValues : headers.values contentLength = first :: rest) (hParse : parseUnsigned u64Max first = some n) :
    applyContentLength headers body = .ok headers := by
  have hLength : knownLength body = .ok (some n) := by
    rw [knownLength, hDeclared]
    exact if_neg (Nat.not_lt.mpr (parseUnsigned_le hParse))
  have hSupplied : suppliedLength headers = .ok (some n) := by
    rw [suppliedLength, get_eq_head?, hValues, List.head?_cons]
    simp only [isVisibleAscii_parsed hParse, parseU64, hParse, Bool.not_true, Bool.false_eq_true, if_false]
  rw [applyContentLength, hLength, hSupplied]
  exact if_neg (not_not.mpr rfl)

private theorem without_addLength : (headers.addLength n).without contentLength = headers.without contentLength := by
  rw [HeaderMap.without, HeaderMap.addLength, List.filter_append]
  exact List.append_nil _

private theorem values_addLength_self (h : headers.values contentLength = []) :
    (headers.addLength n).values contentLength = [decimalBytes n] := by
  rw [HeaderMap.values, HeaderMap.addLength, List.filter_append, List.map_append, ← HeaderMap.values, h]
  rfl

/-- What comes through describes its body if and only if no other value follows the first one and that is plain digits. -/
theorem lengthChecked_iff (headers : HeaderMap) (body : RequestBody) : LengthChecked headers body ↔ FirstIsAll headers body := by
  constructor
  · rintro ⟨hDescribes, -⟩ n first rest hDeclared hValues hParse
    have hSent := applyContentLength_first hDeclared hValues hParse
    have hKnown := (hDescribes headers hSent).known n hDeclared
    rw [hValues] at hKnown
    exact List.cons.inj hKnown
  · intro hFirst
    have hDescribes : ∀ sent, applyContentLength headers body = .ok sent → Describes body headers sent := by
      intro sent hSent
      rcases applyContentLength_cases hSent with
        ⟨n, hDeclared, hValues, rfl⟩ | ⟨n, value, more, hDeclared, hValues, hParse, rfl⟩ |
        ⟨hDeclared, hValues, rfl⟩
      · refine ⟨fun m hSame => ?_, fun hNone => ?_, without_addLength⟩
        · obtain rfl := Option.some.inj (hDeclared.symm.trans hSame)
          exact values_addLength_self hValues
        · cases hDeclared.symm.trans hNone
      · refine ⟨fun m hSame => ?_, fun hNone => ?_, rfl⟩
        · obtain rfl := Option.some.inj (hDeclared.symm.trans hSame)
          obtain ⟨rfl, rfl⟩ := hFirst n value more hDeclared hValues hParse
          exact hValues
        · cases hDeclared.symm.trans hNone
      · refine ⟨fun m hSame => ?_, fun _ => hValues, rfl⟩
        cases hDeclared.symm.trans hSame
    refine ⟨hDescribes, fun value hMem hOther => ?_⟩
    cases hSent : applyContentLength headers body with
    | error e => exact ⟨e, rfl⟩
    | ok sent =>
      exfalso
      rcases applyContentLength_cases hSent with ⟨n, -, hValues, -⟩ | ⟨n, first, more, hDeclared, hValues, hParse, -⟩ |
        ⟨-, hValues, -⟩
      · rw [hValues] at hMem
        cases hMem
      · obtain ⟨rfl, rfl⟩ := hFirst n first more hDeclared hValues hParse
        rw [hValues] at hMem
        exact hOther n hDeclared (List.mem_singleton.mp hMem)
      · rw [hValues] at hMem
        cases hMem

end

def twoLengths : HeaderMap where
  iter := [⟨contentLength, utf8 "5"⟩, ⟨contentLength, utf8 "6"⟩]
  names_valid := by decide
  values_valid := by decide

/-- The second length is never read. -/
theorem not_lengthChecked : ¬ ∀ headers body, LengthChecked headers body := by
  intro hAll
  have hParse : parseUnsigned u64Max (utf8 "5") = some 5 := by decide
  have hSent : applyContentLength twoLengths (.bytes (utf8 "hello")) = .ok twoLengths :=
    applyContentLength_first rfl rfl hParse
  have hKnown := ((hAll twoLengths (.bytes (utf8 "hello"))).describes twoLengths hSent).known 5 rfl
  exact absurd (congrArg List.length hKnown) (by decide)

end Eggfetch.Proxy
