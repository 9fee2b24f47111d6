import Eggfetch.AltSvc.Header
import Eggfetch.Text.Trim

/-! The list syntax of an `Alt-Svc` value read off its lexemes, in which a quoted string
is one symbol. -/
namespace Eggfetch.AltSvc
open Text

/-- A quoted string keeps its content as it is spelled. -/
inductive Lexeme where
  | byte (b : UInt8)
  | quoted (inner : Str)
  | unterminated (inner : Str)
  deriving DecidableEq, Repr

namespace Lexeme

def text : Lexeme → Str
  | byte b => [b]
  | quoted inner => quote :: (inner ++ [quote])
  | unterminated inner => quote :: inner

def inner : Lexeme → Str
  | byte _ => []
  | quoted inner | unterminated inner => inner

def isByte : Lexeme → Bool
  | byte _ => true
  | quoted _ | unterminated _ => false

end Lexeme

def textOf (lexemes : List Lexeme) : Str := lexemes.flatMap Lexeme.text

/-- Outside quotes at `none`; inside, the content so far and whether a backslash precedes. -/
def lexFrom : Option (Str × Bool) → Str → List Lexeme
  | none, [] => []
  | none, b :: rest => if b = quote then lexFrom (some ([], false)) rest else .byte b :: lexFrom none rest
  | some (inner, _), [] => [.unterminated inner]
  | some (inner, true), b :: rest => lexFrom (some (inner ++ [b], false)) rest
  | some (inner, false), b :: rest =>
    if b = backslash then lexFrom (some (inner ++ [b], true)) rest
    else if b = quote then .quoted inner :: lexFrom none rest
    else lexFrom (some (inner ++ [b], false)) rest

def lex (s : Str) : List Lexeme := lexFrom none s

def items (value : Str) : List Str := ((lex value).splitOn (.byte comma)).map textOf

/-- The bytes that a quoted string stands for; only quotes and backslashes may be escaped. -/
def unescape : Str → Option Str
  | [] => some []
  | b :: rest =>
    if b = backslash then
      match rest with
      | [] => none
      | c :: rest => if c = quote ∨ c = backslash then (unescape rest).map (c :: ·) else none
    else if b < 0x20 ∨ b = 0x7f then none
    else (unescape rest).map (b :: ·)

/-- The authority a quoted string spells, of less than 512 bytes before its last character. -/
def readQuoted (inner : Str) : Option Str :=
  (unescape inner).bind fun spelled =>
    if (spelled.dropLast.flatMap latin1Char).length < 512 then some (spelled.flatMap latin1Char) else none

def beforeEquals (lexemes : List Lexeme) : List Lexeme := lexemes.takeWhile (· ≠ .byte equals)
def afterEquals (lexemes : List Lexeme) : List Lexeme := (lexemes.dropWhile (· ≠ .byte equals)).tail

/-- For a parameter named `ma` its number, or `some none` where it has none. -/
def maParam (param : List Lexeme) : Option (Option Nat) :=
  if eqIgnoreAsciiCase (trim (textOf (beforeEquals param))) (utf8 "ma") then
    some (parseUnsigned u64Max (trimMatches quote (trim (textOf (afterEquals param)))))
  else none

instance decidableNoneMem (values : List (Option Nat)) : Decidable (none ∈ values) := inferInstance

/-- Every `ma` needs a number, and the last one counts. -/
def readMa (params : List (List Lexeme)) : Option (Option Nat) :=
  let values := params.filterMap maParam
  if none ∈ values then none else some values.getLast?.join

/-- An item around its first `=`: what stands before it, the quoted string behind it, the
bytes between the two, and all that follows. -/
structure Parts where
  protocol : Str
  between : Str
  authority : Str
  rest : List Lexeme

def parts (item : Str) : Option Parts :=
  let lexemes := lex (trim item)
  let after := afterEquals lexemes
  match after.dropWhile Lexeme.isByte with
  | .quoted inner :: rest => some ⟨trim (textOf (beforeEquals lexemes)), textOf (after.takeWhile Lexeme.isByte), inner, rest⟩
  | _ => none

/-- The `;`-separated parameters, from the first `;` on. -/
def Parts.params (p : Parts) : List (List Lexeme) := (p.rest.splitOn (.byte semicolon)).tail

/-- `token "=" quoted-string`, then the parameters. -/
def readItem (item : Str) : Option ParsedAlternative :=
  (parts item).bind fun p =>
    if isToken p.protocol ∧ trimStart p.between = [] then
      (readQuoted p.authority).bind fun authority =>
        (readMa p.params).map fun ma => ⟨p.protocol, authority, ma⟩
    else none

def SemicolonsOutside (item : Str) : Prop :=
  ∀ p, parts item = some p → ∀ lexeme ∈ p.rest, semicolon ∉ lexeme.inner

def closed : Str → Bool
  | [] => true
  | b :: rest =>
    if b = backslash then
      match rest with
      | [] => false
      | _ :: rest => closed rest
    else b ≠ quote && closed rest

def Unclosed (s : Str) : Prop := ∀ before after, closed before = true → s ≠ before ++ quote :: after

/-- What is quoted ends at the first quote that no backslash precedes. -/
inductive Lexes : Str → List Lexeme → Prop
  | nil : Lexes [] []
  | byte {b : UInt8} {s : Str} {lexemes : List Lexeme} : b ≠ quote → Lexes s lexemes → Lexes (b :: s) (.byte b :: lexemes)
  | quoted {inner s : Str} {lexemes : List Lexeme} :
    closed inner = true → Lexes s lexemes → Lexes (quote :: (inner ++ quote :: s)) (.quoted inner :: lexemes)
  | unterminated {inner : Str} : Unclosed inner → Lexes (quote :: inner) [.unterminated inner]

theorem closed_cons {b : UInt8} {s : Str} (hb : b ≠ backslash) : closed (b :: s) = (decide (b ≠ quote) && closed s) := by
  conv_lhs => unfold closed
  exact if_neg hb

theorem lexFrom_closed {content : Str} (h : closed content = true) (inner rest : Str) :
    lexFrom (some (inner, false)) (content ++ quote :: rest) = .quoted (inner ++ content) :: lexFrom none rest := by
  induction content using closed.induct generalizing inner with
  | case1 => rw [List.nil_append, lexFrom, if_neg (by decide), if_pos rfl, List.append_nil]
  | case2 => cases h
  | case3 c content ih =>
    rw [List.cons_append, List.cons_append, lexFrom, if_pos rfl, lexFrom, ih h, List.append_assoc, List.append_assoc]
    rfl
  | case4 b content hb ih =>
    rw [closed_cons hb, Bool.and_eq_true, decide_eq_true_eq] at h
    rw [List.cons_append, lexFrom, if_neg hb, if_neg h.1, ih h.2, List.append_assoc]
    rfl

/-- A text is closed by some quote, or never. -/
theorem closed_or_open (s : Str) :
    (∃ before after, closed before = true ∧ s = before ++ quote :: after) ∨
      ∀ inner, lexFrom (some (inner, false)) s = [.unterminated (inner ++ s)] := by
  induction s using closed.induct with
  | case1 => exact Or.inr fun inner => by rw [lexFrom, List.append_nil]
  | case2 => exact Or.inr fun inner => by rw [lexFrom, if_pos rfl, lexFrom]
  | case3 c s ih =>
    rcases ih with ⟨before, after, hClosed, rfl⟩ | hOpen
    · exact Or.inl ⟨backslash :: c :: before, after, hClosed, rfl⟩
    · refine Or.inr fun inner => ?_
      rw [lexFrom, if_pos rfl, lexFrom, hOpen, List.append_assoc, List.append_assoc]
      rfl
  | case4 b s hb ih =>
    by_cases hQuote : b = quote
    · exact Or.inl ⟨[], s, rfl, by rw [hQuote, List.nil_append]⟩
    · rcases ih with ⟨before, after, hClosed, rfl⟩ | hOpen
      · refine Or.inl ⟨b :: before, after, ?_, rfl⟩
        rw [closed_cons hb, hClosed, decide_eq_true hQuote, Bool.and_true]
      · refine Or.inr fun inner => ?_
        rw [lexFrom, if_neg hb, if_neg hQuote, hOpen, List.append_assoc]
        rfl

theorem unclosed_of_lexFrom {s : Str} (h : lexFrom (some ([], false)) s = [.unterminated s]) : Unclosed s := by
  intro before after hClosed hEq
  rw [hEq, lexFrom_closed hClosed] at h
  cases h

theorem Unclosed.tail {b : UInt8} {s : Str} (hb : b ≠ backslash) (h : Unclosed (b :: s)) : b ≠ quote ∧ Unclosed s := by
  have hQuote : b ≠ quote := fun hEq => h [] s rfl (by rw [hEq, List.nil_append])
  refine ⟨hQuote, fun before after hClosed hEq => h (b :: before) after ?_ (by rw [hEq, List.cons_append])⟩
  rw [closed_cons hb, hClosed, decide_eq_true hQuote, Bool.and_true]

theorem Unclosed.escaped {c : UInt8} {s : Str} (h : Unclosed (backslash :: c :: s)) : Unclosed s :=
  fun before after hClosed hEq => h (backslash :: c :: before) after hClosed (by rw [hEq]; rfl)

theorem lexes (s : Str) : Lexes s (lex s) := by
  induction hLength : s.length using Nat.strong_induction_on generalizing s with
  | _ n ih =>
    cases s with
    | nil => exact Lexes.nil
    | cons b s =>
      rw [lex, lexFrom]
      by_cases hQuote : b = quote
      · rw [if_pos hQuote, hQuote]
        rcases closed_or_open s with ⟨before, after, hClosed, rfl⟩ | hOpen
        · rw [lexFrom_closed hClosed]
          refine Lexes.quoted hClosed (ih after.length ?_ after rfl)
          rw [← hLength, List.length_cons, List.length_append, List.length_cons]
          omega
        · rw [hOpen]
          exact Lexes.unterminated (unclosed_of_lexFrom (hOpen []))
      · rw [if_neg hQuote]
        exact Lexes.byte hQuote (ih s.length (by rw [← hLength, List.length_cons]; omega) s rfl)

theorem textOf_of_lexes {s : Str} {lexemes : List Lexeme} (h : Lexes s lexemes) : textOf lexemes = s := by
  induction h with
  | nil => rfl
  | byte _ _ ih => exact congrArg _ ih
  | quoted _ _ ih =>
    rw [textOf, List.flatMap_cons, ← textOf, ih, Lexeme.text, List.cons_append, List.append_assoc]
    rfl
  | unterminated => rw [textOf, List.flatMap_singleton, Lexeme.text]

theorem splitHeaderListFrom_closed {content : Str} (h : closed content = true) (part rest : Str) :
    splitHeaderListFrom part true false (content ++ quote :: rest) =
      splitHeaderListFrom (part ++ content ++ [quote]) false false rest := by
  induction content using closed.induct generalizing part with
  | case1 => rw [List.nil_append, splitHeaderListFrom, List.append_nil]; rfl
  | case2 => cases h
  | case3 c content ih =>
    rw [List.cons_append, List.cons_append, splitHeaderListFrom, if_neg (by decide), if_pos ⟨rfl, rfl⟩,
      splitHeaderListFrom, if_pos rfl, ih h]
    simp only [List.append_assoc, List.cons_append, List.nil_append]
  | case4 b content hb ih =>
    rw [closed_cons hb, Bool.and_eq_true, decide_eq_true_eq] at h
    rw [List.cons_append, splitHeaderListFrom, if_neg (by decide), if_neg (fun hBoth => hb hBoth.1), if_neg h.1,
      if_neg (fun hBoth => by cases hBoth.2), ih h.2]
    simp only [List.append_assoc, List.cons_append, List.nil_append]

theorem splitHeaderListFrom_unclosed {content : Str} (h : Unclosed content) (part : Str) :
    splitHeaderListFrom part true false content = [part ++ content] := by
  induction content using closed.induct generalizing part with
  | case1 => rw [splitHeaderListFrom, List.append_nil]
  | case2 => rw [splitHeaderListFrom, if_neg (by decide), if_pos ⟨rfl, rfl⟩, splitHeaderListFrom]
  | case3 c content ih =>
    rw [splitHeaderListFrom, if_neg (by decide), if_pos ⟨rfl, rfl⟩, splitHeaderListFrom, if_pos rfl, ih h.escaped]
    simp only [List.append_assoc, List.cons_append, List.nil_append]
  | case4 b content hb ih =>
    rw [splitHeaderListFrom, if_neg (by decide), if_neg (fun hBoth => hb hBoth.1), if_neg (h.tail hb).1,
      if_neg (fun hBoth => by cases hBoth.2), ih (h.tail hb).2]
    simp only [List.append_assoc, List.cons_append, List.nil_append]

theorem splitOn_byte_cons (sep b : UInt8) (lexemes : List Lexeme) :
    (Lexeme.byte b :: lexemes).splitOn (.byte sep) =
      if b = sep then [] :: lexemes.splitOn (.byte sep) else (lexemes.splitOn (.byte sep)).modifyHead (.byte b :: ·) := by
  rw [List.splitOn_cons_eq_if_modifyHead]
  by_cases hb : b = sep
  · rw [if_pos (beq_iff_eq.mpr (congrArg _ hb)), if_pos hb]
  · rw [if_neg fun hEq => hb (Lexeme.byte.inj (beq_iff_eq.mp hEq)), if_neg hb]

theorem splitOn_other_cons (sep : UInt8) {lexeme : Lexeme} (h : lexeme.isByte = false) (lexemes : List Lexeme) :
    (lexeme :: lexemes).splitOn (.byte sep) = (lexemes.splitOn (.byte sep)).modifyHead (lexeme :: ·) := by
  rw [List.splitOn_cons_eq_if_modifyHead, if_neg]
  rintro hEq
  rw [beq_iff_eq.mp hEq] at h
  cases h

theorem map_textOf_modifyHead (lexeme : Lexeme) (pieces : List (List Lexeme)) :
    (pieces.modifyHead (lexeme :: ·)).map textOf = (pieces.map textOf).modifyHead (lexeme.text ++ ·) := by
  cases pieces with
  | nil => rfl
  | cons piece pieces => rfl

private theorem modifyHead_append (x y : Str) (pieces : List Str) :
    (pieces.modifyHead (y ++ ·)).modifyHead (x ++ ·) = pieces.modifyHead (x ++ y ++ ·) := by
  cases pieces with
  | nil => rfl
  | cons piece pieces => exact congrArg (· :: pieces) (List.append_assoc x y piece).symm

private theorem splitHeaderListFrom_eq {s : Str} {lexemes : List Lexeme} (h : Lexes s lexemes) (part : Str) :
    splitHeaderListFrom part false false s = ((lexemes.splitOn (.byte comma)).map textOf).modifyHead (part ++ ·) := by
  induction h generalizing part with
  | nil => exact congrArg (fun piece : Str => [piece]) (List.append_nil part).symm
  | @byte b s lexemes hQuote hRest ih =>
    rw [splitHeaderListFrom, if_neg (by decide), if_neg (fun hBoth => by cases hBoth.2), if_neg hQuote, splitOn_byte_cons]
    by_cases hComma : b = comma
    · rw [if_pos ⟨hComma, rfl⟩, if_pos hComma, ih, List.map_cons, List.modifyHead_cons, textOf, List.flatMap_nil,
        List.append_nil]
      cases (lexemes.splitOn (.byte comma)).map textOf <;> rfl
    · rw [if_neg (fun hBoth => hComma hBoth.1), if_neg hComma, ih, map_textOf_modifyHead, modifyHead_append]
      rfl
  | @quoted content s lexemes hClosed hRest ih =>
    rw [splitHeaderListFrom, if_neg (by decide), if_neg (fun hBoth => by cases hBoth.2), if_pos rfl, Bool.not_false,
      splitHeaderListFrom_closed hClosed, ih, splitOn_other_cons comma rfl, map_textOf_modifyHead, modifyHead_append]
    simp only [Lexeme.text, List.append_assoc, List.cons_append, List.nil_append]
  | @unterminated content hOpen =>
    rw [splitHeaderListFrom, if_neg (by decide), if_neg (fun hBoth => by cases hBoth.2), if_pos rfl, Bool.not_false,
      splitHeaderListFrom_unclosed hOpen, splitOn_other_cons comma rfl, map_textOf_modifyHead, List.splitOn_nil]
    simp only [Lexeme.text, textOf, List.flatMap_nil, List.map_cons, List.map_nil, List.modifyHead_cons, List.append_assoc,
      List.cons_append, List.nil_append, List.append_nil]

theorem splitHeaderList_eq (value : Str) : splitHeaderList value = items value := by
  rw [splitHeaderList, splitHeaderListFrom_eq (lexes value), items]
  cases ((lex value).splitOn (.byte comma)).map textOf <;> rfl

/-- The characters pushed one by one, each after the test of the length. -/
def pushAll (out : Str) : Str → Option Str
  | [] => some out
  | c :: rest => if 512 ≤ out.length then none else pushAll (out ++ latin1Char c) rest

/-- Less than 512 bytes stand before the last character pushed. -/
def Fits (out spelled : Str) : Prop := spelled = [] ∨ (out ++ spelled.dropLast.flatMap latin1Char).length < 512

private theorem fits_cons {out spelled : Str} {c : UInt8} :
    Fits out (c :: spelled) ↔ out.length < 512 ∧ Fits (out ++ latin1Char c) spelled := by
  cases spelled with
  | nil => simp [Fits]
  | cons d spelled =>
    simp only [Fits, reduceCtorEq, false_or, List.dropLast_cons_cons, List.flatMap_cons, List.length_append]
    omega

private theorem pushAll_some {out spelled authority : Str} :
    pushAll out spelled = some authority ↔ Fits out spelled ∧ authority = out ++ spelled.flatMap latin1Char := by
  induction spelled generalizing out with
  | nil => simp [pushAll, Fits, eq_comm]
  | cons c spelled ih =>
    rw [pushAll, fits_cons, List.flatMap_cons, ← List.append_assoc]
    by_cases hFull : 512 ≤ out.length
    · rw [if_pos hFull]
      exact ⟨fun h => (by cases h), fun h => absurd h.1.1 (Nat.not_lt.mpr hFull)⟩
    · rw [if_neg hFull, ih]
      exact ⟨fun h => ⟨⟨Nat.not_le.mp hFull, h.1⟩, h.2⟩, fun h => ⟨h.1.2, h.2⟩⟩

private theorem pushAll_nil (spelled : Str) :
    pushAll [] spelled =
      if (spelled.dropLast.flatMap latin1Char).length < 512 then some (spelled.flatMap latin1Char) else none := by
  refine Option.ext fun authority => ?_
  rw [pushAll_some, Fits, List.nil_append, List.nil_append]
  by_cases hShort : (spelled.dropLast.flatMap latin1Char).length < 512
  · rw [if_pos hShort]
    exact ⟨fun h => congrArg some h.2.symm, fun h => ⟨Or.inr hShort, (Option.some.inj h).symm⟩⟩
  · rw [if_neg hShort]
    refine ⟨fun h => absurd (h.1.resolve_left fun hNil => hShort ?_) hShort, fun h => by cases h⟩
    rw [hNil]
    decide

private theorem bind_pushAll_cons (spelled : Option Str) (out : Str) (c : UInt8) :
    (spelled.map (c :: ·)).bind (pushAll out) =
      if 512 ≤ out.length then none else spelled.bind (pushAll (out ++ latin1Char c)) := by
  cases spelled with
  | none => split_ifs <;> rfl
  | some spelled => rw [Option.map_some, Option.bind_some, pushAll, Option.bind_some]

private theorem parseQuotedFrom_closed {content : Str} (h : closed content = true) (out rest : Str) :
    parseQuotedFrom out (content ++ quote :: rest) =
      ((unescape content).bind (pushAll out)).map fun authority => (authority, rest) := by
  induction content using closed.induct generalizing out with
  | case1 =>
    rw [List.nil_append, parseQuotedFrom.eq_def]
    rfl
  | case2 => cases h
  | case3 c content ih =>
    have hStep : parseQuotedFrom out (backslash :: c :: content ++ quote :: rest) =
        if c ≠ quote ∧ c ≠ backslash then none
        else if 512 ≤ out.length then none
        else parseQuotedFrom (out ++ [c]) (content ++ quote :: rest) := by
      conv_lhs => rw [parseQuotedFrom.eq_def]
      rfl
    have hSpell : unescape (backslash :: c :: content) =
        if c = quote ∨ c = backslash then (unescape content).map (c :: ·) else none := by
      conv_lhs => rw [unescape.eq_def]
      rfl
    rw [hStep, hSpell]
    by_cases hEscape : c = quote ∨ c = backslash
    · have hAscii : latin1Char c = [c] := by rcases hEscape with rfl | rfl <;> rfl
      rw [if_neg (fun hBoth => hEscape.elim hBoth.1 hBoth.2), if_pos hEscape, bind_pushAll_cons, ih h, hAscii]
      split_ifs <;> rfl
    · rw [if_pos (not_or.mp hEscape), if_neg hEscape]
      rfl
  | case4 b content hb ih =>
    rw [closed_cons hb, Bool.and_eq_true, decide_eq_true_eq] at h
    have hStep : parseQuotedFrom out (b :: content ++ quote :: rest) =
        if b < 0x20 ∨ b = 0x7f then none
        else if 512 ≤ out.length then none
        else parseQuotedFrom (out ++ latin1Char b) (content ++ quote :: rest) := by
      conv_lhs => rw [List.cons_append, parseQuotedFrom.eq_def]
      exact (if_neg hb).trans (if_neg h.1)
    have hSpell : unescape (b :: content) = if b < 0x20 ∨ b = 0x7f then none else (unescape content).map (b :: ·) := by
      conv_lhs => rw [unescape.eq_def]
      exact if_neg hb
    rw [hStep, hSpell]
    by_cases hControl : b < 0x20 ∨ b = 0x7f
    · rw [if_pos hControl, if_pos hControl]
      rfl
    · rw [if_neg hControl, if_neg hControl, bind_pushAll_cons, ih h.2]
      split_ifs <;> rfl

theorem parseQuotedFrom_unclosed {s : Str} (h : Unclosed s) (out : Str) : parseQuotedFrom out s = none := by
  induction s using closed.induct generalizing out with
  | case1 => rfl
  | case2 => rfl
  | case3 c s ih =>
    rw [parseQuotedFrom.eq_def]
    simp only [ih h.escaped, ite_self, if_pos]
  | case4 b s hb ih =>
    rw [parseQuotedFrom.eq_def]
    simp only [if_neg hb, if_neg (h.tail hb).1, ih (h.tail hb).2, ite_self]

theorem parseQuotedString_closed {content : Str} (h : closed content = true) (rest : Str) :
    parseQuotedString (quote :: (content ++ quote :: rest)) = (readQuoted content).map fun authority => (authority, rest) := by
  rw [parseQuotedString, if_pos rfl, parseQuotedFrom_closed h, readQuoted]
  refine congrArg _ (congrArg _ (funext fun spelled => ?_))
  exact pushAll_nil spelled

theorem parseQuotedString_of_not_mem {s : Str} (h : quote ∉ s) : parseQuotedString s = none := by
  cases s with
  | nil => rfl
  | cons b s => exact if_neg fun hb => h (List.mem_cons.mpr (Or.inl hb.symm))

end Eggfetch.AltSvc
