import Eggfetch.AltSvc.Grammar
import Eggfetch.Text.Split

/-! The parser of one alternative reads an item as its lexemes say. -/
namespace Eggfetch.AltSvc
open Text

theorem textOf_cons (lexeme : Lexeme) (lexemes : List Lexeme) : textOf (lexeme :: lexemes) = lexeme.text ++ textOf lexemes :=
  List.flatMap_cons

/-- The text and its lexemes are cut at the same equals sign, or a quote stands before both cuts. -/
theorem lexes_cut {s : Str} {lexemes : List Lexeme} (h : Lexes s lexemes) :
    (textOf (beforeEquals lexemes) = s.takeWhile (· != equals) ∧
      Lexes (s.dropWhile (· != equals)).tail (afterEquals lexemes)) ∨
    quote ∈ textOf (beforeEquals lexemes) ∧ quote ∈ s.takeWhile (· != equals) := by
  induction h with
  | nil => exact Or.inl ⟨rfl, Lexes.nil⟩
  | @byte b s lexemes hQuote hRest ih =>
    by_cases hb : b = equals
    · subst hb
      exact Or.inl ⟨rfl, hRest⟩
    · have hTake : (b :: s).takeWhile (· != equals) = b :: s.takeWhile (· != equals) :=
        List.takeWhile_cons_of_pos (bne_iff_ne.mpr hb)
      have hDrop : (b :: s).dropWhile (· != equals) = s.dropWhile (· != equals) :=
        List.dropWhile_cons_of_pos (bne_iff_ne.mpr hb)
      have hByte : Lexeme.byte b ≠ .byte equals := fun hEq => hb (Lexeme.byte.inj hEq)
      have hBefore : beforeEquals (.byte b :: lexemes) = .byte b :: beforeEquals lexemes :=
        List.takeWhile_cons_of_pos (decide_eq_true hByte)
      have hAfterEq : afterEquals (.byte b :: lexemes) = afterEquals lexemes :=
        congrArg List.tail (List.dropWhile_cons_of_pos (decide_eq_true hByte))
      rw [hBefore, hAfterEq, hTake, hDrop, textOf_cons]
      rcases ih with ⟨hSame, hAfter⟩ | ⟨hLeft, hRight⟩
      · exact Or.inl ⟨congrArg (b :: ·) hSame, hAfter⟩
      · exact Or.inr ⟨List.mem_cons_of_mem b hLeft, List.mem_cons_of_mem b hRight⟩
  | quoted hClosed hRest ih => exact Or.inr ⟨List.mem_cons_self, List.mem_cons_self⟩
  | unterminated hOpen => exact Or.inr ⟨List.mem_cons_self, List.mem_cons_self⟩

theorem quote_blank : ∀ c ∈ whitespace, quote ∉ c := by decide

theorem equals_blank : ∀ c ∈ whitespace, equals ∉ c := by decide

theorem not_ma_of_quote {name : Str} (h : quote ∈ name) : eqIgnoreAsciiCase (trim name) (utf8 "ma") = false := by
  refine Bool.eq_false_iff.mpr fun hEq => ?_
  rw [eqIgnoreAsciiCase, decide_eq_true_eq] at hEq
  have hMem : asciiLower quote ∈ toAsciiLowercase (trim name) :=
    List.mem_map_of_mem ((mem_trim_iff quote_blank name).mpr h)
  rw [hEq] at hMem
  revert hMem
  decide

theorem not_token_of_quote {name : Str} (h : quote ∈ name) : isToken (trim name) = false := by
  refine Bool.eq_false_iff.mpr fun hToken => ?_
  rw [isToken, Bool.and_eq_true, List.all_eq_true] at hToken
  have hQuote := hToken.2 quote ((mem_trim_iff quote_blank name).mpr h)
  revert hQuote
  decide

private theorem trim_cut {s : Str} (h : equals ∈ s) :
    (trim s).takeWhile (· != equals) = trimStart (s.takeWhile (· != equals)) ∧
      (trim s).dropWhile (· != equals) = equals :: trimEnd (s.dropWhile (· != equals)).tail := by
  obtain ⟨x, y, rfl, hx⟩ := List.eq_append_cons_of_mem h
  have hStart : equals ∉ trimStart x := fun hMem => hx ((trimStart_suffix x).subset hMem)
  rw [trim, trimStart_barrier equals_blank, trimEnd_barrier equals_blank, takeWhile_cut hStart, dropWhile_cut hStart,
    takeWhile_cut hx, dropWhile_cut hx]
  exact ⟨rfl, rfl⟩

def parsedMa (param : Str) : Option (Option Nat) :=
  let param := trim param
  if param.isEmpty then none
  else if eqIgnoreAsciiCase (trim (param.takeWhile (· != equals))) (utf8 "ma") then
    some (((param.dropWhile (· != equals)).tail?.map trim).bind fun v => parseUnsigned u64Max (trimMatches quote (trim v)))
  else none

private theorem parseMa_cons (ma : Option Nat) (param : Str) (rest : List Str) :
    parseMa ma (param :: rest) =
      match parsedMa param with
      | none => parseMa ma rest
      | some none => none
      | some (some n) => parseMa (some n) rest := by
  rw [parseMa, parsedMa]
  by_cases hEmpty : (trim param).isEmpty = true
  · simp only [if_pos hEmpty]
  · simp only [if_neg hEmpty]
    by_cases hName : eqIgnoreAsciiCase (trim ((trim param).takeWhile (· != equals))) (utf8 "ma") = true
    · simp only [if_pos hName]
      cases ((trim param).dropWhile (· != equals)).tail?.map trim |>.bind fun v =>
          parseUnsigned u64Max (trimMatches quote (trim v)) <;> rfl
    · simp only [if_neg hName]

private theorem parsedMa_eq {s : Str} {param : List Lexeme} (h : Lexes s param) : parsedMa s = maParam param := by
  have hName : trim ((trim s).takeWhile (· != equals)) = trim (s.takeWhile (· != equals)) := by
    by_cases hEquals : equals ∈ s
    · rw [(trim_cut hEquals).1, trim_trimStart]
    · rw [takeWhile_whole fun hMem => hEquals ((mem_trim_iff equals_blank s).mp hMem), takeWhile_whole hEquals, trim_idem]
  have hEmpty : trim s = [] → eqIgnoreAsciiCase (trim (s.takeWhile (· != equals))) (utf8 "ma") = false := by
    intro hNil
    rw [← hName, hNil]
    decide
  have hParsed : parsedMa s =
      if eqIgnoreAsciiCase (trim (s.takeWhile (· != equals))) (utf8 "ma") then
        some (parseUnsigned u64Max (trimMatches quote (trim (s.dropWhile (· != equals)).tail)))
      else none := by
    rw [parsedMa, hName]
    by_cases hNil : trim s = []
    · rw [hEmpty hNil, if_pos (List.isEmpty_iff.mpr hNil), if_neg Bool.false_ne_true]
    · rw [if_neg fun h => hNil (List.isEmpty_iff.mp h)]
      by_cases hEquals : equals ∈ s
      · rw [(trim_cut hEquals).2, List.tail?_cons, Option.map_some, Option.bind_some, trim_idem, trim_trimEnd]
      · have hTrimmed : equals ∉ trim s := fun hMem => hEquals ((mem_trim_iff equals_blank s).mp hMem)
        rw [dropWhile_whole hTrimmed, dropWhile_whole hEquals]
        rfl
  rw [hParsed, maParam]
  rcases lexes_cut h with ⟨hBefore, hAfter⟩ | ⟨hLeft, hRight⟩
  · rw [hBefore, textOf_of_lexes hAfter]
  · rw [not_ma_of_quote hLeft, not_ma_of_quote hRight, if_neg Bool.false_ne_true, if_neg Bool.false_ne_true]

private theorem parseMa_eq {params : List (List Lexeme)} (h : ∀ param ∈ params, Lexes (textOf param) param) (ma : Option Nat) :
    parseMa ma (params.map textOf) =
      if none ∈ params.filterMap maParam then none else some ((params.filterMap maParam).getLast?.getD ma) := by
  induction params generalizing ma with
  | nil => rfl
  | cons param params ih =>
    have hRest : ∀ param ∈ params, Lexes (textOf param) param := fun p hp => h p (List.mem_cons_of_mem _ hp)
    rw [List.map_cons, parseMa_cons, parsedMa_eq (h param List.mem_cons_self)]
    cases hMa : maParam param with
    | none => rw [List.filterMap_cons_none hMa, ← ih hRest]
    | some value =>
      rw [List.filterMap_cons_some hMa]
      cases value with
      | none => rw [if_pos List.mem_cons_self]
      | some n =>
        rw [List.getLast?_cons, Option.getD_some]
        have hMem : none ∈ some n :: params.filterMap maParam ↔ none ∈ params.filterMap maParam := by
          rw [List.mem_cons, or_iff_right (by exact fun h => by cases h)]
        simp only [hMem]
        exact ih hRest (some n)

private theorem splitOn_append_of_not_mem {sep : UInt8} {x : Str} (h : sep ∉ x) (y : Str) :
    (x ++ y).splitOn sep = (y.splitOn sep).modifyHead (x ++ ·) := by
  induction x with
  | nil => cases hSplit : y.splitOn sep <;> simp [hSplit]
  | cons b x ih =>
    have hb : (b == sep) = false := beq_eq_false_iff_ne.mpr fun hEq => h (hEq ▸ List.mem_cons_self)
    rw [List.cons_append, List.splitOn_cons_eq_if_modifyHead, hb, ih fun hx => h (List.mem_cons_of_mem b hx)]
    cases y.splitOn sep <;> rfl

private theorem not_mem_text {sep : UInt8} {lexeme : Lexeme} (hQuote : sep ≠ quote) (hByte : lexeme.isByte = false)
    (h : sep ∉ lexeme.inner) : sep ∉ lexeme.text := by
  cases lexeme with
  | byte b => cases hByte
  | quoted inner =>
    intro hMem
    rcases List.mem_append.mp (List.mem_of_ne_of_mem hQuote hMem) with hInner | hLast
    · exact h hInner
    · exact hQuote (List.mem_singleton.mp hLast)
  | unterminated inner => exact fun hMem => h (List.mem_of_ne_of_mem hQuote hMem)

private theorem splitOn_textOf {sep : UInt8} {lexemes : List Lexeme} (hQuote : sep ≠ quote) (h : ∀ l ∈ lexemes, sep ∉ l.inner) :
    (textOf lexemes).splitOn sep = (lexemes.splitOn (.byte sep)).map textOf := by
  induction lexemes with
  | nil => rfl
  | cons lexeme lexemes ih =>
    have hRest := ih fun l hl => h l (List.mem_cons_of_mem _ hl)
    rw [textOf_cons]
    cases hByte : lexeme.isByte with
    | false =>
      have hText := not_mem_text hQuote hByte (h lexeme List.mem_cons_self)
      rw [splitOn_append_of_not_mem hText, hRest, splitOn_other_cons sep hByte, map_textOf_modifyHead]
    | true =>
      cases lexeme with
      | byte b =>
        rw [splitOn_byte_cons, Lexeme.text, List.singleton_append, List.splitOn_cons_eq_if_modifyHead, hRest]
        by_cases hb : b = sep
        · rw [if_pos (beq_iff_eq.mpr hb), if_pos hb]
          rfl
        · rw [if_neg (fun hEq => hb (beq_iff_eq.mp hEq)), if_neg hb, map_textOf_modifyHead]
          rfl
      | quoted inner => cases hByte
      | unterminated inner => cases hByte

private theorem forall_mem_modifyHead {α : Type} {P : α → Prop} {f : α → α} {l : List α} (h : ∀ x ∈ l, P x)
    (hf : ∀ x, P x → P (f x)) : ∀ x ∈ l.modifyHead f, P x := by
  cases l with
  | nil => exact h
  | cons x l =>
    intro y hy
    rcases List.mem_cons.mp hy with rfl | hy
    · exact hf x (h x List.mem_cons_self)
    · exact h y (List.mem_cons_of_mem x hy)

private theorem lexes_splitOn {s : Str} {lexemes : List Lexeme} (h : Lexes s lexemes) (sep : UInt8) :
    ∀ piece ∈ lexemes.splitOn (.byte sep), Lexes (textOf piece) piece := by
  have hNil : Lexes (textOf []) [] := Lexes.nil
  induction h with
  | nil =>
    intro piece hPiece
    rw [List.splitOn_nil, List.mem_singleton] at hPiece
    rwa [hPiece]
  | @byte b s lexemes hQuote hRest ih =>
    rw [splitOn_byte_cons]
    split_ifs
    · intro piece hPiece
      rcases List.mem_cons.mp hPiece with rfl | hPiece
      · exact hNil
      · exact ih piece hPiece
    · exact forall_mem_modifyHead ih fun piece hPiece => Lexes.byte hQuote hPiece
  | @quoted content s lexemes hClosed hRest ih =>
    rw [splitOn_other_cons sep rfl]
    refine forall_mem_modifyHead ih fun piece hPiece => ?_
    have hText : textOf (.quoted content :: piece) = quote :: (content ++ quote :: textOf piece) := by
      rw [textOf_cons, Lexeme.text, List.cons_append, List.append_assoc, List.singleton_append]
    rw [hText]
    exact Lexes.quoted hClosed hPiece
  | @unterminated content hOpen =>
    intro piece hPiece
    rw [splitOn_other_cons sep rfl, List.splitOn_nil, List.modifyHead_cons, List.mem_singleton] at hPiece
    rw [hPiece, textOf_cons, textOf, List.flatMap_nil, List.append_nil]
    exact Lexes.unterminated hOpen

private theorem lexes_first_quoted {s : Str} {lexemes : List Lexeme} (h : Lexes s lexemes) :
    quote ∉ textOf (lexemes.takeWhile Lexeme.isByte) ∧
      ((lexemes.dropWhile Lexeme.isByte = [] ∧ quote ∉ s) ∨
      (∃ content rest tail, lexemes.dropWhile Lexeme.isByte = .quoted content :: rest ∧ closed content = true ∧
        Lexes tail rest ∧ s = textOf (lexemes.takeWhile Lexeme.isByte) ++ quote :: (content ++ quote :: tail)) ∨
      ∃ content, lexemes.dropWhile Lexeme.isByte = [.unterminated content] ∧ Unclosed content ∧
        s = textOf (lexemes.takeWhile Lexeme.isByte) ++ quote :: content) := by
  induction h with
  | nil => exact ⟨List.not_mem_nil, Or.inl ⟨rfl, List.not_mem_nil⟩⟩
  | @byte b s lexemes hQuote hRest ih =>
    have hTake : (Lexeme.byte b :: lexemes).takeWhile Lexeme.isByte = .byte b :: lexemes.takeWhile Lexeme.isByte := rfl
    have hDrop : (Lexeme.byte b :: lexemes).dropWhile Lexeme.isByte = lexemes.dropWhile Lexeme.isByte := rfl
    have hNot : ∀ {t : Str}, quote ∉ t → quote ∉ b :: t := fun ht hMem =>
      (List.mem_cons.mp hMem).elim (fun hEq => hQuote hEq.symm) ht
    rw [hTake, hDrop, textOf_cons, Lexeme.text, List.singleton_append]
    refine ⟨hNot ih.1, ?_⟩
    rcases ih.2 with ⟨hNil, hs⟩ | ⟨content, rest, tail, hFound, hClosed, hLexes, hs⟩ | ⟨content, hFound, hOpen, hs⟩
    · exact Or.inl ⟨hNil, hNot hs⟩
    · exact Or.inr (Or.inl ⟨content, rest, tail, hFound, hClosed, hLexes, congrArg (b :: ·) hs⟩)
    · exact Or.inr (Or.inr ⟨content, hFound, hOpen, congrArg (b :: ·) hs⟩)
  | @quoted content s lexemes hClosed hRest ih =>
    exact ⟨List.not_mem_nil, Or.inr (Or.inl ⟨content, lexemes, s, rfl, hClosed, hRest, rfl⟩)⟩
  | @unterminated content hOpen => exact ⟨List.not_mem_nil, Or.inr (Or.inr ⟨content, rfl, hOpen, rfl⟩)⟩

theorem trimStart_of_quote {x : Str} (h : quote ∉ x) (y : Str) :
    parseQuotedString (trimStart (x ++ quote :: y)) =
      if trimStart x = [] then parseQuotedString (quote :: y) else none := by
  rw [trimStart_barrier quote_blank]
  cases hTrim : trimStart x with
  | nil => rfl
  | cons b t =>
    rw [if_neg (List.cons_ne_nil b t), List.cons_append]
    have hb : b ∈ x := (trimStart_suffix x).subset (hTrim ▸ List.mem_cons_self)
    exact if_neg fun hEq : b = quote => h (hEq ▸ hb)

theorem not_clear_of_equals {s : Str} (h : equals ∈ s) : eqIgnoreAsciiCase s (utf8 "clear") = false := by
  refine Bool.eq_false_iff.mpr fun hEq => ?_
  rw [eqIgnoreAsciiCase, decide_eq_true_eq] at hEq
  have hMem : asciiLower equals ∈ toAsciiLowercase s := List.mem_map_of_mem h
  rw [hEq] at hMem
  revert hMem
  decide

/-- The three tests before the first equals sign come to one. -/
theorem parseAlternative_cut (item : Str) :
    parseAlternative item =
      if equals ∈ trim item ∧ isToken (trim ((trim item).takeWhile (· != equals))) = true then
        (parseQuotedString (trimStart ((trim item).dropWhile (· != equals)).tail)).bind fun found =>
          (parseMa none (found.2.splitOn semicolon).tail).map fun ma =>
            ⟨trim ((trim item).takeWhile (· != equals)), found.1, ma⟩
      else none := by
  rw [parseAlternative]
  by_cases hEquals : equals ∈ trim item
  · have hEmpty : (trim item).isEmpty = false := by
      cases hTrim : trim item with
      | nil =>
        rw [hTrim] at hEquals
        cases hEquals
      | cons b s => rfl
    have hContains : (trim item).contains equals = true := List.contains_iff_mem.mpr hEquals
    simp only [hEmpty, not_clear_of_equals hEquals, hContains, Bool.false_eq_true, not_true_eq_false, or_self, if_false]
    by_cases hToken : isToken (trim ((trim item).takeWhile (· != equals))) = true
    · have hProto : (trim ((trim item).takeWhile (· != equals))).isEmpty = false := by
        rw [isToken, Bool.and_eq_true, Bool.not_eq_true'] at hToken
        exact hToken.1
      rw [if_neg (by rw [hProto, hToken]; decide), if_pos ⟨hEquals, hToken⟩]
      cases parseQuotedString (trimStart ((trim item).dropWhile (· != equals)).tail) <;> rfl
    · rw [if_pos (Or.inr hToken), if_neg fun hBoth => hToken hBoth.2]
  · have hContains : ¬ (trim item).contains equals = true := fun hMem => hEquals (List.contains_iff_mem.mp hMem)
    dsimp only
    rw [if_pos (Or.inr (Or.inr hContains)), if_neg fun hBoth => hEquals hBoth.1]

private theorem parts_protocol {item : Str} {p : Parts} (h : parts item = some p) :
    p.protocol = trim (textOf (beforeEquals (lex (trim item)))) := by
  rw [parts] at h
  cases hFound : (afterEquals (lex (trim item))).dropWhile Lexeme.isByte with
  | nil =>
    simp only [hFound] at h
    cases h
  | cons lexeme rest =>
    cases lexeme with
    | byte b =>
      simp only [hFound] at h
      cases h
    | quoted inner =>
      simp only [hFound] at h
      rw [← Option.some.inj h]
    | unterminated inner =>
      simp only [hFound] at h
      cases h

/-- The parser of one alternative reads the item's lexemes, unless a semicolon is quoted. -/
theorem parseAlternative_eq {item : Str} (h : SemicolonsOutside item) : parseAlternative item = readItem item := by
  rw [parseAlternative_cut, readItem]
  rcases lexes_cut (lexes (trim item)) with ⟨hBefore, hAfter⟩ | ⟨hLeft, hRight⟩
  · obtain ⟨hBetween, hFirst⟩ := lexes_first_quoted hAfter
    rcases hFirst with ⟨hNil, hNone⟩ | ⟨content, rest, tail, hFound, hClosed, hRest, hTail⟩ | ⟨content, hFound, hOpen, hTail⟩
    · have hParts : parts item = none := by rw [parts]; simp only [hNil]
      have hStart : quote ∉ trimStart ((trim item).dropWhile (· != equals)).tail :=
        fun hMem => hNone ((trimStart_suffix _).subset hMem)
      rw [hParts, parseQuotedString_of_not_mem hStart, Option.bind_none, Option.bind_none, ite_self]
    · have hParts : parts item = some ⟨trim (textOf (beforeEquals (lex (trim item)))),
          textOf ((afterEquals (lex (trim item))).takeWhile Lexeme.isByte), content, rest⟩ := by
        rw [parts]
        simp only [hFound]
      have hEquals : equals ∈ trim item := by
        by_contra hNone
        rw [dropWhile_whole hNone] at hTail
        exact absurd hTail.symm (by simp)
      have hPieces : (tail.splitOn semicolon).tail = ((rest.splitOn (.byte semicolon)).tail).map textOf := by
        rw [← textOf_of_lexes hRest, splitOn_textOf (by decide) (h _ hParts), List.map_tail]
      have hLexes : ∀ param ∈ (rest.splitOn (.byte semicolon)).tail, Lexes (textOf param) param :=
        fun param hMem => lexes_splitOn hRest semicolon param (List.mem_of_mem_tail hMem)
      have hMa : parseMa none (tail.splitOn semicolon).tail = readMa (rest.splitOn (.byte semicolon)).tail := by
        rw [hPieces, parseMa_eq hLexes, readMa]
        cases (((rest.splitOn (.byte semicolon)).tail).filterMap maParam).getLast? <;> rfl
      rw [hParts, hTail, trimStart_of_quote hBetween, parseQuotedString_closed hClosed, ← hBefore]
      simp only [hEquals, true_and, Option.bind_some, Parts.params]
      by_cases hToken : isToken (trim (textOf (beforeEquals (lex (trim item))))) = true
      · by_cases hBlank : trimStart (textOf ((afterEquals (lex (trim item))).takeWhile Lexeme.isByte)) = []
        · rw [if_pos hToken, if_pos hBlank, if_pos ⟨hToken, hBlank⟩]
          cases readQuoted content with
          | none => rfl
          | some authority => rw [Option.map_some, Option.bind_some, Option.bind_some, hMa]
        · rw [if_pos hToken, if_neg hBlank, if_neg fun hBoth => hBlank hBoth.2]
          rfl
      · rw [if_neg hToken, if_neg fun hBoth => hToken hBoth.1]
    · have hParts : parts item = none := by rw [parts]; simp only [hFound]
      have hParse : parseQuotedString (quote :: content) = none := by
        rw [parseQuotedString, if_pos rfl, parseQuotedFrom_unclosed hOpen]
      rw [hParts, hTail, trimStart_of_quote hBetween, hParse, ite_self, Option.bind_none, Option.bind_none, ite_self]
  · rw [if_neg]
    · cases hParts : parts item with
      | none => rfl
      | some p =>
        rw [Option.bind_some, if_neg]
        rw [parts_protocol hParts, not_token_of_quote hLeft]
        exact fun hBoth => Bool.false_ne_true hBoth.1
    · rw [not_token_of_quote hRight]
      exact fun hBoth => Bool.false_ne_true hBoth.2

end Eggfetch.AltSvc
