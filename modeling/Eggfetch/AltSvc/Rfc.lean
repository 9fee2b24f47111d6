import Eggfetch.AltSvc.Items
import Eggfetch.Text.Numbers

/-! The items that RFC 7838 derives, and what the parser makes of them. -/
namespace Eggfetch.AltSvc
open Text

def isTchar (b : UInt8) : Bool :=
  isDigit b || (0x41 ≤ b && b ≤ 0x5a) || (0x61 ≤ b && b ≤ 0x7a) || b == 0x27 || b == 0x60 ||
    (utf8 "!#$%&*+-.^_|~").contains b

def isTokenText (s : Str) : Bool := !s.isEmpty && s.all isTchar

/-- The octets of a quoted string that a backslash may precede. -/
def isFieldText (b : UInt8) : Bool := b == 0x09 || (0x20 ≤ b && b != 0x7f)

def unquote : Str → Option Str
  | [] => some []
  | b :: rest =>
    if b = backslash then
      match rest with
      | [] => none
      | c :: rest => if isFieldText c then (unquote rest).map (c :: ·) else none
    else if b ≠ quote ∧ isFieldText b then (unquote rest).map (b :: ·)
    else none

def isOws : Lexeme → Bool
  | .byte b => b == 0x20 || b == 0x09
  | .quoted _ | .unterminated _ => false

def stripOws (lexemes : List Lexeme) : List Lexeme := (lexemes.dropWhile isOws).rdropWhile isOws

/-- `token "=" ...`, with what follows the equals sign. -/
def readPair (piece : List Lexeme) : Option (Str × List Lexeme) :=
  if .byte equals ∈ piece ∧ isTokenText (textOf (beforeEquals piece)) then
    some (textOf (beforeEquals piece), afterEquals piece)
  else none

def quotedValue : List Lexeme → Option Str
  | [.quoted inner] => unquote inner
  | _ => none

/-- `token / quoted-string`. -/
def paramValue (value : List Lexeme) : Option Str :=
  if isTokenText (textOf value) then some (textOf value) else quotedValue value

def readParam (piece : List Lexeme) : Option (Str × Str) :=
  (readPair piece).bind fun p => (paramValue p.2).map fun value => (p.1, value)

def deltaSeconds (value : Str) : Option Nat := if value.all isDigit then parseUnsigned u64Max value else none

def isMa (name : Str) : Bool := eqIgnoreAsciiCase name (utf8 "ma")

/-- Every `ma` is a number of seconds, and the last one counts. -/
def rfcMa (params : List (Str × Str)) : Option (Option Nat) :=
  let values := (params.filter fun p => isMa p.1).map fun p => deltaSeconds p.2
  if none ∈ values then none else some values.getLast?.join

/-- `alternative *( OWS ";" OWS parameter )`, with `alternative = protocol-id "=" alt-authority`. -/
def rfcItem (item : Str) : Option ParsedAlternative :=
  match ((lex (trim item)).splitOn (.byte semicolon)).map stripOws with
  | [] => none
  | alternative :: params =>
    (readPair alternative).bind fun p =>
      (quotedValue p.2).bind fun authority =>
        (params.mapM readParam).bind fun params =>
          (rfcMa params).map fun ma => ⟨p.1, authority, ma⟩

/-- A spelling in visible ASCII that escapes only quotes and backslashes. -/
def plainQuoted : Str → Bool
  | [] => true
  | b :: rest =>
    if b = backslash then
      match rest with
      | [] => false
      | c :: rest => (c = quote || c = backslash) && plainQuoted rest
    else 0x20 ≤ b && b < 0x7f && plainQuoted rest

/-- An authority that the parser takes as it is spelled, and no escape in a quoted `ma`. -/
def Plain (item : Str) : Prop :=
  ∀ p, parts item = some p →
    plainQuoted p.authority = true ∧ (∀ spelled, unquote p.authority = some spelled → spelled.length ≤ 512) ∧
      ∀ param ∈ p.params, ∀ inner, Lexeme.quoted inner ∈ param → isMa (trim (textOf (beforeEquals param))) = true →
        backslash ∉ inner

private theorem isTchar_delimiters : ∀ b ∈ utf8 "()<>@,;:\\\"/[]?=\x7b\x7d \t", isTchar b = false := by
  decide +kernel

private theorem tchar_marks : ∀ b ∈ 0x27 :: 0x60 :: utf8 "!#$%&*+-.^_|~", 0x20 < b ∧ b < 0x7f := by
  decide +kernel

theorem visible_of_isTchar {b : UInt8} (h : isTchar b = true) :
    0x20 < b ∧ b < 0x7f ∧ b ≠ quote ∧ b ≠ equals ∧ (utf8 "()<>@,;:\\\"/[]?=\x7b\x7d \t").contains b = false := by
  have hNot (c : UInt8) (hc : c ∈ utf8 "()<>@,;:\\\"/[]?=\x7b\x7d \t") : b ≠ c := by
    rintro rfl
    rw [isTchar_delimiters b hc] at h
    cases h
  have hRange : 0x20 < b ∧ b < 0x7f := by
    rw [isTchar] at h
    simp only [Bool.or_eq_true, Bool.and_eq_true, decide_eq_true_eq, beq_iff_eq, isDigit] at h
    rcases h with ((((⟨hLow, hHigh⟩ | ⟨hLow, hHigh⟩) | ⟨hLow, hHigh⟩) | rfl) | rfl) | hMark
    · exact ⟨UInt8.lt_of_lt_of_le (by decide : (0x20 : UInt8) < 0x30) hLow,
        UInt8.lt_of_le_of_lt hHigh (by decide : (0x39 : UInt8) < 0x7f)⟩
    · exact ⟨UInt8.lt_of_lt_of_le (by decide : (0x20 : UInt8) < 0x41) hLow,
        UInt8.lt_of_le_of_lt hHigh (by decide : (0x5a : UInt8) < 0x7f)⟩
    · exact ⟨UInt8.lt_of_lt_of_le (by decide : (0x20 : UInt8) < 0x61) hLow,
        UInt8.lt_of_le_of_lt hHigh (by decide : (0x7a : UInt8) < 0x7f)⟩
    · exact ⟨by decide, by decide⟩
    · exact ⟨by decide, by decide⟩
    · exact tchar_marks b (List.mem_cons_of_mem _ (List.mem_cons_of_mem _ (List.contains_iff_mem.mp hMark)))
  have hDelimiter : (utf8 "()<>@,;:\\\"/[]?=\x7b\x7d \t").contains b = false :=
    Bool.eq_false_iff.mpr fun hMem => hNot b (List.contains_iff_mem.mp hMem) rfl
  exact ⟨hRange.1, hRange.2, hNot quote (by decide), hNot equals (by decide), hDelimiter⟩

theorem isToken_of_isTokenText {s : Str} (h : isTokenText s = true) : isToken s = true := by
  rw [isTokenText, Bool.and_eq_true, List.all_eq_true] at h
  rw [isToken, Bool.and_eq_true, List.all_eq_true]
  refine ⟨h.1, fun b hb => ?_⟩
  obtain ⟨hLow, hHigh, -, -, hDelimiter⟩ := visible_of_isTchar (h.2 b hb)
  simp only [hLow, hHigh, hDelimiter]
  rfl

theorem trim_token {s : Str} (h : isTokenText s = true) : trim s = s := by
  rw [isTokenText, Bool.and_eq_true] at h
  refine trim_of_all (P := fun b => 0x20 < b && b < 0x7f) (by decide) ?_
  rw [List.all_eq_true]
  intro b hb
  obtain ⟨hLow, hHigh, -⟩ := visible_of_isTchar (List.all_eq_true.mp h.2 b hb)
  simp only [hLow, hHigh]
  rfl

section
variable {ows : List Lexeme} (h : ∀ l ∈ ows, isOws l = true)
include h

theorem ows_byte : ∀ l ∈ ows, l = .byte 0x20 ∨ l = .byte 0x09 := by
  intro l hl
  have hOws := h l hl
  cases l with
  | byte b => simpa [isOws] using hOws
  | quoted inner => cases hOws
  | unterminated inner => cases hOws

theorem trimStart_ows (x : Str) : trimStart (textOf ows ++ x) = trimStart x := by
  induction ows with
  | nil => rfl
  | cons l ows ih =>
    have hRest := ih fun l hl => h l (List.mem_cons_of_mem _ hl)
    rw [textOf_cons, List.append_assoc]
    rcases ows_byte h l List.mem_cons_self with rfl | rfl
    · rw [Lexeme.text, trimStart_append (by decide), hRest]
    · rw [Lexeme.text, trimStart_append (by decide), hRest]

theorem trimEnd_ows (x : Str) : trimEnd (x ++ textOf ows) = trimEnd x := by
  induction ows generalizing x with
  | nil => rw [textOf, List.flatMap_nil, List.append_nil]
  | cons l ows ih =>
    have hRest := ih fun l hl => h l (List.mem_cons_of_mem _ hl)
    rw [textOf_cons, ← List.append_assoc, hRest]
    rcases ows_byte h l List.mem_cons_self with rfl | rfl
    · exact trimEnd_append (by decide) x
    · exact trimEnd_append (by decide) x

end

theorem stripOws_split (piece : List Lexeme) :
    ∃ before after, (∀ l ∈ before, isOws l = true) ∧ (∀ l ∈ after, isOws l = true) ∧
      piece = before ++ (stripOws piece ++ after) := by
  refine ⟨piece.takeWhile isOws, (piece.dropWhile isOws).rtakeWhile isOws, fun l => List.mem_takeWhile_imp,
    fun l => List.mem_rtakeWhile_imp, ?_⟩
  rw [stripOws, List.rdropWhile_append_rtakeWhile, List.takeWhile_append_dropWhile]

theorem textOf_append (x y : List Lexeme) : textOf (x ++ y) = textOf x ++ textOf y := List.flatMap_append

theorem ne_equals_eq : (fun l : Lexeme => decide (l ≠ .byte equals)) = (· != .byte equals) := by
  funext l
  rw [Bool.eq_iff_iff, decide_eq_true_eq, bne_iff_ne]

theorem beforeEquals_cut {x : List Lexeme} (h : .byte equals ∉ x) (y : List Lexeme) :
    beforeEquals (x ++ .byte equals :: y) = x := by
  rw [beforeEquals, ne_equals_eq, takeWhile_cut h]

theorem afterEquals_cut {x : List Lexeme} (h : .byte equals ∉ x) (y : List Lexeme) :
    afterEquals (x ++ .byte equals :: y) = y := by
  rw [afterEquals, ne_equals_eq, dropWhile_cut h, List.tail_cons]

/-- Blanks around a pair change neither its name nor its value. -/
theorem readPair_cut {piece value : List Lexeme} {name : Str} (h : readPair (stripOws piece) = some (name, value)) :
    ∃ before after, (∀ l ∈ after, isOws l = true) ∧ isTokenText name = true ∧ .byte equals ∉ before ∧
      trim (textOf before) = name ∧ piece = before ++ .byte equals :: (value ++ after) := by
  obtain ⟨ows, after, hOws, hAfter, hPiece⟩ := stripOws_split piece
  rw [readPair] at h
  split_ifs at h with hPair
  obtain ⟨hName, hValue⟩ := Prod.mk.inj (Option.some.inj h)
  have hStripped : beforeEquals (stripOws piece) ++ .byte equals :: value = stripOws piece := by
    rw [← hValue, beforeEquals, afterEquals, ne_equals_eq, takeWhile_append_tail hPair.1]
  have hEquals : Lexeme.byte equals ∉ ows ++ beforeEquals (stripOws piece) := by
    intro hMem
    rcases List.mem_append.mp hMem with hMem | hMem
    · exact absurd (hOws _ hMem) (by decide)
    · rw [beforeEquals, ne_equals_eq] at hMem
      exact not_mem_takeWhile _ _ hMem
  refine ⟨ows ++ beforeEquals (stripOws piece), after, hAfter, hName ▸ hPair.2, hEquals, ?_, ?_⟩
  · rw [textOf_append, trim, trimStart_ows hOws, ← trim, trim_token hPair.2, hName]
  · rw [List.append_assoc, ← List.cons_append, ← List.append_assoc (beforeEquals _), hStripped, ← hPiece]

theorem trim_ows {after : List Lexeme} (h : ∀ l ∈ after, isOws l = true) (x : Str) : trim (x ++ textOf after) = trim x := by
  rw [← trimStart_trimEnd, trimEnd_ows h, trimStart_trimEnd]

theorem unquote_plain {inner : Str} (h : backslash ∉ inner) {spelled : Str} (hSpelled : unquote inner = some spelled) :
    spelled = inner := by
  induction inner generalizing spelled with
  | nil => exact (Option.some.inj hSpelled).symm
  | cons b inner ih =>
    have hb : b ≠ backslash := fun hEq => h (hEq ▸ List.mem_cons_self)
    rw [unquote.eq_def] at hSpelled
    simp only [if_neg hb] at hSpelled
    split_ifs at hSpelled with hText
    obtain ⟨rest, hRest, rfl⟩ := Option.map_eq_some_iff.mp hSpelled
    rw [ih (fun hMem => h (List.mem_cons_of_mem b hMem)) hRest]

theorem trimMatches_of_not_mem {s : Str} (h : quote ∉ s) : trimMatches quote s = s := by
  have hFirst : s.dropWhile (· == quote) = s := by
    cases s with
    | nil => rfl
    | cons b s => exact List.dropWhile_cons_of_neg fun hb => h (beq_iff_eq.mp hb ▸ List.mem_cons_self)
  rw [trimMatches, hFirst, List.rdropWhile_eq_self_iff]
  exact fun hNe hLast => h (beq_iff_eq.mp hLast ▸ List.getLast_mem hNe)

theorem trimMatches_quoted {s : Str} (h : quote ∉ s) : trimMatches quote (quote :: (s ++ [quote])) = s := by
  cases s with
  | nil => rfl
  | cons b s =>
    have hb : ¬ (b == quote) = true := fun hb => h (beq_iff_eq.mp hb ▸ List.mem_cons_self)
    have hFirst : (quote :: (b :: s ++ [quote])).dropWhile (· == quote) = b :: s ++ [quote] :=
      List.dropWhile_cons_of_neg (p := (· == quote)) hb
    have hLast : (b :: s).rdropWhile (· == quote) = b :: s := by
      have hRest := trimMatches_of_not_mem h
      rwa [trimMatches, List.dropWhile_cons_of_neg (p := (· == quote)) hb] at hRest
    rw [trimMatches, hFirst, List.rdropWhile_concat_pos (· == quote) _ _ (beq_self_eq_true quote), hLast]

private theorem trim_quoted (inner : Str) : trim (quote :: (inner ++ [quote])) = quote :: (inner ++ [quote]) := by
  have hStart : trimStart (quote :: (inner ++ [quote])) = quote :: (inner ++ [quote]) := trimStart_barrier quote_blank [] _
  have hEnd : trimEnd ((quote :: inner) ++ quote :: []) = (quote :: inner) ++ quote :: [] := trimEnd_barrier quote_blank _ []
  rw [trim, hStart]
  exact hEnd

theorem quotedValue_some {value : List Lexeme} {found : Str} (h : quotedValue value = some found) :
    ∃ inner, value = [.quoted inner] ∧ unquote inner = some found := by
  unfold quotedValue at h
  split at h
  · exact ⟨_, rfl, h⟩
  · cases h

private theorem paramValue_cases {value : List Lexeme} {found : Str} (h : paramValue value = some found) :
    (isTokenText found = true ∧ textOf value = found) ∨ ∃ inner, value = [.quoted inner] ∧ unquote inner = some found := by
  rw [paramValue] at h
  split_ifs at h with hToken
  · rw [← Option.some.inj h]
    exact Or.inl ⟨hToken, rfl⟩
  · exact Or.inr (quotedValue_some h)

private theorem maParam_eq {piece : List Lexeme} {param : Str × Str} (h : readParam (stripOws piece) = some param)
    (hPlain : ∀ inner, Lexeme.quoted inner ∈ piece → isMa (trim (textOf (beforeEquals piece))) = true → backslash ∉ inner)
    (hSeconds : isMa param.1 = true → deltaSeconds param.2 ≠ none) :
    maParam piece = if isMa param.1 then some (deltaSeconds param.2) else none := by
  obtain ⟨⟨name, value⟩, hPair, hValue⟩ := Option.bind_eq_some_iff.mp h
  obtain ⟨found, hFound, rfl⟩ := Option.map_eq_some_iff.mp hValue
  obtain ⟨before, after, hAfter, hToken, hEquals, hName, rfl⟩ := readPair_cut hPair
  rw [beforeEquals_cut hEquals, hName] at hPlain
  rw [maParam, ← isMa, beforeEquals_cut hEquals, afterEquals_cut hEquals, hName, textOf_append, trim_ows hAfter]
  by_cases hMa : isMa name = true
  · obtain ⟨n, hn⟩ := Option.ne_none_iff_exists'.mp (hSeconds hMa)
    have hDelta := hn
    rw [deltaSeconds] at hn
    split_ifs at hn with hDigits
    have hQuote : quote ∉ found := fun hMem => absurd (List.all_eq_true.mp hDigits quote hMem) (by decide)
    have hRead : trimMatches quote (trim (textOf value)) = found := by
      rcases paramValue_cases hFound with ⟨hFoundToken, hText⟩ | ⟨inner, rfl, hInner⟩
      · rw [hText, trim_token hFoundToken, trimMatches_of_not_mem hQuote]
      · have hSlash := hPlain inner (by simp) hMa
        obtain rfl := unquote_plain hSlash hInner
        rw [textOf, List.flatMap_singleton, Lexeme.text, trim_quoted, trimMatches_quoted hQuote]
    rw [if_pos hMa, if_pos hMa, hRead, hn, hDelta]
  · rw [if_neg hMa, if_neg hMa]

private theorem readMa_eq {pieces : List (List Lexeme)} {params : List (Str × Str)}
    (h : (pieces.map stripOws).mapM readParam = some params)
    (hPlain : ∀ piece ∈ pieces, ∀ inner, Lexeme.quoted inner ∈ piece → isMa (trim (textOf (beforeEquals piece))) = true →
      backslash ∉ inner)
    (hSeconds : ∀ param ∈ params, isMa param.1 = true → deltaSeconds param.2 ≠ none) :
    pieces.filterMap maParam = (params.filter fun p => isMa p.1).map fun p => deltaSeconds p.2 := by
  induction pieces generalizing params with
  | nil =>
    obtain rfl : [] = params := Option.some.inj h
    rfl
  | cons piece pieces ih =>
    rw [List.map_cons, List.mapM_cons] at h
    obtain ⟨param, hParam, hRest⟩ := Option.bind_eq_some_iff.mp h
    obtain ⟨rest, hParams, hEq⟩ := Option.bind_eq_some_iff.mp hRest
    obtain rfl : param :: rest = params := Option.some.inj hEq
    have hTail := ih hParams (fun p hp => hPlain p (List.mem_cons_of_mem _ hp)) fun p hp => hSeconds p (List.mem_cons_of_mem _ hp)
    have hHead := maParam_eq hParam (hPlain piece List.mem_cons_self) (hSeconds param List.mem_cons_self)
    by_cases hMa : isMa param.1 = true
    · rw [if_pos hMa] at hHead
      rw [List.filterMap_cons_some hHead, List.filter_cons, if_pos hMa, List.map_cons, hTail]
    · rw [if_neg hMa] at hHead
      rw [List.filterMap_cons_none hHead, List.filter_cons, if_neg hMa, hTail]

private theorem unescape_of_plain {inner spelled : Str} (h : plainQuoted inner = true) (hSpelled : unquote inner = some spelled) :
    unescape inner = some spelled ∧ ∀ b ∈ spelled, b < 0x80 := by
  induction inner using plainQuoted.induct generalizing spelled with
  | case1 =>
    obtain rfl : [] = spelled := Option.some.inj hSpelled
    exact ⟨rfl, fun b hb => (by cases hb)⟩
  | case2 => cases h
  | case3 c inner ih =>
    have hPlain : (c = quote ∨ c = backslash) ∧ plainQuoted inner = true := by
      rw [plainQuoted.eq_def] at h
      simpa using h
    rw [unquote.eq_def] at hSpelled
    simp only [if_true] at hSpelled
    split_ifs at hSpelled with hText
    obtain ⟨rest, hRest, rfl⟩ := Option.map_eq_some_iff.mp hSpelled
    obtain ⟨hUnescape, hAscii⟩ := ih hPlain.2 hRest
    refine ⟨?_, fun b hb => ?_⟩
    · rw [unescape.eq_def]
      simp only [if_true, if_pos hPlain.1, hUnescape]
      rfl
    · rcases List.mem_cons.mp hb with rfl | hb
      · rcases hPlain.1 with rfl | rfl <;> decide
      · exact hAscii b hb
  | case4 b inner hb ih =>
    have hPlain : 0x20 ≤ b ∧ b < 0x7f ∧ plainQuoted inner = true := by
      rw [plainQuoted.eq_def] at h
      simpa [hb, and_assoc] using h
    rw [unquote.eq_def] at hSpelled
    simp only [if_neg hb] at hSpelled
    split_ifs at hSpelled with hText
    obtain ⟨rest, hRest, rfl⟩ := Option.map_eq_some_iff.mp hSpelled
    obtain ⟨hUnescape, hAscii⟩ := ih hPlain.2.2 hRest
    have hControl : ¬ (b < 0x20 ∨ b = 0x7f) := by
      rintro (hLow | rfl)
      · exact absurd hLow (UInt8.not_lt.mpr hPlain.1)
      · exact absurd hPlain.2.1 (by decide)
    refine ⟨?_, fun d hd => ?_⟩
    · rw [unescape.eq_def]
      simp only [if_neg hb, if_neg hControl, hUnescape]
      rfl
    · rcases List.mem_cons.mp hd with rfl | hd
      · exact UInt8.lt_trans hPlain.2.1 (by decide)
      · exact hAscii d hd

private theorem flatMap_latin1Char {s : Str} (h : ∀ b ∈ s, b < 0x80) : s.flatMap latin1Char = s := by
  induction s with
  | nil => rfl
  | cons b s ih =>
    have hChar : latin1Char b = [b] := if_pos (h b List.mem_cons_self)
    rw [List.flatMap_cons, hChar, ih fun d hd => h d (List.mem_cons_of_mem b hd), List.singleton_append]

private theorem readQuoted_of_plain {inner spelled : Str} (h : plainQuoted inner = true) (hSpelled : unquote inner = some spelled)
    (hLength : spelled.length ≤ 512) : readQuoted inner = some spelled := by
  obtain ⟨hUnescape, hAscii⟩ := unescape_of_plain h hSpelled
  have hLast : spelled.dropLast.length < 512 := by
    rw [List.length_dropLast]
    omega
  rw [readQuoted, hUnescape, Option.bind_some, flatMap_latin1Char fun b hb => hAscii b (List.mem_of_mem_dropLast hb),
    if_pos hLast, flatMap_latin1Char hAscii]

private theorem splitOn_tail {α : Type} [BEq α] [LawfulBEq α] {a : α} {l first : List α} {rest : List (List α)}
    (h : l.splitOn a = first :: rest) : ∃ tail, l = first ++ tail ∧ ∀ {x : List α}, a ∉ x →
    ((x ++ tail).splitOn a).tail = rest := by
  by_cases hMem : a ∈ l
  · obtain ⟨x, y, rfl, hx⟩ := List.eq_append_cons_of_mem hMem
    rw [List.splitOn_append_cons_self, List.splitOn_eq_singleton hx, List.singleton_append] at h
    obtain ⟨rfl, rfl⟩ := List.cons.inj h
    refine ⟨a :: y, rfl, fun hx' => ?_⟩
    rw [List.splitOn_append_cons_self, List.splitOn_eq_singleton hx', List.singleton_append, List.tail_cons]
  · rw [List.splitOn_eq_singleton hMem] at h
    obtain ⟨rfl, rfl⟩ := List.cons.inj h
    refine ⟨[], (List.append_nil l).symm, fun hx' => ?_⟩
    rw [List.append_nil, List.splitOn_eq_singleton hx', List.tail_cons]

/-- An item of the grammar is read as the grammar reads it. -/
theorem readItem_of_rfcItem {item : Str} {alt : ParsedAlternative} (h : rfcItem item = some alt) (hPlain : Plain item) :
    readItem item = some alt := by
  obtain ⟨first, rest, hPieces⟩ := List.exists_cons_of_ne_nil (List.splitOn_ne_nil (.byte semicolon) (lex (trim item)))
  rw [rfcItem, hPieces, List.map_cons] at h
  obtain ⟨⟨protocol, value⟩, hPair, hAuthority⟩ := Option.bind_eq_some_iff.mp h
  obtain ⟨authority, hQuoted, hRest⟩ := Option.bind_eq_some_iff.mp hAuthority
  obtain ⟨params, hParams, hAlt⟩ := Option.bind_eq_some_iff.mp hRest
  obtain ⟨ma, hMa, rfl⟩ := Option.map_eq_some_iff.mp hAlt
  obtain ⟨before, after, hAfter, hToken, hEquals, hName, rfl⟩ := readPair_cut hPair
  obtain ⟨inner, rfl, hInner⟩ := quotedValue_some hQuoted
  -- what follows the first piece starts with its semicolon
  obtain ⟨tail, hLex, hTail⟩ : ∃ tail, lex (trim item) = before ++ .byte equals :: (.quoted inner :: (after ++ tail)) ∧
      ((after ++ tail).splitOn (.byte semicolon)).tail = rest := by
    obtain ⟨tail, hLex, hTail⟩ := splitOn_tail hPieces
    refine ⟨tail, by rw [hLex, List.append_assoc, List.cons_append, List.append_assoc, List.singleton_append], hTail ?_⟩
    exact fun hMem => absurd (hAfter _ hMem) (by decide)
  have hParts : parts item = some ⟨protocol, [], inner, after ++ tail⟩ := by
    rw [parts, hLex, beforeEquals_cut hEquals, afterEquals_cut hEquals, hName]
    rfl
  obtain ⟨hPlainAuthority, hLength, hPlainMa⟩ := hPlain _ hParts
  have hParam : ∀ piece ∈ rest, ∀ inner, Lexeme.quoted inner ∈ piece → isMa (trim (textOf (beforeEquals piece))) = true →
      backslash ∉ inner := by
    rw [Parts.params, hTail] at hPlainMa
    exact hPlainMa
  have hReadMa : readMa rest = some ma := by
    have hNone : none ∉ (params.filter fun p => isMa p.1).map fun p => deltaSeconds p.2 := by
      intro hMem
      rw [rfcMa, if_pos hMem] at hMa
      cases hMa
    rw [rfcMa, if_neg hNone] at hMa
    have hSeconds : ∀ param ∈ params, isMa param.1 = true → deltaSeconds param.2 ≠ none := by
      intro param hParam hName hNot
      exact hNone (List.mem_map.mpr ⟨param, List.mem_filter.mpr ⟨hParam, hName⟩, hNot⟩)
    rw [readMa, readMa_eq hParams hParam hSeconds, if_neg hNone]
    exact hMa
  rw [readItem, hParts, Option.bind_some, if_pos ⟨isToken_of_isTokenText hToken, rfl⟩,
    readQuoted_of_plain hPlainAuthority hInner (hLength authority hInner), Option.bind_some, Parts.params, hTail, hReadMa]
  rfl

end Eggfetch.AltSvc
