import Eggfetch.Body.Lines

/-! The text iterators of the facade's `Response` (`_response.py`) over UTF-8: `iter_text` and `iter_lines`, next to the native
`LineStream`. -/
namespace Eggfetch.Facade.TextLines
open Text Text.Utf8 Polling

/-- `decode` of `codecs.getincrementaldecoder("utf-8")()`, which holds back an unfinished sequence; `none` if it raises.
CPython also holds back the first two bytes of a surrogate at the end of a chunk, and raises when more comes. -/
def decode (held chunk : Str) (final : Bool) : Option (Str × Str) :=
  match fromUtf8 (held ++ chunk) with
  | none => some (held ++ chunk, [])
  | some ⟨validUpTo, none⟩ =>
    if final then none else some ((held ++ chunk).take validUpTo, (held ++ chunk).drop validUpTo)
  | some ⟨_, some _⟩ => none

/-- What a generator yields, and whether it ends without raising. -/
structure Run where
  yielded : List Str
  ends : Bool
  deriving DecidableEq, Repr

/-- `if text: yield text` -/
def Run.yieldText (text : Str) (rest : Run) : Run := if text = [] then rest else { rest with yielded := text :: rest.yielded }

/-- `iter_text` over the chunks of `iter_bytes`. -/
def iterText (held : Str) : List Str → Run
  | [] =>
    match decode held [] true with
    | none => ⟨[], false⟩
    | some (tail, _) => Run.yieldText tail ⟨[], true⟩
  | chunk :: rest =>
    match decode held chunk false with
    | none => ⟨[], false⟩
    | some (text, held) => Run.yieldText text (iterText held rest)

def removeCr (line : Str) : Str := if line.getLast? = some 0x0d then line.dropLast else line

/-- The loop of `iter_lines`; `ends` says whether the texts end without raising. -/
def linesFrom (pending : Str) (ends : Bool) : List Str → List Str
  | [] => if ends ∧ pending ≠ [] then [removeCr pending] else []
  | text :: texts =>
    let lines := (pending ++ text).splitOn 0x0a
    lines.dropLast.map removeCr ++ linesFrom (lines.getLastD []) ends texts

/-- `iter_lines` and `aiter_lines` over the chunks of the body. -/
def iterLines (chunks : List Str) : Run :=
  let texts := iterText [] chunks
  ⟨linesFrom [] texts.ends texts.yielded, texts.ends⟩

/-- The lines of a body are those of its bytes, however they come in. -/
structure LinesOfBody (chunks : List Str) : Prop where
  lines : fromUtf8 chunks.flatten = none → iterLines chunks = ⟨(Body.linesOf chunks.flatten).map removeCr, true⟩
  /-- Where the bytes are no text, the lines before the error are right. -/
  raises : fromUtf8 chunks.flatten ≠ none →
    (iterLines chunks).ends = false ∧ (iterLines chunks).yielded <+: (Body.linesOf chunks.flatten).map removeCr
  /-- The native stream delivers the same lines. -/
  native : fromUtf8 chunks.flatten = none → (∀ line ∈ Body.linesOf chunks.flatten, line.length ≤ Body.MAX_LINE_LENGTH) →
    ∀ {E : Type} (s : Body.LineStream E), Body.NoError s.stream → s.rest = chunks.flatten →
      ∃ n, s.answer n = .ready none ∧ s.delivered n = (iterLines chunks).yielded.map .ok

/-- An unfinished sequence: from a boundary, a check comes back to it. -/
def Held (t : Str) : Prop := ∀ pos s, firstError pos [] (t ++ s) = firstError pos t s

theorem held_nil : Held [] := fun _ _ => rfl

theorem held_start {b : UInt8} (h0 : width b ≠ 0) (h1 : width b ≠ 1) : Held [b] := by
  intro pos s
  rw [List.singleton_append, firstError_nil, if_neg h0, if_neg h1]

theorem Held.more {lead b : UInt8} {t : Str} (h : Held (lead :: t)) (hContinues : continues (lead :: t) b)
    (hLast : (lead :: t).length + 1 ≠ width lead) : Held (lead :: t ++ [b]) := by
  intro pos s
  rw [List.append_assoc, List.singleton_append, h, firstError_more hContinues hLast]

/-- Whether there is an error does not depend on where the text starts. -/
theorem isNone_firstError (pos pos' : Nat) (t s : Str) : (firstError pos t s).isNone = (firstError pos' t s).isNone := by
  induction s generalizing pos pos' t with
  | nil => cases t <;> rfl
  | cons b s ih =>
    cases t with
    | nil =>
      rw [firstError_nil, firstError_nil]
      split_ifs
      · rfl
      · exact ih _ _ _
      · exact ih _ _ _
    | cons lead t =>
      by_cases hContinues : continues (lead :: t) b
      · by_cases hLast : (lead :: t).length + 1 = width lead
        · rw [firstError_last hContinues hLast, firstError_last hContinues hLast]
          exact ih _ _ _
        · rw [firstError_more hContinues hLast, firstError_more hContinues hLast]
          exact ih _ _ _
      · rw [firstError_broken (List.cons_ne_nil lead t) hContinues, firstError_broken (List.cons_ne_nil lead t) hContinues]
        rfl

/-- The check of a part: an error that is one whatever follows, or characters and an unfinished sequence, from which the
check goes on. -/
inductive Checked (pos : Nat) (t s : Str) : Prop
  | broken (v n : Nat) (h : ∀ more, firstError pos t (s ++ more) = some ⟨v, some n⟩)
  | split (valid rest : Str) (hSplit : t ++ s = valid ++ rest) (hHeld : Held rest)
    (hEnd : firstError pos t s = if rest = [] then none else some ⟨pos + valid.length, none⟩)
    (hMore : ∀ more, firstError pos t (s ++ more) = firstError (pos + valid.length) [] (rest ++ more))

theorem checked (pos : Nat) {t : Str} (hHeld : Held t) (s : Str) : Checked pos t s := by
  induction s generalizing pos t with
  | nil =>
    refine .split [] t (List.append_nil t) hHeld ?_ fun more => (hHeld pos more).symm
    cases t <;> rfl
  | cons b s ih =>
    -- one character or none is finished before the rest
    have hOn {pos' : Nat} {t' : Str} (front : Str) (hHeld' : Held t') (hPos : pos' = pos + front.length) (hFront : t ++ b ::
      s = front ++ (t' ++ s))
        (hStep : ∀ more, firstError pos t (b :: (s ++ more)) = firstError pos' t' (s ++ more)) : Checked pos t (b :: s) := by
      cases ih pos' hHeld' with
      | broken v n h => exact .broken v n fun more => (hStep more).trans (h more)
      | split valid rest hSplit hRest hEnd hMore =>
        have hLength : pos + (front ++ valid).length = pos' + valid.length := by
          rw [List.length_append, hPos, Nat.add_assoc]
        refine .split (front ++ valid) rest ?_ hRest ?_ fun more => ?_
        · rw [hFront, hSplit, List.append_assoc]
        · rw [hLength, ← hEnd, ← List.append_nil s, hStep, List.append_nil]
        · rw [hLength, ← hMore]
          exact hStep more
    cases t with
    | nil =>
      by_cases h0 : width b = 0
      · exact .broken pos 1 fun more => by rw [List.cons_append, firstError_nil, if_pos h0]
      · by_cases h1 : width b = 1
        · refine hOn [b] held_nil rfl rfl fun more => ?_
          rw [firstError_nil, if_neg h0, if_pos h1]
          rfl
        · refine hOn [] (held_start h0 h1) rfl rfl fun more => ?_
          rw [firstError_nil, if_neg h0, if_neg h1]
          rfl
    | cons lead t =>
      by_cases hContinues : continues (lead :: t) b
      · by_cases hLast : (lead :: t).length + 1 = width lead
        · refine hOn (lead :: t ++ [b]) held_nil ?_ ?_ fun more => firstError_last hContinues hLast pos _
          · rw [List.length_append, List.length_singleton]
          · rw [List.append_assoc]
            rfl
        · refine hOn [] (hHeld.more hContinues hLast) rfl ?_ fun more => firstError_more hContinues hLast pos _
          rw [List.nil_append, List.append_assoc]
          rfl
      · exact .broken pos _ fun more => firstError_broken (List.cons_ne_nil lead t) hContinues pos _

/-- A text goes on from its last boundary. -/
theorem fromUtf8_append_iff {pos : Nat} {rest data more : Str}
    (hMore : firstError 0 [] (data ++ more) = firstError pos [] (rest ++ more)) :
    fromUtf8 (data ++ more) = none ↔ fromUtf8 (rest ++ more) = none := by
  rw [fromUtf8, fromUtf8, hMore, ← Option.isNone_iff_eq_none, ← Option.isNone_iff_eq_none, isNone_firstError pos 0]

private theorem yieldText_flatten (text : Str) (run : Run) :
    (run.yieldText text).yielded.flatten = text ++ run.yielded.flatten := by
  unfold Run.yieldText
  split
  · rename_i hNil
    rw [hNil, List.nil_append]
  · rfl

private theorem yieldText_ends (text : Str) (run : Run) : (run.yieldText text).ends = run.ends := by
  unfold Run.yieldText
  split <;> rfl

private theorem decode_split {held chunk valid rest : Str} (hSplit : held ++ chunk = valid ++ rest)
    (hEnd : fromUtf8 (held ++ chunk) = if rest = [] then none else some ⟨valid.length, none⟩) :
    decode held chunk false = some (valid, rest) := by
  rw [decode, hEnd, hSplit]
  by_cases hNil : rest = []
  · rw [if_pos hNil, hNil, List.append_nil]
  · rw [if_neg hNil]
    dsimp only
    rw [if_neg Bool.false_ne_true, List.take_left, List.drop_left]

private theorem iterText_correct {held : Str} (hHeld : Held held) (chunks : List Str) :
    (fromUtf8 (held ++ chunks.flatten) = none →
      (iterText held chunks).ends = true ∧ (iterText held chunks).yielded.flatten = held ++ chunks.flatten) ∧
    (fromUtf8 (held ++ chunks.flatten) ≠ none →
      (iterText held chunks).ends = false ∧ (iterText held chunks).yielded.flatten <+: held ++ chunks.flatten) := by
  induction chunks generalizing held with
  | nil =>
    rw [List.flatten_nil, iterText, decode]
    cases hError : fromUtf8 (held ++ []) with
    | none =>
      exact ⟨fun _ => ⟨yieldText_ends _ _, by rw [yieldText_flatten, List.flatten_nil, List.append_nil]⟩, fun h => absurd rfl h⟩
    | some e =>
      obtain ⟨validUpTo, errorLen⟩ := e
      refine ⟨fun h => by (cases h), fun _ => ?_⟩
      cases errorLen <;> exact ⟨rfl, List.nil_prefix⟩
  | cons chunk chunks ih =>
    rw [List.flatten_cons, ← List.append_assoc, iterText]
    cases checked 0 held_nil (held ++ chunk) with
    | broken v n h =>
      have hData : fromUtf8 (held ++ chunk) = some ⟨v, some n⟩ := by
        rw [fromUtf8, ← List.append_nil (held ++ chunk), h]
      have hWhole : fromUtf8 (held ++ chunk ++ chunks.flatten) = some ⟨v, some n⟩ := h _
      rw [decode, hData, hWhole]
      exact ⟨fun h => by (cases h), fun _ => ⟨rfl, List.nil_prefix⟩⟩
    | split valid rest hSplit hRest hEnd hMore =>
      have hIff := fromUtf8_append_iff (hMore chunks.flatten)
      rw [List.nil_append] at hSplit
      rw [Nat.zero_add] at hEnd
      have hDecoded := decode_split hSplit hEnd
      rw [hDecoded, ne_eq, hIff, yieldText_ends, yieldText_flatten, hSplit, List.append_assoc]
      obtain ⟨hValid, hBroken⟩ := ih hRest
      refine ⟨fun h => ⟨(hValid h).1, by rw [(hValid h).2]⟩, fun h => ⟨(hBroken h).1, ?_⟩⟩
      exact (List.prefix_append_right_inj valid).mpr (hBroken h).2

theorem splitOn_cut {p : Str} (hp : (0x0a : UInt8) ∉ p) (q : Str) : (p ++ 0x0a :: q).splitOn 0x0a = p :: q.splitOn 0x0a := by
  rw [List.splitOn_append_cons_self, List.splitOn_eq_singleton hp]
  rfl

def lastPiece (text : Str) : Str := (text.splitOn 0x0a).getLastD []

theorem lastPiece_cut {p : Str} (hp : (0x0a : UInt8) ∉ p) (q : Str) : lastPiece (p ++ 0x0a :: q) = lastPiece q := by
  rw [lastPiece, lastPiece, splitOn_cut hp, List.getLastD_eq_getLast?, List.getLastD_eq_getLast?,
    List.getLast?_cons_of_ne_nil (List.splitOn_ne_nil _ q)]

theorem lastPiece_rest {p : Str} (hp : (0x0a : UInt8) ∉ p) : lastPiece p = p := by
  rw [lastPiece, List.splitOn_eq_singleton hp]
  rfl

/-- Induction on a text, line by line. -/
theorem line_induction {P : Str → Prop} (rest : ∀ p : Str, (0x0a : UInt8) ∉ p → P p)
    (line : ∀ p q : Str, (0x0a : UInt8) ∉ p → P q → P (p ++ 0x0a :: q)) (text : Str) : P text := by
  induction hLength : text.length using Nat.strong_induction_on generalizing text with
  | h n ih =>
    by_cases hMem : (0x0a : UInt8) ∈ text
    · obtain ⟨p, q, rfl, hp⟩ := List.eq_append_cons_of_mem hMem
      have hLess : q.length < n := by
        rw [← hLength, List.length_append, List.length_cons]
        omega
      exact line p q hp (ih q.length hLess q rfl)
    · exact rest text hMem

theorem newline_notMem_lastPiece (text : Str) : (0x0a : UInt8) ∉ lastPiece text := by
  induction text using line_induction with
  | rest p hp => rwa [lastPiece_rest hp]
  | line p q hp ih => rwa [lastPiece_cut hp]

/-- The pieces of a text that goes on. -/
theorem splitOn_append (x y : Str) : (x ++ y).splitOn 0x0a = (x.splitOn 0x0a).dropLast ++ (lastPiece x ++ y).splitOn 0x0a := by
  induction x using line_induction with
  | rest p hp =>
    rw [lastPiece_rest hp, List.splitOn_eq_singleton hp]
    rfl
  | line p q hp ih =>
    rw [List.append_assoc, List.cons_append, splitOn_cut hp, splitOn_cut hp, lastPiece_cut hp, ih,
      List.dropLast_cons_of_ne_nil (List.splitOn_ne_nil _ q), List.cons_append]

theorem linesOf_eq (text : Str) :
    Body.linesOf text = (text.splitOn 0x0a).dropLast ++ if lastPiece text = [] then [] else [lastPiece text] := by
  induction text using line_induction with
  | rest p hp =>
    rw [lastPiece_rest hp, List.splitOn_eq_singleton hp]
    split
    · rename_i hNil
      rw [hNil, Body.linesOf_nil]
      rfl
    · rename_i hNil
      rw [Body.linesOf_rest hp hNil]
      rfl
  | line p q hp ih =>
    rw [Body.linesOf_append_newline hp, lastPiece_cut hp, splitOn_cut hp,
      List.dropLast_cons_of_ne_nil (List.splitOn_ne_nil _ q), ih]
    rfl

private theorem lastPiece_append (x y : Str) : lastPiece (x ++ y) = lastPiece (lastPiece x ++ y) := by
  rw [lastPiece, splitOn_append, List.getLastD_eq_getLast?, List.getLast?_append_of_ne_nil _ (List.splitOn_ne_nil _ _),
    ← List.getLastD_eq_getLast?]
  rfl

/-- The lines of a text that goes on. -/
theorem linesOf_more (x y : Str) : Body.linesOf (x ++ y) = (x.splitOn 0x0a).dropLast ++ Body.linesOf (lastPiece x ++ y) := by
  rw [linesOf_eq, linesOf_eq, splitOn_append, ← lastPiece_append, List.dropLast_append_of_ne_nil (List.splitOn_ne_nil _ _),
    List.append_assoc]

private theorem linesOf_append (x y : Str) : (x.splitOn 0x0a).dropLast <+: Body.linesOf (x ++ y) := by
  rw [linesOf_more]
  exact List.prefix_append _ _

private theorem linesFrom_eq (ends : Bool) (texts : List Str) {pending : Str} (hPending : (0x0a : UInt8) ∉ pending) :
    linesFrom pending ends texts =
      if ends then (Body.linesOf (pending ++ texts.flatten)).map removeCr
      else ((pending ++ texts.flatten).splitOn 0x0a).dropLast.map removeCr := by
  induction texts generalizing pending with
  | nil =>
    rw [List.flatten_nil, List.append_nil, linesFrom, linesOf_eq, lastPiece_rest hPending, List.splitOn_eq_singleton hPending]
    cases ends with
    | false => rfl
    | true => by_cases hNil : pending = [] <;> simp [hNil]
  | cons text texts ih =>
    have hRest := ih (newline_notMem_lastPiece (pending ++ text))
    rw [linesFrom, List.flatten_cons, ← List.append_assoc]
    change _ ++ linesFrom (lastPiece (pending ++ text)) ends texts = _
    rw [hRest]
    cases ends with
    | true => rw [if_pos rfl, if_pos rfl, linesOf_more (pending ++ text), List.map_append]
    | false =>
      rw [if_neg Bool.false_ne_true, if_neg Bool.false_ne_true, splitOn_append (pending ++ text),
        List.dropLast_append_of_ne_nil (List.splitOn_ne_nil _ _), List.map_append]

/-- An ASCII byte ends the text before it. -/
theorem fromUtf8_cut {x y : Str} {c : UInt8} (hAscii : c < 0x80) (h : fromUtf8 (x ++ c :: y) = none) :
    fromUtf8 x = none ∧ fromUtf8 y = none := by
  have hWidth : width c = 1 := by
    simp only [UInt8.lt_iff_toNat_lt, UInt8.reduceToNat] at hAscii
    rw [width, if_pos]
    simp only [UInt8.le_iff_toNat_le, UInt8.reduceToNat]
    omega
  cases checked 0 held_nil x with
  | broken v n hBroken => cases (hBroken (c :: y)).symm.trans h
  | split valid rest hSplit hHeld hEnd hMore =>
    have hRest := (fromUtf8_append_iff (hMore (c :: y))).mp h
    by_cases hNil : rest = []
    · refine ⟨by rw [fromUtf8, hEnd, if_pos hNil], ?_⟩
      rw [hNil, List.nil_append, fromUtf8, firstError_nil, if_neg (by omega), if_pos hWidth, ← Option.isNone_iff_eq_none,
        isNone_firstError _ 0, Option.isNone_iff_eq_none] at hRest
      exact hRest
    · have hStops : ¬ continues rest c := fun hContinues => by
        have hTail := width_of_isTail (isTail_of_continues hContinues)
        omega
      rw [fromUtf8, hHeld, firstError_broken hNil hStops] at hRest
      cases hRest

private theorem fromUtf8_removeCr {line : Str} (h : fromUtf8 line = none) : fromUtf8 (removeCr line) = none := by
  unfold removeCr
  split
  · rename_i hCr
    obtain ⟨init, rfl⟩ := List.getLast?_eq_some_iff.mp hCr
    rw [List.dropLast_concat]
    exact (fromUtf8_cut (by decide) h).1
  · exact h

private theorem itemsOf_text {E : Type} {text : Str} (h : fromUtf8 text = none)
    (hShort : ∀ line ∈ Body.linesOf text, line.length ≤ Body.MAX_LINE_LENGTH) :
    Body.itemsOf (E := E) text = ((Body.linesOf text).map removeCr).map .ok := by
  have hLine : ∀ line : Str, fromUtf8 line = none → line.length ≤ Body.MAX_LINE_LENGTH →
      Body.lineItem (E := E) line = .ok (removeCr line) := by
    intro line hText hLength
    have hCut := fromUtf8_removeCr hText
    rw [removeCr] at hCut
    rw [Body.LineStream.decodeLine_item hLength, Body.decodeLine, removeCr]
    rw [hCut]
  have hValid : ∀ line ∈ Body.linesOf text, fromUtf8 line = none := by
    clear hShort
    induction text using line_induction with
    | rest p hp =>
      intro line hMem
      by_cases hNil : p = []
      · rw [hNil, Body.linesOf_nil] at hMem
        cases hMem
      · rw [Body.linesOf_rest hp hNil] at hMem
        rwa [List.mem_singleton.mp hMem]
    | line p q hp ih =>
      obtain ⟨hFirst, hRest⟩ := fromUtf8_cut (by decide) h
      rw [Body.linesOf_append_newline hp]
      exact List.forall_mem_cons.mpr ⟨hFirst, ih hRest⟩
  rw [Body.itemsOf, List.map_map]
  exact List.map_congr_left fun line hMem => hLine line (hValid line hMem) (hShort line hMem)

/-- The lines of a body do not depend on how its bytes come in, nor on the layer that splits them. -/
theorem lines_of_body (chunks : List Str) : LinesOfBody chunks := by
  obtain ⟨hValid, hBroken⟩ := iterText_correct held_nil chunks
  have hLines := linesFrom_eq (iterText [] chunks).ends (iterText [] chunks).yielded List.not_mem_nil
  rw [List.nil_append] at hLines hValid hBroken
  have hAll : fromUtf8 chunks.flatten = none → iterLines chunks = ⟨(Body.linesOf chunks.flatten).map removeCr, true⟩ := by
    intro hText
    obtain ⟨hEnds, hTexts⟩ := hValid hText
    rw [hEnds, hTexts, if_pos rfl] at hLines
    rw [iterLines, hEnds, hLines]
  refine ⟨hAll, fun hError => ?_, fun hText hShort E s hNoError hRest => ?_⟩
  · obtain ⟨hEnds, rest, hWhole⟩ := hBroken hError
    refine ⟨hEnds, ?_⟩
    rw [hEnds, if_neg Bool.false_ne_true] at hLines
    rw [← hWhole]
    change linesFrom [] (iterText [] chunks).ends (iterText [] chunks).yielded <+: _
    rw [hEnds, hLines]
    exact (linesOf_append _ rest).map removeCr
  · rw [hAll hText, ← itemsOf_text hText hShort, ← hRest]
    rcases Body.LineStream.finishes hNoError with ⟨-, long, hMem, hLong⟩ | ⟨hEnds, -⟩
    · rw [hRest] at hMem
      exact absurd (hShort long hMem) (Nat.not_le_of_lt hLong)
    · exact hEnds

end Eggfetch.Facade.TextLines
