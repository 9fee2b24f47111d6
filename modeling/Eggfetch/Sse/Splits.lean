import Eggfetch.Sse.Model

/-! What the events of a text depend on: how the text is cut into chunks, and how its lines end. -/
namespace Eggfetch.Sse
open Text

def exceeds (limit : Option Int) (size : Nat) : Bool := limit.any fun bytes => bytes < (size : Int)

def isComment (line : List Char) : Bool := line.head? = some ':'

/-- What an event needs of a line is whether it belongs to one. -/
def Sets (int : List Char → Option Int) (line : List Char) : Bool :=
  let field := fieldOf line
  field.1 = "event".toList || field.1 = "data".toList || field.1 = "id".toList && '\x00' ∉ field.2 ||
    field.1 = "retry".toList && (int field.2).isSome

/-- The event under way: the size of its lines, and whether one of them belongs to an event. -/
structure Progress where
  size : Nat
  incomplete : Bool

namespace Progress
variable (int : List Char → Option Int) (limit : Option Int)

/-- `none` when the line takes the event over the limit. -/
def line (p : Progress) (line : List Char) : Option Progress :=
  if line = [] then some ⟨0, false⟩
  else if isComment line then some p
  else if exceeds limit (p.size + utf8Length line) then none
  else some ⟨p.size + utf8Length line, p.incomplete || Sets int line⟩

def lines (p : Progress) : List (List Char) → Option Progress
  | [] => some p
  | line :: rest => (p.line int limit line).bind fun next => next.lines rest

/-- The lines and the text after them go over the limit before an event is complete. -/
def ExceedsFirst (tail : List Char) : Progress → List (List Char) → Prop
  | p, [] => exceeds limit (p.size + utf8Length tail)
  | p, line :: rest =>
    if line = [] then p.incomplete = false ∧ ExceedsFirst tail ⟨0, false⟩ rest
    else
      match p.line int limit line with
      | some next => ExceedsFirst tail next rest
      | none => True

end Progress

theorem utf8Length_append (s t : List Char) : utf8Length (s ++ t) = utf8Length s + utf8Length t := by
  simp [utf8Length]

def tooLarge (limit : Option Int) : SSEError := .exceeded (limit.getD 0)

namespace SSEEventDecoder
variable {int : List Char → Option Int} {d d' : SSEEventDecoder} {line : List Char} {lines : List (List Char)}
  {sse : Option ServerSentEvent} {e : SSEError}

def progress (d : SSEEventDecoder) : Progress := ⟨d.eventSize, d.pending⟩

theorem checkSize_eq (d : SSEEventDecoder) (pendingSize : Nat) :
    d.checkSize pendingSize =
      if exceeds d.maxEventSize (d.eventSize + pendingSize) then .error (tooLarge d.maxEventSize) else .ok () := by
  cases hLimit : d.maxEventSize with
  | none => simp [checkSize, exceeds, hLimit]
  | some limit => simp [checkSize, exceeds, tooLarge, hLimit]

theorem setField_maxEventSize (d : SSEEventDecoder) (fieldname value : List Char) :
    (d.setField int fieldname value).maxEventSize = d.maxEventSize := by
  rw [setField]
  split_ifs <;> try rfl
  cases int value <;> rfl

theorem setField_progress (d : SSEEventDecoder) (line : List Char) :
    (d.setField int (fieldOf line).1 (fieldOf line).2).progress = ⟨d.eventSize, d.pending || Sets int line⟩ := by
  rw [setField, Sets]
  split_ifs with hEvent hData hId hNul hRetry
  · simp [progress, hEvent]
  · simp [progress, hData]
  · simp [progress, hId, hNul]
  · simp [progress, hId, hNul]
  · cases hInt : int (fieldOf line).2 <;> simp [progress, hRetry]
  · simp only [progress, hEvent, hData, hId, hRetry, decide_false, Bool.false_and, Bool.or_false]

variable (int) in
theorem decode_nil (d : SSEEventDecoder) :
    ∃ sse d', d.decode int [] = .ok (sse, d') ∧ d'.maxEventSize = d.maxEventSize ∧ d'.progress = ⟨0, false⟩ ∧
      sse.isSome = d.pending := by
  cases hPending : d.pending with
  | true =>
    refine ⟨some d.sse, { d with eventSize := 0, event := [], data := [], retry := none, pending := false },
      ?_, rfl, rfl, rfl⟩
    rw [decode, if_pos rfl]
    simp only [hPending, if_true]
    rfl
  | false =>
    refine ⟨none, { d with eventSize := 0 }, ?_, rfl, ?_, rfl⟩
    · rw [decode, if_pos rfl]
      simp only [hPending, Bool.false_eq_true, if_false]
    · rw [progress, hPending]

theorem decode_comment (hLine : line ≠ []) (h : isComment line) : d.decode int line = .ok (none, d) := by
  have hHead : line.head? = some ':' := by simpa [isComment] using h
  rw [decode, if_neg hLine, if_pos hHead]

theorem decode_field (hLine : line ≠ []) (h : isComment line = false) :
    d.decode int line =
      if exceeds d.maxEventSize (d.eventSize + utf8Length line) then .error (tooLarge d.maxEventSize)
      else .ok (none, { d with eventSize := d.eventSize + utf8Length line }.setField int (fieldOf line).1
        (fieldOf line).2) := by
  have hHead : line.head? ≠ some ':' := by simpa [isComment] using h
  rw [decode, if_neg hLine, if_neg hHead]
  simp only [checkSize_eq, Nat.add_zero]
  split_ifs <;> rfl

variable (int) in
/-- A line is decoded when it keeps the limit, and then moves the event on as `Progress` says. -/
theorem decode_spec (d : SSEEventDecoder) (line : List Char) :
    (d.progress.line int d.maxEventSize line = none ∧ d.decode int line = .error (tooLarge d.maxEventSize)) ∨
    ∃ sse d', d.decode int line = .ok (sse, d') ∧ d'.maxEventSize = d.maxEventSize ∧
      d.progress.line int d.maxEventSize line = some d'.progress ∧ (sse.isSome ↔ line = [] ∧ d.pending = true) := by
  by_cases hLine : line = []
  · subst hLine
    obtain ⟨sse, d', hDecode, hLimit, hProgress, hSse⟩ := decode_nil int d
    exact .inr ⟨sse, d', hDecode, hLimit, congrArg some hProgress.symm, by simp [hSse]⟩
  · cases hComment : isComment line with
    | true =>
      refine .inr ⟨none, d, decode_comment hLine hComment, rfl, ?_, by simp [hLine]⟩
      rw [Progress.line, if_neg hLine, if_pos hComment]
    | false =>
      rw [decode_field hLine hComment, Progress.line, if_neg hLine, if_neg (by simp [hComment])]
      by_cases hExceeds : exceeds d.maxEventSize (d.eventSize + utf8Length line) = true
      · exact .inl ⟨if_pos hExceeds, if_pos hExceeds⟩
      · refine .inr ⟨none, _, if_neg hExceeds, setField_maxEventSize _ _ _, ?_, by simp [hLine]⟩
        rw [setField_progress]
        exact if_neg hExceeds

theorem decodeLines_error (hDecode : d.decode int line = .error e) :
    d.decodeLines int (line :: lines) = ([], .error e) := by
  rw [decodeLines, hDecode]

theorem decodeLines_ok (hDecode : d.decode int line = .ok (sse, d')) :
    d.decodeLines int (line :: lines) = (sse.toList ++ (d'.decodeLines int lines).1, (d'.decodeLines int lines).2) := by
  rw [decodeLines, hDecode]

theorem decodeLines_append {events : List ServerSentEvent} (h : d.decodeLines int lines = (events, .ok d'))
    (more : List (List Char)) :
    d.decodeLines int (lines ++ more) = (events ++ (d'.decodeLines int more).1, (d'.decodeLines int more).2) := by
  induction lines generalizing d events with
  | nil =>
    obtain ⟨rfl, hd⟩ := Prod.mk.inj h
    obtain rfl := Except.ok.inj hd
    rfl
  | cons line rest ih =>
    obtain ⟨_, hDecode⟩ | ⟨sse, next, hDecode, _⟩ := decode_spec int d line
    · rw [decodeLines_error hDecode] at h
      cases (Prod.mk.inj h).2
    · rw [decodeLines_ok hDecode] at h
      obtain ⟨rfl, hRest⟩ := Prod.mk.inj h
      rw [List.cons_append, decodeLines_ok hDecode, ih (Prod.ext rfl hRest), List.append_assoc]

theorem decodeLines_append_error {events : List ServerSentEvent} (h : d.decodeLines int lines = (events, .error e))
    (more : List (List Char)) : d.decodeLines int (lines ++ more) = (events, .error e) := by
  induction lines generalizing d events with
  | nil => cases (Prod.mk.inj h).2
  | cons line rest ih =>
    obtain ⟨_, hDecode⟩ | ⟨sse, next, hDecode, _⟩ := decode_spec int d line
    · rw [decodeLines_error hDecode] at h
      rw [List.cons_append, decodeLines_error hDecode, h]
    · rw [decodeLines_ok hDecode] at h
      obtain ⟨rfl, hRest⟩ := Prod.mk.inj h
      rw [List.cons_append, decodeLines_ok hDecode, ih (Prod.ext rfl hRest)]

variable (int) in
theorem decodeLines_spec (d : SSEEventDecoder) (lines : List (List Char)) :
    (d.progress.lines int d.maxEventSize lines = none ∧
      ∃ events, d.decodeLines int lines = (events, .error (tooLarge d.maxEventSize))) ∨
    ∃ events d', d.decodeLines int lines = (events, .ok d') ∧ d'.maxEventSize = d.maxEventSize ∧
      d.progress.lines int d.maxEventSize lines = some d'.progress := by
  induction lines generalizing d with
  | nil => exact .inr ⟨[], d, rfl, rfl, rfl⟩
  | cons line rest ih =>
    rw [Progress.lines]
    obtain ⟨hProgress, hDecode⟩ | ⟨sse, next, hDecode, hLimit, hProgress, _⟩ := decode_spec int d line
    · rw [hProgress]
      exact .inl ⟨rfl, [], decodeLines_error hDecode⟩
    · rw [hProgress, ← hLimit]
      obtain ⟨hRest, events, hEvents⟩ | ⟨events, d', hEvents, hLast, hRest⟩ := ih next
      · exact .inl ⟨hRest, sse.toList ++ events, by rw [decodeLines_ok hDecode, hEvents]⟩
      · exact .inr ⟨sse.toList ++ events, d', by rw [decodeLines_ok hDecode, hEvents], hLast, hRest⟩

private theorem exceedsFirst_iff (d : SSEEventDecoder) (tail : List Char) (lines : List (List Char)) :
    d.progress.ExceedsFirst int d.maxEventSize tail lines ↔
      (d.decodeLines int lines).1 = [] ∧ ∀ d', (d.decodeLines int lines).2 = .ok d' →
        exceeds d.maxEventSize (d'.eventSize + utf8Length tail) = true := by
  induction lines generalizing d with
  | nil => simp [Progress.ExceedsFirst, decodeLines, progress]
  | cons line rest ih =>
    rw [Progress.ExceedsFirst]
    obtain ⟨hProgress, hDecode⟩ | ⟨sse, next, hDecode, hLimit, hProgress, hSse⟩ := decode_spec int d line
    · have hLine : line ≠ [] := by
        rintro rfl
        cases hProgress
      simp [decodeLines_error hDecode, hProgress, hLine]
    · have hRest := ih next
      rw [hLimit] at hRest
      rw [decodeLines_ok hDecode]
      by_cases hLine : line = []
      · subst hLine
        obtain hNext := Option.some.inj hProgress
        rw [if_pos rfl, hNext, hRest]
        cases sse with
        | none =>
          have hPending : d.pending = false := by simpa using hSse
          simp [progress, hPending]
        | some event =>
          have hPending : d.pending = true := by simpa using hSse
          simp [progress, hPending]
      · cases sse with
        | none => simpa [hLine, hProgress] using hRest
        | some event => exact absurd (hSse.mp rfl).1 hLine

end SSEEventDecoder

/-- The lines that are ready, symbol by symbol; a line whose carriage return came last is held back. -/
def lineMachine : Transducer (List Char × Bool) Char (List Char) where
  step q c :=
    if c = '\r' then (if q.2 then ([q.1], ([], true)) else ([], (q.1, true)))
    else if c = '\n' then ([q.1], ([], false))
    else if q.2 then ([q.1], ([c], false))
    else ([], (q.1 ++ [c], false))
  finish q := if q.2 then [q.1, []] else if q.1 = [] then [] else [q.1]

section lineMachine
variable {held : List Char} {q : List Char × Bool}

theorem finish_returned (h : q.2 = true) : lineMachine.finish q = [q.1, []] := if_pos h

theorem finish_open (h : q.2 = false) : lineMachine.finish q = if q.1 = [] then [] else [q.1] :=
  if_neg (Bool.eq_false_iff.mp h)

theorem scan_lineMachine_return (held text : List Char) :
    lineMachine.scan (held, true) text = lineMachine.scan (held, false) ('\r' :: text) := by
  rw [Transducer.scan_cons]
  rfl

/-- The two machines differ in the line that a carriage return has just ended. -/
theorem scan_lineMachine (held text : List Char) :
    (lineMachine.scan (held, false) text).2.2 = (lineCut.scan (held, false) text).2.2 ∧
    ((lineCut.scan (held, false) text).2.2 = false →
      (lineMachine.scan (held, false) text).1 = (lineCut.scan (held, false) text).1 ∧
      (lineMachine.scan (held, false) text).2.1 = (lineCut.scan (held, false) text).2.1) ∧
    ((lineCut.scan (held, false) text).2.2 = true →
      (lineCut.scan (held, false) text).1 =
        (lineMachine.scan (held, false) text).1 ++ [(lineMachine.scan (held, false) text).2.1] ∧
      (lineCut.scan (held, false) text).2.1 = []) := by
  induction text using List.reverseRecOn with
  | nil => exact ⟨rfl, fun _ => ⟨rfl, rfl⟩, by simp⟩
  | append_singleton text c ih =>
    simp only [Transducer.scan_concat]
    generalize lineCut.scan (held, false) text = cut at ih ⊢
    generalize lineMachine.scan (held, false) text = ready at ih ⊢
    obtain ⟨lines, line, after⟩ := cut
    obtain ⟨ready, back, cr⟩ := ready
    obtain ⟨rfl, hOpen, hReturn⟩ := ih
    cases cr with
    | false =>
      obtain ⟨rfl, rfl⟩ := hOpen rfl
      by_cases hr : c = '\r'
      · simp [lineCut, lineMachine, hr]
      · by_cases hn : c = '\n'
        · simp [lineCut, lineMachine, hn]
        · simp [lineCut, lineMachine, hn, hr]
    | true =>
      obtain ⟨rfl, rfl⟩ := hReturn rfl
      by_cases hr : c = '\r'
      · simp [lineCut, lineMachine, hr]
      · by_cases hn : c = '\n'
        · simp [lineCut, lineMachine, hn]
        · simp [lineCut, lineMachine, hn, hr]

theorem scan_lineMachine_dropLast (held text : List Char) :
    lineMachine.scan (held, false) text =
      let cut := lineCut.scan (held, false) (if text.getLast? = some '\r' then text.dropLast else text)
      (cut.1, (cut.2.1, decide (text.getLast? = some '\r'))) := by
  obtain ⟨hFlag, hOpen, hReturn⟩ := scan_lineMachine held text
  have hLast := afterReturn_iff held text
  by_cases hText : text.getLast? = some '\r'
  · obtain ⟨before, rfl⟩ := List.getLast?_eq_some_iff.mp hText
    have hCut := hLast.mpr hText
    obtain ⟨hLines, -⟩ := hReturn hCut
    rw [Transducer.scan_concat, lineCut_return] at hLines
    obtain ⟨hReady, hBack⟩ := List.append_inj' hLines rfl
    rw [if_pos hText, List.dropLast_concat]
    refine Prod.ext hReady.symm (Prod.ext (List.singleton_inj.mp hBack).symm ?_)
    rw [hFlag, hCut]
    exact (decide_eq_true hText).symm
  · have hCut : (lineCut.scan (held, false) text).2.2 = false := by
      rw [← Bool.not_eq_true, hLast]
      exact hText
    obtain ⟨hReady, hBack⟩ := hOpen hCut
    rw [if_neg hText]
    refine Prod.ext hReady (Prod.ext hBack ?_)
    rw [hFlag, hCut]
    exact (decide_eq_false hText).symm

private theorem splitOn_replace (held text : List Char) :
    ((replaceCr (replaceCrLf text)).splitOn '\n').modifyHead (held ++ ·) =
      (lineCut.scan (held, false) text).1 ++ [(lineCut.scan (held, false) text).2.1] := by
  have hCons : ∀ (c : Char) rest, (replaceCr (c :: rest)).splitOn '\n' =
      if c = '\r' ∨ c = '\n' then [] :: (replaceCr rest).splitOn '\n'
      else ((replaceCr rest).splitOn '\n').modifyHead (c :: ·) := by
    intro c rest
    rw [replaceCr, List.map_cons, List.splitOn_cons_eq_if_modifyHead]
    by_cases hr : c = '\r' <;> simp [replaceCr, hr]
  have hNil : ∀ pieces : List (List Char), pieces.modifyHead (([] : List Char) ++ ·) = pieces := by
    intro pieces
    cases pieces <;> rfl
  fun_induction replaceCrLf text generalizing held with
  | case1 => simp [replaceCr]
  | case2 c =>
    rw [hCons, Transducer.scan_cons]
    by_cases hr : c = '\r'
    · simp [lineCut, hr, replaceCr]
    · by_cases hn : c = '\n'
      · simp [lineCut, hn, replaceCr]
      · simp [lineCut, hn, hr, replaceCr]
  | case3 c d rest hPair ih =>
    obtain ⟨rfl, rfl⟩ := hPair
    have hRest := ih []
    rw [hNil] at hRest
    rw [hCons, if_pos (.inr rfl), hRest]
    simp [Transducer.scan_cons, lineCut]
  | case4 c d rest hPair ih =>
    rw [hCons, Transducer.scan_cons]
    by_cases hr : c = '\r'
    · subst hr
      have hn : d ≠ '\n' := fun hd => hPair ⟨rfl, hd⟩
      have hRest := ih []
      rw [hNil, scan_lineCut_of_head (by simpa using hn) (List.cons_ne_nil d rest) false true] at hRest
      rw [if_pos (.inl rfl), hRest, lineCut_return]
      simp
    · by_cases hn : c = '\n'
      · subst hn
        have hRest := ih []
        rw [hNil] at hRest
        rw [if_pos (.inr rfl), hRest, lineCut_line_feed]
        simp
      · have hRest := ih (held ++ [c])
        have hPieces : ((held ++ ·) ∘ (c :: ·)) = (held ++ [c] ++ ·) := by
          funext piece
          simp
        rw [lineCut_other hn hr, if_neg (by simp [hn, hr]), List.modifyHead_modifyHead, hPieces]
        exact hRest

theorem line_feed_not_mem_lineMachine (text : List Char) (h : '\n' ∉ held) (cr : Bool) :
    '\n' ∉ (lineMachine.scan (held, cr) text).2.1 := by
  refine Transducer.scan_invariant lineMachine (P := fun q => '\n' ∉ q.1) ?_ text h
  intro q c hq
  simp only [lineMachine]
  split_ifs with hr hBack hn hBack
  · exact List.not_mem_nil
  · exact hq
  · exact List.not_mem_nil
  · simpa using Ne.symm hn
  · simpa [hq] using Ne.symm hn

end lineMachine

namespace SSELineDecoder
variable {d : SSELineDecoder} {q : List Char × Bool}

/-- The pending parts are the line held back. -/
structure Holds (d : SSELineDecoder) (q : List Char × Bool) : Prop where
  parts : d.parts.flatten = q.1
  size : d.pendingSize = utf8Length q.1
  trailingCr : d.trailingCr = q.2
  line : '\n' ∉ q.1

theorem holds_new : Holds new ([], false) := ⟨rfl, rfl, rfl, List.not_mem_nil⟩

theorem Holds.append (h : d.Holds q) {text : List Char} (hText : '\n' ∉ text) : (d.append text).Holds (q.1 ++ text, q.2) := by
  rw [SSELineDecoder.append]
  split_ifs with hNil
  · rw [hNil, List.append_nil]
    exact h
  · refine ⟨?_, ?_, h.trailingCr, ?_⟩
    · rw [← h.parts]
      simp
    · rw [utf8Length_append, ← h.size]
    · simpa [h.line] using hText

theorem Holds.flush (h : d.Holds q) : d.flush = lineMachine.finish q := by
  have hSplit : q.1.splitOn '\n' = [q.1] := by
    rw [List.splitOn_eq_splitOnP]
    apply List.splitOnP_eq_singleton
    intro c hc
    simpa using fun hEq : c = '\n' => h.line (hEq ▸ hc)
  cases hReturn : q.2 with
  | true =>
    have hBuffer : (d.append ['\n']).consumePending.1 = q.1 ++ ['\n'] := by
      rw [← h.parts]
      simp [SSELineDecoder.append, consumePending]
    have hPieces : (q.1 ++ ['\n']).splitOn '\n' = [q.1, []] := by
      rw [List.splitOn_eq_splitOnP] at hSplit ⊢
      rw [List.splitOnP_append_cons _ _ (by simp), hSplit]
      rfl
    simp [SSELineDecoder.flush, h.trailingCr, hReturn, hBuffer, hPieces, lineMachine]
  | false =>
    have hBuffer : d.consumePending.1 = q.1 := h.parts
    simp [SSELineDecoder.flush, h.trailingCr, hReturn, hBuffer, hSplit, lineMachine]

theorem Holds.decode (h : d.Holds q) (text : List Char) :
    (d.decode text).1 = (lineMachine.scan q text).1 ∧ (d.decode text).2.Holds (lineMachine.scan q text).2 := by
  obtain ⟨held, cr⟩ := q
  have hScan : lineMachine.scan (held, cr) text =
      lineMachine.scan (held, false) (if d.trailingCr then '\r' :: text else text) := by
    rw [h.trailingCr]
    cases cr with
    | true => exact scan_lineMachine_return held text
    | false => rfl
  have hLine := line_feed_not_mem_lineMachine text h.line cr
  rw [hScan] at hLine ⊢
  rw [SSELineDecoder.decode]
  generalize (if d.trailingCr then '\r' :: text else text) = text at hLine ⊢
  have hPieces := splitOn_replace held (if text.getLast? = some '\r' then text.dropLast else text)
  rw [scan_lineMachine_dropLast] at hLine ⊢
  simp only [decide_eq_true_eq]
  generalize lineCut.scan (held, false) (if text.getLast? = some '\r' then text.dropLast else text) = cut at hPieces hLine ⊢
  obtain ⟨lines, line, after⟩ := cut
  have hOpen : ({ d with trailingCr := decide (text.getLast? = some '\r') } : SSELineDecoder).Holds
      (held, decide (text.getLast? = some '\r')) := ⟨h.parts, h.size, rfl, h.line⟩
  obtain ⟨first, rest, hSplit⟩ := List.exists_cons_of_ne_nil (List.splitOn_ne_nil '\n'
    (replaceCr (replaceCrLf (if text.getLast? = some '\r' then text.dropLast else text))))
  rw [hSplit] at hPieces ⊢
  rw [List.modifyHead_cons] at hPieces
  cases rest with
  | nil =>
    obtain ⟨rfl, hHeld⟩ := List.append_inj' (show [] ++ _ = _ from hPieces) rfl
    obtain rfl := List.singleton_inj.mp hHeld
    have hWhole : replaceCr (replaceCrLf (if text.getLast? = some '\r' then text.dropLast else text)) = first := by
      have hJoin := congrArg (['\n'].intercalate ·) hSplit
      simpa only [List.intercalate_splitOn, List.intercalate_singleton] using hJoin
    rw [hWhole]
    refine ⟨rfl, hOpen.append ?_⟩
    exact fun hFirst => hLine (List.mem_append_right held hFirst)
  | cons second rest =>
    have hLast : (second :: rest).dropLast ++ [(second :: rest).getLastD []] = second :: rest := by
      rw [List.getLastD_eq_getLast?, List.getLast?_eq_some_getLast (List.cons_ne_nil second rest)]
      exact List.dropLast_concat_getLast _
    rw [← hLast, ← List.cons_append] at hPieces
    obtain ⟨rfl, hHeld⟩ := List.append_inj' hPieces rfl
    obtain rfl := List.singleton_inj.mp hHeld
    refine ⟨?_, ?_⟩
    · have hFirst : (SSELineDecoder.append { d with trailingCr := decide (text.getLast? = some '\r') }
          first).consumePending.1 = held ++ first := by
        have hParts : d.parts.flatten = held := h.parts
        rw [SSELineDecoder.append]
        split_ifs with hNil <;> simp [consumePending, hNil, hParts]
      exact congrArg (· :: (second :: rest).dropLast) hFirst
    · have hEmpty : (SSELineDecoder.append { d with trailingCr := decide (text.getLast? = some '\r') }
          first).consumePending.2.Holds ([], decide (text.getLast? = some '\r')) := by
        rw [SSELineDecoder.append]
        split_ifs <;> exact ⟨rfl, rfl, rfl, List.not_mem_nil⟩
      exact hEmpty.append hLine

end SSELineDecoder

section feed
variable (int : List Char → Option Int)

/-- The parser with the line decoder's state as the line held back. -/
def feed (d : SSEEventDecoder) (q : List Char × Bool) : List (List Char) → List ServerSentEvent × Option SSEError
  | [] =>
    match d.decodeLines int (lineMachine.finish q) with
    | (events, .ok _) => (events, none)
    | (events, .error e) => (events, some e)
  | chunk :: rest =>
    match d.decodeLines int (lineMachine.scan q chunk).1 with
    | (events, .ok next) =>
      if exceeds next.maxEventSize (next.eventSize + utf8Length (lineMachine.scan q chunk).2.1) then
        (events, some (tooLarge next.maxEventSize))
      else
        (events ++ (feed next (lineMachine.scan q chunk).2 rest).1, (feed next (lineMachine.scan q chunk).2 rest).2)
    | (events, .error e) => (events, some e)

variable {int} {d d' : SSEEventDecoder} {q : List Char × Bool} {chunk text : List Char} {chunks : List (List Char)}
  {events : List ServerSentEvent} {e : SSEError}

theorem feed_error (h : d.decodeLines int (lineMachine.scan q chunk).1 = (events, .error e)) :
    feed int d q (chunk :: chunks) = (events, some e) := by
  rw [feed, h]

theorem feed_ok (h : d.decodeLines int (lineMachine.scan q chunk).1 = (events, .ok d')) :
    feed int d q (chunk :: chunks) =
      if exceeds d'.maxEventSize (d'.eventSize + utf8Length (lineMachine.scan q chunk).2.1) then
        (events, some (tooLarge d'.maxEventSize))
      else
        (events ++ (feed int d' (lineMachine.scan q chunk).2 chunks).1,
          (feed int d' (lineMachine.scan q chunk).2 chunks).2) := by
  rw [feed, h]

theorem iterate_eq_feed {p : SSEParser} (h : p.lineDecoder.Holds q) (chunks : List (List Char)) :
    p.iterate int chunks = feed int p.eventDecoder q chunks := by
  induction chunks generalizing p q with
  | nil =>
    rw [SSEParser.iterate, SSEParser.flush, h.flush]
    rfl
  | cons chunk rest ih =>
    obtain ⟨hLines, hHolds⟩ := h.decode chunk
    obtain ⟨_, events, hEvents⟩ | ⟨events, d', hEvents, _, _⟩ :=
      SSEEventDecoder.decodeLines_spec int p.eventDecoder (lineMachine.scan q chunk).1
    · rw [feed_error hEvents, SSEParser.iterate, SSEParser.decode, hLines, hEvents]
      rfl
    · rw [feed_ok hEvents, SSEParser.iterate, SSEParser.decode, hLines, hEvents]
      simp only [Except.bind, SSEEventDecoder.checkSize_eq, hHolds.size]
      by_cases hExceeds : exceeds d'.maxEventSize (d'.eventSize + utf8Length (lineMachine.scan q chunk).2.1) = true
      · simp only [if_pos hExceeds, Except.map]
      · simp only [if_neg hExceeds, Except.map]
        have hRest := ih (p := ⟨d', (p.lineDecoder.decode chunk).2⟩) hHolds
        rw [hRest]

theorem feed_append (h : d.decodeLines int (lineMachine.scan q chunk).1 = (events, .ok d')) (text : List Char) :
    feed int d q [chunk ++ text] =
      (events ++ (feed int d' (lineMachine.scan q chunk).2 [text]).1,
        (feed int d' (lineMachine.scan q chunk).2 [text]).2) := by
  have hScan := lineMachine.scan_append q chunk text
  have hLines := SSEEventDecoder.decodeLines_append h (lineMachine.scan (lineMachine.scan q chunk).2 text).1
  obtain ⟨_, more, hMore⟩ | ⟨more, last, hMore, _, _⟩ :=
    SSEEventDecoder.decodeLines_spec int d' (lineMachine.scan (lineMachine.scan q chunk).2 text).1
  · rw [hMore] at hLines
    rw [feed_error hMore, feed_error (by rw [hScan]; exact hLines)]
  · rw [hMore] at hLines
    rw [feed_ok hMore, feed_ok (by rw [hScan]; exact hLines), hScan]
    split_ifs
    · rfl
    · rw [List.append_assoc]

theorem feed_append_error (h : d.decodeLines int (lineMachine.scan q chunk).1 = (events, .error e)) (text : List Char) :
    feed int d q [chunk ++ text] = (events, some e) := by
  apply feed_error
  rw [Transducer.scan_append]
  exact SSEEventDecoder.decodeLines_append_error h _

variable (int) in
theorem feed_nil_fst (d : SSEEventDecoder) (q : List Char × Bool) :
    (feed int d q []).1 = (d.decodeLines int (lineMachine.finish q)).1 := by
  rw [feed]
  obtain ⟨events, _ | _⟩ := d.decodeLines int (lineMachine.finish q) <;> rfl

/-- Decoding a line that is not blank dispatches nothing. -/
theorem decodeLines_singleton (d : SSEEventDecoder) {line : List Char} (hLine : line ≠ []) :
    (d.decodeLines int [line]).1 = [] := by
  obtain ⟨_, hDecode⟩ | ⟨sse, d', hDecode, _, _, hSse⟩ := SSEEventDecoder.decode_spec int d line
  · rw [SSEEventDecoder.decodeLines_error hDecode]
  · rw [SSEEventDecoder.decodeLines_ok hDecode]
    cases sse with
    | none => rfl
    | some event => exact absurd (hSse.mp rfl).1 hLine

variable (int q) in
private theorem decodeLines_finish (h : exceeds d.maxEventSize (d.eventSize + utf8Length q.1) = false) :
    ∃ events d', d.decodeLines int (lineMachine.finish q) = (events, .ok d') := by
  have hLine : ∃ sse d', d.decode int q.1 = .ok (sse, d') := by
    obtain ⟨hProgress, _⟩ | ⟨sse, d', hDecode, _⟩ := SSEEventDecoder.decode_spec int d q.1
    · rw [Progress.line] at hProgress
      split_ifs at hProgress with _ _ hExceeds
      exact absurd hExceeds (by simpa [SSEEventDecoder.progress] using h)
    · exact ⟨sse, d', hDecode⟩
  obtain ⟨sse, d', hDecode⟩ := hLine
  simp only [lineMachine]
  split_ifs with hReturn hNil
  · obtain ⟨last, d'', hLast, _⟩ := SSEEventDecoder.decode_nil int d'
    rw [SSEEventDecoder.decodeLines_ok hDecode, SSEEventDecoder.decodeLines_ok hLast]
    exact ⟨_, _, rfl⟩
  · exact ⟨_, _, rfl⟩
  · rw [SSEEventDecoder.decodeLines_ok hDecode]
    exact ⟨_, _, rfl⟩

theorem feed_exceeds_iff (d : SSEEventDecoder) (q : List Char × Bool) (text : List Char) :
    feed int d q [text] = ([], some (tooLarge d.maxEventSize)) ↔
      d.progress.ExceedsFirst int d.maxEventSize (lineMachine.scan q text).2.1 (lineMachine.scan q text).1 := by
  rw [SSEEventDecoder.exceedsFirst_iff]
  obtain ⟨_, events, hEvents⟩ | ⟨events, d', hEvents, hLimit, _⟩ :=
    SSEEventDecoder.decodeLines_spec int d (lineMachine.scan q text).1
  · rw [feed_error hEvents, hEvents]
    simp
  · rw [feed_ok hEvents, hEvents, hLimit]
    cases hExceeds : exceeds d.maxEventSize (d'.eventSize + utf8Length (lineMachine.scan q text).2.1) with
    | true => simp [hExceeds]
    | false =>
      obtain ⟨more, last, hFinish⟩ := decodeLines_finish int (lineMachine.scan q text).2
        (hLimit.symm ▸ hExceeds)
      have hEnd : feed int d' (lineMachine.scan q text).2 [] = (more, none) := by
        rw [feed, hFinish]
      simp [hEnd, hExceeds]

end feed

namespace Progress
variable {int : List Char → Option Int} {limit : Option Int} {p p' : Progress} {line held : List Char}
  {lines : List (List Char)}

theorem exceeds_mono {m n : Nat} (h : m ≤ n) (hExceeds : exceeds limit m = true) : exceeds limit n = true := by
  cases limit with
  | none => exact hExceeds
  | some bytes =>
    simp only [exceeds, Option.any_some, decide_eq_true_eq] at hExceeds ⊢
    omega

theorem lines_append (p : Progress) (xs ys : List (List Char)) :
    p.lines int limit (xs ++ ys) = (p.lines int limit xs).bind fun next => next.lines int limit ys := by
  induction xs generalizing p with
  | nil => rfl
  | cons x xs ih =>
    rw [List.cons_append, lines, lines, Option.bind_assoc]
    congr 1
    funext next
    exact ih next

/-- Nothing but an event that has not begun can be over the limit. -/
def Sound (limit : Option Int) (p : Progress) : Prop := exceeds limit p.size = true → p = ⟨0, false⟩

theorem Sound.step_line (h : p.Sound limit) (hLine : p.line int limit line = some p') : p'.Sound limit := by
  rw [Progress.line] at hLine
  split_ifs at hLine with hNil hComment hExceeds
  · obtain rfl := Option.some.inj hLine
    exact fun _ => rfl
  · obtain rfl := Option.some.inj hLine
    exact h
  · obtain rfl := Option.some.inj hLine
    exact fun hOver => absurd hOver hExceeds

theorem Sound.run_lines (h : p.Sound limit) (hLines : p.lines int limit lines = some p') : p'.Sound limit := by
  induction lines generalizing p with
  | nil =>
    obtain rfl := Option.some.inj hLines
    exact h
  | cons line rest ih =>
    rw [Progress.lines] at hLines
    obtain ⟨next, hLine, hRest⟩ := Option.bind_eq_some_iff.mp hLines
    exact ih (h.step_line hLine) hRest

theorem exceedsFirst_of_zero (h : exceeds limit 0 = true) (tail : List Char) (lines : List (List Char)) :
    ExceedsFirst int limit tail ⟨0, false⟩ lines := by
  induction lines with
  | nil => exact exceeds_mono (Nat.zero_le _) h
  | cons line rest ih =>
    rw [ExceedsFirst]
    split_ifs with hNil
    · exact ⟨rfl, ih⟩
    · cases hLine : Progress.line int limit ⟨0, false⟩ line with
      | none => trivial
      | some next =>
        have hNext : next = ⟨0, false⟩ := by
          rw [Progress.line] at hLine
          split_ifs at hLine with hComment hExceeds
          · exact (Option.some.inj hLine).symm
          · exact absurd (exceeds_mono (Nat.zero_le _) h) hExceeds
        rw [hNext]
        exact ih

end Progress

/-- The line held back goes on in the first line that is ready, or is held back still. -/
theorem scan_lineMachine_prefix (q : List Char × Bool) (text : List Char) :
    ((lineMachine.scan q text).1 = [] ∧ q.1 <+: (lineMachine.scan q text).2.1) ∨
    ∃ line rest, (lineMachine.scan q text).1 = line :: rest ∧ q.1 <+: line := by
  induction text generalizing q with
  | nil => exact .inl ⟨rfl, List.prefix_refl _⟩
  | cons c text ih =>
    rw [Transducer.scan_cons]
    obtain ⟨held, cr⟩ := q
    have hStep : (∃ next, lineMachine.step (held, cr) c = ([held], next)) ∨
        ∃ more b, lineMachine.step (held, cr) c = ([], (held ++ more, b)) := by
      simp only [lineMachine]
      split_ifs
      · exact .inl ⟨_, rfl⟩
      · exact .inr ⟨[], true, by rw [List.append_nil]⟩
      · exact .inl ⟨_, rfl⟩
      · exact .inl ⟨_, rfl⟩
      · exact .inr ⟨[c], false, rfl⟩
    obtain ⟨next, hStep⟩ | ⟨more, b, hStep⟩ := hStep
    · rw [hStep]
      exact .inr ⟨held, _, rfl, List.prefix_refl _⟩
    · rw [hStep]
      have hHeld : held <+: held ++ more := List.prefix_append held more
      obtain ⟨hNone, hBack⟩ | ⟨line, rest, hLines, hLine⟩ := ih (held ++ more, b)
      · exact .inl ⟨hNone, hHeld.trans hBack⟩
      · exact .inr ⟨line, rest, hLines, hHeld.trans hLine⟩

private theorem utf8Length_mono {s t : List Char} (h : s <+: t) : utf8Length s ≤ utf8Length t := by
  obtain ⟨more, rfl⟩ := h
  rw [utf8Length_append]
  exact Nat.le_add_right _ _

private theorem exceedsFirst_of_held {int : List Char → Option Int} {limit : Option Int} {p : Progress}
    {q : List Char × Bool} (hSound : p.Sound limit) (hComment : isComment q.1 = false)
    (h : exceeds limit (p.size + utf8Length q.1) = true) (text : List Char) :
    p.ExceedsFirst int limit (lineMachine.scan q text).2.1 (lineMachine.scan q text).1 := by
  obtain ⟨hNone, hBack⟩ | ⟨line, rest, hLines, hLine⟩ := scan_lineMachine_prefix q text
  · rw [hNone]
    exact Progress.exceeds_mono (Nat.add_le_add_left (utf8Length_mono hBack) _) h
  · by_cases hNil : q.1 = []
    · have hZero : exceeds limit p.size = true := by
        rw [hNil] at h
        exact h
      obtain rfl := hSound hZero
      exact Progress.exceedsFirst_of_zero hZero _ _
    · obtain ⟨c, held, hHeld⟩ := List.exists_cons_of_ne_nil hNil
      obtain ⟨more, rfl⟩ := hLine
      rw [hHeld] at hComment
      have hOver : exceeds limit (p.size + utf8Length (q.1 ++ more)) = true := by
        apply Progress.exceeds_mono _ h
        rw [utf8Length_append]
        omega
      have hDecoded : p.line int limit (q.1 ++ more) = none := by
        rw [Progress.line, if_neg (by simp [hHeld]), if_neg, if_pos hOver]
        rw [hHeld]
        simpa [isComment] using hComment
      rw [hLines, Progress.ExceedsFirst, if_neg (by simp [hHeld]), hDecoded]
      trivial

section cuts
variable (int : List Char → Option Int)

/-- Where a cut leaves a comment back that is over the limit with the event under way, the rest is
over the limit before an event is complete. -/
def ClearFrom (limit : Option Int) (start : Progress) (q : List Char × Bool) (chunks : List (List Char)) : Prop :=
  ∀ before after, before ++ after = chunks → ∀ p,
    start.lines int limit (lineMachine.scan q before.flatten).1 = some p →
    isComment (lineMachine.scan q before.flatten).2.1 →
    exceeds limit (p.size + utf8Length (lineMachine.scan q before.flatten).2.1) →
    p.ExceedsFirst int limit (lineMachine.scan (lineMachine.scan q before.flatten).2 after.flatten).2.1
      (lineMachine.scan (lineMachine.scan q before.flatten).2 after.flatten).1

variable {int} {limit : Option Int} {d d' : SSEEventDecoder} {q : List Char × Bool} {p p' : Progress}
  {chunk : List Char} {chunks : List (List Char)}

def Checked (limit : Option Int) (p : Progress) (q : List Char × Bool) : Prop :=
  isComment q.1 → exceeds limit (p.size + utf8Length q.1) = false

theorem clearFrom_cons (hStart : Checked limit p q)
    (hLines : p.lines int limit (lineMachine.scan q chunk).1 = some p') :
    ClearFrom int limit p q (chunk :: chunks) ↔ ClearFrom int limit p' (lineMachine.scan q chunk).2 chunks := by
  constructor
  · intro h before after hChunks last hLast
    have hAll := h (chunk :: before) after (by rw [List.cons_append, hChunks]) last
    rw [List.flatten_cons, Transducer.scan_append, Progress.lines_append, hLines] at hAll
    exact hAll hLast
  · intro h before after hChunks last hLast hComment hExceeds
    cases before with
    | nil =>
      obtain rfl := Option.some.inj hLast
      rw [List.flatten_nil, Transducer.scan_nil] at hComment hExceeds
      rw [hStart hComment] at hExceeds
      cases hExceeds
    | cons first before =>
      obtain ⟨rfl, hRest⟩ := List.cons.inj hChunks
      rw [List.flatten_cons, Transducer.scan_append] at hLast hComment hExceeds ⊢
      rw [Progress.lines_append, hLines] at hLast
      exact h before after hRest last hLast hComment hExceeds

private theorem clearFrom_of_none (hStart : Checked limit p q)
    (hLines : p.lines int limit (lineMachine.scan q chunk).1 = none) : ClearFrom int limit p q (chunk :: chunks) := by
  intro before after hChunks last hLast hComment hExceeds
  cases before with
  | nil =>
    obtain rfl := Option.some.inj hLast
    rw [List.flatten_nil, Transducer.scan_nil] at hComment hExceeds
    rw [hStart hComment] at hExceeds
    cases hExceeds
  | cons first before =>
    obtain ⟨rfl, -⟩ := List.cons.inj hChunks
    rw [List.flatten_cons, Transducer.scan_append, Progress.lines_append, hLines] at hLast
    cases hLast

private theorem clearFrom_iff_feed (hSound : d.progress.Sound d.maxEventSize)
    (hExceeds : exceeds d.maxEventSize (d.eventSize + utf8Length q.1) = true) (chunks : List (List Char)) :
    ClearFrom int d.maxEventSize d.progress q chunks ↔
      feed int d q [chunks.flatten] = ([], some (tooLarge d.maxEventSize)) := by
  constructor
  · intro h
    rw [feed_exceeds_iff]
    cases hComment : isComment q.1 with
    | true => exact h [] chunks rfl d.progress rfl hComment hExceeds
    | false => exact exceedsFirst_of_held hSound hComment hExceeds _
  · intro h before after hChunks last hLast _ hOver
    obtain ⟨hNone, _⟩ | ⟨events, d', hEvents, hLimit, hProgress⟩ :=
      SSEEventDecoder.decodeLines_spec int d (lineMachine.scan q before.flatten).1
    · rw [hNone] at hLast
      cases hLast
    · obtain rfl := Option.some.inj (hProgress.symm.trans hLast)
      rw [← hChunks, List.flatten_append, feed_append hEvents] at h
      obtain ⟨hNil, hError⟩ := Prod.mk.inj h
      obtain ⟨_, hRest⟩ := List.append_eq_nil_iff.mp hNil
      have hFeed : feed int d' (lineMachine.scan q before.flatten).2 [after.flatten] =
          ([], some (tooLarge d'.maxEventSize)) := Prod.ext hRest (by rw [hError, hLimit])
      rw [feed_exceeds_iff, hLimit] at hFeed
      exact hFeed

private theorem append_eq_self_iff {α β : Type*} {xs ys zs : List α} {b c : β} :
    (xs ++ ys, b) = (xs ++ zs, c) ↔ (ys, b) = (zs, c) := by
  simp

theorem feed_eq_iff (hSound : d.progress.Sound d.maxEventSize) (hStart : Checked d.maxEventSize d.progress q)
    (chunk : List Char) (chunks : List (List Char)) :
    feed int d q (chunk :: chunks) = feed int d q [chunk ++ chunks.flatten] ↔
      ClearFrom int d.maxEventSize d.progress q (chunk :: chunks) := by
  induction chunks generalizing chunk d q with
  | nil =>
    rw [List.flatten_nil, List.append_nil]
    refine iff_of_true rfl ?_
    cases hProgress : d.progress.lines int d.maxEventSize (lineMachine.scan q chunk).1 with
    | none => exact clearFrom_of_none hStart hProgress
    | some p =>
      rw [clearFrom_cons hStart hProgress]
      intro before after hChunks last hLast _ hExceeds
      obtain ⟨rfl, rfl⟩ := List.append_eq_nil_iff.mp hChunks
      obtain rfl := Option.some.inj hLast
      exact hExceeds
  | cons next rest ih =>
    obtain ⟨hNone, events, hEvents⟩ | ⟨events, d', hEvents, hLimit, hProgress⟩ :=
      SSEEventDecoder.decodeLines_spec int d (lineMachine.scan q chunk).1
    · rw [feed_error hEvents, feed_append_error hEvents]
      exact iff_of_true rfl (clearFrom_of_none hStart hNone)
    · have hSound' : d'.progress.Sound d'.maxEventSize := by
        rw [hLimit]
        exact hSound.run_lines hProgress
      rw [clearFrom_cons hStart hProgress, feed_ok hEvents, feed_append hEvents, ← hLimit]
      cases hExceeds : exceeds d'.maxEventSize (d'.eventSize + utf8Length (lineMachine.scan q chunk).2.1) with
      | true =>
        rw [if_pos rfl, clearFrom_iff_feed hSound' hExceeds]
        constructor
        · intro h
          obtain ⟨hEvents, hError⟩ := Prod.mk.inj h
          have hNil := List.append_cancel_left ((List.append_nil events).trans hEvents)
          exact Prod.ext hNil.symm hError.symm
        · intro h
          rw [List.flatten_cons] at h
          rw [List.flatten_cons, h, List.append_nil]
      | false =>
        rw [if_neg (by simp), append_eq_self_iff]
        exact ih hSound' (fun _ => hExceeds) next

end cuts

section stable
variable (int : List Char → Option Int) (maxEventSize : Option Int)

def events (chunks : List (List Char)) : List ServerSentEvent × Option SSEError :=
  (SSEParser.new maxEventSize).iterate int chunks

def dispatched (text : List Char) : List ServerSentEvent :=
  ((SSEEventDecoder.new maxEventSize).decodeLines int (terminatedLines text)).1

/-- The events are those of the text, however it is cut and whatever ends its lines. -/
structure Stable (chunks : List (List Char)) : Prop where
  whole : events int maxEventSize chunks = events int maxEventSize [chunks.flatten]
  terminator : ∀ t, (events int maxEventSize [replaceTerminators t chunks.flatten]).1 =
    (events int maxEventSize [chunks.flatten]).1
  complete : (events int maxEventSize [chunks.flatten]).1 = dispatched int maxEventSize chunks.flatten

/-- The text ends right after a line that leaves an event incomplete. -/
def Dangling (text : List Char) : Prop :=
  unterminated text = [] ∧ ∃ before line p, terminatedLines text = before ++ [line] ∧ line ≠ [] ∧
    Progress.lines int maxEventSize ⟨0, false⟩ before = some p ∧
    exceeds maxEventSize (p.size + utf8Length line) = false ∧ (p.incomplete || Sets int line) = true

structure Clear (chunks : List (List Char)) : Prop where
  begun : chunks = [] → exceeds maxEventSize 0 = false
  comments : ClearFrom int maxEventSize ⟨0, false⟩ ([], false) chunks
  ended : ¬ Dangling int maxEventSize chunks.flatten

variable {int maxEventSize}

theorem events_eq_feed (chunks : List (List Char)) :
    events int maxEventSize chunks = feed int (.new maxEventSize) ([], false) chunks :=
  iterate_eq_feed SSELineDecoder.holds_new chunks

theorem whole_iff (chunks : List (List Char)) :
    events int maxEventSize chunks = events int maxEventSize [chunks.flatten] ↔
      (chunks = [] → exceeds maxEventSize 0 = false) ∧
      ClearFrom int maxEventSize ⟨0, false⟩ ([], false) chunks := by
  rw [events_eq_feed, events_eq_feed]
  cases chunks with
  | nil =>
    have hClear : ClearFrom int maxEventSize ⟨0, false⟩ ([], false) [] := by
      intro before after hChunks p _ hComment
      obtain ⟨rfl, rfl⟩ := List.append_eq_nil_iff.mp hChunks
      simp [isComment] at hComment
    have hLines : (SSEEventDecoder.new maxEventSize).decodeLines int (lineMachine.scan ([], false) []).1 =
        ([], .ok (.new maxEventSize)) := rfl
    have hNone : feed int (.new maxEventSize) ([], false) [] = ([], none) := rfl
    rw [List.flatten_nil, feed_ok hLines, Transducer.scan_nil, hNone]
    have hZero : exceeds (SSEEventDecoder.new maxEventSize).maxEventSize
        ((SSEEventDecoder.new maxEventSize).eventSize + utf8Length []) = exceeds maxEventSize 0 := rfl
    rw [hZero]
    cases exceeds maxEventSize 0 with
    | true => simp
    | false => simpa using hClear
  | cons chunk rest =>
    have hSound : (SSEEventDecoder.new maxEventSize).progress.Sound maxEventSize := fun _ => rfl
    have hStart : Checked maxEventSize (SSEEventDecoder.new maxEventSize).progress ([], false) := by
      intro hComment
      simp [isComment] at hComment
    rw [List.flatten_cons]
    refine (feed_eq_iff hSound hStart chunk rest).trans (iff_and_self.mpr ?_)
    intro _ hNil
    cases hNil

private theorem sets_of_isComment {line : List Char} (h : isComment line) : Sets int line = false := by
  obtain ⟨rest, rfl⟩ : ∃ rest, line = ':' :: rest := by
    cases line with
    | nil => simp [isComment] at h
    | cons c rest =>
      have hc : c = ':' := by simpa [isComment] using h
      exact ⟨rest, by rw [hc]⟩
  have hField : (fieldOf (':' :: rest)).1 = [] := rfl
  simp [Sets, hField]

private theorem decodeLines_blank (d : SSEEventDecoder) {line : List Char} (hLine : line ≠ [])
    (h : exceeds d.maxEventSize (d.eventSize + utf8Length line) = false) :
    (d.decodeLines int [line, []]).1 = [] ↔ (d.pending || Sets int line) = false := by
  obtain ⟨hProgress, _⟩ | ⟨sse, d', hDecode, _, hProgress, hSse⟩ := SSEEventDecoder.decode_spec int d line
  · rw [Progress.line, if_neg hLine] at hProgress
    split_ifs at hProgress with _ hExceeds
    exact absurd hExceeds (by simpa [SSEEventDecoder.progress] using h)
  · have hPending : d'.pending = (d.pending || Sets int line) := by
      rw [Progress.line, if_neg hLine] at hProgress
      split_ifs at hProgress with hComment
      · rw [sets_of_isComment hComment, Bool.or_false]
        exact (congrArg Progress.incomplete (Option.some.inj hProgress)).symm
      · exact (congrArg Progress.incomplete (Option.some.inj hProgress)).symm
    have hNone : sse = none := by
      cases sse with
      | none => rfl
      | some event => exact absurd (hSse.mp rfl).1 hLine
    obtain ⟨last, d'', hLast, _, _, hLastSse⟩ := SSEEventDecoder.decode_nil int d'
    rw [SSEEventDecoder.decodeLines_ok hDecode, SSEEventDecoder.decodeLines_ok hLast, hNone, ← hPending, ← hLastSse]
    cases last <;> simp [SSEEventDecoder.decodeLines]

private theorem decodeLines_blank_blank (d : SSEEventDecoder) :
    (d.decodeLines int [[], []]).1 = (d.decodeLines int [[]]).1 := by
  obtain ⟨sse, d', hDecode, _, hProgress, _⟩ := SSEEventDecoder.decode_nil int d
  obtain ⟨last, d'', hLast, _, _, hLastSse⟩ := SSEEventDecoder.decode_nil int d'
  have hPending : d'.pending = false := congrArg Progress.incomplete hProgress
  have hNone : last = none := by
    rw [hPending] at hLastSse
    simpa using hLastSse
  rw [SSEEventDecoder.decodeLines_ok hDecode, SSEEventDecoder.decodeLines_ok hDecode,
    SSEEventDecoder.decodeLines_ok hLast, hNone]
  rfl

private theorem events_of_open {text : List Char} (hText : text.getLast? ≠ some '\r') :
    (events int maxEventSize [text]).1 = dispatched int maxEventSize text := by
  have hReturned := afterReturn_iff [] text
  obtain ⟨hFlag, hOpen, _⟩ := scan_lineMachine [] text
  have hCr : (lineCut.scan ([], false) text).2.2 = false := by
    rw [← Bool.not_eq_true, hReturned]
    exact hText
  obtain ⟨hLines, _⟩ := hOpen hCr
  rw [events_eq_feed, dispatched, terminatedLines, ← hLines]
  obtain ⟨_, events, hEvents⟩ | ⟨events, d', hEvents, _, _⟩ :=
    SSEEventDecoder.decodeLines_spec int (.new maxEventSize) (lineMachine.scan ([], false) text).1
  · rw [feed_error hEvents, hEvents]
  · rw [feed_ok hEvents, hEvents]
    split_ifs
    · rfl
    · have hFinish : (d'.decodeLines int (lineMachine.finish (lineMachine.scan ([], false) text).2)).1 = [] := by
        rw [finish_open (hFlag.trans hCr)]
        split_ifs with hNil
        · rfl
        · exact decodeLines_singleton d' hNil
      rw [feed_nil_fst, hFinish, List.append_nil]

private theorem events_of_returned {text : List Char} {line : List Char}
    (hLines : terminatedLines text = (lineMachine.scan ([], false) text).1 ++ [line])
    (hHeld : (lineMachine.scan ([], false) text).2 = (line, true)) :
    (events int maxEventSize [text]).1 = dispatched int maxEventSize text ↔
      ¬ ∃ p, Progress.lines int maxEventSize ⟨0, false⟩ (lineMachine.scan ([], false) text).1 = some p ∧ line ≠ [] ∧
        exceeds maxEventSize (p.size + utf8Length line) = false ∧ (p.incomplete || Sets int line) = true := by
  rw [events_eq_feed, dispatched, hLines]
  obtain ⟨hNone, events, hEvents⟩ | ⟨events, d', hEvents, hKept, hProgress⟩ :=
    SSEEventDecoder.decodeLines_spec int (.new maxEventSize) (lineMachine.scan ([], false) text).1
  · rw [feed_error hEvents, SSEEventDecoder.decodeLines_append_error hEvents]
    refine iff_of_true rfl ?_
    rintro ⟨p, hProgress, _⟩
    cases hNone.symm.trans hProgress
  · have hLimit : d'.maxEventSize = maxEventSize := hKept
    have hSound : d'.progress.Sound maxEventSize :=
      Progress.Sound.run_lines (p := ⟨0, false⟩) (fun _ => rfl) hProgress
    have hLast : (∃ p, Progress.lines int maxEventSize ⟨0, false⟩ (lineMachine.scan ([], false) text).1 = some p ∧
        line ≠ [] ∧ exceeds maxEventSize (p.size + utf8Length line) = false ∧ (p.incomplete || Sets int line) = true) ↔
        line ≠ [] ∧ exceeds maxEventSize (d'.eventSize + utf8Length line) = false ∧
          (d'.pending || Sets int line) = true := by
      constructor
      · rintro ⟨p, hBefore, hMore⟩
        obtain rfl := Option.some.inj (hProgress.symm.trans hBefore)
        exact hMore
      · exact fun hMore => ⟨d'.progress, hProgress, hMore⟩
    have hFlush := feed_nil_fst int d' (line, true)
    rw [finish_returned rfl] at hFlush
    rw [hLast, feed_ok hEvents, SSEEventDecoder.decodeLines_append hEvents, hHeld, hLimit]
    cases hExceeds : exceeds maxEventSize (d'.eventSize + utf8Length line) with
    | true =>
      -- the check raises, and the line dispatches nothing either way
      have hSilent : (d'.decodeLines int [line]).1 = [] := by
        by_cases hNil : line = []
        · subst hNil
          obtain ⟨sse, d'', hDecode, _, _, hSse⟩ := SSEEventDecoder.decode_nil int d'
          have hPending : d'.pending = false := congrArg Progress.incomplete (hSound hExceeds)
          rw [SSEEventDecoder.decodeLines_ok hDecode]
          cases sse with
          | none => rfl
          | some event =>
            rw [hPending] at hSse
            cases hSse
        · exact decodeLines_singleton d' hNil
      rw [if_pos rfl, hSilent, List.append_nil]
      exact iff_of_true rfl (by simp)
    | false =>
      rw [if_neg (by simp), hFlush, List.append_cancel_left_eq]
      by_cases hNil : line = []
      · subst hNil
        exact iff_of_true (decodeLines_blank_blank d') (by simp)
      · rw [decodeLines_singleton d' hNil, decodeLines_blank d' hNil (hLimit ▸ hExceeds)]
        simp [hNil]

private theorem events_eq_dispatched_iff (text : List Char) :
    (events int maxEventSize [text]).1 = dispatched int maxEventSize text ↔
      ¬ (text.getLast? = some '\r' ∧ Dangling int maxEventSize text) := by
  by_cases hText : text.getLast? = some '\r'
  · have hReturned := (afterReturn_iff [] text).mpr hText
    obtain ⟨hFlag, _, hReturn⟩ := scan_lineMachine [] text
    obtain ⟨hLines, hRest⟩ := hReturn hReturned
    rw [events_of_returned hLines (Prod.ext rfl (hFlag.trans hReturned))]
    refine not_congr ⟨?_, ?_⟩
    · rintro ⟨p, hProgress, hLine, hMore⟩
      exact ⟨hText, hRest, _, _, p, hLines, hLine, hProgress, hMore⟩
    · rintro ⟨_, _, before, line, p, hBefore, hLine, hProgress, hMore⟩
      obtain ⟨rfl, hHeld⟩ := List.append_inj' (hBefore.symm.trans hLines) rfl
      obtain rfl := List.singleton_inj.mp hHeld
      exact ⟨p, hProgress, hLine, hMore⟩
  · exact iff_of_true (events_of_open hText) fun h => hText h.1

theorem Dangling.replace {text : List Char} (t : Terminator) :
    Dangling int maxEventSize (replaceTerminators t text) ↔ Dangling int maxEventSize text := by
  rw [Dangling, Dangling, terminatedLines_replace, unterminated_replace]

theorem stable_iff (int : List Char → Option Int) (maxEventSize : Option Int) (chunks : List (List Char)) :
    Stable int maxEventSize chunks ↔ Clear int maxEventSize chunks := by
  have hDispatched : ∀ t, dispatched int maxEventSize (replaceTerminators t chunks.flatten) =
      dispatched int maxEventSize chunks.flatten := by
    intro t
    rw [dispatched, dispatched, terminatedLines_replace]
  constructor
  · intro h
    obtain ⟨hBegun, hComments⟩ := (whole_iff chunks).mp h.whole
    refine ⟨hBegun, hComments, ?_⟩
    -- with lone carriage returns the text would end in one
    intro hDangling
    have hReturn : (replaceTerminators .cr chunks.flatten).getLast? = some '\r' := by
      obtain ⟨hRest, before, line, _, hLines, _⟩ := hDangling
      refine getLast?_of_terminated (line_feed_not_mem_replaceFrom _ _) ?_ ((unterminated_replace _).trans hRest)
      refine ((terminatedLines_replace _).trans hLines).trans_ne ?_
      simp
    have hEvents := (h.terminator .cr).trans h.complete
    rw [← hDispatched .cr, events_eq_dispatched_iff] at hEvents
    exact hEvents ⟨hReturn, (Dangling.replace _).mpr hDangling⟩
  · intro h
    have hComplete : (events int maxEventSize [chunks.flatten]).1 = dispatched int maxEventSize chunks.flatten := by
      rw [events_eq_dispatched_iff]
      exact fun hReturn => h.ended hReturn.2
    refine ⟨(whole_iff chunks).mpr ⟨h.begun, h.comments⟩, ?_, hComplete⟩
    intro t
    rw [hComplete, ← hDispatched t, events_eq_dispatched_iff, Dangling.replace]
    exact fun hReturn => h.ended hReturn.2

theorem not_stable : ¬ Stable (fun _ => none) none ["data: x\r".toList] ∧
    ¬ Stable (fun _ => none) (some 4) [":keep-alive".toList, "\n".toList] := by
  constructor
  · intro h
    exact absurd h.complete (by decide)
  · intro h
    exact absurd h.whole (by decide)

end stable
end Eggfetch.Sse
