import Eggfetch.Sse.Splits

/-! Events written as a stream of the format, and what the parser makes of the stream. -/
namespace Eggfetch.Sse
open Text

def field (name value : List Char) : List Char := name ++ ':' :: ' ' :: value

namespace ServerSentEvent
variable (str : Int → List Char) (e : ServerSentEvent)

/-- `str` is Python's. The data goes line by line, and every event repeats its id. -/
def fields : List (List Char × List Char) :=
  (if e.event = "message".toList then [] else [("event".toList, e.event)]) ++
    (e.data.splitOn '\n').map ("data".toList, ·) ++ [("id".toList, e.id)] ++
    (e.retry.map fun n => ("retry".toList, str n)).toList

def lines : List (List Char) := (e.fields str).map (fun f => field f.1 f.2) ++ [[]]

/-- What an event of the format can hold, and a limit that is large enough for it. -/
structure Writable (int : List Char → Option Int) (limit : Option Int) : Prop where
  event : e.event ≠ [] ∧ '\n' ∉ e.event ∧ '\r' ∉ e.event
  data : '\r' ∉ e.data
  id : '\x00' ∉ e.id ∧ '\n' ∉ e.id ∧ '\r' ∉ e.id
  retry : ∀ n, e.retry = some n → int (str n) = some n ∧ '\n' ∉ str n ∧ '\r' ∉ str n
  size : exceeds limit ((e.lines str).map utf8Length).sum = false

end ServerSentEvent

/-- The lines of the events, each with an end of its own. -/
structure WrittenAs (str : Int → List Char) (events : List ServerSentEvent) (lines : List (List Char × Terminator)) : Prop where
  written : lines.map Prod.fst = events.flatMap (·.lines str)
  apart : Apart lines

def fieldNames : List (List Char) := ["event".toList, "data".toList, "id".toList, "retry".toList]

theorem fieldNames_valid : ∀ name ∈ fieldNames, ':' ∉ name ∧ name ≠ [] := by decide

theorem fieldNames_unbroken : ∀ name ∈ fieldNames, ('\n' ∉ name ∧ '\r' ∉ name) ∧ name.head? ≠ some ':' := by decide

theorem mem_fields {int : List Char → Option Int} {str : Int → List Char} {e : ServerSentEvent} {limit : Option Int}
    (h : e.Writable str int limit) : ∀ f ∈ e.fields str, f.1 ∈ fieldNames ∧ '\n' ∉ f.2 ∧ '\r' ∉ f.2 := by
  have hName : ∀ i (hi : i < fieldNames.length), fieldNames[i] ∈ fieldNames := fun i hi => List.getElem_mem hi
  intro f hf
  rw [ServerSentEvent.fields, List.mem_append, List.mem_append, List.mem_append] at hf
  rcases hf with ((hf | hf) | hf) | hf
  · split at hf
    · cases hf
    · obtain rfl := List.mem_singleton.mp hf
      exact ⟨hName 0 (by decide), h.event.2⟩
  · obtain ⟨value, hValue, rfl⟩ := List.mem_map.mp hf
    refine ⟨hName 1 (by decide), not_mem_of_mem_splitOn hValue, fun hReturn => h.data ?_⟩
    have hData : ['\n'].intercalate (e.data.splitOn '\n') = e.data := List.intercalate_splitOn ..
    rw [← hData]
    exact (infix_intercalate_of_mem ['\n'] hValue).subset hReturn
  · obtain rfl := List.mem_singleton.mp hf
    exact ⟨hName 2 (by decide), h.id.2⟩
  · rw [Option.mem_toList] at hf
    obtain ⟨n, hRetry, rfl⟩ := Option.map_eq_some_iff.mp hf
    exact ⟨hName 3 (by decide), (h.retry n hRetry).2⟩

namespace SSEEventDecoder
variable {int : List Char → Option Int} {d : SSEEventDecoder}

theorem setField_eventSize (d : SSEEventDecoder) (n : Nat) (name value : List Char) :
    ({ d with eventSize := n } : SSEEventDecoder).setField int name value =
    { d.setField int name value with eventSize := n } := by
  rw [setField, setField]
  split_ifs
  · rfl
  · rfl
  · rfl
  · rfl
  · cases int value <;> rfl
  · rfl

theorem fieldOf_field {name : List Char} (hName : ':' ∉ name) (value : List Char) :
    fieldOf (field name value) = (name, value) := by
  rw [fieldOf, field, splitOnce_append hName]
  rfl

theorem decode_field_line {name : List Char} (hName : ':' ∉ name ∧ name ≠ []) (value : List Char)
    (hSize : exceeds d.maxEventSize (d.eventSize + utf8Length (field name value)) = false) :
    d.decode int (field name value) =
      .ok (none, { d.setField int name value with eventSize := d.eventSize + utf8Length (field name value) }) := by
  obtain ⟨c, rest, rfl⟩ := List.exists_cons_of_ne_nil hName.2
  have hc := (List.ne_and_not_mem_of_not_mem_cons hName.1).1
  have hComment : isComment (field (c :: rest) value) = false := by
    simpa [isComment, field] using hc.symm
  have hLine : field (c :: rest) value ≠ [] := List.cons_ne_nil _ _
  rw [decode_field hLine hComment, hSize, fieldOf_field hName.1, ← setField_eventSize]
  rfl

theorem foldl_eventSize (fields : List (List Char × List Char)) (d : SSEEventDecoder) (n : Nat) :
    fields.foldl (fun d f => d.setField int f.1 f.2) { d with eventSize := n } =
      { fields.foldl (fun d f => d.setField int f.1 f.2) d with eventSize := n } := by
  induction fields generalizing d with
  | nil => rfl
  | cons f fields ih => rw [List.foldl_cons, setField_eventSize, ih, List.foldl_cons]

private theorem decodeLines_fields {fields : List (List Char × List Char)} (hNames : ∀ f ∈ fields, ':' ∉ f.1 ∧ f.1 ≠ [])
    (hSize : exceeds d.maxEventSize (d.eventSize + (fields.map fun f => utf8Length (field f.1 f.2)).sum) = false) :
    d.decodeLines int (fields.map fun f => field f.1 f.2) =
      ([], .ok { fields.foldl (fun d f => d.setField int f.1 f.2) d with
        eventSize := d.eventSize + (fields.map fun f => utf8Length (field f.1 f.2)).sum }) := by
  induction fields generalizing d with
  | nil => rfl
  | cons f fields ih =>
    obtain ⟨hName, hNames⟩ := List.forall_mem_cons.mp hNames
    rw [List.map_cons, List.sum_cons, ← Nat.add_assoc] at hSize
    have hFirst : exceeds d.maxEventSize (d.eventSize + utf8Length (field f.1 f.2)) = false := by
      rw [← Bool.not_eq_true] at hSize ⊢
      exact fun hOver => hSize (Progress.exceeds_mono (Nat.le_add_right _ _) hOver)
    rw [List.map_cons, decodeLines_ok (decode_field_line hName f.2 hFirst), ih hNames]
    · rw [List.map_cons, List.sum_cons, List.foldl_cons, Nat.add_assoc]
      rw [foldl_eventSize]
      rfl
    · rw [setField_maxEventSize]
      exact hSize

theorem foldl_data (values : List (List Char)) (d : SSEEventDecoder) :
    (values.map ("data".toList, ·)).foldl (fun d f => d.setField int f.1 f.2) d =
      { d with data := d.data ++ values, pending := d.pending || !values.isEmpty } := by
  induction values generalizing d with
  | nil => simp
  | cons value values ih =>
    have hFirst : d.setField int "data".toList value = { d with data := d.data ++ [value], pending := true } := rfl
    rw [List.map_cons, List.foldl_cons, hFirst, ih]
    simp

private theorem foldl_fields {str : Int → List Char} {e : ServerSentEvent} {limit : Option Int} (h : e.Writable str int limit)
    (id : List Char) :
    (e.fields str).foldl (fun d f => d.setField int f.1 f.2) (⟨limit, [], [], 0, id, none, false⟩ : SSEEventDecoder) =
      ⟨limit, if e.event = "message".toList then [] else e.event, e.data.splitOn '\n', 0, e.id, e.retry, true⟩ := by
  have hEvent : (if e.event = "message".toList then [] else [("event".toList, e.event)]).foldl
      (fun (d : SSEEventDecoder) f => d.setField int f.1 f.2) ⟨limit, [], [], 0, id, none, false⟩ =
      ⟨limit, if e.event = "message".toList then [] else e.event, [], 0, id, none, !decide (e.event = "message".toList)⟩ := by
    by_cases hMessage : e.event = "message".toList
    · rw [if_pos hMessage, if_pos hMessage, decide_eq_true hMessage]
      rfl
    · rw [if_neg hMessage, if_neg hMessage, decide_eq_false hMessage]
      rfl
  have hId : ∀ d : SSEEventDecoder, d.setField int "id".toList e.id = { d with lastEventId := e.id, pending := true } := by
    intro d
    exact if_neg h.id.1
  rw [ServerSentEvent.fields, List.foldl_append, List.foldl_append, List.foldl_append, hEvent, foldl_data, List.foldl_cons, hId]
  cases hRetry : e.retry with
  | none => rfl
  | some n =>
    have hInt := (h.retry n hRetry).1
    have hSet : ∀ d : SSEEventDecoder, d.setField int "retry".toList (str n) = { d with retry := some n, pending := true } := by
      intro d
      rw [setField, if_neg (by decide), if_neg (by decide), if_neg (by decide), if_pos rfl, hInt]
    exact hSet _

private theorem decodeLines_event {str : Int → List Char} {e : ServerSentEvent} {limit : Option Int}
    (h : e.Writable str int limit)
    (id : List Char) : (⟨limit, [], [], 0, id, none, false⟩ : SSEEventDecoder).decodeLines int (e.lines str) =
      ([e], .ok ⟨limit, [], [], 0, e.id, none, false⟩) := by
  have hSize := h.size
  rw [ServerSentEvent.lines, List.map_append, List.sum_append, List.map_map] at hSize
  have hFields := @decodeLines_fields int ⟨limit, [], [], 0, id, none, false⟩ (e.fields str)
    (fun f hf => fieldNames_valid f.1 (mem_fields h f hf).1) (by
    rw [Nat.zero_add]
    exact hSize)
  rw [foldl_fields h] at hFields
  rw [ServerSentEvent.lines, decodeLines_append hFields]
  have hName : (if (if e.event = "message".toList then ([] : List Char) else e.event) = [] then "message".toList
      else if e.event = "message".toList then [] else e.event) = e.event := by
    by_cases hMessage : e.event = "message".toList
    · rw [if_pos hMessage, if_pos rfl, hMessage]
    · rw [if_neg hMessage, if_neg h.event.1]
  have hData : ['\n'].intercalate (e.data.splitOn '\n') = e.data := List.intercalate_splitOn ..
  have hDispatch : ∀ n, (⟨limit, if e.event = "message".toList then []
    else e.event, e.data.splitOn '\n', n, e.id, e.retry, true⟩ :
      SSEEventDecoder).decodeLines int [[]] = ([e], .ok ⟨limit, [], [], 0, e.id, none, false⟩) := by
    intro n
    have hSse : (⟨limit, if e.event = "message".toList then [] else e.event, e.data.splitOn '\n', 0, e.id, e.retry, true⟩ :
        SSEEventDecoder).sse = e := by
      rw [sse, hName, hData]
    have hDecode : (⟨limit, if e.event = "message".toList then [] else e.event, e.data.splitOn '\n', n, e.id, e.retry, true⟩ :
        SSEEventDecoder).decode int [] = .ok (some e, ⟨limit, [], [], 0, e.id, none, false⟩) := by
      rw [decode, if_pos rfl]
      exact congrArg (fun event => Except.ok (some event, _)) hSse
    rw [decodeLines_ok hDecode]
    rfl
  rw [hDispatch]
  rfl

theorem decodeLines_events {str : Int → List Char} {es : List ServerSentEvent} {limit : Option Int}
    (h : ∀ e ∈ es, e.Writable str int limit) (id : List Char) :
    ∃ last, (⟨limit, [], [], 0, id, none, false⟩ : SSEEventDecoder).decodeLines int (es.flatMap (·.lines str)) =
      (es, .ok ⟨limit, [], [], 0, last, none, false⟩) := by
  induction es generalizing id with
  | nil => exact ⟨id, rfl⟩
  | cons e es ih =>
    obtain ⟨hEvent, hRest⟩ := List.forall_mem_cons.mp h
    obtain ⟨last, hLast⟩ := ih hRest e.id
    refine ⟨last, ?_⟩
    rw [List.flatMap_cons, decodeLines_append (decodeLines_event hEvent id), hLast]
    rfl

end SSEEventDecoder

variable {int : List Char → Option Int} {str : Int → List Char} {limit : Option Int} {es : List ServerSentEvent}

private theorem lines_of_writable {e : ServerSentEvent} (h : e.Writable str int limit) {line : List Char}
    (hLine : line ∈ e.lines str) :
    ('\n' ∉ line ∧ '\r' ∉ line) ∧ isComment line = false := by
  rw [ServerSentEvent.lines, List.mem_append] at hLine
  rcases hLine with hLine | hBlank
  · obtain ⟨f, hf, rfl⟩ := List.mem_map.mp hLine
    obtain ⟨hName, hFeed, hReturn⟩ := mem_fields h f hf
    obtain ⟨hUnbroken, hHead⟩ := fieldNames_unbroken f.1 hName
    obtain ⟨c, rest, hc⟩ := List.exists_cons_of_ne_nil (fieldNames_valid f.1 hName).2
    rw [field, isComment]
    refine ⟨⟨?_, ?_⟩, ?_⟩
    · simp [hUnbroken.1, hFeed]
    · simp [hUnbroken.2, hReturn]
    · rw [hc] at hHead ⊢
      exact decide_eq_false hHead
  · obtain rfl := List.mem_singleton.mp hBlank
    exact ⟨⟨List.not_mem_nil, List.not_mem_nil⟩, rfl⟩

private theorem scan_stream {lines : List (List Char)} {text : List Char} (hLines : terminatedLines text = lines)
    (hRest : unterminated text = [])
    (hBlank : lines ≠ [] → lines.getLast? = some []) :
    lineMachine.scan ([], false) text = (lines, ([], false)) ∨
    ∃ front, lines = front ++ [[]] ∧ lineMachine.scan ([], false) text = (front, ([], true)) := by
  obtain ⟨hFlag, hOpen, hReturn⟩ := scan_lineMachine [] text
  cases hCut : (lineCut.scan ([], false) text).2.2 with
  | false =>
    obtain ⟨hFront, hHeld⟩ := hOpen hCut
    exact .inl (Prod.ext (hFront.trans hLines) (Prod.ext (hHeld.trans hRest) (hFlag.trans hCut)))
  | true =>
    obtain ⟨hFront, -⟩ := hReturn hCut
    have hSplit := hLines.symm.trans hFront
    have hNil := hBlank (by rw [hSplit]; exact List.append_ne_nil_of_right_ne_nil _ (List.cons_ne_nil _ _))
    rw [hSplit, List.getLast?_concat] at hNil
    rw [Option.some.inj hNil] at hSplit
    exact .inr ⟨_, hSplit, Prod.ext rfl (Prod.ext (Option.some.inj hNil) (hFlag.trans hCut))⟩

private theorem events_of_lines {lines : List (List Char)} {text last : List Char} (hZero : exceeds limit 0 = false)
    (hEvents : (SSEEventDecoder.new limit).decodeLines int lines = (es, .ok ⟨limit, [], [], 0, last, none, false⟩))
    (hScan : lineMachine.scan ([], false) text = (lines, ([], false)) ∨
      ∃ front, lines = front ++ [[]] ∧ lineMachine.scan ([], false) text = (front, ([], true))) :
    events int limit [text] = (es, none) := by
  rw [events_eq_feed]
  rcases hScan with hScan | ⟨front, rfl, hScan⟩
  · have hLines : (SSEEventDecoder.new limit).decodeLines int (lineMachine.scan ([], false) text).1 =
        (es, .ok ⟨limit, [], [], 0, last, none, false⟩) := by
      rw [hScan]
      exact hEvents
    have hOpen : exceeds limit (0 + utf8Length []) = false := hZero
    have hNone : feed int ⟨limit, [], [], 0, last, none, false⟩ ([], false) [] = ([], none) := rfl
    rw [feed_ok hLines, hScan, hNone, hOpen, List.append_nil]
    rfl
  · obtain ⟨-, before, hFront⟩ | ⟨before, d, hFront, hLimit, hProgress⟩ :=
      SSEEventDecoder.decodeLines_spec int (SSEEventDecoder.new limit) front
    · rw [SSEEventDecoder.decodeLines_append_error hFront] at hEvents
      cases hEvents
    · -- the blank line comes when the stream ends, with another one that gives nothing
      rw [SSEEventDecoder.decodeLines_append hFront] at hEvents
      obtain ⟨hBoth, hDone⟩ := Prod.mk.inj hEvents
      have hBlank : d.decodeLines int [[]] = ((d.decodeLines int [[]]).1, .ok ⟨limit, [], [], 0, last, none, false⟩) :=
        Prod.ext rfl hDone
      have hLast : d.decodeLines int [[], []] = ((d.decodeLines int [[]]).1, .ok ⟨limit, [], [], 0, last, none, false⟩) := by
        have hTwice := SSEEventDecoder.decodeLines_append hBlank [[]]
        rw [List.singleton_append] at hTwice
        rw [hTwice]
        exact Prod.ext (List.append_nil _) rfl
      have hOpen : exceeds d.maxEventSize (d.eventSize + utf8Length []) = false := by
        have hSound := Progress.Sound.run_lines (p := ⟨0, false⟩) (fun _ => rfl) hProgress
        rw [hLimit, ← Bool.not_eq_true]
        intro hOver
        have hStart : d.progress = ⟨0, false⟩ := hSound hOver
        rw [show d.eventSize = 0 from congrArg Progress.size hStart] at hOver
        exact Bool.false_ne_true (hZero.symm.trans hOver)
      have hFinish : feed int d ([], true) [] = ((d.decodeLines int [[]]).1, none) := by
        rw [feed, finish_returned rfl, hLast]
      have hLines : (SSEEventDecoder.new limit).decodeLines int (lineMachine.scan ([], false) text).1 = (before, .ok d) := by
        rw [hScan]
        exact hFront
      rw [feed_ok hLines, hScan, hOpen, hFinish, hBoth]
      rfl

private theorem getLast?_lines (hNil : es.flatMap (·.lines str) ≠ []) : (es.flatMap (·.lines str)).getLast? = some [] := by
  cases es using List.reverseRecOn with
  | nil => exact absurd rfl hNil
  | append_singleton before e =>
    rw [List.flatMap_append, List.flatMap_singleton, ServerSentEvent.lines, ← List.append_assoc, List.getLast?_concat]

/-- What a server writes is what the parser gives, whatever ends the lines and however the stream is cut. -/
theorem iterate_stream {lines : List (List Char × Terminator)} (hZero : exceeds limit 0 = false)
    (h : ∀ e ∈ es, e.Writable str int limit) (hWritten : WrittenAs str es lines) (chunks : List (List Char))
    (hChunks : chunks.flatten = writeLines lines) : (SSEParser.new limit).iterate int chunks = (es, none) := by
  have hAll : ∀ line ∈ es.flatMap (·.lines str), ('\n' ∉ line ∧ '\r' ∉ line) ∧ isComment line = false := by
    intro line hLine
    obtain ⟨e, he, hLine⟩ := List.mem_flatMap.mp hLine
    exact lines_of_writable (h e he) hLine
  have hClean : ∀ line ∈ lines, '\n' ∉ line.1 ∧ '\r' ∉ line.1 := by
    intro line hLine
    exact (hAll line.1 (hWritten.written ▸ List.mem_map_of_mem hLine)).1
  have hStart : false = true → ∀ line ∈ lines.head?, line ≠ ([], .lf) := fun hAfter => Bool.noConfusion hAfter
  obtain ⟨hLines, hRest⟩ := scan_writeLines hClean hStart hWritten.apart
  have hScan := scan_stream (hLines.trans hWritten.written) hRest getLast?_lines
  have hWhole : events int limit chunks = events int limit [chunks.flatten] := by
    refine (whole_iff chunks).mpr ⟨fun _ => hZero, ?_⟩
    -- What a cut holds back goes on in a line of the stream.
    intro before after hCut p hBefore hComment hExceeds
    exfalso
    have hParts : lineMachine.scan ([], false) (writeLines lines) =
        lineMachine.scan ([], false) (before.flatten ++ after.flatten) := by
      rw [← List.flatten_append, hCut, hChunks]
    rw [Transducer.scan_append] at hParts
    have hHeld : (lineMachine.scan ([], false) (writeLines lines)).2.1 = [] := by
      rcases hScan with hScan | ⟨front, -, hScan⟩ <;> rw [hScan]
    have hSub : ∀ line ∈ (lineMachine.scan ([], false) (writeLines lines)).1, line ∈ es.flatMap (·.lines str) := by
      rcases hScan with hScan | ⟨front, hFront, hScan⟩
      · rw [hScan]
        exact fun line hMem => hMem
      · rw [hScan, hFront]
        exact fun line hMem => List.mem_append_left _ hMem
    rw [hParts] at hHeld hSub
    obtain ⟨hNone, hPrefix⟩ | ⟨line, rest, hNext, hPrefix⟩ :=
      scan_lineMachine_prefix (lineMachine.scan ([], false) before.flatten).2 after.flatten
    · rw [hHeld] at hPrefix
      rw [List.prefix_nil.mp hPrefix] at hComment
      cases hComment
    · have hMem := hSub line (by rw [hNext]; exact List.mem_append_right _ List.mem_cons_self)
      have hNot := (hAll line hMem).2
      obtain ⟨more, rfl⟩ := hPrefix
      cases hBack : (lineMachine.scan ([], false) before.flatten).2.1 with
      | nil =>
        rw [hBack] at hComment
        cases hComment
      | cons c held =>
        rw [hBack] at hComment hNot
        exact Bool.false_ne_true (hNot.symm.trans hComment)
  obtain ⟨last, hEvents⟩ := SSEEventDecoder.decodeLines_events h []
  have hIterate : (SSEParser.new limit).iterate int chunks = events int limit chunks := rfl
  rw [hIterate, hWhole, hChunks]
  exact events_of_lines hZero hEvents hScan

/-- A message of two lines and an event without data. -/
def messages : List ServerSentEvent :=
  [⟨"message".toList, "a\nb".toList, "1".toList, none⟩, ⟨"tick".toList, [], [], some 30⟩]

/-- Every kind of end, with carriage returns between the events and last. -/
def mixedLines : List (List Char × Terminator) :=
  [("data: a".toList, .cr), ("data: b".toList, .lf), ("id: 1".toList, .crlf), ([], .cr),
    ("event: tick".toList, .cr), ("data: ".toList, .crlf), ("id: ".toList, .lf), ("retry: 30".toList, .cr), ([], .cr)]

theorem iterate_stream_messages : (SSEParser.new (some 64)).iterate (fun text => if text = "30".toList then some 30 else none)
    [(writeLines mixedLines).take 8, (writeLines mixedLines).drop 8] = (messages, none) := by
  refine @iterate_stream _ (fun _ => "30".toList) (some 64) messages mixedLines (by decide) ?_ ⟨by decide, ?_⟩ _ ?_
  · refine List.forall_mem_cons.mpr ⟨?_, List.forall_mem_singleton.mpr ?_⟩
    · exact ⟨by decide, by decide, by decide, by simp, by decide⟩
    · refine ⟨by decide, by decide, by decide, ?_, by decide⟩
      intro n hn
      obtain rfl := Option.some.inj hn
      exact ⟨by decide, by decide, by decide⟩
  · simp [Apart, mixedLines]
  · rw [List.flatten_cons, List.flatten_cons, List.flatten_nil, List.append_nil, List.take_append_drop]

end Eggfetch.Sse
