import Eggfetch.Polling.Source
import Eggfetch.Text.Chars
import Eggfetch.Text.Search
import Eggfetch.Text.Utf8

/-! The text lines of a response body (`LineStream` of `response.rs`). -/
namespace Eggfetch.Body
open Polling Text Text.Utf8

def MAX_LINE_LENGTH : Nat := 1024 * 1024

inductive LineError (E : Type) where
  | inner (e : E)
  | body (message : Str)

/-- The `Display` text. -/
def Utf8Error.message (e : Utf8Error) : Str :=
  match e.errorLen with
  | some len => utf8 s!"invalid utf-8 sequence of {len} bytes from index {e.validUpTo}"
  | none => utf8 s!"incomplete utf-8 byte sequence from index {e.validUpTo}"

section
variable {E : Type}

abbrev LineItem (E : Type) := Except (LineError E) Str

def overLong : LineItem E := .error (.body (utf8 s!"response line exceeded maximum length of {MAX_LINE_LENGTH} bytes"))

/-- A line without its newline, and without one carriage return before it. -/
def decodeLine (line : Str) : LineItem E :=
  let line := if line.getLast? = some 0x0d then line.dropLast else line
  match fromUtf8 line with
  | none => .ok line
  | some e => .error (.body (Utf8Error.message e))

def buffered (buffer : Str) : Option (LineItem E × Str) :=
  match buffer.idxOf? 0x0a with
  | some pos =>
    if pos > MAX_LINE_LENGTH then some (overLong, buffer)
    else some (decodeLine (buffer.take pos), buffer.drop (pos + 1))
  | none => if buffer.length > MAX_LINE_LENGTH then some (overLong, buffer) else none

/-- The check of a chunk before it is buffered; the buffer has no newline. -/
def refuses (buffer chunk : Str) : Bool :=
  if buffer.length + chunk.length > MAX_LINE_LENGTH then
    let remaining := MAX_LINE_LENGTH - buffer.length
    if (chunk.take (min remaining chunk.length)).contains 0x0a then false
    else
      match chunk.idxOf? 0x0a with
      | some pos => decide (buffer.length + pos > MAX_LINE_LENGTH)
      | none => true
  else false

def finalLine (remaining : Str) : LineItem E :=
  if remaining.length > MAX_LINE_LENGTH then overLong else decodeLine remaining

structure LineStream (E : Type) where
  /-- What the inner stream answers to the next polls; after them it has ended. -/
  stream : List (Poll (Except E Str))
  /-- How often the inner stream was polled. -/
  polls : Nat := 0
  buffer : Str := []

namespace LineStream

def pollFrom (stream : List (Poll (Except E Str))) (polls : Nat) (buffer : Str) :
    Poll (Option (LineItem E)) × LineStream E :=
  match buffered buffer with
  | some (item, buffer) => (.ready (some item), ⟨stream, polls, buffer⟩)
  | none =>
    match stream with
    | [] =>
      if buffer = [] then (.ready none, ⟨[], polls + 1, []⟩)
      else (.ready (some (finalLine buffer)), ⟨[], polls + 1, []⟩)
    | .pending :: rest => (.pending, ⟨rest, polls + 1, buffer⟩)
    | .ready (.error e) :: rest => (.ready (some (.error (.inner e))), ⟨rest, polls + 1, buffer⟩)
    | .ready (.ok chunk) :: rest =>
      if chunk = [] then pollFrom rest (polls + 1) buffer
      else if refuses buffer chunk then (.ready (some overLong), ⟨rest, polls + 1, buffer⟩)
      else pollFrom rest (polls + 1) (buffer ++ chunk)

def pollNext (s : LineStream E) : Poll (Option (LineItem E)) × LineStream E := pollFrom s.stream s.polls s.buffer

/-- The stream after `n` polls. -/
def after (s : LineStream E) : Nat → LineStream E
  | 0 => s
  | n + 1 => s.pollNext.2.after n

def answer (s : LineStream E) (n : Nat) : Poll (Option (LineItem E)) := (s.after n).pollNext.1

def itemOf : Poll (Option (LineItem E)) → List (LineItem E)
  | .ready (some item) => [item]
  | .ready none => []
  | .pending => []

/-- The items of the first `n` polls. -/
def delivered (s : LineStream E) : Nat → List (LineItem E)
  | 0 => []
  | n + 1 => itemOf s.pollNext.1 ++ s.pollNext.2.delivered n

end LineStream

/-- The lines of a whole text; a rest without a newline is the last one. -/
def linesOf (text : Str) : List Str :=
  let pieces := text.splitOn 0x0a
  if pieces.getLast? = some [] then pieces.dropLast else pieces

def lineItem (line : Str) : LineItem E := if line.length > MAX_LINE_LENGTH then overLong else decodeLine line

def itemsOf (text : Str) : List (LineItem E) := (linesOf text).map lineItem

def upToError : List (LineItem E) → List (LineItem E)
  | [] => []
  | .ok line :: items => .ok line :: upToError items
  | .error e :: _ => [.error e]

def chunksOf : List (Poll (Except E Str)) → Str
  | [] => []
  | .ready (.ok chunk) :: rest => chunk ++ chunksOf rest
  | _ :: rest => chunksOf rest

/-- The items are those of the whole text, and the stream ends only when all of them are delivered. -/
structure SplitsLines (text : Str) (s : LineStream E) : Prop where
  sound : ∀ n, upToError (s.delivered n) <+: upToError (itemsOf text)
  complete : ∃ n, upToError (s.delivered n) = upToError (itemsOf text)
  ended : ∀ n, s.answer n = .ready none → upToError (s.delivered n) = upToError (itemsOf text)

def EndsStream (text : Str) (s : LineStream E) (n : Nat) : Prop :=
  s.answer n = .ready (some overLong) ∨
    (text ≠ [] ∧ text.getLast? ≠ some 0x0a) ∧ (∃ item, s.answer n = .ready (some item)) ∧ s.delivered (n + 1) = itemsOf text

/-- After the item that ends the stream only the end follows, and the inner stream is left alone. -/
def StaysEnded (text : Str) (s : LineStream E) : Prop :=
  ∀ n, EndsStream text s n → ∀ m > n, s.answer m = .ready none ∧ (s.after (m + 1)).polls = (s.after (n + 1)).polls

variable {x y text buffer chunk : Str}

theorem linesOf_nil : linesOf [] = [] := by rw [linesOf, List.splitOn_nil]; rfl

theorem linesOf_append_newline (h : (0x0a : UInt8) ∉ x) (y : Str) : linesOf (x ++ 0x0a :: y) = x :: linesOf y := by
  have hPieces : (x ++ 0x0a :: y).splitOn 0x0a = x :: y.splitOn 0x0a := by
    rw [List.splitOn_append_cons_self, List.splitOn_eq_singleton h]
    rfl
  rw [linesOf, linesOf, hPieces]
  have hNil := List.splitOn_ne_nil (0x0a : UInt8) y
  rw [List.getLast?_cons_of_ne_nil hNil, List.dropLast_cons_of_ne_nil hNil]
  split <;> rfl

theorem linesOf_rest (h : (0x0a : UInt8) ∉ x) (hNil : x ≠ []) : linesOf x = [x] := by
  rw [linesOf, List.splitOn_eq_singleton h, List.getLast?_singleton, if_neg fun hSome => hNil (Option.some.inj hSome)]

theorem linesOf_ne_nil (h : text ≠ []) : linesOf text ≠ [] := by
  by_cases hMem : (0x0a : UInt8) ∈ text
  · obtain ⟨x, y, rfl, hx⟩ := List.eq_append_cons_of_mem hMem
    rw [linesOf_append_newline hx]
    exact List.cons_ne_nil _ _
  · rw [linesOf_rest hMem h]
    exact List.cons_ne_nil _ _

/-- What has no newline begins the first line. -/
theorem linesOf_prefix (h : (0x0a : UInt8) ∉ x) (hNil : x ≠ []) (y : Str) :
    ∃ line lines, linesOf (x ++ y) = line :: lines ∧ x <+: line := by
  by_cases hMem : (0x0a : UInt8) ∈ y
  · obtain ⟨p, q, rfl, hp⟩ := List.eq_append_cons_of_mem hMem
    refine ⟨x ++ p, linesOf q, ?_, List.prefix_append x p⟩
    rw [← List.append_assoc, linesOf_append_newline (List.not_mem_append h hp)]
  · exact ⟨x ++ y, [], linesOf_rest (List.not_mem_append h hMem) (List.append_ne_nil_of_left_ne_nil hNil y),
      List.prefix_append x y⟩

theorem buffered_cut (h : (0x0a : UInt8) ∉ x) (y : Str) : buffered (E := E) (x ++ 0x0a :: y) =
    if x.length > MAX_LINE_LENGTH then some (overLong, x ++ 0x0a :: y) else some (decodeLine x, y) := by
  have hTake : (x ++ 0x0a :: y).take x.length = x := List.take_left
  have hDrop : (x ++ 0x0a :: y).drop (x.length + 1) = y := by
    rw [← List.drop_drop, List.drop_left, List.drop_one, List.tail_cons]
  rw [buffered, idxOf?_append_cons h]
  simp only [hTake, hDrop]

theorem buffered_rest (h : (0x0a : UInt8) ∉ x) : buffered (E := E) x =
    if x.length > MAX_LINE_LENGTH then some (overLong, x) else none := by
  rw [buffered, List.idxOf?_eq_none_iff.mpr h]

private theorem refuses_line (hBuffer : (0x0a : UInt8) ∉ buffer) (h : refuses buffer chunk = true) (rest : Str) :
    ∃ line lines, linesOf (buffer ++ chunk ++ rest) = line :: lines ∧ MAX_LINE_LENGTH < line.length := by
  rw [refuses] at h
  split at h
  case isFalse => cases h
  case isTrue hOver =>
    dsimp only at h
    split at h
    · cases h
    · by_cases hMem : (0x0a : UInt8) ∈ chunk
      · obtain ⟨p, q, rfl, hp⟩ := List.eq_append_cons_of_mem hMem
        rw [idxOf?_append_cons hp] at h
        refine ⟨buffer ++ p, linesOf (q ++ rest), ?_, ?_⟩
        · rw [List.append_assoc, List.append_assoc, List.cons_append, ← List.append_assoc,
            linesOf_append_newline (List.not_mem_append hBuffer hp)]
        · rw [List.length_append]
          exact of_decide_eq_true h
      · have hLength : MAX_LINE_LENGTH < (buffer ++ chunk).length := by rwa [List.length_append]
        have hNil : buffer ++ chunk ≠ [] := by
          intro hNil
          rw [hNil] at hLength
          exact absurd hLength (Nat.not_lt_zero _)
        obtain ⟨line, lines, hLines, hPrefix⟩ := linesOf_prefix (List.not_mem_append hBuffer hMem) hNil rest
        exact ⟨line, lines, hLines, hLength.trans_le hPrefix.length_le⟩

def NoError (stream : List (Poll (Except E Str))) : Prop := ∀ e, .ready (.error e) ∉ stream

def LineStream.rest (s : LineStream E) : Str := s.buffer ++ chunksOf s.stream

/-- What one poll answers and leaves when `rest` was to come out, with `left` answers of the inner stream left. -/
inductive LinePolled (rest : Str) (left polls : Nat) : Poll (Option (LineItem E)) → LineStream E → Prop
  | pending {s : LineStream E} (hRest : s.rest = rest) (hLess : s.stream.length < left) : LinePolled rest left polls .pending s
  | ended {s : LineStream E} (hEmpty : rest = []) (hRest : s.rest = []) (hPolls : polls < s.polls) :
    LinePolled rest left polls (.ready none) s
  | overLong {s : LineStream E} (line : Str) (lines : List Str) (hLines : linesOf rest = line :: lines)
    (hOver : MAX_LINE_LENGTH < line.length) : LinePolled rest left polls (.ready (some overLong)) s
  | line {s : LineStream E} (line : Str) (hLines : linesOf rest = line :: linesOf s.rest)
    (hLength : line.length ≤ MAX_LINE_LENGTH) (hLess : s.rest.length < rest.length) (hLeft : s.stream.length ≤ left) :
    LinePolled rest left polls (.ready (some (decodeLine line))) s

private theorem polled_buffered {stream : List (Poll (Except E Str))} {item : LineItem E} {buffer' : Str}
    (h : buffered buffer = some (item, buffer')) (polls : Nat) :
    LinePolled (buffer ++ chunksOf stream) stream.length polls (.ready (some item)) ⟨stream, polls, buffer'⟩ := by
  by_cases hMem : (0x0a : UInt8) ∈ buffer
  · obtain ⟨x, y, rfl, hx⟩ := List.eq_append_cons_of_mem hMem
    have hLines : linesOf (x ++ 0x0a :: y ++ chunksOf stream) = x :: linesOf (y ++ chunksOf stream) := by
      rw [List.append_assoc, List.cons_append, linesOf_append_newline hx]
    rw [buffered_cut hx] at h
    split at h
    case isTrue hOver =>
      obtain ⟨rfl, rfl⟩ := Prod.mk.inj (Option.some.inj h)
      exact .overLong x _ hLines hOver
    case isFalse hOver =>
      obtain ⟨rfl, rfl⟩ := Prod.mk.inj (Option.some.inj h)
      refine .line x hLines (Nat.le_of_not_lt hOver) ?_ (Nat.le_refl _)
      simp only [LineStream.rest, List.length_append, List.length_cons]
      omega
  · rw [buffered_rest hMem] at h
    split at h
    case isFalse => cases h
    case isTrue hOver =>
      obtain ⟨rfl, rfl⟩ := Prod.mk.inj (Option.some.inj h)
      have hNil : buffer ≠ [] := by
        rintro rfl
        exact absurd hOver (Nat.not_lt_zero _)
      obtain ⟨line, lines, hLines, hPrefix⟩ := linesOf_prefix hMem hNil (chunksOf stream)
      exact .overLong line lines hLines (Nat.lt_of_lt_of_le hOver hPrefix.length_le)

private theorem buffered_none (h : buffered (E := E) buffer = none) :
    (0x0a : UInt8) ∉ buffer ∧ buffer.length ≤ MAX_LINE_LENGTH := by
  by_cases hMem : (0x0a : UInt8) ∈ buffer
  · obtain ⟨x, y, rfl, hx⟩ := List.eq_append_cons_of_mem hMem
    rw [buffered_cut hx] at h
    split at h <;> cases h
  · rw [buffered_rest hMem] at h
    split at h
    · cases h
    case isFalse hOver => exact ⟨hMem, Nat.le_of_not_lt hOver⟩

theorem LinePolled.mono {rest : Str} {left left' polls polls' : Nat} {answer : Poll (Option (LineItem E))} {s : LineStream E}
    (h : LinePolled rest left polls answer s) (hLeft : left ≤ left') (hPolls : polls' ≤ polls) :
    LinePolled rest left' polls' answer s := by
  cases h with
  | pending hRest hLess => exact .pending hRest (Nat.lt_of_lt_of_le hLess hLeft)
  | ended hEmpty hRest hMore => exact .ended hEmpty hRest (Nat.lt_of_le_of_lt hPolls hMore)
  | overLong line lines hLines hOver => exact .overLong line lines hLines hOver
  | line line hLines hLength hLess hShorter => exact .line line hLines hLength hLess (Nat.le_trans hShorter hLeft)

namespace LineStream

theorem pollFrom_polled {stream : List (Poll (Except E Str))} (h : NoError stream) (polls : Nat) (buffer : Str) :
    LinePolled (buffer ++ chunksOf stream) stream.length polls (pollFrom stream polls buffer).1 (pollFrom stream polls buffer).2 ∧
      NoError (pollFrom stream polls buffer).2.stream := by
  induction stream generalizing polls buffer with
  | nil =>
    rw [pollFrom.eq_def]
    cases hBuffered : buffered (E := E) buffer with
    | some found => exact ⟨polled_buffered hBuffered polls, h⟩
    | none =>
      obtain ⟨hMem, hLength⟩ := buffered_none hBuffered
      by_cases hNil : buffer = []
      · subst hNil
        exact ⟨.ended rfl rfl (Nat.lt_succ_self polls), h⟩
      · have hFinal : finalLine (E := E) buffer = decodeLine buffer := if_neg (Nat.not_lt.mpr hLength)
        simp only [if_neg hNil, hFinal, chunksOf, List.append_nil]
        refine ⟨.line buffer ?_ hLength ?_ (Nat.le_refl _), h⟩
        · rw [linesOf_rest hMem hNil, rest, chunksOf, List.append_nil, linesOf_nil]
        · exact List.length_pos_of_ne_nil hNil
  | cons first stream ih =>
    have hStream : NoError stream := fun e hMem => h e (List.mem_cons_of_mem first hMem)
    rw [pollFrom.eq_def]
    cases hBuffered : buffered (E := E) buffer with
    | some found => exact ⟨polled_buffered hBuffered polls, h⟩
    | none =>
      obtain ⟨hMem, hLength⟩ := buffered_none hBuffered
      cases first with
      | pending => exact ⟨.pending rfl (Nat.lt_succ_self _), hStream⟩
      | ready answer =>
        cases answer with
        | error e => exact absurd List.mem_cons_self (h e)
        | ok chunk =>
          dsimp only
          split
          case isTrue hNil =>
            subst hNil
            exact ⟨(ih hStream _ _).1.mono (Nat.le_succ _) (Nat.le_succ _), (ih hStream _ _).2⟩
          case isFalse hNil =>
            have hRest : buffer ++ chunksOf (.ready (.ok chunk) :: stream) = buffer ++ chunk ++ chunksOf stream := by
              rw [chunksOf, List.append_assoc]
            rw [hRest]
            split
            case isTrue hRefused =>
              obtain ⟨line, lines, hLines, hOver⟩ := refuses_line hMem hRefused (chunksOf stream)
              exact ⟨.overLong line lines hLines hOver, hStream⟩
            case isFalse hTaken => exact ⟨(ih hStream _ _).1.mono (Nat.le_succ _) (Nat.le_succ _), (ih hStream _ _).2⟩

variable {s : LineStream E}

theorem pollNext_polled (h : NoError s.stream) :
    LinePolled s.rest s.stream.length s.polls s.pollNext.1 s.pollNext.2 ∧ NoError s.pollNext.2.stream :=
  pollFrom_polled h s.polls s.buffer

theorem after_noError (h : NoError s.stream) (n : Nat) : NoError (s.after n).stream := by
  induction n generalizing s with
  | zero => exact h
  | succ n ih => exact ih (pollNext_polled h).2

theorem decodeLine_item {line : Str} (h : line.length ≤ MAX_LINE_LENGTH) : lineItem (E := E) line = decodeLine line :=
  if_neg (Nat.not_lt.mpr h)

theorem lineItem_over {line : Str} (h : MAX_LINE_LENGTH < line.length) : lineItem (E := E) line = overLong := if_pos h

theorem upToError_cons {item : LineItem E} {items items' : List (LineItem E)} (h : upToError items = upToError items') :
    upToError (item :: items) = upToError (item :: items') := by
  cases item with
  | ok line => rw [upToError, upToError, h]
  | error e => rfl

theorem upToError_prefix_cons {item : LineItem E} {items items' : List (LineItem E)} (h : upToError items <+: upToError items') :
    upToError (item :: items) <+: upToError (item :: items') := by
  cases item with
  | ok line => exact (List.prefix_cons_inj _).mpr h
  | error e => exact List.prefix_rfl

theorem upToError_overLong (items : List (LineItem E)) : upToError (overLong :: items) = [overLong] := rfl

/-- What is delivered agrees with the items, and has them all where the stream ends. -/
private theorem delivered_items (h : NoError s.stream) (n : Nat) :
    upToError (s.delivered n) <+: upToError (itemsOf s.rest) ∧
      (s.answer n = .ready none → upToError (s.delivered n) = upToError (itemsOf s.rest)) := by
  induction n generalizing s with
  | zero =>
    refine ⟨List.nil_prefix, fun hEnd => ?_⟩
    have hPolled := (pollNext_polled h).1
    have hFirst : s.pollNext.1 = .ready none := hEnd
    rw [hFirst] at hPolled
    cases hPolled with
    | ended hEmpty hRest hPolls => rw [hEmpty, itemsOf, linesOf_nil, List.map_nil, delivered]
  | succ n ih =>
    obtain ⟨hPolled, hNext⟩ := pollNext_polled h
    have hTail := ih hNext
    have hAnswer : s.answer (n + 1) = s.pollNext.2.answer n := rfl
    rw [delivered, hAnswer]
    generalize s.pollNext.1 = answer at hPolled
    generalize s.pollNext.2 = s' at hPolled hTail
    cases hPolled with
    | pending hRest hLess =>
      rw [hRest] at hTail
      exact hTail
    | ended hEmpty hRest hPolls =>
      rw [hRest] at hTail
      rw [hEmpty]
      exact hTail
    | overLong line lines hLines hOver =>
      rw [itemsOf, hLines, List.map_cons, lineItem_over hOver, upToError_overLong]
      exact ⟨List.prefix_rfl, fun _ => rfl⟩
    | line line hLines hLength hLess hLeft =>
      rw [itemsOf, hLines, List.map_cons, decodeLine_item hLength]
      exact ⟨upToError_prefix_cons hTail.1, fun hEnd => upToError_cons (hTail.2 hEnd)⟩

/-- Every run comes to a line that is too long, or delivers all and ends. -/
theorem finishes (h : NoError s.stream) :
    ((∃ n, s.answer n = .ready (some overLong) ∧ upToError (s.delivered (n + 1)) = upToError (itemsOf s.rest)) ∧
        ∃ line ∈ linesOf s.rest, MAX_LINE_LENGTH < line.length) ∨
      ((∃ n, s.answer n = .ready none ∧ s.delivered n = itemsOf s.rest) ∧
        ∀ line ∈ linesOf s.rest, line.length ≤ MAX_LINE_LENGTH) := by
  induction hMeasure : s.rest.length + s.stream.length using Nat.strong_induction_on generalizing s with
  | h measure ih =>
    obtain ⟨hPolled, hNext⟩ := pollNext_polled h
    have hTail (hLess : s.pollNext.2.rest.length + s.pollNext.2.stream.length < measure) := ih _ hLess hNext rfl
    have hAnswer (n : Nat) : s.answer (n + 1) = s.pollNext.2.answer n := rfl
    have hDelivered (n : Nat) : s.delivered (n + 1) = itemOf s.pollNext.1 ++ s.pollNext.2.delivered n := rfl
    have hFirst : s.answer 0 = s.pollNext.1 := rfl
    generalize s.pollNext.1 = answer at hPolled hFirst hDelivered
    generalize s.pollNext.2 = s' at hPolled hTail hAnswer hDelivered
    cases hPolled with
    | pending hRest hLess =>
      rw [hRest] at hTail
      rcases hTail (by omega) with ⟨⟨n, hOver, hAll⟩, hLong⟩ | ⟨⟨n, hEnd, hAll⟩, hShort⟩
      · refine Or.inl ⟨⟨n + 1, (hAnswer n).trans hOver, ?_⟩, hLong⟩
        rw [hDelivered]
        exact hAll
      · exact Or.inr ⟨⟨n + 1, (hAnswer n).trans hEnd, (hDelivered n).trans hAll⟩, hShort⟩
    | ended hEmpty hRest hPolls =>
      rw [hEmpty, itemsOf, linesOf_nil]
      exact Or.inr ⟨⟨0, hFirst, rfl⟩, fun line hLine => absurd hLine List.not_mem_nil⟩
    | overLong line lines hLines hOver =>
      rw [itemsOf, hLines, List.map_cons, lineItem_over hOver, upToError_overLong]
      refine Or.inl ⟨⟨0, hFirst, ?_⟩, line, List.mem_cons_self, hOver⟩
      rw [hDelivered]
      rfl
    | line line hLines hLength hLess hLeft =>
      rw [itemsOf, hLines, List.map_cons, decodeLine_item hLength]
      rcases hTail (by omega) with ⟨⟨n, hOver, hAll⟩, long, hMem, hLong⟩ | ⟨⟨n, hEnd, hAll⟩, hShort⟩
      · refine Or.inl ⟨⟨n + 1, (hAnswer n).trans hOver, ?_⟩, long, List.mem_cons_of_mem line hMem, hLong⟩
        rw [hDelivered]
        exact upToError_cons hAll
      · refine Or.inr ⟨⟨n + 1, (hAnswer n).trans hEnd, ?_⟩, List.forall_mem_cons.mpr ⟨hLength, hShort⟩⟩
        rw [hDelivered, hAll]
        rfl

theorem delivered_succ (s : LineStream E) (n : Nat) : s.delivered (n + 1) = s.delivered n ++ itemOf (s.answer n) := by
  induction n generalizing s with
  | zero =>
    rw [delivered, delivered, delivered, List.append_nil, List.nil_append]
    rfl
  | succ n ih =>
    rw [delivered, ih, ← List.append_assoc]
    rfl

private theorem delivered_last {n : Nat} (h : s.delivered n ≠ []) :
    ∃ m item, s.answer m = .ready (some item) ∧ s.delivered (m + 1) = s.delivered n := by
  induction n with
  | zero => exact absurd rfl h
  | succ n ih =>
    rw [delivered_succ] at h ⊢
    cases hAnswer : s.answer n with
    | pending =>
      rw [hAnswer, itemOf, List.append_nil] at h
      rw [itemOf, List.append_nil]
      exact ih h
    | ready item =>
      cases item with
      | none =>
        rw [hAnswer, itemOf, List.append_nil] at h
        rw [itemOf, List.append_nil]
        exact ih h
      | some item =>
        refine ⟨n, item, hAnswer, ?_⟩
        rw [delivered_succ, hAnswer]

theorem after_succ (s : LineStream E) (n : Nat) : s.after (n + 1) = (s.after n).pollNext.2 := by
  induction n generalizing s with
  | zero => rfl
  | succ n ih => exact ih s.pollNext.2

private theorem polls_lt (h : NoError s.stream) {n : Nat} (hEnd : s.answer n = .ready none) :
    (s.after n).polls < (s.after (n + 1)).polls := by
  have hPolled := (pollNext_polled (after_noError h n)).1
  have hAnswer : (s.after n).pollNext.1 = .ready none := hEnd
  rw [hAnswer, ← after_succ] at hPolled
  cases hPolled with
  | ended hEmpty hRest hPolls => exact hPolls

theorem head?_utf8_append {s : String} {b : UInt8} (h : (utf8 s).head? = some b) (t : String) :
    (utf8 (s ++ t)).head? = some b := by
  rw [utf8_append, List.head?_append, h, Option.some_or]

theorem decodeLine_ne_overLong (line : Str) : decodeLine (E := E) line ≠ overLong := by
  have hFirst (e : Utf8Error) : (Utf8Error.message e).head? = some 0x69 := by
    rw [Utf8Error.message]
    split
    · exact head?_utf8_append (head?_utf8_append (head?_utf8_append (by decide) _) _) _
    · exact head?_utf8_append (by decide) _
  have hOver : (utf8 s!"response line exceeded maximum length of {MAX_LINE_LENGTH} bytes").head? = some 0x72 :=
    head?_utf8_append (head?_utf8_append (by decide) _) _
  rw [decodeLine]
  split
  · rw [overLong]
    exact fun h => by cases h
  · intro h
    rw [overLong, Except.error.injEq, LineError.body.injEq] at h
    have hHead := congrArg List.head? h
    rw [hFirst, hOver] at hHead
    exact absurd hHead (by decide)

private theorem answer_ne_overLong (h : NoError s.stream)
    (hShort : ∀ line ∈ linesOf s.rest, line.length ≤ MAX_LINE_LENGTH) (n : Nat) :
    s.answer n ≠ .ready (some overLong) := by
  induction n generalizing s with
  | zero =>
    have hPolled := (pollNext_polled h).1
    have hFirst : s.answer 0 = s.pollNext.1 := rfl
    rw [hFirst]
    generalize s.pollNext.1 = answer at hPolled
    cases hPolled with
    | pending hRest hLess => exact fun hNot => by cases hNot
    | ended hEmpty hRest hPolls => exact fun hNot => by cases hNot
    | overLong line lines hLines hOver =>
      rw [hLines] at hShort
      exact absurd (hShort line List.mem_cons_self) (Nat.not_le.mpr hOver)
    | line line hLines hLength hLess hLeft =>
      exact fun hNot => decodeLine_ne_overLong line (Option.some.inj (Poll.ready.inj hNot))
  | succ n ih =>
    obtain ⟨hPolled, hNext⟩ := pollNext_polled h
    refine ih (s := s.pollNext.2) hNext ?_
    generalize s.pollNext.1 = answer at hPolled
    generalize s.pollNext.2 = s' at hPolled
    cases hPolled with
    | pending hRest hLess => rwa [hRest]
    | ended hEmpty hRest hPolls =>
      rw [hRest, linesOf_nil]
      exact fun line hLine => absurd hLine List.not_mem_nil
    | overLong line lines hLines hOver =>
      rw [hLines] at hShort
      exact absurd (hShort line List.mem_cons_self) (Nat.not_le.mpr hOver)
    | line line hLines hLength hLess hLeft =>
      rw [hLines] at hShort
      exact (List.forall_mem_cons.mp hShort).2

/-- The stream over an inner one that answers `parts` and then ends. -/
def ofParts (parts : List (Poll Str)) : LineStream E where
  stream := parts.map fun
    | .pending => .pending
    | .ready chunk => .ready (.ok chunk)

theorem ofParts_noError (parts : List (Poll Str)) : NoError (ofParts (E := E) parts).stream := by
  intro e hMem
  obtain ⟨part, -, hPart⟩ := List.mem_map.mp hMem
  cases part <;> cases hPart

end LineStream

def joined : List (Poll Str) → Str
  | [] => []
  | .pending :: parts => joined parts
  | .ready chunk :: parts => chunk ++ joined parts

private theorem rest_ofParts (parts : List (Poll Str)) : (LineStream.ofParts (E := E) parts).rest = joined parts := by
  rw [LineStream.rest]
  induction parts with
  | nil => rfl
  | cons part parts ih =>
    cases part with
    | pending => exact ih
    | ready chunk => exact congrArg (chunk ++ ·) ih

variable (E) in
/-- However a text is cut, its lines come out; the inner stream is left alone after the last item exactly when no item
has to end the stream. -/
theorem lineStream_splitsLines (parts : List (Poll Str)) :
    SplitsLines (joined parts) (LineStream.ofParts (E := E) parts) ∧
    (StaysEnded (joined parts) (LineStream.ofParts (E := E) parts) ↔
      (joined parts = [] ∨ (joined parts).getLast? = some 0x0a) ∧ ∀ line ∈ linesOf (joined parts),
      line.length ≤ MAX_LINE_LENGTH) := by
  have hErr := LineStream.ofParts_noError (E := E) parts
  have hRest := rest_ofParts (E := E) parts
  generalize LineStream.ofParts (E := E) parts = s at hErr hRest
  rw [← hRest]
  have hFinishes := LineStream.finishes hErr
  refine ⟨⟨fun n => (LineStream.delivered_items hErr n).1, ?_, fun n => (LineStream.delivered_items hErr n).2⟩, ?_, ?_⟩
  · rcases hFinishes with ⟨⟨n, -, hAll⟩, -⟩ | ⟨⟨n, -, hAll⟩, -⟩
    · exact ⟨n + 1, hAll⟩
    · exact ⟨n, congrArg upToError hAll⟩
  · intro hStays
    -- the end costs a poll, so nothing that ends the stream can come
    have hNone (n : Nat) : ¬ EndsStream s.rest s n := by
      intro hEnds
      obtain ⟨hEnd, hPolls⟩ := hStays n hEnds (n + 1) (Nat.lt_succ_self n)
      have hLess := LineStream.polls_lt hErr hEnd
      omega
    rcases hFinishes with ⟨⟨n, hOver, -⟩, -⟩ | ⟨⟨n, -, hAll⟩, hShort⟩
    · exact absurd (Or.inl hOver) (hNone n)
    · refine ⟨?_, hShort⟩
      by_contra hOpen
      have hItems : s.delivered n ≠ [] := by
        rw [hAll, itemsOf, ne_eq, List.map_eq_nil_iff]
        exact linesOf_ne_nil fun hNil => hOpen (Or.inl hNil)
      obtain ⟨m, item, hItem, hLast⟩ := LineStream.delivered_last hItems
      exact hNone m (Or.inr ⟨not_or.mp hOpen, ⟨item, hItem⟩, hLast.trans hAll⟩)
  · rintro ⟨hClosed, hShort⟩ n (hOver | ⟨hOpen, -⟩)
    · exact absurd hOver (LineStream.answer_ne_overLong hErr hShort n)
    · exact absurd hClosed (not_or.mpr hOpen)

/-- After the rest `a` the inner stream is polled once more. -/
theorem not_staysEnded : ¬ ∀ parts : List (Poll Str), SplitsLines (joined parts) (LineStream.ofParts (E := Empty) parts) ∧
    StaysEnded (joined parts) (LineStream.ofParts (E := Empty) parts) := by
  intro h
  have hStays := (h [.ready [0x61]]).2
  have hLines : itemsOf (E := Empty) (joined [.ready [0x61]]) = [.ok [0x61]] := by
    have hRest : linesOf (joined [.ready [0x61]]) = [[0x61]] := linesOf_rest (x := [0x61]) (by decide) (by decide)
    rw [itemsOf, hRest]
    rfl
  have hEnds : EndsStream (joined [.ready [0x61]]) (LineStream.ofParts (E := Empty) [.ready [0x61]]) 0 :=
    Or.inr ⟨by decide, ⟨.ok [0x61], rfl⟩, hLines.symm⟩
  have hPolls := (hStays 0 hEnds 1 Nat.one_pos).2
  exact absurd hPolls (by decide)

end
end Eggfetch.Body
