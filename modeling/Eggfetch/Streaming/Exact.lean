import Eggfetch.Streaming.Decoding

/-! When streaming a body gives the text and the lines of the whole body: the decoder has
to take every chunk and end with nothing owed, no sequence may be given up that goes on,
and the text may not end in a carriage return. -/
namespace Eggfetch.Streaming
open Text

variable {E D ε : Type*} {lib : EncodingRs E D}

def streamLines : Transducer Str UInt8 Str :=
  lineMachine newline (stripSuffix carriageReturn) fun held => (finalLine held).toList

def bufferLines : Transducer Str UInt8 Str :=
  lineMachine newline (stripSuffix carriageReturn) fun held => if held = [] then [] else [held]

theorem completeLines_eq_scan (buffer : Str) :
    completeLines buffer = streamLines.scan [] buffer := by
  simp only [completeLines]
  split
  · rename_i hnone
    rw [streamLines, scan_line_of_not_mem (rfind_eq_none hnone), List.nil_append]
  · rename_i lastPos hsome
    obtain ⟨⟨t, ht⟩, hrest⟩ := rfind_eq_some hsome
    have hid : (splitInclusive newline (t ++ [newline])).modifyHead (([] : Str) ++ ·) =
        splitInclusive newline (t ++ [newline]) := by
      cases splitInclusive newline (t ++ [newline]) <;> rfl
    conv_rhs => rw [← List.take_append_drop (lastPos + 1) buffer]
    rw [Transducer.scan_append, ht, streamLines, scan_line_splitInclusive, hid,
      scan_line_of_not_mem hrest]
    simp

private theorem total_of_nextLine_none {text : Str} {cursor : Nat} (h : nextLine text cursor = none) :
    bufferLines.total [] (text.drop cursor) = [] := by
  simp only [nextLine] at h
  split_ifs at h with hend
  · rw [List.drop_of_length_le hend]
    rfl
  · split at h <;> exact absurd h (by simp)

private theorem total_of_nextLine_some {text line : Str} {cursor next : Nat}
    (h : nextLine text cursor = some (line, next)) :
    bufferLines.total [] (text.drop cursor) =
      line :: bufferLines.total [] (text.drop next) := by
  simp only [nextLine] at h
  split_ifs at h with hend
  split at h
  · rename_i offset hfirst
    simp only [Option.some.injEq, Prod.mk.injEq] at h
    obtain ⟨hcut, hnot, -⟩ := idxOf?_eq_some_append hfirst
    have hrest : text.drop next = (text.drop cursor).drop (offset + 1) := by
      rw [List.drop_drop, ← h.2, Nat.add_assoc]
    rw [hrest, ← h.1]
    conv_lhs => rw [← hcut]
    rw [Transducer.total, bufferLines, scan_line_append hnot]
    rfl
  · rename_i hnone
    simp only [Option.some.injEq, Prod.mk.injEq] at h
    have hrest : text.drop cursor ≠ [] := by
      rw [Ne, List.drop_eq_nil_iff]
      exact hend
    have hnot : newline ∉ text.drop cursor := List.idxOf?_eq_none_iff.mp hnone
    rw [Transducer.total, bufferLines, scan_line_of_not_mem hnot, ← h.1, ← h.2,
      List.drop_length]
    exact if_neg hrest

theorem bufferedLines_eq_total (text : Str) (cursor : Nat) :
    bufferedLines text cursor = bufferLines.total [] (text.drop cursor) := by
  fun_induction bufferedLines text cursor with
  | case1 cursor hnone => rw [total_of_nextLine_none hnone]
  | case2 cursor line next hnext ih => rw [total_of_nextLine_some hnext, ih]

private theorem scan_bufferLines (text : Str) : bufferLines.scan [] text = streamLines.scan [] text :=
  Transducer.scan_congr (by rfl) [] text

private theorem total_streamLines_eq_iff (text : Str) :
    streamLines.total [] text = bufferLines.total [] text ↔
      text.getLast? ≠ some carriageReturn := by
  obtain ⟨lines, hsplit, hlines⟩ : ∃ lines, [] ++ text = lines ++ (streamLines.scan [] text).2 ∧
    (lines = [] ∨ lines.getLast? = some newline) := scan_line_held [] text
  rw [Transducer.total, Transducer.total, scan_bufferLines, List.append_cancel_left_eq]
  generalize (streamLines.scan [] text).2 = held at hsplit ⊢
  rw [List.nil_append] at hsplit
  show (finalLine held).toList = (if held = [] then [] else [held]) ↔ _
  by_cases hheld : held = []
  · have hlast : text.getLast? ≠ some carriageReturn := by
      rw [hsplit, hheld, List.append_nil]
      rcases hlines with hnil | hlast
      · simp [hnil]
      · simp [hlast, newline, carriageReturn]
    simp [finalLine, hheld, hlast]
  · have hlast : text.getLast? = held.getLast? := by
      rw [hsplit, List.getLast?_append_of_ne_nil _ hheld]
    rw [finalLine, if_neg hheld, if_neg hheld, hlast]
    simp only [Option.toList_some, List.cons.injEq, and_true, stripSuffix]
    split_ifs with hcr
    · have hshort : held.dropLast.length < held.length := by
        have := List.length_pos_of_ne_nil hheld
        rw [List.length_dropLast]
        omega
      have hne : held.dropLast ≠ held := fun h => absurd (congrArg List.length h) hshort.ne
      simp [hne, hcr]
    · simp [hcr]

def yielded (lib : EncodingRs E D) (decoder : IncrementalDecoder D) : List Str → Str
  | [] => decoder.finish lib
  | chunk :: rest =>
    (decoder.decode lib chunk false).1 ++ yielded lib (decoder.decode lib chunk false).2 rest

theorem textItems_eq (lib : EncodingRs E D) (decoder : IncrementalDecoder D) (chunks : List Str) :
    ∃ texts : List Str, textItems (ε := ε) lib decoder (chunks.map .ok) = texts.map .ok ∧
      texts.flatten = yielded lib decoder chunks := by
  induction chunks generalizing decoder with
  | nil =>
    by_cases hempty : decoder.finish lib = []
    · exact ⟨[], by simp [textItems, textItems.tail, hempty], by simp [yielded, hempty]⟩
    · exact ⟨[decoder.finish lib], by simp [textItems, textItems.tail, hempty],
        by simp [yielded]⟩
  | cons chunk chunks ih =>
    obtain ⟨texts, hitems, htexts⟩ := ih (decoder.decode lib chunk false).2
    refine ⟨(decoder.decode lib chunk false).1 :: texts, ?_, ?_⟩
    · rw [List.map_cons, textItems, hitems, List.map_cons]
    · rw [List.flatten_cons, htexts, yielded]

private theorem lineItems_eq (lib : EncodingRs E D) (decoder : IncrementalDecoder D) (buffer : Str) (chunks : List Str) :
    lineItems (ε := ε) lib decoder buffer (chunks.map .ok) =
      (streamLines.total [] (buffer ++ yielded lib decoder chunks)).map .ok := by
  induction chunks generalizing decoder buffer with
  | nil =>
    rw [List.map_nil, lineItems, lineItems.tail, completeLines_eq_scan, yielded,
      Transducer.total]
    rfl
  | cons chunk chunks ih =>
    have hheld : newline ∉ (streamLines.scan [] (buffer ++ (decoder.decode lib chunk false).1)).2 :=
      not_mem_scan_line List.not_mem_nil _
    have hself := @scan_line_of_not_mem _ _ _ newline (stripSuffix carriageReturn)
      (fun held => (finalLine held).toList) _ hheld []
    rw [List.map_cons, lineItems, completeLines_eq_scan, yielded, ← List.append_assoc,
      Transducer.total_append, List.map_append, ih, Transducer.total_append]
    rw [← streamLines, List.nil_append] at hself
    rw [hself, List.nil_append]

/-- Every chunk is read to its end, and the call that ends the body reports `InputEmpty`. -/
def Reads (lib : EncodingRs E D) (d : D) : List Str → Prop
  | [] => (lib.decodeToString d [] (decodeCapacity []) true).result = .inputEmpty
  | chunk :: rest =>
    let call := lib.decodeToString d chunk (decodeCapacity chunk) false
    call.read = chunk.length ∧ Reads lib call.decoder rest

theorem yielded_encoded {remaining : D → Str → Str} (hlib : lib.Lawful remaining) (d : D)
    (pending : Str) (chunks : List Str) :
    (IncrementalDecoder.dropped lib ⟨some d, pending⟩ chunks = [] ∧
      yielded lib ⟨some d, pending⟩ chunks = remaining d chunks.flatten) ↔
      Reads lib d chunks := by
  induction chunks generalizing d with
  | nil =>
    show [] = [] ∧ (lib.decodeToString d [] (decodeCapacity []) true).output = remaining d [] ↔
      (lib.decodeToString d [] (decodeCapacity []) true).result = .inputEmpty
    constructor
    · intro h
      cases hresult : (lib.decodeToString d [] (decodeCapacity []) true).result with
      | inputEmpty => rfl
      | outputFull => exact absurd h.2 (hlib.full d _ hresult)
    · intro hresult
      exact ⟨rfl, hlib.finished d _ hresult⟩
  | cons chunk chunks ih =>
    have hmore := hlib.more d chunk (decodeCapacity chunk) chunks.flatten
    have hread := hlib.read_le d chunk (decodeCapacity chunk) false
    rw [IncrementalDecoder.dropped, yielded, Reads, List.flatten_cons]
    simp only [IncrementalDecoder.decode, IncrementalDecoder.unread]
    generalize lib.decodeToString d chunk (decodeCapacity chunk) false = call at hmore hread ⊢
    rw [List.append_eq_nil_iff, List.drop_eq_nil_iff, ← ih call.decoder, and_assoc]
    have hall : chunk.length ≤ call.read ↔ call.read = chunk.length := by omega
    rw [hall]
    refine and_congr_right fun hlen => and_congr_right fun _ => ?_
    simp only [hlen, List.drop_length, List.nil_append] at hmore
    rw [← hmore, List.append_cancel_left_eq]

/-- No chunk that shows the decoder an invalid sequence ends in one that goes on in the
next bytes; `pending` is what the decoder holds back before the chunks. -/
def Unsplit (pending : Str) : List Str → Prop
  | [] => True
  | chunk :: rest =>
    match Utf8.fromUtf8 (pending ++ chunk) with
    | none => Unsplit [] rest
    | some ⟨validUpTo, none⟩ => Unsplit ((pending ++ chunk).drop validUpTo) rest
    | some ⟨_, some _⟩ =>
      ¬ Utf8.goesOn (Utf8.machine.scan [] (pending ++ chunk)).2 rest.flatten ∧ Unsplit [] rest

private theorem finish_utf8 {pending : Str} (h : Utf8.Incomplete pending) :
    IncrementalDecoder.finish lib ⟨none, pending⟩ = Utf8.flush pending := by
  simp only [IncrementalDecoder.finish, IncrementalDecoder.decode, List.append_nil]
  split
  · rename_i hvalid
    have hscan := Utf8.scan_of_fromUtf8_none hvalid
    rw [h.scan_self, Prod.mk.injEq] at hscan
    rw [hscan.2]
    rfl
  · rw [if_neg (by simp), Utf8.fromUtf8Lossy, Transducer.total, h.scan_self]
    rfl

/-- What a chunk makes of the held-back sequence: a buffer without an invalid sequence is
scanned as it is, one with an invalid sequence is also ended. -/
theorem decode_utf8 {pending : Str} (h : Utf8.Incomplete pending) (chunk : Str) :
    let scanned := Utf8.machine.scan pending chunk
    IncrementalDecoder.decode lib ⟨none, pending⟩ chunk false =
      match Utf8.fromUtf8 (pending ++ chunk) with
      | some ⟨_, some _⟩ => (scanned.1 ++ Utf8.flush scanned.2, ⟨none, []⟩)
      | _ => (scanned.1, ⟨none, scanned.2⟩) := by
  rw [← h.scan_append]
  simp only [IncrementalDecoder.decode]
  match herror : Utf8.fromUtf8 (pending ++ chunk) with
  | none => simp [Utf8.scan_of_fromUtf8_none herror]
  | some ⟨validUpTo, none⟩ =>
    obtain ⟨hscan, hvalid⟩ := Utf8.scan_of_fromUtf8_end herror
    simp [hscan, hvalid]
  | some ⟨validUpTo, some n⟩ => simp [Utf8.fromUtf8Lossy, Transducer.total]

/-- The streamed text never has fewer characters than the text of the whole, and has as
many exactly when no sequence is given up that goes on. -/
theorem yielded_utf8 {pending : Str} (h : Utf8.Incomplete pending) (chunks : List Str) :
    Utf8.leads (Utf8.machine.total pending chunks.flatten) ≤
        Utf8.leads (yielded lib ⟨none, pending⟩ chunks) ∧
      (yielded lib ⟨none, pending⟩ chunks = Utf8.machine.total pending chunks.flatten ↔
        Unsplit pending chunks) := by
  induction chunks generalizing pending with
  | nil =>
    rw [yielded, finish_utf8 h]
    exact ⟨le_rfl, by simp [Unsplit]⟩
  | cons chunk chunks ih =>
    have hheld := Utf8.incomplete_scan chunk h
    rw [yielded, decode_utf8 h, List.flatten_cons, Transducer.total_append, Unsplit]
    match herror : Utf8.fromUtf8 (pending ++ chunk) with
    | none =>
      have hscan := Utf8.scan_of_fromUtf8_none herror
      rw [h.scan_append] at hscan
      simp only [hscan, Utf8.leads_append, List.append_cancel_left_eq]
      obtain ⟨hle, hiff⟩ := ih Utf8.incomplete_nil
      exact ⟨Nat.add_le_add_left hle _, hiff⟩
    | some ⟨validUpTo, none⟩ =>
      have hscan := (Utf8.scan_of_fromUtf8_end herror).1
      rw [h.scan_append] at hscan
      rw [hscan] at hheld
      simp only [hscan, Utf8.leads_append, List.append_cancel_left_eq]
      obtain ⟨hle, hiff⟩ := ih hheld
      exact ⟨Nat.add_le_add_left hle _, hiff⟩
    | some ⟨validUpTo, some n⟩ =>
      obtain ⟨hle, hiff⟩ := ih Utf8.incomplete_nil
      rw [h.scan_append]
      generalize Utf8.machine.scan pending chunk = scanned at hheld ⊢
      have hless := Utf8.leads_total_le_flush hheld chunks.flatten
      simp only [Utf8.leads_append, List.append_assoc, List.append_cancel_left_eq]
      refine ⟨by omega, ?_, ?_⟩
      · intro heq
        have hgone : ¬ Utf8.goesOn scanned.2 chunks.flatten := by
          intro hgoes
          have hlost := Utf8.leads_total_lt_flush hheld hgoes
          rw [← heq, Utf8.leads_append] at hlost
          omega
        refine ⟨hgone, hiff.mp ?_⟩
        rwa [← Utf8.flush_append_of_not_goesOn hgone, List.append_cancel_left_eq] at heq
      · rintro ⟨hgone, hunsplit⟩
        rw [hiff.mpr hunsplit, Utf8.flush_append_of_not_goesOn hgone]

private theorem dropped_utf8 (pending : Str) (chunks : List Str) :
    IncrementalDecoder.dropped lib ⟨none, pending⟩ chunks = [] := by
  induction chunks generalizing pending with
  | nil => rfl
  | cons chunk chunks ih =>
    obtain ⟨pending', hnext⟩ : ∃ pending',
        (IncrementalDecoder.decode lib ⟨none, pending⟩ chunk false).2 = ⟨none, pending'⟩ := by
      simp only [IncrementalDecoder.decode]
      split
      · exact ⟨_, rfl⟩
      · split_ifs <;> exact ⟨_, rfl⟩
    rw [IncrementalDecoder.dropped, hnext, ih]
    rfl

/-- An error-free body streamed in chunks gives the text and the lines of the whole body,
and no byte of it is dropped. -/
structure Exact (ε : Type*) (lib : EncodingRs E D) (encodingName : Option Str)
    (chunks : List Str) : Prop where
  text : ∃ texts : List Str,
    textItems (ε := ε) lib (.new lib encodingName) (chunks.map .ok) = texts.map .ok ∧
      texts.flatten = decodeBytes lib encodingName chunks.flatten
  lines : lineItems (ε := ε) lib (.new lib encodingName) [] (chunks.map .ok) =
    (bufferedLines (decodeBytes lib encodingName chunks.flatten) 0).map .ok
  kept : IncrementalDecoder.dropped lib (.new lib encodingName) chunks = []

/-- The decoder takes every chunk and ends with nothing owed, or, where the label names no
encoding, gives up no UTF-8 sequence that goes on; and the text does not end in a carriage
return. -/
def Streamable (lib : EncodingRs E D) (encodingName : Option Str) (chunks : List Str) : Prop :=
  (match encodingName.bind lib.forLabel with
    | some enc => Reads lib (lib.newDecoder enc) chunks
    | none => Unsplit [] chunks) ∧
  (decodeBytes lib encodingName chunks.flatten).getLast? ≠ some carriageReturn

private theorem decodeBytes_eq (encodingName : Option Str) (bytes : Str) :
    decodeBytes lib encodingName bytes =
      match encodingName.bind lib.forLabel with
      | some enc => lib.decode enc bytes
      | none => Utf8.fromUtf8Lossy bytes := by
  cases encodingName with
  | none => rfl
  | some name => rfl

private theorem yielded_iff {remaining : D → Str → Str} (hlib : lib.Lawful remaining)
    (encodingName : Option Str) (chunks : List Str) :
    (IncrementalDecoder.dropped lib (.new lib encodingName) chunks = [] ∧
      yielded lib (.new lib encodingName) chunks =
        decodeBytes lib encodingName chunks.flatten) ↔
      match encodingName.bind lib.forLabel with
      | some enc => Reads lib (lib.newDecoder enc) chunks
      | none => Unsplit [] chunks := by
  rw [decodeBytes_eq]
  cases henc : encodingName.bind lib.forLabel with
  | some enc =>
    have hnew : IncrementalDecoder.new lib encodingName = ⟨some (lib.newDecoder enc), []⟩ := by
      simp [IncrementalDecoder.new, henc]
    rw [hnew]
    simp only
    rw [← hlib.fresh]
    exact yielded_encoded hlib _ [] chunks
  | none =>
    have hnew : IncrementalDecoder.new lib encodingName = ⟨none, []⟩ := by
      simp [IncrementalDecoder.new, henc]
    rw [hnew, dropped_utf8]
    simp only [true_and]
    exact (yielded_utf8 Utf8.incomplete_nil chunks).2

theorem ok_map_injective : Function.Injective (List.map (Except.ok : Str → Except ε Str)) :=
  List.map_injective_iff.mpr fun _ _ h => Except.ok.inj h

theorem Exact.yielded_eq {encodingName : Option Str} {chunks : List Str}
    (h : Exact ε lib encodingName chunks) :
    yielded lib (.new lib encodingName) chunks =
      decodeBytes lib encodingName chunks.flatten := by
  obtain ⟨texts, hitems, htexts⟩ :=
    textItems_eq (ε := ε) lib (.new lib encodingName) chunks
  obtain ⟨texts', hitems', htexts'⟩ := h.text
  have hsame : texts = texts' := ok_map_injective (hitems.symm.trans hitems')
  rw [← htexts, hsame, htexts']

/-- Streaming is exact on the streamable bodies and on no others. -/
theorem exact_iff {remaining : D → Str → Str} (hlib : lib.Lawful remaining)
    (encodingName : Option Str) (chunks : List Str) :
    Exact ε lib encodingName chunks ↔ Streamable lib encodingName chunks := by
  have hlines := lineItems_eq (ε := ε) lib (.new lib encodingName) [] chunks
  have hbuffered : bufferedLines (decodeBytes lib encodingName chunks.flatten) 0 =
      bufferLines.total [] (decodeBytes lib encodingName chunks.flatten) :=
    bufferedLines_eq_total _ 0
  rw [List.nil_append] at hlines
  constructor
  · intro h
    refine ⟨(yielded_iff hlib _ _).mp ⟨h.kept, h.yielded_eq⟩, ?_⟩
    apply (total_streamLines_eq_iff _).mp
    apply ok_map_injective (ε := ε)
    rw [← hbuffered, ← h.lines, hlines, h.yielded_eq]
  · rintro ⟨hpath, hcr⟩
    obtain ⟨hkept, hyielded⟩ := (yielded_iff hlib _ _).mpr hpath
    obtain ⟨texts, hitems, htexts⟩ :=
      textItems_eq (ε := ε) lib (.new lib encodingName) chunks
    refine ⟨⟨texts, hitems, htexts.trans hyielded⟩, ?_, hkept⟩
    rw [hlines, hyielded, hbuffered, (total_streamLines_eq_iff _).mpr hcr]

/-- `encoding_rs` with the label `us-ascii`, on ASCII text. -/
def asciiRs : EncodingRs Unit Unit where
  forLabel name := if name = utf8 "us-ascii" then some () else none
  decode _ bytes := bytes
  newDecoder _ := ()
  decodeToString _ src capacity _ :=
    { result := if src.length ≤ capacity then .inputEmpty else .outputFull
      read := min src.length capacity
      output := src.take capacity
      decoder := () }

theorem asciiRs_lawful : asciiRs.Lawful fun _ src => src where
  fresh _ _ := rfl
  output_le _ src capacity _ := List.length_take_le capacity src
  read_le _ src capacity _ := Nat.min_le_left src.length capacity
  more _ src capacity rest := by
    show src.take capacity ++ (src.drop (min src.length capacity) ++ rest) = src ++ rest
    rw [← List.append_assoc]
    rcases Nat.le_total src.length capacity with h | h
    · rw [Nat.min_eq_left h, List.drop_length, List.take_of_length_le h, List.append_nil]
    · rw [Nat.min_eq_right h, List.take_append_drop]
  finished _ capacity _ := List.take_nil
  full _ capacity h := by simp [asciiRs] at h

/-- A body in two chunks that cut a line. -/
theorem exact_iff_ascii :
    Exact Empty asciiRs (some (utf8 "us-ascii")) [[0x68, 0x69], [0x0a, 0x79]] := by
  apply (exact_iff asciiRs_lawful _ _).mpr
  refine ⟨?_, by decide⟩
  show Reads asciiRs () [[0x68, 0x69], [0x0a, 0x79]]
  simp [Reads, asciiRs, decodeCapacity, maxInitialDecodeCapacity]

/-- An invalid byte before a character that the chunks cut: the first chunk writes U+FFFD
for the part of the character, and the second one for each of its other bytes. -/
theorem replaced_character : asciiRs.Lawful (fun _ src => src) ∧
    ¬ Exact Empty asciiRs none [[0xff, 0xe2], [0x82, 0xac]] :=
  ⟨asciiRs_lawful, fun h => absurd h.yielded_eq (by decide)⟩

end Eggfetch.Streaming
