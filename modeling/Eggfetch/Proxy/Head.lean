import Eggfetch.Proxy.Message
import Eggfetch.Text.Numbers

/-! What the client reads of a well-formed head: its status and fields, or an error when it is
over a limit. The body starts at the byte after the head in either case of buffering. -/
namespace Eggfetch.Proxy
open Text Http

/-- The head keeps within the limits of the reader, which counts the carriage returns. -/
structure Head.WithinLimits (head : Head) : Prop where
  statusLine : head.statusLine.length + 1 ≤ maxStatusLineLen
  fields : ∀ field ∈ head.fields, field.text.length + 1 ≤ maxHeaderLineLen
  total : (head.fields.map fun field => field.text.length).sum ≤ maxTotalHeaderBytes
  count : head.fields.length ≤ maxHeaderCount

section
variable {b : UInt8} {s : Str}

theorem mem_of_validateHeaderName (h : validateHeaderName s = true) (hb : b ∈ s) :
    b < 0x80 ∧ isOws b = false ∧ b ≠ cr ∧ b ≠ lf ∧ b ≠ colon := by
  simp only [validateHeaderName, Bool.and_eq_true, List.all_eq_true] at h
  have htoken := h.2 b hb
  simp only [Bool.or_eq_true, Bool.and_eq_true, isDigit, decide_eq_true_eq, List.contains_iff_mem] at htoken
  have hspecial : ∀ c ∈ utf8 "!#$%&'*+-.^_\x60|~", c < 0x80 ∧ isOws c = false ∧ c ≠ cr ∧ c ≠ lf ∧ c ≠ colon := by
    decide +kernel
  rcases htoken with hrange | hmem
  · have hlow : 0x30 ≤ b.toNat ∧ b.toNat ≤ 0x39 ∨ 0x41 ≤ b.toNat ∧ b.toNat ≤ 0x5a ∨ 0x61 ≤ b.toNat ∧ b.toNat ≤ 0x7a := by
      simpa [UInt8.le_iff_toNat_le, or_assoc] using hrange
    refine ⟨?_, ?_, ?_, ?_, ?_⟩
    · simp only [UInt8.lt_iff_toNat_lt, UInt8.reduceToNat]
      omega
    · simp only [isOws, Bool.or_eq_false_iff, beq_eq_false_iff_ne, ne_eq, ← UInt8.toNat_inj, UInt8.reduceToNat]
      omega
    all_goals
      simp only [cr, lf, colon, ne_eq, ← UInt8.toNat_inj, UInt8.reduceToNat]
      omega
  · exact hspecial b hmem

theorem mem_of_validateHeaderValue (h : validateHeaderValue s = true) (hb : b ∈ s) : b ≠ cr ∧ b ≠ lf := by
  simp only [validateHeaderValue, Bool.not_eq_true', List.any_eq_false] at h
  refine ⟨?_, ?_⟩
  · rintro rfl
    exact h cr hb (by decide)
  · rintro rfl
    exact h lf hb (by decide)

theorem ne_of_isOws (h : isOws b = true) : b ≠ cr ∧ b ≠ lf := by
  simp only [isOws, Bool.or_eq_true, beq_iff_eq] at h
  rcases h with rfl | rfl <;> decide

theorem dropWhile_ows_append {ows rest : Str} (h : ∀ b ∈ ows, isOws b = true) :
    (ows ++ rest).dropWhile isOws = rest.dropWhile isOws := by
  rw [List.dropWhile_append, List.dropWhile_eq_nil_iff.mpr h]
  rfl

theorem rdropWhile_append_ows {ows rest : Str} (h : ∀ b ∈ ows, isOws b = true) :
    (rest ++ ows).rdropWhile isOws = rest.rdropWhile isOws := by
  have hreverse : ∀ b ∈ ows.reverse, isOws b = true := fun b hb => h b (List.mem_reverse.mp hb)
  rw [List.rdropWhile, List.reverse_append, dropWhile_ows_append hreverse]
  rfl

/-- Text without blanks is not trimmed. -/
theorem trimOws_of_no_ows (h : ∀ b ∈ s, isOws b = false) : trimOws s = s := by
  have hdrop : ∀ s : Str, (∀ b ∈ s, isOws b = false) → s.dropWhile isOws = s := by
    intro s hs
    cases s with
    | nil => rfl
    | cons b s => rw [List.dropWhile_cons_of_neg (by simp [hs b])]
  rw [trimOws, hdrop s h, List.rdropWhile, hdrop _ (fun b hb => h b (List.mem_reverse.mp hb)), List.reverse_reverse]

theorem trimOws_cons (h : isOws b = true) : trimOws (b :: s) = trimOws s := by
  rw [trimOws, List.dropWhile_cons_of_pos h, trimOws]

end

namespace FieldLine
variable (field : FieldLine)

theorem trimOws_value : trimOws (field.before ++ field.value ++ field.after) = field.value := by
  have hvalue := field.value_trimmed
  unfold trimOws at hvalue ⊢
  rw [List.append_assoc, dropWhile_ows_append field.before_ows, List.dropWhile_append]
  split_ifs with hnil
  · -- an empty value, and nothing is left of the spaces after it
    rw [List.isEmpty_iff.mp hnil] at hvalue
    rw [List.dropWhile_eq_nil_iff.mpr field.after_ows]
    exact hvalue
  · rw [rdropWhile_append_ows field.after_ows]
    exact hvalue

theorem trimOws_name : trimOws field.name = field.name :=
  trimOws_of_no_ows fun _ hb => (mem_of_validateHeaderName field.name_token hb).2.1

theorem lf_not_mem : lf ∉ field.text := by
  intro h
  simp only [text, List.mem_append, List.mem_cons] at h
  rcases h with hname | hcolon | (hbefore | hvalue) | hafter
  · exact (mem_of_validateHeaderName field.name_token hname).2.2.2.1 rfl
  · exact absurd hcolon (by decide)
  · exact (ne_of_isOws (field.before_ows _ hbefore)).2 rfl
  · exact (mem_of_validateHeaderValue field.value_valid hvalue).2 rfl
  · exact (ne_of_isOws (field.after_ows _ hafter)).2 rfl

theorem idxOf?_colon : field.text.idxOf? colon = some field.name.length :=
  idxOf?_append_cons (fun h => (mem_of_validateHeaderName field.name_token h).2.2.2.2 rfl) _

theorem text_ne_nil : field.text ≠ [] := by simp [text]

end FieldLine

variable {stream : BufReader} {rest : Str}

private theorem readBoundedLineLoop_data (maxLen room : Nat) (buf : Str) {line : Str} (h : stream.data = line ++ lf :: rest)
    (hline : lf ∉ line) :
    ∃ stream', stream'.inner.ending = stream.inner.ending ∧
      if line.length ≤ room then
        readBoundedLineLoop maxLen room buf stream = (.ready (.ok (stripSuffix cr (buf ++ line))), stream') ∧
          stream'.data = rest
      else ∃ e, readBoundedLineLoop maxLen room buf stream = (.ready (.error e), stream') := by
  induction line generalizing room buf stream with
  | nil =>
    obtain ⟨stream', hread, hdata, hending⟩ := BufReader.readByte_data h
    refine ⟨stream', hending, ?_⟩
    rw [if_pos (show ([] : Str).length ≤ room from Nat.zero_le _), readBoundedLineLoop, hread]
    simp [hdata]
  | cons b line ih =>
    obtain ⟨hne, hline⟩ := List.ne_and_not_mem_of_not_mem_cons hline
    obtain ⟨stream', hread, hdata, hending⟩ := BufReader.readByte_data h
    cases room with
    | zero =>
      refine ⟨stream', hending, ?_⟩
      rw [if_neg (by simp), readBoundedLineLoop, hread]
      simp [hne.symm]
    | succ room =>
      obtain ⟨last, hlast, hloop⟩ := ih room (buf ++ [b]) hdata hline
      refine ⟨last, hlast.trans hending, ?_⟩
      rw [readBoundedLineLoop, hread]
      simp only [hne.symm, if_false]
      simpa using hloop

/-- A line of the head is its text, without the line end. -/
theorem readBoundedLine_data (maxLen : Nat) {line : Str} (h : stream.data = line ++ crlf ++ rest) (hline : lf ∉ line) :
    ∃ stream', stream'.inner.ending = stream.inner.ending ∧
      if line.length + 1 ≤ maxLen then
        readBoundedLine stream maxLen = (.ready (.ok line), stream') ∧ stream'.data = rest
      else ∃ e, readBoundedLine stream maxLen = (.ready (.error e), stream') := by
  have hdata : stream.data = (line ++ [cr]) ++ lf :: rest := by rw [h]; simp [crlf]
  have hlf : lf ∉ line ++ [cr] := by simp [hline]; decide
  obtain ⟨stream', hending, hloop⟩ := readBoundedLineLoop_data maxLen maxLen [] hdata hlf
  refine ⟨stream', hending, ?_⟩
  simpa [readBoundedLine, stripSuffix] using hloop

def FieldLine.header (field : FieldLine) : Str × Str := (field.name, field.value)

theorem FieldLine.header_eq (field : FieldLine) :
    (trimOws (field.text.take field.name.length), trimOws (field.text.drop (field.name.length + 1))) = field.header := by
  have htake : field.text.take field.name.length = field.name := by simp [text]
  have hdrop : field.text.drop (field.name.length + 1) = field.before ++ field.value ++ field.after := by
    simp [text, List.drop_append]
  rw [htake, hdrop, field.trimOws_name, field.trimOws_value, header]

/-- The fields are read up to the empty line, or one of the limits stops the reader. -/
theorem readHeaders_data (room : Nat) (headers : ResponseHeaders) {fields : List FieldLine} {total : Nat}
    (h : stream.data = (fields.map FieldLine.text).flatMap (· ++ crlf) ++ crlf ++ rest)
    (htotal : total ≤ maxTotalHeaderBytes) :
    ∃ stream', stream'.inner.ending = stream.inner.ending ∧
      (((∀ field ∈ fields, field.text.length + 1 ≤ maxHeaderLineLen) ∧
          total + (fields.map fun field => field.text.length).sum ≤ maxTotalHeaderBytes ∧ fields.length ≤ room ∧
          readHeaders room total headers stream = (.ready (.ok (headers ++ fields.map FieldLine.header)), stream') ∧
          stream'.data = rest) ∨
        (¬ ((∀ field ∈ fields, field.text.length + 1 ≤ maxHeaderLineLen) ∧
            total + (fields.map fun field => field.text.length).sum ≤ maxTotalHeaderBytes ∧ fields.length ≤ room) ∧
          ∃ e, readHeaders room total headers stream = (.ready (.error e), stream'))) := by
  induction fields generalizing room total headers stream with
  | nil =>
    have hempty : stream.data = [] ++ crlf ++ rest := h
    obtain ⟨stream', hending, hline⟩ :=
      readBoundedLine_data maxHeaderLineLen hempty List.not_mem_nil
    rw [if_pos (by decide)] at hline
    refine ⟨stream', hending, .inl ⟨(by intro _ h; cases h), by simpa using htotal, Nat.zero_le _, ?_, hline.2⟩⟩
    unfold readHeaders
    simp [hline.1]
  | cons field fields ih =>
    have hfirst : stream.data = field.text ++ crlf ++
        ((fields.map FieldLine.text).flatMap (· ++ crlf) ++ crlf ++ rest) := by rw [h]; simp
    obtain ⟨stream', hending, hline⟩ :=
      readBoundedLine_data maxHeaderLineLen hfirst field.lf_not_mem
    by_cases hlength : field.text.length + 1 ≤ maxHeaderLineLen
    · rw [if_pos hlength] at hline
      obtain ⟨hread, hdata⟩ := hline
      by_cases hsum : total + field.text.length ≤ maxTotalHeaderBytes
      · cases room with
        | zero =>
          refine ⟨stream', hending, .inr ⟨fun hfits => absurd hfits.2.2 (by simp), ?_⟩⟩
          unfold readHeaders
          simp [hread, field.text_ne_nil, hsum.not_gt]
        | succ room =>
          obtain ⟨last, hlast, hrest⟩ := ih room (headers ++ [field.header]) hdata hsum
          have hascii : Utf8.fromUtf8 field.name = none :=
            Utf8.fromUtf8_ascii fun b hb => (mem_of_validateHeaderName field.name_token hb).1
          have hname := congrArg Prod.fst field.header_eq
          have hvalue := congrArg Prod.snd field.header_eq
          dsimp only [FieldLine.header] at hname hvalue
          have hstep : readHeaders (room + 1) total headers stream =
              readHeaders room (total + field.text.length) (headers ++ [field.header]) stream' := by
            rw [readHeaders, hread]
            simp only [List.isEmpty_iff, field.text_ne_nil, if_false, hsum.not_gt, field.idxOf?_colon, hname, hvalue,
              hascii, Option.isSome_none, Bool.false_eq_true, FieldLine.header]
          rw [hstep]
          refine ⟨last, hlast.trans hending, ?_⟩
          simp only [List.forall_mem_cons, List.map_cons, List.sum_cons, List.length_cons, hlength, true_and,
            ← Nat.add_assoc, Nat.add_le_add_iff_right]
          simpa only [List.append_assoc, List.singleton_append] using hrest
      · refine ⟨stream', hending, .inr ⟨fun hfits => hsum ?_, ?_⟩⟩
        · have htotal := hfits.2.1
          rw [List.map_cons, List.sum_cons] at htotal
          omega
        · unfold readHeaders
          simp [hread, field.text_ne_nil, not_le.mp hsum]
    · rw [if_neg hlength] at hline
      obtain ⟨e, hread⟩ := hline
      refine ⟨stream', hending, .inr ⟨fun hfits => hlength (hfits.1 field List.mem_cons_self), e, ?_⟩⟩
      rw [readHeaders, hread]

theorem splitn_append {byte : UInt8} {part : Str} (n : Nat) (h : byte ∉ part) (rest : Str) :
    splitn byte (n + 2) (part ++ byte :: rest) = part :: splitn byte (n + 1) rest := by
  rw [splitn, idxOf?_append_cons h]
  simp [List.drop_append, List.drop_of_length_le]

theorem digit_toNat {n : Nat} (h : n < 10) : (digit n).toNat = 0x30 + n := by
  rw [digit, UInt8.toNat_ofNat']
  omega

theorem isDigit_digit {n : Nat} (h : n < 10) : isDigit (digit n) = true := by
  simp only [isDigit, Bool.and_eq_true, decide_eq_true_eq, UInt8.le_iff_toNat_le, digit_toNat h, UInt8.reduceToNat]
  omega

/-- Digits are read as the number they write. -/
theorem parseUnsigned_digits (max : Nat) {value : Str} (hne : value ≠ []) (h : value.all isDigit = true) :
    parseUnsigned max value = if decimal value ≤ max then some (decimal value) else none := by
  unfold parseUnsigned decimal
  split
  · rename_i rest
    have hplus : isDigit 0x2b = true := List.all_eq_true.mp h _ List.mem_cons_self
    cases hplus
  · simp [hne, h]

namespace Head
variable (head : Head)

theorem digits_lt : head.status / 100 < 10 ∧ head.status / 10 % 10 < 10 ∧ head.status % 10 < 10 := by
  have hstatus := head.status_digits
  omega

theorem statusCode_isDigit : head.statusCode.all isDigit = true := by
  obtain ⟨hhundreds, htens, hones⟩ := head.digits_lt
  simp [statusCode, isDigit_digit, hhundreds, htens, hones]

theorem statusCode_ne_nil : head.statusCode ≠ [] := List.cons_ne_nil _ _

theorem parse_statusCode : parseUnsigned 65535 head.statusCode = some head.status := by
  obtain ⟨hhundreds, htens, hones⟩ := head.digits_lt
  have hstatus := head.status_digits
  have hdecimal : decimal head.statusCode = head.status := by
    simp only [decimal, statusCode, List.foldl_cons, List.foldl_nil, digit_toNat hhundreds, digit_toNat htens,
      digit_toNat hones]
    omega
  rw [parseUnsigned_digits 65535 head.statusCode_ne_nil head.statusCode_isDigit, hdecimal, if_pos (by omega)]

theorem splitn_statusLine : splitn 0x20 3 head.statusLine = [utf8 "HTTP/1.1", head.statusCode, head.reason] := by
  have hcode : (0x20 : UInt8) ∉ head.statusCode := fun hmem =>
    ne_of_isDigit (List.all_eq_true.mp head.statusCode_isDigit _ hmem) (by decide) rfl
  have hversion : (0x20 : UInt8) ∉ utf8 "HTTP/1.1" := by decide
  have hsplit : head.statusLine = utf8 "HTTP/1.1" ++ 0x20 :: (head.statusCode ++ 0x20 :: head.reason) := by
    simp [statusLine]
  rw [hsplit, splitn_append 1 hversion, splitn_append 0 hcode, splitn]

theorem lf_not_mem_statusLine : lf ∉ head.statusLine := by
  intro hmem
  simp only [statusLine, List.append_assoc, List.cons_append, List.mem_append, List.mem_cons] at hmem
  rcases hmem with hversion | hspace | hcode | hspace | hreason
  · exact absurd hversion (by decide)
  · exact absurd hspace (by decide)
  · exact ne_of_isDigit (List.all_eq_true.mp head.statusCode_isDigit _ hcode) (by decide) rfl
  · exact absurd hspace (by decide)
  · exact (mem_of_validateHeaderValue head.reason_valid hreason).2 rfl

end Head

section
variable {fields : List FieldLine}

theorem valuesOf_cons (field : FieldLine) (name : Str) :
    valuesOf (field :: fields) name =
      if eqIgnoreAsciiCase field.name name then field.value :: valuesOf fields name else valuesOf fields name := by
  unfold valuesOf
  rw [List.filter_cons]
  split_ifs <;> rfl

private theorem responseContentLengthLoop_none (h : valuesOf fields (utf8 "content-length") = []) (chunked : Bool) :
    responseContentLengthLoop (fields.map FieldLine.header) none chunked = none := by
  induction fields generalizing chunked with
  | nil => cases chunked <;> rfl
  | cons field fields ih =>
    rw [valuesOf_cons] at h
    split_ifs at h with hname
    rw [List.map_cons, FieldLine.header, responseContentLengthLoop, if_neg hname]
    exact ih h _

private theorem responseContentLengthLoop_keeps (h : valuesOf fields (utf8 "content-length") = [])
    (hcoding : valuesOf fields (utf8 "transfer-encoding") = []) (contentLength : Option Nat) :
    responseContentLengthLoop (fields.map FieldLine.header) contentLength false = contentLength := by
  induction fields with
  | nil => rfl
  | cons field fields ih =>
    rw [valuesOf_cons] at h hcoding
    split_ifs at h with hname
    split_ifs at hcoding with hencoding
    rw [List.map_cons, FieldLine.header, responseContentLengthLoop.eq_def]
    simpa [hname, hencoding] using ih h hcoding

private theorem responseContentLengthLoop_single {value : Str} (h : valuesOf fields (utf8 "content-length") = [value])
    (hcoding : valuesOf fields (utf8 "transfer-encoding") = []) (hne : value ≠ []) (hdigits : value.all isDigit = true) :
    responseContentLengthLoop (fields.map FieldLine.header) none false =
      if decimal value ≤ u64Max then some (decimal value) else none := by
  induction fields with
  | nil => cases h
  | cons field fields ih =>
    rw [valuesOf_cons] at h hcoding
    split_ifs at hcoding with hencoding
    rw [List.map_cons, FieldLine.header, responseContentLengthLoop]
    split_ifs at h with hname
    · obtain ⟨rfl, hrest⟩ := List.cons.inj h
      have hascii : (Utf8.fromUtf8 field.value).isSome = false := by rw [Utf8.fromUtf8_ascii (digits_ascii hdigits)]; rfl
      simp only [hname, hencoding, hascii, Bool.false_and, Bool.or_false, Bool.false_eq_true, if_true, if_false,
        trim_digits hdigits, parseUnsigned_digits u64Max hne hdigits]
      exact responseContentLengthLoop_keeps hrest hcoding _
    · simpa [hname, hencoding] using ih h hcoding

end

def Head.expectedLen (head : Head) : Option Nat :=
  match head.framing with
  | .length n => if n ≤ u64Max then some n else none
  | _ => none

private theorem responseContentLength_eq (head : Head) :
    responseContentLength (head.fields.map FieldLine.header) = head.expectedLen := by
  unfold responseContentLength Head.expectedLen Head.framing framingOf
  cases hcoding : valuesOf head.fields (utf8 "transfer-encoding") with
  | nil =>
    cases hlength : valuesOf head.fields (utf8 "content-length") with
    | nil => exact responseContentLengthLoop_none hlength false
    | cons value more =>
      have honce := head.length_once
      rw [hlength, List.length_cons] at honce
      obtain rfl : more = [] := List.length_eq_zero_iff.mp (by omega)
      obtain ⟨hne, hdigits⟩ := head.length_digits value (by rw [hlength]; exact List.mem_cons_self)
      exact responseContentLengthLoop_single hlength hcoding hne hdigits
  | cons coding more =>
    have halone := head.length_alone (by rw [hcoding]; exact List.cons_ne_nil _ _)
    rw [responseContentLengthLoop_none halone, List.getLast?_cons]
    dsimp only
    split_ifs <;> rfl

private theorem headerMap_header (fields : List FieldLine) :
    headerMap (fields.map FieldLine.header) =
      .ok (fields.map fun field => (toAsciiLowercase field.name, field.value)) := by
  induction fields with
  | nil => rfl
  | cons field fields ih =>
    rw [List.map_cons, FieldLine.header, headerMap, field.name_token, field.value_valid, ih]
    rfl

private theorem data_text {head : Head} {connection : Connection} (h : connection.data = head.text ++ rest) :
    (BufReader.mk [] connection).data = head.statusLine ++ crlf ++
      ((head.fields.map FieldLine.text).flatMap (· ++ crlf) ++ crlf ++ rest) := by
  rw [BufReader.data, List.nil_append, h, Head.text, Head.lines]
  simp

/-- A head within the limits is read as it is, and the body starts after it. -/
theorem respond_ok {head : Head} {connection : Connection} (h : connection.data = head.text ++ rest)
    (hlimits : head.WithinLimits) :
    ∃ response, respond connection = .ready (.ok response) ∧ response.status = head.status ∧
      response.headers = head.fields.map (fun field => (toAsciiLowercase field.name, field.value)) ∧
      ∃ buf inner, response.body = .new buf inner head.expectedLen ∧ buf ++ inner.data = rest ∧
        inner.ending = connection.ending := by
  have hdata := data_text h
  obtain ⟨stream, hending, hline⟩ := readBoundedLine_data maxStatusLineLen hdata head.lf_not_mem_statusLine
  rw [if_pos hlimits.statusLine] at hline
  obtain ⟨hline, hdata⟩ := hline
  obtain ⟨last, hlast, ⟨-, -, -, hheaders, hrest⟩ | ⟨hnot, -⟩⟩ :=
    readHeaders_data maxHeaderCount [] hdata (Nat.zero_le maxTotalHeaderBytes)
  · have hne : head.statusLine ≠ [] := by simp [Head.statusLine]
    have hread : readProxyResponse ⟨[], connection⟩ =
        (.ready (.ok ⟨head.status, head.fields.map FieldLine.header, last.buffer,
          some (Utf8.fromUtf8Lossy head.reason)⟩), { last with buffer := [] }) := by
      rw [readProxyResponse, hline]
      simp [hne, head.splitn_statusLine, head.parse_statusCode, hheaders]
    have hstatus := head.status_digits
    refine ⟨⟨head.status, head.fields.map fun field => (toAsciiLowercase field.name, field.value),
      some (Utf8.fromUtf8Lossy head.reason), .new last.buffer last.inner head.expectedLen⟩, ?_, rfl, rfl,
      last.buffer, last.inner, rfl, hrest, hlast.trans hending⟩
    rw [respond, hread]
    simp only [headerMap_header, responseContentLength_eq]
    rw [if_neg (by omega)]
  · exact absurd ⟨hlimits.fields, by simpa using hlimits.total, hlimits.count⟩ hnot

/-- A head over a limit is an error. -/
theorem respond_error {head : Head} {connection : Connection} (h : connection.data = head.text ++ rest)
    (hlimits : ¬ head.WithinLimits) : ∃ e, respond connection = .ready (.error e) := by
  have hdata := data_text h
  obtain ⟨stream, -, hline⟩ := readBoundedLine_data maxStatusLineLen hdata head.lf_not_mem_statusLine
  split_ifs at hline with hlength
  · obtain ⟨hline, hdata⟩ := hline
    obtain ⟨last, -, ⟨hfields, htotal, hcount, -⟩ | ⟨-, e, hheaders⟩⟩ :=
      readHeaders_data maxHeaderCount [] hdata (Nat.zero_le maxTotalHeaderBytes)
    · exact absurd ⟨hlength, hfields, by simpa using htotal, hcount⟩ hlimits
    · have hne : head.statusLine ≠ [] := by simp [Head.statusLine]
      refine ⟨e, ?_⟩
      rw [respond, readProxyResponse, hline]
      simp [hne, head.splitn_statusLine, head.parse_statusCode, hheaders]
  · obtain ⟨e, hline⟩ := hline
    exact ⟨e, by rw [respond, readProxyResponse, hline]⟩

end Eggfetch.Proxy
