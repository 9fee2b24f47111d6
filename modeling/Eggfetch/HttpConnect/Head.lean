import Eggfetch.HttpConnect.Response
import Eggfetch.Text.Unique

/-! The grammar of the response heads that the reader takes, and the grammar of a strict one. -/
namespace Eggfetch.HttpConnect
open Text Http
open Proxy (BufReader cr lf crlf colon splitn trimOws isOws splitn_append mem_of_validateHeaderName)

/-- What a reader takes the bytes before a line feed for: one carriage return at their end is dropped. -/
def lineOf (raw : Str) : Str := stripSuffix cr raw

/-- A version, a status and perhaps a reason phrase, cut at the first two spaces. -/
inductive StatusLine : Str → Nat → Option Str → Prop
  | bare {version token : Str} {status : Nat} (hVersion : 0x20 ∉ version) (hToken : 0x20 ∉ token)
      (hStatus : parseUnsigned 65535 token = some status) : StatusLine (version ++ 0x20 :: token) status none
  | reason {version token : Str} {status : Nat} (phrase : Str) (hVersion : 0x20 ∉ version) (hToken : 0x20 ∉ token)
      (hStatus : parseUnsigned 65535 token = some status) :
      StatusLine (version ++ 0x20 :: (token ++ 0x20 :: phrase)) status (if phrase = [] then none else some phrase)

/-- A token with optional blanks around it, a colon and a value. -/
inductive HeaderLine : Str → Str × Str → Prop
  | mk {before name after value : Str} (hBefore : ∀ b ∈ before, isOws b = true) (hAfter : ∀ b ∈ after, isOws b = true)
      (hName : validateHeaderName name = true) (hLength : name.length ≤ maxNameLen) :
      HeaderLine (before ++ name ++ after ++ colon :: value) (name, trimOws value)

section
variable {line name token : Str} {status : Nat} {reason : Option Str} {header : Str × Str}

private theorem ascii_of_parseUnsigned {max : Nat} (h : parseUnsigned max token = some status) : ∀ b ∈ token, b < 0x80 := by
  intro b hb
  rcases parseUnsigned_bytes h b hb with rfl | hDigit
  · decide
  · exact digits_ascii (s := [b]) (by simp [hDigit]) b List.mem_cons_self

private theorem parse_token (token : Str) :
    (if (Utf8.fromUtf8 token).isSome then none else parseUnsigned 65535 token) = parseUnsigned 65535 token := by
  cases hParse : parseUnsigned 65535 token with
  | none => exact ite_self _
  | some status =>
    rw [Utf8.fromUtf8_ascii (ascii_of_parseUnsigned hParse)]
    rfl

private theorem filter_phrase (phrase : Str) :
    (some phrase).filter (· ≠ []) = if phrase = [] then none else some phrase := by
  cases phrase <;> rfl

private theorem splitn_of_not_mem {byte : UInt8} {s : Str} (n : Nat) (h : byte ∉ s) : splitn byte (n + 1) s = [s] := by
  cases n with
  | zero => rfl
  | succ n => rw [splitn, List.idxOf?_eq_none_iff.mpr h]

private theorem parseStatusLine_parts {parts : List Str} (hNe : line ≠ []) (hParts : splitn 0x20 3 line = parts) :
    parseStatusLine line =
      match parts[1]?.bind (parseUnsigned 65535) with
      | none => .error .malformedStatus
      | some status => .ok (status, parts[2]?.filter (· ≠ [])) := by
  have hFull : line.isEmpty = false := List.isEmpty_eq_false_iff.mpr hNe
  have hToken : (fun token => if (Utf8.fromUtf8 token).isSome then none else parseUnsigned 65535 token) =
      parseUnsigned 65535 := funext fun token => parse_token token
  rw [parseStatusLine, hFull, hParts, hToken]
  rfl

theorem parseStatusLine_eq_ok : parseStatusLine line = .ok (status, reason) ↔ StatusLine line status reason := by
  constructor
  · intro h
    have hNe : line ≠ [] := by
      rintro rfl
      cases h
    cases hFirst : line.idxOf? 0x20 with
    | none =>
      rw [parseStatusLine_parts hNe (splitn_of_not_mem 2 (List.idxOf?_eq_none_iff.mp hFirst))] at h
      cases h
    | some i =>
      obtain ⟨hLine, hVersion, -⟩ := idxOf?_eq_some_append hFirst
      generalize line.take i = version at hLine hVersion
      generalize line.drop (i + 1) = more at hLine
      subst hLine
      cases hSecond : more.idxOf? 0x20 with
      | none =>
        have hToken := List.idxOf?_eq_none_iff.mp hSecond
        rw [parseStatusLine_parts hNe (splitn_append 1 hVersion more), splitn_of_not_mem 1 hToken] at h
        cases hStatus : parseUnsigned 65535 more with
        | none => simp [hStatus] at h
        | some value =>
          simp only [List.getElem?_cons_succ, List.getElem?_cons_zero, Option.bind_some, hStatus, List.getElem?_nil,
            Option.filter_none, Except.ok.injEq, Prod.mk.injEq] at h
          obtain ⟨rfl, rfl⟩ := h
          exact .bare hVersion hToken hStatus
      | some j =>
        obtain ⟨hMore, hToken, -⟩ := idxOf?_eq_some_append hSecond
        generalize more.take j = token at hMore hToken
        generalize more.drop (j + 1) = phrase at hMore
        subst hMore
        rw [parseStatusLine_parts hNe (splitn_append 1 hVersion _), splitn_append 0 hToken] at h
        cases hStatus : parseUnsigned 65535 token with
        | none => simp [hStatus] at h
        | some value =>
          simp only [List.getElem?_cons_succ, List.getElem?_cons_zero, Option.bind_some, hStatus, splitn,
            filter_phrase, Except.ok.injEq, Prod.mk.injEq] at h
          obtain ⟨rfl, rfl⟩ := h
          exact .reason phrase hVersion hToken hStatus
  · rintro (⟨hVersion, hToken, hStatus⟩ | ⟨phrase, hVersion, hToken, hStatus⟩)
    · rw [parseStatusLine_parts (by simp) (splitn_append 1 hVersion _), splitn_of_not_mem 1 hToken]
      simp [hStatus]
    · rw [parseStatusLine_parts (by simp) (splitn_append 1 hVersion _), splitn_append 0 hToken]
      simp only [List.getElem?_cons_succ, List.getElem?_cons_zero, Option.bind_some, hStatus, splitn, filter_phrase]

private theorem trimOws_split (s : Str) :
    ∃ before after, (∀ b ∈ before, isOws b = true) ∧ (∀ b ∈ after, isOws b = true) ∧ s = before ++ trimOws s ++ after := by
  refine ⟨s.takeWhile isOws, (s.dropWhile isOws).rtakeWhile isOws, fun b => List.mem_takeWhile_imp,
    fun b => List.mem_rtakeWhile_imp, ?_⟩
  rw [trimOws, List.append_assoc, List.rdropWhile_append_rtakeWhile, List.takeWhile_append_dropWhile]

private theorem trimOws_blanks {before after : Str} (hBefore : ∀ b ∈ before, isOws b = true)
    (hAfter : ∀ b ∈ after, isOws b = true)
    (hName : validateHeaderName name = true) : trimOws (before ++ name ++ after) = name := by
  have hOws : ∀ b ∈ name, isOws b = false := fun b hb => (mem_of_validateHeaderName hName hb).2.1
  have hDrop : (name ++ after).dropWhile isOws = name ++ after := by
    cases name with
    | nil => cases hName
    | cons b name => rw [List.cons_append, List.dropWhile_cons_of_neg (by simp [hOws b])]
  have hLast : name.rdropWhile isOws = name := by
    rw [List.rdropWhile_eq_self_iff]
    intro hNe
    simp [hOws _ (List.getLast_mem hNe)]
  rw [trimOws, List.append_assoc, Proxy.dropWhile_ows_append hBefore, hDrop, Proxy.rdropWhile_append_ows hAfter, hLast]

private theorem colon_not_mem_ows {ows : Str} (h : ∀ b ∈ ows, isOws b = true) : colon ∉ ows := by
  intro hMem
  have hOws := h colon hMem
  revert hOws
  decide

theorem parseHeaderLine_eq_ok : parseHeaderLine line = .ok header ↔ HeaderLine line header := by
  constructor
  · intro h
    unfold parseHeaderLine at h
    cases hColon : line.idxOf? colon with
    | none =>
      rw [hColon] at h
      cases h
    | some i =>
      obtain ⟨hLine, -, -⟩ := idxOf?_eq_some_append hColon
      rw [hColon] at h
      dsimp only at h
      split_ifs at h
      cases hValid : validateResponseHeaderName (trimOws (line.take i)) with
      | error e =>
        rw [hValid] at h
        cases h
      | ok _ =>
        rw [hValid] at h
        cases h
        obtain ⟨hName, hLength⟩ := validateName_eq_ok.mp hValid
        obtain ⟨before, after, hBefore, hAfter, hTake⟩ := trimOws_split (line.take i)
        have hHeader : HeaderLine (before ++ trimOws (line.take i) ++ after ++ colon :: line.drop (i + 1))
            (trimOws (line.take i), trimOws (line.drop (i + 1))) := .mk hBefore hAfter hName hLength
        rwa [← hTake, hLine] at hHeader
  · rintro ⟨hBefore, hAfter, hName, hLength⟩
    rename_i before name after value
    have hColon : colon ∉ before ++ name ++ after := by
      simp only [List.mem_append, not_or]
      exact ⟨⟨colon_not_mem_ows hBefore, fun hMem => (mem_of_validateHeaderName hName hMem).2.2.2.2 rfl⟩,
        colon_not_mem_ows hAfter⟩
    have hAscii : Utf8.fromUtf8 name = none :=
      Utf8.fromUtf8_ascii fun b hb => (mem_of_validateHeaderName hName hb).1
    have hValid : validateResponseHeaderName name = .ok () := validateName_eq_ok.mpr ⟨hName, hLength⟩
    have hDrop : (before ++ name ++ after ++ colon :: value).drop ((before ++ name ++ after).length + 1) = value := by
      generalize before ++ name ++ after = part
      simp [List.drop_append, List.drop_of_length_le]
    unfold parseHeaderLine
    rw [idxOf?_append_cons hColon]
    dsimp only
    rw [List.take_left, hDrop, trimOws_blanks hBefore hAfter hName, hAscii, hValid]
    simp

end

variable {limits : ConnectResponseLimits} {stream : BufReader} {room total : Nat}

/-- Lines that the header loop takes when `room` headers and `limits.maxHeadersBytes - total` bytes
may still come, and the empty line after them. -/
structure TakesHeaders (limits : ConnectResponseLimits) (room total : Nat) (raws : List Str) (blank : Str)
    (headers : List (Str × Str)) : Prop where
  no_lf : ∀ raw ∈ raws ++ [blank], lf ∉ raw
  length : ∀ raw ∈ raws ++ [blank], raw.length ≤ limits.maxHeaderLine
  blank_empty : lineOf blank = []
  lines : List.Forall₂ (fun raw header => HeaderLine (lineOf raw) header) raws headers
  sum : total + (raws.map fun raw => (lineOf raw).length).sum ≤ limits.maxHeadersBytes
  count : raws.length ≤ room

theorem HeaderLine.ne_nil {line : Str} {header : Str × Str} (h : HeaderLine line header) : line ≠ [] := by
  obtain ⟨hBefore, hAfter, hName, hLength⟩ := h
  simp

theorem terminated_cons_append (raw : Str) (raws : List Str) (rest : Str) :
    terminated lf (raw :: raws) ++ rest = raw ++ lf :: (terminated lf raws ++ rest) := by
  rw [terminated_cons, List.append_assoc, List.cons_append]

theorem readHeaders_takes {raws : List Str} {blank rest : Str} {added : List (Str × Str)}
    (h : TakesHeaders limits room total raws blank added) (headers : List (Str × Str))
    (hData : stream.data = terminated lf (raws ++ [blank]) ++ rest) :
    ∃ stream', readHeaders limits room total headers stream = (.ready (.ok (headers ++ added)), stream') ∧
      stream'.data = rest := by
  induction raws generalizing room total headers added stream with
  | nil =>
    cases h.lines
    rw [List.nil_append, terminated_cons_append] at hData
    obtain ⟨stream', hRead, hRest, -⟩ := readBoundedLine_line hData (h.no_lf blank (by simp)) (h.length blank (by simp))
    have hEmpty : stripSuffix cr blank = [] := h.blank_empty
    refine ⟨stream', ?_, hRest⟩
    rw [readHeaders, hRead, hEmpty, List.append_nil]
    rfl
  | cons raw raws ih =>
    obtain ⟨hNoLf, hLength, hBlank, hLines, hSum, hCount⟩ := h
    cases hLines with
    | cons hLine hLines =>
      rename_i header added
      rw [List.cons_append] at hNoLf hLength hData
      rw [terminated_cons_append] at hData
      rw [List.map_cons, List.sum_cons, ← Nat.add_assoc] at hSum
      obtain ⟨stream', hRead, hRest, -⟩ :=
        readBoundedLine_line hData (hNoLf raw List.mem_cons_self) (hLength raw List.mem_cons_self)
      obtain ⟨room, rfl⟩ : ∃ left, room = left + 1 := Nat.exists_eq_add_one.mpr (Nat.lt_of_lt_of_le (by simp) hCount)
      have hTakes : TakesHeaders limits room (total + (lineOf raw).length) raws blank added :=
        ⟨fun raw hMem => hNoLf raw (List.mem_cons_of_mem _ hMem), fun raw hMem => hLength raw (List.mem_cons_of_mem _ hMem),
          hBlank, hLines, hSum, Nat.le_of_succ_le_succ hCount⟩
      obtain ⟨last, hLoop, hLast⟩ := ih hTakes (headers ++ [header]) hRest
      refine ⟨last, ?_, hLast⟩
      have hFits : ¬ limits.maxHeadersBytes < total + (lineOf raw).length := by omega
      rw [List.append_assoc, List.singleton_append] at hLoop
      rw [readHeaders, hRead]
      simp only [List.isEmpty_iff]
      rw [← lineOf, if_neg hLine.ne_nil, if_neg hFits, parseHeaderLine_eq_ok.mpr hLine]
      exact hLoop

private theorem readHeaders_refuses {n : Nat} (headers : List (Str × Str))
    (h : Refuses stream n (readBoundedLine stream limits.maxHeaderLine)) :
    Refuses stream n (readHeaders limits room total headers stream) := by
  rw [readHeaders.eq_def]
  generalize readBoundedLine stream limits.maxHeaderLine = reading at h
  obtain ⟨answer, left⟩ := reading
  cases answer with
  | pending => exact h
  | ready result =>
    cases result with
    | error e => exact h
    | ok line => exact h.elim

private theorem readHeaders_step (limits : ConnectResponseLimits) (room total : Nat) (headers : List (Str × Str))
    (stream : BufReader) :
    Refuses stream (limits.maxHeaderLine + 1) (readHeaders limits room total headers stream) ∨
      ∃ raw rest, stream.data = raw ++ lf :: rest ∧ lf ∉ raw ∧ raw.length ≤ limits.maxHeaderLine ∧
        (lineOf raw = [] ∨
          ∃ left header stream', room = left + 1 ∧ total + (lineOf raw).length ≤ limits.maxHeadersBytes ∧
            HeaderLine (lineOf raw) header ∧ stream'.data = rest ∧ stream'.inner.ending = stream.inner.ending ∧
            readHeaders limits room total headers stream =
              readHeaders limits left (total + (lineOf raw).length) (headers ++ [header]) stream') := by
  rcases readBoundedLine_cases limits.maxHeaderLine stream with ⟨raw, rest, hData, hLf, hLength⟩ | hRefuses
  · obtain ⟨stream', hRead, hRest, hEnding⟩ := readBoundedLine_line hData hLf hLength
    have hTaken : stream.data.length ≤ stream'.data.length + (limits.maxHeaderLine + 1) := by
      rw [hData, hRest]
      simp
      omega
    rw [← lineOf] at hRead
    by_cases hEmpty : lineOf raw = []
    · exact .inr ⟨raw, rest, hData, hLf, hLength, .inl hEmpty⟩
    by_cases hSum : limits.maxHeadersBytes < total + (lineOf raw).length
    · left
      rw [readHeaders.eq_def, hRead]
      simpa [hEmpty, hSum, Refuses] using hTaken
    cases room with
    | zero =>
      left
      rw [readHeaders, hRead]
      simpa [hEmpty, hSum, Refuses] using hTaken
    | succ left =>
      cases hParse : parseHeaderLine (lineOf raw) with
      | error e =>
        left
        rw [readHeaders, hRead]
        simpa [hEmpty, hSum, Refuses, hParse] using hTaken
      | ok header =>
        refine .inr ⟨raw, rest, hData, hLf, hLength, .inr ⟨left, header, stream', rfl, Nat.not_lt.mp hSum,
          parseHeaderLine_eq_ok.mp hParse, hRest, hEnding, ?_⟩⟩
        rw [readHeaders, hRead]
        simp only [List.isEmpty_iff, if_neg hEmpty, if_neg hSum, hParse]
  · exact .inl (readHeaders_refuses headers hRefuses)

theorem TakesHeaders.nil {raw : Str} (hLf : lf ∉ raw) (hLength : raw.length ≤ limits.maxHeaderLine)
    (hEmpty : lineOf raw = []) (hTotal : total ≤ limits.maxHeadersBytes) : TakesHeaders limits room total [] raw [] := by
  refine ⟨?_, ?_, hEmpty, .nil, hTotal, Nat.zero_le _⟩
  · simpa using hLf
  · simpa using hLength

theorem TakesHeaders.cons {raw blank : Str} {raws : List Str} {header : Str × Str} {added : List (Str × Str)}
    (hLf : lf ∉ raw) (hLength : raw.length ≤ limits.maxHeaderLine) (hLine : HeaderLine (lineOf raw) header)
    (h : TakesHeaders limits room (total + (lineOf raw).length) raws blank added) :
    TakesHeaders limits (room + 1) total (raw :: raws) blank (header :: added) := by
  obtain ⟨hNoLf, hLengths, hBlank, hLines, hSum, hCount⟩ := h
  refine ⟨?_, ?_, hBlank, .cons hLine hLines, ?_, Nat.succ_le_succ hCount⟩
  · rw [List.cons_append]
    exact List.forall_mem_cons.mpr ⟨hLf, hNoLf⟩
  · rw [List.cons_append]
    exact List.forall_mem_cons.mpr ⟨hLength, hLengths⟩
  · rw [List.map_cons, List.sum_cons, ← Nat.add_assoc]
    exact hSum

theorem readHeaders_cases (room : Nat) (headers : List (Str × Str)) (stream : BufReader)
    (hTotal : total ≤ limits.maxHeadersBytes) :
    (∃ raws blank added rest, TakesHeaders limits room total raws blank added ∧
        stream.data = terminated lf (raws ++ [blank]) ++ rest) ∨
      Refuses stream ((room + 1) * (limits.maxHeaderLine + 1)) (readHeaders limits room total headers stream) := by
  induction room generalizing total headers stream with
  | zero =>
    rcases readHeaders_step limits 0 total headers stream with hRefuses | ⟨raw, rest, hData, hLf, hLength, hEmpty | hMore⟩
    · exact .inr (hRefuses.mono (by omega))
    · exact .inl ⟨[], raw, [], rest, .nil hLf hLength hEmpty hTotal, by rw [hData, List.nil_append, terminated_cons_append]; rfl⟩
    · obtain ⟨left, header, stream', hRoom, -⟩ := hMore
      cases hRoom
  | succ room ih =>
    rcases readHeaders_step limits (room + 1) total headers stream with
      hRefuses | ⟨raw, rest, hData, hLf, hLength, hEmpty | hMore⟩
    · exact .inr (hRefuses.mono (Nat.le_mul_of_pos_left _ (Nat.succ_pos _)))
    · exact .inl ⟨[], raw, [], rest, .nil hLf hLength hEmpty hTotal, by rw [hData, List.nil_append, terminated_cons_append]; rfl⟩
    · obtain ⟨left, header, stream', hRoom, hSum, hLine, hRest, hEnding, hLoop⟩ := hMore
      cases hRoom
      rw [hLoop]
      rcases ih (headers ++ [header]) stream' hSum with ⟨raws, blank, added, more, hTakes, hMore⟩ | hRefuses
      · refine .inl ⟨raw :: raws, blank, header :: added, more, hTakes.cons hLf hLength hLine, ?_⟩
        rw [List.cons_append, terminated_cons_append, hData, ← hMore, hRest]
      · right
        have hTaken : stream.data.length ≤ stream'.data.length + (limits.maxHeaderLine + 1) := by
          rw [hData, hRest]
          simp
          omega
        refine (Refuses.after hEnding hTaken hRefuses).mono (Nat.le_of_eq ?_)
        rw [Nat.succ_mul (room + 1), Nat.add_comm]

/-- The lines of a head as they stand before their line feeds. -/
structure WireHead where
  status : Str
  headers : List Str
  blank : Str
  status_lf : lf ∉ status
  headers_lf : ∀ raw ∈ headers ++ [blank], lf ∉ raw
  blank_empty : lineOf blank = []

namespace WireHead

def bytes (wire : WireHead) : Str := wire.status ++ lf :: terminated lf (wire.headers ++ [wire.blank])

/-- What the lines say, and that they keep within the limits, without their line ends. -/
structure Says (wire : WireHead) (limits : ConnectResponseLimits) (head : ConnectResponseHead) : Prop where
  statusLine : StatusLine (lineOf wire.status) head.status head.reasonPhrase
  headerLines : List.Forall₂ (fun raw header => HeaderLine (lineOf raw) header) wire.headers head.headers
  status_length : (lineOf wire.status).length ≤ limits.maxStatusLine
  header_length : ∀ raw ∈ wire.headers, (lineOf raw).length ≤ limits.maxHeaderLine
  sum : (wire.headers.map fun raw => (lineOf raw).length).sum ≤ limits.maxHeadersBytes
  count : wire.headers.length ≤ limits.maxHeaderCount

/-- Some line is exactly as long as its maximum and ends with a carriage return. -/
def AtLimit (wire : WireHead) (limits : ConnectResponseLimits) : Prop :=
  wire.status.length = limits.maxStatusLine + 1 ∨
    ∃ raw ∈ wire.headers ++ [wire.blank], raw.length = limits.maxHeaderLine + 1

end WireHead

private theorem length_le_lineOf (raw : Str) : raw.length ≤ (lineOf raw).length + 1 := by
  unfold lineOf stripSuffix
  split_ifs
  · rw [List.length_dropLast]
    omega
  · omega

theorem length_lineOf_le (raw : Str) : (lineOf raw).length ≤ raw.length := by
  unfold lineOf stripSuffix
  split_ifs
  · rw [List.length_dropLast]
    omega
  · exact Nat.le_refl _

private theorem length_le_of_lineOf {raw : Str} {max : Nat} (h : (lineOf raw).length ≤ max) (hLimit : raw.length ≠ max + 1) :
    raw.length ≤ max := by
  have hRaw := length_le_lineOf raw
  omega

def ConnectResponseLimits.bound (limits : ConnectResponseLimits) : Nat :=
  limits.maxStatusLine + 1 + (limits.maxHeaderCount + 1) * (limits.maxHeaderLine + 1)

private theorem readConnectResponseHead_ok {wire : WireHead} {head : ConnectResponseHead} {rest : Str}
    (h : wire.Says limits head) (hLimit : ¬ wire.AtLimit limits) (hData : stream.data = wire.bytes ++ rest) :
    ∃ stream', readConnectResponseHead stream limits = (.ready (.ok head), stream') ∧ stream'.data = rest := by
  obtain ⟨hStatusLimit, hHeaderLimit⟩ := not_or.mp hLimit
  rw [WireHead.bytes, List.append_assoc, List.cons_append] at hData
  obtain ⟨stream', hRead, hAfter, -⟩ :=
    readBoundedLine_line hData wire.status_lf (length_le_of_lineOf h.status_length hStatusLimit)
  have hLengths : ∀ raw ∈ wire.headers ++ [wire.blank], raw.length ≤ limits.maxHeaderLine := by
    intro raw hMem
    refine length_le_of_lineOf ?_ fun hAt => hHeaderLimit ⟨raw, hMem, hAt⟩
    rcases List.mem_append.mp hMem with hHeader | hBlank
    · exact h.header_length raw hHeader
    · rw [List.mem_singleton.mp hBlank, wire.blank_empty]
      exact Nat.zero_le _
  have hTakes : TakesHeaders limits limits.maxHeaderCount 0 wire.headers wire.blank head.headers :=
    ⟨wire.headers_lf, hLengths, wire.blank_empty, h.headerLines, by rw [Nat.zero_add]; exact h.sum, h.count⟩
  obtain ⟨last, hHeaders, hRest⟩ := readHeaders_takes hTakes [] hAfter
  refine ⟨last, ?_, hRest⟩
  rw [readConnectResponseHead, hRead]
  dsimp only
  rw [← lineOf, parseStatusLine_eq_ok.mpr h.statusLine]
  dsimp only
  rw [hHeaders]
  rfl

private theorem readConnectResponseHead_cases (limits : ConnectResponseLimits) (stream : BufReader) :
    (∃ wire head rest, WireHead.Says wire limits head ∧ ¬ wire.AtLimit limits ∧ stream.data = wire.bytes ++ rest) ∨
      Refuses stream limits.bound (readConnectResponseHead stream limits) := by
  rcases readBoundedLine_cases limits.maxStatusLine stream with ⟨raw, rest, hData, hLf, hLength⟩ | hRefuses
  · obtain ⟨stream', hRead, hRest, hEnding⟩ := readBoundedLine_line hData hLf hLength
    have hTaken : stream.data.length ≤ stream'.data.length + (limits.maxStatusLine + 1) := by
      rw [hData, hRest]
      simp
      omega
    rw [← lineOf] at hRead
    cases hParse : parseStatusLine (lineOf raw) with
    | error e =>
      right
      rw [readConnectResponseHead, hRead]
      simp only [hParse, Refuses]
      unfold ConnectResponseLimits.bound
      omega
    | ok parsed =>
      obtain ⟨status, reasonPhrase⟩ := parsed
      rcases readHeaders_cases limits.maxHeaderCount [] stream' (Nat.zero_le limits.maxHeadersBytes) with
        ⟨raws, blank, added, more, hTakes, hMore⟩ | hRefuses
      · refine .inl ⟨⟨raw, raws, blank, hLf, hTakes.no_lf, hTakes.blank_empty⟩, ⟨status, added, reasonPhrase⟩, more,
          ⟨parseStatusLine_eq_ok.mp hParse, hTakes.lines, (length_lineOf_le raw).trans hLength, ?_, ?_, hTakes.count⟩,
          ?_, ?_⟩
        · intro header hMem
          exact (length_lineOf_le header).trans (hTakes.length header (List.mem_append_left _ hMem))
        · have hSum := hTakes.sum
          rwa [Nat.zero_add] at hSum
        · rintro (hAt | ⟨header, hMem, hAt⟩)
          · have hAt : raw.length = limits.maxStatusLine + 1 := hAt
            omega
          · have hFits := hTakes.length header hMem
            omega
        · rw [WireHead.bytes, List.append_assoc, List.cons_append, ← hMore, hRest, hData]
      · right
        have hLater := Refuses.after hEnding hTaken hRefuses
        rw [readConnectResponseHead, hRead]
        simp only [hParse]
        generalize readHeaders limits limits.maxHeaderCount 0 [] stream' = reading at hLater
        obtain ⟨answer, left⟩ := reading
        cases answer with
        | pending => exact hLater
        | ready result =>
          cases result with
          | error e => exact hLater
          | ok headers => exact hLater.elim
  · right
    have hBound : limits.maxStatusLine + 1 ≤ limits.bound := Nat.le_add_right _ _
    have hRefuses := hRefuses.mono hBound
    rw [readConnectResponseHead.eq_def]
    generalize readBoundedLine stream limits.maxStatusLine = reading at hRefuses
    obtain ⟨answer, left⟩ := reading
    cases answer with
    | pending => exact hRefuses
    | ready result =>
      cases result with
      | error e => exact hRefuses
      | ok line => exact hRefuses.elim

/-- The reader succeeds on heads only, and on every head none of whose lines is at its limit; it
leaves what comes after the head. Else it gives up within its bound, unless it still waits. -/
def ReadsHeads (limits : ConnectResponseLimits) (stream : BufReader) : Prop :=
  (∀ head stream', readConnectResponseHead stream limits = (.ready (.ok head), stream') →
    ∃ wire : WireHead, wire.Says limits head ∧ stream.data = wire.bytes ++ stream'.data) ∧
  (∀ (wire : WireHead) head rest, wire.Says limits head → ¬ wire.AtLimit limits → stream.data = wire.bytes ++ rest →
    ∃ stream', readConnectResponseHead stream limits = (.ready (.ok head), stream') ∧ stream'.data = rest) ∧
  ((∃ head stream', readConnectResponseHead stream limits = (.ready (.ok head), stream')) ∨
    Refuses stream limits.bound (readConnectResponseHead stream limits))

theorem readConnectResponseHead_readsHeads (limits : ConnectResponseLimits) (stream : BufReader) :
    ReadsHeads limits stream := by
  refine ⟨?_, fun wire head rest hSays hLimit hData => readConnectResponseHead_ok hSays hLimit hData, ?_⟩
  · intro head stream' hRead
    rcases readConnectResponseHead_cases limits stream with ⟨wire, head', rest, hSays, hLimit, hData⟩ | hRefuses
    · obtain ⟨last, hOk, hRest⟩ := readConnectResponseHead_ok hSays hLimit hData
      rw [hRead] at hOk
      cases hOk
      exact ⟨wire, hSays, by rw [hData, hRest]⟩
    · rw [hRead] at hRefuses
      exact hRefuses.elim
  · rcases readConnectResponseHead_cases limits stream with ⟨wire, head, rest, hSays, hLimit, hData⟩ | hRefuses
    · obtain ⟨last, hOk, -⟩ := readConnectResponseHead_ok hSays hLimit hData
      exact .inl ⟨head, last, hOk⟩
    · exact .inr hRefuses

/-- `HTTP-version SP 3DIGIT [SP reason]` -/
inductive StrictStatusLine : Str → Nat → Prop
  | mk {major minor : UInt8} {code reason : Str} (hVersion : isDigit major = true ∧ isDigit minor = true)
      (hCode : code.length = 3 ∧ code.all isDigit = true) (hReason : reason = [] ∨ reason.head? = some 0x20) :
      StrictStatusLine (utf8 "HTTP/" ++ major :: 0x2e :: minor :: 0x20 :: (code ++ reason)) (Proxy.decimal code)

inductive StrictHeaderLine : Str → Str × Str → Prop
  | mk {name value : Str} (hName : validateHeaderName name = true) :
      StrictHeaderLine (name ++ colon :: value) (name, trimOws value)

/-- `data` starts with a strict head within the limits, `rest` is what comes after it. -/
def StrictHead (limits : ConnectResponseLimits) (data : Str) (status : Nat) (headers : List (Str × Str)) (rest : Str) :
    Prop :=
  ∃ statusLine lines, StrictStatusLine statusLine status ∧ List.Forall₂ StrictHeaderLine lines headers ∧
    (∀ line ∈ statusLine :: lines, lf ∉ line) ∧ statusLine.length ≤ limits.maxStatusLine ∧
    (∀ line ∈ lines, line.length ≤ limits.maxHeaderLine) ∧ lines.length ≤ limits.maxHeaderCount ∧
    (lines.map List.length).sum ≤ limits.maxHeadersBytes ∧
    data = statusLine ++ crlf ++ (lines.flatMap (· ++ crlf) ++ (crlf ++ rest))

def ReadsStrictHeads (limits : ConnectResponseLimits) (stream : BufReader) : Prop :=
  (∀ status headers rest,
    (∃ reason stream', readConnectResponseHead stream limits = (.ready (.ok ⟨status, headers, reason⟩), stream') ∧
        stream'.data = rest) ↔ StrictHead limits stream.data status headers rest) ∧
  ((∃ head stream', readConnectResponseHead stream limits = (.ready (.ok head), stream')) ∨
    Refuses stream limits.bound (readConnectResponseHead stream limits))

def arriving (data : Str) : BufReader := ⟨[], .atOnce data .closed⟩

/-- The version is not looked at, so a status line of another protocol is read. -/
theorem not_readsStrictHeads : ¬ ∀ limits stream, ReadsStrictHeads limits stream := by
  intro hReads
  have hRead : readConnectResponseHead (arriving (utf8 "ICY 200 OK\r\n\r\n")) .default =
      (.ready (.ok ⟨200, [], some (utf8 "OK")⟩), arriving []) := rfl
  obtain ⟨statusLine, lines, hStatus, -, -, -, -, -, -, hData⟩ :=
    ((hReads .default (arriving (utf8 "ICY 200 OK\r\n\r\n"))).1 200 [] []).mp ⟨_, _, hRead, rfl⟩
  generalize 200 = status at hStatus
  obtain ⟨hVersion, hCode, hReason⟩ := hStatus
  have hHead : (utf8 "HTTP/").head? = some 0x48 := by decide
  have hFirst := congrArg List.head? hData
  rw [List.append_assoc, List.append_assoc, List.head?_append, hHead, Option.some_or] at hFirst
  revert hFirst
  decide

end Eggfetch.HttpConnect
