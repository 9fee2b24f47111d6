import Eggfetch.HttpConnect.Target
import Eggfetch.Proxy.Head

/-! The bounded reader of a `CONNECT` response head, and what each of its loops consumes. What is
read past the head stays in the stream. -/
namespace Eggfetch.HttpConnect
open Text Http
open Proxy (Poll IoError BufReader cr lf crlf colon splitn trimOws isOws)

structure ConnectResponseLimits where
  maxStatusLine : Nat
  maxHeaderLine : Nat
  maxHeadersBytes : Nat
  maxHeaderCount : Nat

def ConnectResponseLimits.default : ConnectResponseLimits := ⟨4096, 8192, 65536, 100⟩

structure ConnectResponseHead where
  status : Nat
  headers : List (Str × Str)
  reasonPhrase : Option Str
  deriving DecidableEq

/-- An answer of a reader, which may wait for ever, and the stream it leaves. -/
abbrev Reading (α : Type) := Poll (Except ConnectError α) × BufReader

/-- The line so far is `buf`, which may take `room` bytes more. -/
def readBoundedLineLoop (maxLen room : Nat) (buf : Str) (stream : BufReader) : Reading Str :=
  match stream.readByte with
  | (.pending, stream) => (.pending, stream)
  | (.ready (.error e), stream) => (.ready (.error (.io e.text)), stream)
  | (.ready (.ok none), stream) => (.ready (.error .unexpectedEof), stream)
  | (.ready (.ok (some byte)), stream) =>
    if byte = lf then (.ready (.ok (stripSuffix cr buf)), stream)
    else
      match room with
      | 0 => (.ready (.error (.headerLineTooLarge maxLen)), stream)
      | room + 1 => readBoundedLineLoop maxLen room (buf ++ [byte]) stream

def readBoundedLine (stream : BufReader) (maxLen : Nat) : Reading Str :=
  readBoundedLineLoop maxLen maxLen [] stream

def validateResponseHeaderName (name : Str) : Except ConnectError Unit := validateName .malformedHeader name

def parseHeaderLine (line : Str) : Except ConnectError (Str × Str) :=
  match line.idxOf? colon with
  | none => .error .malformedHeader
  | some i =>
    let name := trimOws (line.take i)
    if (Utf8.fromUtf8 name).isSome then .error .malformedHeader
    else
      match validateResponseHeaderName name with
      | .error e => .error e
      | .ok () => .ok (name, trimOws (line.drop (i + 1)))

/-- The loop over the header lines; `room` headers may still be added. -/
def readHeaders (limits : ConnectResponseLimits) (room total : Nat) (headers : List (Str × Str)) (stream : BufReader) :
    Reading (List (Str × Str)) :=
  match readBoundedLine stream limits.maxHeaderLine with
  | (.pending, stream) => (.pending, stream)
  | (.ready (.error e), stream) => (.ready (.error e), stream)
  | (.ready (.ok line), stream) =>
    if line.isEmpty then (.ready (.ok headers), stream)
    else if limits.maxHeadersBytes < total + line.length then
      (.ready (.error (.responseHeadTooLarge limits.maxHeadersBytes)), stream)
    else
      match room with
      | 0 => (.ready (.error (.tooManyHeaders limits.maxHeaderCount)), stream)
      | room + 1 =>
        match parseHeaderLine line with
        | .error e => (.ready (.error e), stream)
        | .ok header => readHeaders limits room (total + line.length) (headers ++ [header]) stream

def toStatusLineError (limits : ConnectResponseLimits) : ConnectError → ConnectError
  | .headerLineTooLarge _ => .statusLineTooLarge limits.maxStatusLine
  | other => other

/-- The status and the reason phrase; an empty phrase counts as absent. -/
def parseStatusLine (statusLine : Str) : Except ConnectError (Nat × Option Str) :=
  if statusLine.isEmpty then .error .malformedStatus
  else
    let parts := splitn 0x20 3 statusLine
    match parts[1]?.bind fun token => if (Utf8.fromUtf8 token).isSome then none else parseUnsigned 65535 token with
    | none => .error .malformedStatus
    | some status => .ok (status, parts[2]?.filter (· ≠ []))

def readConnectResponseHead (stream : BufReader) (limits : ConnectResponseLimits) : Reading ConnectResponseHead :=
  match readBoundedLine stream limits.maxStatusLine with
  | (.pending, stream) => (.pending, stream)
  | (.ready (.error e), stream) => (.ready (.error (toStatusLineError limits e)), stream)
  | (.ready (.ok statusLine), stream) =>
    match parseStatusLine statusLine with
    | .error e => (.ready (.error e), stream)
    | .ok (status, reasonPhrase) =>
      match readHeaders limits limits.maxHeaderCount 0 [] stream with
      | (.pending, stream) => (.pending, stream)
      | (.ready (.error e), stream) => (.ready (.error e), stream)
      | (.ready (.ok headers), stream) => (.ready (.ok ⟨status, headers, reasonPhrase⟩), stream)

variable {stream stream' : BufReader} {rest : Str} {limits : ConnectResponseLimits}

/-- A reader of `stream` gives nothing and takes at most `n` bytes. It waits only for a peer that
neither sends nor closes. -/
def Refuses {α : Type} (stream : BufReader) (n : Nat) : Reading α → Prop
  | (.ready (.ok _), _) => False
  | (.ready (.error _), left) => stream.data.length ≤ left.data.length + n
  | (.pending, left) => stream.inner.ending = .staysOpen ∧ stream.data.length ≤ left.data.length + n

theorem Refuses.after {α : Type} {k n : Nat} {reading : Reading α} (hEnding : stream'.inner.ending = stream.inner.ending)
    (hLength : stream.data.length ≤ stream'.data.length + k) (h : Refuses stream' n reading) :
    Refuses stream (k + n) reading := by
  obtain ⟨answer, left⟩ := reading
  cases answer with
  | pending =>
    obtain ⟨hOpen, hLeft⟩ := h
    have hSum : stream.data.length ≤ left.data.length + (k + n) := by omega
    exact ⟨hEnding ▸ hOpen, hSum⟩
  | ready result =>
    cases result with
    | ok value => exact h.elim
    | error e =>
      have hLeft : stream'.data.length ≤ left.data.length + n := h
      have hSum : stream.data.length ≤ left.data.length + (k + n) := by omega
      exact hSum

theorem Refuses.mono {α : Type} {m n : Nat} {reading : Reading α} (h : Refuses stream m reading) (hLe : m ≤ n) :
    Refuses stream n reading := by
  have hNothing : stream.data.length ≤ stream.data.length + (n - m) := Nat.le_add_right _ _
  have hSum := Refuses.after rfl hNothing h
  rwa [Nat.sub_add_cancel hLe] at hSum

private theorem readByte_end (h : stream.data = []) :
    ∃ answer stream', stream.readByte = (answer, stream') ∧ stream'.data = [] ∧
      (answer = .ready (.ok none) ∨ (∃ e, answer = .ready (.error e)) ∨
        answer = .pending ∧ stream.inner.ending = .staysOpen) := by
  obtain ⟨hBuffer, hInner⟩ := List.append_eq_nil_iff.mp h
  have hArrivals : stream.inner.arrivals.dropWhile Proxy.Arrival.isPending = [] := by
    have hData := Proxy.data_dropWhile stream.inner.arrivals
    have hHead := List.head?_dropWhile_not Proxy.Arrival.isPending stream.inner.arrivals
    rw [← Proxy.Connection.data, hInner] at hData
    cases hRest : stream.inner.arrivals.dropWhile Proxy.Arrival.isPending with
    | nil => rfl
    | cons arrival arrivals =>
      rw [hRest] at hData hHead
      cases arrival with
      | pending => cases hHead
      | bytes first more => cases hData
  have hRead : stream.inner.read BufReader.capacity =
      (Proxy.Connection.readAtEnd stream.inner.ending, ⟨[], stream.inner.ending⟩) := by
    rw [Proxy.Connection.read, Proxy.Connection.pollRead, hArrivals]
  unfold BufReader.readByte
  rw [hBuffer]
  simp only [hRead]
  cases hEnding : stream.inner.ending with
  | closed => exact ⟨_, _, rfl, rfl, .inl rfl⟩
  | aborted text => exact ⟨_, _, rfl, rfl, .inr (.inl ⟨_, rfl⟩)⟩
  | failed text => exact ⟨_, _, rfl, rfl, .inr (.inl ⟨_, rfl⟩)⟩
  | staysOpen => exact ⟨_, _, rfl, rfl, .inr (.inr ⟨rfl, rfl⟩)⟩

private theorem readBoundedLineLoop_line (maxLen room : Nat) (buf : Str) {raw : Str} (h : stream.data = raw ++ lf :: rest)
    (hLine : lf ∉ raw) (hRoom : raw.length ≤ room) :
    ∃ stream', readBoundedLineLoop maxLen room buf stream = (.ready (.ok (stripSuffix cr (buf ++ raw))), stream') ∧
      stream'.data = rest ∧ stream'.inner.ending = stream.inner.ending := by
  induction raw generalizing room buf stream with
  | nil =>
    obtain ⟨stream', hRead, hData, hEnding⟩ := BufReader.readByte_data h
    refine ⟨stream', ?_, hData, hEnding⟩
    rw [readBoundedLineLoop, hRead, List.append_nil]
    simp
  | cons b raw ih =>
    obtain ⟨hNe, hLine⟩ := List.ne_and_not_mem_of_not_mem_cons hLine
    obtain ⟨stream', hRead, hData, hEnding⟩ := BufReader.readByte_data h
    cases room with
    | zero => simp at hRoom
    | succ room =>
      have hRoom : raw.length ≤ room := Nat.le_of_succ_le_succ hRoom
      obtain ⟨last, hLoop, hLast, hSame⟩ := ih room (buf ++ [b]) hData hLine hRoom
      refine ⟨last, ?_, hLast, hSame.trans hEnding⟩
      rw [List.append_assoc, List.singleton_append] at hLoop
      rw [readBoundedLineLoop, hRead]
      simp only [hNe.symm, if_false]
      exact hLoop

private theorem readBoundedLineLoop_end (maxLen room : Nat) (buf : Str) (h : stream.data = []) :
    Refuses stream (room + 1) (readBoundedLineLoop maxLen room buf stream) := by
  obtain ⟨answer, stream', hRead, hNil, rfl | ⟨e, rfl⟩ | ⟨rfl, hOpen⟩⟩ := readByte_end h
  all_goals
    rw [readBoundedLineLoop.eq_def, hRead]
    simp [Refuses, *]

private theorem readBoundedLineLoop_cases (maxLen room : Nat) (buf : Str) (stream : BufReader) :
    (∃ raw rest, stream.data = raw ++ lf :: rest ∧ lf ∉ raw ∧ raw.length ≤ room) ∨
      Refuses stream (room + 1) (readBoundedLineLoop maxLen room buf stream) := by
  induction room generalizing buf stream with
  | zero =>
    cases hData : stream.data with
    | nil => exact .inr (readBoundedLineLoop_end maxLen 0 buf hData)
    | cons b rest =>
      obtain ⟨stream', hRead, hRest, hEnding⟩ := BufReader.readByte_data hData
      by_cases hLf : b = lf
      · exact .inl ⟨[], rest, by rw [hLf]; rfl, List.not_mem_nil, Nat.le_refl _⟩
      · right
        rw [readBoundedLineLoop, hRead]
        simp [Refuses, hData, hLf, hRest]
  | succ room ih =>
    cases hData : stream.data with
    | nil => exact .inr (readBoundedLineLoop_end maxLen (room + 1) buf hData)
    | cons b rest =>
      obtain ⟨stream', hRead, hRest, hEnding⟩ := BufReader.readByte_data hData
      by_cases hLf : b = lf
      · exact .inl ⟨[], rest, by rw [hLf]; rfl, List.not_mem_nil, Nat.zero_le _⟩
      · rcases ih (buf ++ [b]) stream' with ⟨raw, more, hMore, hRaw, hLength⟩ | hRefuses
        · refine .inl ⟨b :: raw, more, ?_, ?_, Nat.succ_le_succ hLength⟩
          · rw [← hRest, hMore]
            rfl
          · exact List.not_mem_cons_of_ne_of_not_mem (Ne.symm hLf) hRaw
        · right
          have hOne : stream.data.length ≤ stream'.data.length + 1 := by rw [hData, hRest, List.length_cons]
          have hLater := Refuses.after hEnding hOne hRefuses
          rw [readBoundedLineLoop, hRead]
          simp only [hLf, if_false]
          rwa [Nat.add_comm 1] at hLater

theorem readBoundedLine_line {maxLen : Nat} {raw : Str} (h : stream.data = raw ++ lf :: rest) (hLine : lf ∉ raw)
    (hLength : raw.length ≤ maxLen) :
    ∃ stream', readBoundedLine stream maxLen = (.ready (.ok (stripSuffix cr raw)), stream') ∧ stream'.data = rest ∧
      stream'.inner.ending = stream.inner.ending :=
  readBoundedLineLoop_line maxLen maxLen [] h hLine hLength

theorem readBoundedLine_cases (maxLen : Nat) (stream : BufReader) :
    (∃ raw rest, stream.data = raw ++ lf :: rest ∧ lf ∉ raw ∧ raw.length ≤ maxLen) ∨
      Refuses stream (maxLen + 1) (readBoundedLine stream maxLen) :=
  readBoundedLineLoop_cases maxLen maxLen [] stream

end Eggfetch.HttpConnect
