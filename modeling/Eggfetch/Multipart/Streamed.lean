import Eggfetch.Multipart.Encode

/-! The streaming encoder over streamed parts: what it writes is what the buffer would be with
the bytes of the streams in it, up to the first stream that fails. -/
namespace Eggfetch.Multipart
open Text

variable {S : Type}

/-- `n` polls until the stream ends or fails, the bytes it gave, and its state after them. -/
inductive Yields (poll : S → Polled × S) : S → Nat → Str → Option Error → S → Prop
  | ended {s s' : S} : poll s = (.ready none, s') → Yields poll s 1 [] none s'
  | failed {s s' : S} {error : Error} : poll s = (.ready (some (.error error)), s') → Yields poll s 1 [] (some error) s'
  | chunk {s s₁ s' : S} {n : Nat} {c text : Str} {last : Option Error} :
      poll s = (.ready (some (.ok c)), s₁) → Yields poll s₁ n text last s' → Yields poll s (n + 1) (c ++ text) last s'
  | pending {s s₁ s' : S} {n : Nat} {text : Str} {last : Option Error} :
      poll s = (.pending, s₁) → Yields poll s₁ n text last s' → Yields poll s (n + 1) text last s'

namespace Yields
variable {poll : S → Polled × S} {s s₁ s' : S} {n : Nat} {text c : Str} {last : Option Error} {error : Error}

theorem pos (h : Yields poll s n text last s') : 0 < n := by
  cases h with
  | ended _ => exact Nat.one_pos
  | failed _ => exact Nat.one_pos
  | chunk _ _ => exact Nat.succ_pos _
  | pending _ _ => exact Nat.succ_pos _

theorem of_ended (hpoll : poll s = (.ready none, s₁)) (h : Yields poll s n text last s') :
    n = 1 ∧ text = [] ∧ last = none ∧ s' = s₁ := by
  cases h with
  | ended h => exact ⟨rfl, rfl, rfl, congrArg Prod.snd (h.symm.trans hpoll)⟩
  | failed h => cases h.symm.trans hpoll
  | chunk h _ => cases h.symm.trans hpoll
  | pending h _ => cases h.symm.trans hpoll

theorem of_failed (hpoll : poll s = (.ready (some (.error error)), s₁)) (h : Yields poll s n text last s') :
    n = 1 ∧ text = [] ∧ last = some error ∧ s' = s₁ := by
  cases h with
  | ended h => cases h.symm.trans hpoll
  | failed h =>
    obtain ⟨hitem, hstate⟩ := Prod.mk.inj (h.symm.trans hpoll)
    cases hitem
    exact ⟨rfl, rfl, rfl, hstate⟩
  | chunk h _ => cases h.symm.trans hpoll
  | pending h _ => cases h.symm.trans hpoll

theorem of_chunk (hpoll : poll s = (.ready (some (.ok c)), s₁)) (h : Yields poll s n text last s') :
    ∃ m rest, n = m + 1 ∧ text = c ++ rest ∧ Yields poll s₁ m rest last s' := by
  cases h with
  | ended h => cases h.symm.trans hpoll
  | failed h => cases h.symm.trans hpoll
  | chunk h hrest =>
    obtain ⟨hitem, rfl⟩ := Prod.mk.inj (h.symm.trans hpoll)
    cases hitem
    exact ⟨_, _, rfl, rfl, hrest⟩
  | pending h _ => cases h.symm.trans hpoll

theorem of_pending (hpoll : poll s = (.pending, s₁)) (h : Yields poll s n text last s') :
    ∃ m, n = m + 1 ∧ Yields poll s₁ m text last s' := by
  cases h with
  | ended h => cases h.symm.trans hpoll
  | failed h => cases h.symm.trans hpoll
  | chunk h _ => cases h.symm.trans hpoll
  | pending h hrest =>
    obtain ⟨-, rfl⟩ := Prod.mk.inj (h.symm.trans hpoll)
    exact ⟨_, rfl, hrest⟩

theorem chunk_iff (hpoll : poll s = (.ready (some (.ok c)), s₁)) :
    Yields poll s n text last s' ↔ ∃ m rest, n = m + 1 ∧ text = c ++ rest ∧ Yields poll s₁ m rest last s' := by
  refine ⟨of_chunk hpoll, ?_⟩
  rintro ⟨m, rest, rfl, rfl, h⟩
  exact .chunk hpoll h

theorem pending_iff (hpoll : poll s = (.pending, s₁)) :
    Yields poll s n text last s' ↔ ∃ m, n = m + 1 ∧ Yields poll s₁ m text last s' := by
  refine ⟨of_pending hpoll, ?_⟩
  rintro ⟨m, rfl, h⟩
  exact .pending hpoll h

private theorem of_poll_eq (hpoll : poll s = poll s₁) (h : Yields poll s n text last s') : Yields poll s₁ n text last s' := by
  cases h with
  | ended h => exact .ended (hpoll.symm.trans h)
  | failed h => exact .failed (hpoll.symm.trans h)
  | chunk h hrest => exact .chunk (hpoll.symm.trans h) hrest
  | pending h hrest => exact .pending (hpoll.symm.trans h) hrest

theorem congr (hpoll : poll s = poll s₁) : Yields poll s n text last s' ↔ Yields poll s₁ n text last s' :=
  ⟨of_poll_eq hpoll, of_poll_eq hpoll.symm⟩

end Yields

/-- Each streamed part is replaced by its collected bytes, after so many polls of the streams. -/
inductive Collected (pollStream : S → Polled × S) : List (Part S) → Nat → List (Part S) → Prop
  | nil : Collected pollStream [] 0 []
  | bytes {part : Part S} {data : Str} {rest parts : List (Part S)} {n : Nat} :
      part.body = .bytes data → Collected pollStream rest n parts → Collected pollStream (part :: rest) n (part :: parts)
  | stream {part : Part S} {s s' : S} {length : Option Nat} {m n : Nat} {data : Str} {rest parts : List (Part S)} :
      part.body = .stream s length → Yields pollStream s m data none s' → Collected pollStream rest n parts →
      Collected pollStream (part :: rest) (m + n) ({ part with body := .bytes data } :: parts)

/-- What the encoder has to write for these parts, the polls it takes, and the error it ends
with. -/
inductive Encodes (pollStream : S → Polled × S) (boundary : Str) : List (Part S) → Nat → Str → Option Error → Prop
  | nil : Encodes pollStream boundary [] 2 (finalBoundary boundary) none
  | bytes {part : Part S} {data : Str} {rest : List (Part S)} {n : Nat} {text : Str} {last : Option Error} :
      part.body = .bytes data → Encodes pollStream boundary rest n text last →
      Encodes pollStream boundary (part :: rest) (n + if data = [] then 2 else 3)
        (formatPartHeader boundary part ++ (data ++ (utf8 "\r\n" ++ text))) last
  | stream {part : Part S} {s s' : S} {length : Option Nat} {m n : Nat} {data text : Str} {rest : List (Part S)}
      {last : Option Error} :
      part.body = .stream s length → Yields pollStream s m data none s' → Encodes pollStream boundary rest n text last →
      Encodes pollStream boundary (part :: rest) (m + n + 1)
        (formatPartHeader boundary part ++ (data ++ (utf8 "\r\n" ++ text))) last
  | failed {part : Part S} {s s' : S} {length : Option Nat} {m : Nat} {data : Str} {rest : List (Part S)} {error : Error} :
      part.body = .stream s length → Yields pollStream s m data (some error) s' →
      Encodes pollStream boundary (part :: rest) (m + 1) (formatPartHeader boundary part ++ data) (some error)

namespace MultipartEncoder
variable {pollStream : S → Polled × S} {boundary text : Str} {e e' : MultipartEncoder S} {front rest : List (Part S)}
  {part : Part S} {body : PartBody S} {n : Nat} {last : Option Error}

/-- The parts in front are written, the rest is not. -/
inductive Before (boundary : Str) (e : MultipartEncoder S) (front : List (Part S)) : List (Part S) → Prop
  | part {part : Part S} {rest : List (Part S)} : AtPart e front part rest → e.boundary = boundary →
      Before boundary e front (part :: rest)
  | final : e.error = none → e.state = .finalBoundary → e.boundary = boundary → Before boundary e front []

/-- In the body of the part after those in front. -/
structure InPart (boundary : Str) (e : MultipartEncoder S) (front rest : List (Part S)) : Prop where
  parts : ∃ part, e.parts = front ++ part :: rest
  partIdx : e.partIdx = front.length
  boundary : e.boundary = boundary
  error : e.error = none

/-- The line end after a body leads to the next part. -/
theorem InPart.pollTrailingCrlf (h : InPart boundary e front rest) :
    ∃ e' front', e.pollTrailingCrlf = (.ready (some (.ok (utf8 "\r\n"))), e') ∧ Before boundary e' front' rest := by
  obtain ⟨part, hparts⟩ := h.parts
  rw [MultipartEncoder.pollTrailingCrlf]
  cases rest with
  | nil =>
    have hget : e.parts[e.partIdx + 1]? = none := by simp [hparts, h.partIdx]
    rw [hget]
    exact ⟨_, front, rfl, .final h.error rfl h.boundary⟩
  | cons next rest =>
    have hsplit : e.parts = (front ++ [part]) ++ next :: rest := by rw [hparts, List.append_assoc]; rfl
    have hget : e.parts[e.partIdx + 1]? = some next := by
      rw [hparts, h.partIdx, List.getElem?_append_right (Nat.le_succ _), Nat.succ_sub (Nat.le_refl _), Nat.sub_self]
      rfl
    rw [hget]
    refine ⟨_, front ++ [part], rfl, .part ⟨hsplit, ?_, rfl, rfl, rfl, h.error⟩ h.boundary⟩
    simp [h.partIdx]

/-- In the body of a part, of which this is left. -/
structure AtBody (boundary : Str) (e : MultipartEncoder S) (body : PartBody S) (front rest : List (Part S)) : Prop where
  inPart : InPart boundary e front rest
  state : e.state = .partBody
  body : e.body = some body

theorem pollNext_trailingCrlf (herror : e.error = none) (hstate : e.state = .trailingCrlf) :
    e.pollNext pollStream = e.pollTrailingCrlf := by
  rw [MultipartEncoder.pollNext, herror, hstate]

theorem AtBody.poll_eq (h : AtBody boundary e body front rest) : e.pollNext pollStream = e.pollPartBody pollStream := by
  rw [MultipartEncoder.pollNext, h.inPart.error, h.state]

variable (pollStream) in
private theorem AtPart.yields_iff (h : AtPart e front part rest) (hboundary : e.boundary = boundary) :
    ∃ e₁, AtBody boundary e₁ part.body front rest ∧ ∀ n text last e', Yields (pollNext pollStream) e n text last e' ↔
      ∃ m t, n = m + 1 ∧ text = formatPartHeader boundary part ++ t ∧ Yields (pollNext pollStream) e₁ m t last e' := by
  have hheader : e.pollNext pollStream =
      (.ready (some (.ok (formatPartHeader boundary part))), { e with headerPos := e.header.length }) := by
    have hpos : e.headerPos < e.header.length := by
      rw [h.headerPos, h.header]
      exact List.length_pos_of_ne_nil (formatPartHeader_ne_nil _ _)
    simp only [MultipartEncoder.pollNext, h.error, h.state, pollPartHeader, if_pos hpos]
    rw [h.headerPos, List.drop_zero, h.header, hboundary]
  have hget : e.parts[e.partIdx]? = some part := by
    rw [h.parts, h.partIdx, List.getElem?_append_right (Nat.le_refl _), Nat.sub_self]
    rfl
  -- with the header written, the next poll takes the body first
  have hbody : AtBody boundary ({ e with headerPos := e.header.length }).takeBody part.body front rest := by
    refine ⟨⟨⟨{ part with body := .bytes [] }, ?_⟩, h.partIdx, hboundary, h.error⟩, rfl, ?_⟩
    · simp only [takeBody, h.parts, h.partIdx]
      exact List.modifyTailIdx_add _ 0 front (part :: rest)
    · simp only [takeBody, hget, Option.map_some]
  have htake : ({ e with headerPos := e.header.length }).pollNext pollStream =
      ({ e with headerPos := e.header.length }).takeBody.pollNext pollStream := by
    rw [hbody.poll_eq]
    simp only [MultipartEncoder.pollNext, h.error, h.state, pollPartHeader, if_neg (Nat.lt_irrefl _)]
  refine ⟨_, hbody, fun n text last e' => ?_⟩
  rw [Yields.chunk_iff hheader]
  simp only [Yields.congr htake]

variable (pollStream) in
theorem AtBody.bytes_iff {data : Str} (h : AtBody boundary e (.bytes data) front rest) :
    ∃ e₁ front', Before boundary e₁ front' rest ∧ ∀ n text last e', Yields (pollNext pollStream) e n text last e' ↔
      ∃ m t, n = m + (if data = [] then 1 else 2) ∧ text = data ++ (utf8 "\r\n" ++ t) ∧
        Yields (pollNext pollStream) e₁ m t last e' := by
  have hpoll : e.pollNext pollStream = e.pollPartBody pollStream := h.poll_eq
  rw [pollPartBody, h.body] at hpoll
  have hin : InPart boundary { e with body := none, state := .trailingCrlf } front rest :=
    ⟨h.inPart.parts, h.inPart.partIdx, h.inPart.boundary, h.inPart.error⟩
  obtain ⟨e₁, front', hcrlf, hbefore⟩ := hin.pollTrailingCrlf
  refine ⟨e₁, front', hbefore, fun n text last e' => ?_⟩
  by_cases hempty : data = []
  · rw [hempty] at hpoll
    rw [Yields.chunk_iff (hpoll.trans hcrlf), if_pos hempty, hempty]
    rfl
  · have hnext : ({ e with body := none, state := .trailingCrlf } : MultipartEncoder S).pollNext pollStream =
        (.ready (some (.ok (utf8 "\r\n"))), e₁) := by
      rw [pollNext_trailingCrlf hin.error rfl]
      exact hcrlf
    dsimp only at hpoll
    rw [if_neg (by rwa [List.isEmpty_iff])] at hpoll
    rw [Yields.chunk_iff hpoll, if_neg hempty]
    simp only [Yields.chunk_iff hnext]
    constructor
    · rintro ⟨_, _, rfl, rfl, m, t, rfl, rfl, hrest⟩
      exact ⟨m, t, rfl, rfl, hrest⟩
    · rintro ⟨m, t, rfl, rfl, hrest⟩
      exact ⟨m + 1, _, rfl, rfl, m, t, rfl, rfl, hrest⟩

variable {outcome : Option Error} {stream stream' : S} {length : Option Nat} {m : Nat} {data : Str} {error : Error}

/-- The stream of a part goes on. -/
theorem AtBody.next (h : AtBody boundary e (.stream stream length) front rest) (stream' : S) :
    AtBody boundary { e with body := some (.stream stream' length) } (.stream stream' length) front rest :=
  ⟨⟨h.inPart.parts, h.inPart.partIdx, h.inPart.boundary, h.inPart.error⟩, h.state, rfl⟩

section
variable (h : AtBody boundary e (.stream stream length) front rest)
include h

theorem AtBody.poll_chunk {c : Str} (hs : pollStream stream = (.ready (some (.ok c)), stream')) :
    e.pollNext pollStream = (.ready (some (.ok c)), { e with body := some (.stream stream' length) }) := by
  rw [h.poll_eq, pollPartBody, h.body]
  dsimp only
  rw [hs]

theorem AtBody.poll_pending (hs : pollStream stream = (.pending, stream')) :
    e.pollNext pollStream = (.pending, { e with body := some (.stream stream' length) }) := by
  rw [h.poll_eq, pollPartBody, h.body]
  dsimp only
  rw [hs]

theorem AtBody.poll_failed (hs : pollStream stream = (.ready (some (.error error)), stream')) :
    e.pollNext pollStream = (.ready (some (.error error)), { e with body := none, state := .done }) := by
  rw [h.poll_eq, pollPartBody, h.body]
  dsimp only
  rw [hs]

private theorem AtBody.poll_ended (hs : pollStream stream = (.ready none, stream')) :
    ∃ e₁ front', e.pollNext pollStream = (.ready (some (.ok (utf8 "\r\n"))), e₁) ∧ Before boundary e₁ front' rest := by
  have hin : InPart boundary { e with body := none, state := .trailingCrlf } front rest :=
    ⟨h.inPart.parts, h.inPart.partIdx, h.inPart.boundary, h.inPart.error⟩
  rw [h.poll_eq, pollPartBody, h.body]
  dsimp only
  rw [hs]
  exact hin.pollTrailingCrlf

end

theorem AtBody.stream_iff (hstream : Yields pollStream stream m data none stream')
    (h : AtBody boundary e (.stream stream length) front rest) :
    ∃ e₁ front', Before boundary e₁ front' rest ∧ ∀ n text last e', Yields (pollNext pollStream) e n text last e' ↔
      ∃ k t, n = k + m ∧ text = data ++ (utf8 "\r\n" ++ t) ∧ Yields (pollNext pollStream) e₁ k t last e' := by
  generalize hlast : (none : Option Error) = outcome at hstream
  induction hstream generalizing e with
  | ended hs =>
    obtain ⟨e₁, front', hpoll, hbefore⟩ := h.poll_ended hs
    exact ⟨e₁, front', hbefore, fun n text last e' => Yields.chunk_iff hpoll⟩
  | failed _ => cases hlast
  | @chunk _ stream₁ _ m c data _ hs _ ih =>
    obtain ⟨e₁, front', hbefore, hiff⟩ := ih (h.next stream₁) hlast
    refine ⟨e₁, front', hbefore, fun n text last e' => ?_⟩
    simp only [Yields.chunk_iff (h.poll_chunk hs), hiff]
    constructor
    · rintro ⟨_, _, rfl, rfl, k, t, rfl, rfl, hrest⟩
      exact ⟨k, t, rfl, (List.append_assoc ..).symm, hrest⟩
    · rintro ⟨k, t, rfl, rfl, hrest⟩
      exact ⟨k + m, _, rfl, List.append_assoc .., k, t, rfl, rfl, hrest⟩
  | @pending _ stream₁ _ m data _ hs _ ih =>
    obtain ⟨e₁, front', hbefore, hiff⟩ := ih (h.next stream₁) hlast
    refine ⟨e₁, front', hbefore, fun n text last e' => ?_⟩
    simp only [Yields.pending_iff (h.poll_pending hs), hiff]
    constructor
    · rintro ⟨_, rfl, k, t, rfl, rfl, hrest⟩
      exact ⟨k, t, rfl, rfl, hrest⟩
    · rintro ⟨k, t, rfl, rfl, hrest⟩
      exact ⟨k + m, rfl, k, t, rfl, rfl, hrest⟩

theorem AtBody.failed_iff (hstream : Yields pollStream stream m data (some error) stream')
    (h : AtBody boundary e (.stream stream length) front rest) :
    (∃ e', Yields (pollNext pollStream) e n text last e') ↔ n = m ∧ text = data ∧ last = some error := by
  generalize hlast : some error = outcome at hstream
  induction hstream generalizing e n text with
  | ended hs => cases hlast
  | failed hs =>
    obtain rfl := Option.some.inj hlast
    constructor
    · rintro ⟨e', hyields⟩
      obtain ⟨hn, htext, hlast, -⟩ := hyields.of_failed (h.poll_failed hs)
      exact ⟨hn, htext, hlast⟩
    · rintro ⟨rfl, rfl, rfl⟩
      exact ⟨_, .failed (h.poll_failed hs)⟩
  | @chunk _ stream₁ _ m c data _ hs _ ih =>
    have hnext := h.next stream₁
    simp only [Yields.chunk_iff (h.poll_chunk hs)]
    constructor
    · rintro ⟨e', _, _, rfl, rfl, hrest⟩
      obtain ⟨rfl, rfl, rfl⟩ := (ih hnext hlast).mp ⟨e', hrest⟩
      exact ⟨rfl, rfl, rfl⟩
    · rintro ⟨rfl, rfl, rfl⟩
      obtain ⟨e', hrest⟩ := (ih hnext hlast).mpr ⟨rfl, rfl, rfl⟩
      exact ⟨e', m, data, rfl, rfl, hrest⟩
  | @pending _ stream₁ _ m data _ hs _ ih =>
    have hnext := h.next stream₁
    simp only [Yields.pending_iff (h.poll_pending hs)]
    constructor
    · rintro ⟨e', _, rfl, hrest⟩
      obtain ⟨rfl, rfl, rfl⟩ := (ih hnext hlast).mp ⟨e', hrest⟩
      exact ⟨rfl, rfl, rfl⟩
    · rintro ⟨rfl, rfl, rfl⟩
      obtain ⟨e', hrest⟩ := (ih hnext hlast).mpr ⟨rfl, rfl, rfl⟩
      exact ⟨e', m, rfl, hrest⟩

private theorem AtBody.stream_yields (h : AtBody boundary e (.stream stream length) front rest)
    (hyields : Yields (pollNext pollStream) e n text last e') :
    ∃ m data outcome stream', Yields pollStream stream m data outcome stream' := by
  induction n generalizing e stream text with
  | zero => exact absurd hyields.pos (Nat.lt_irrefl 0)
  | succ n ih =>
    have hnext (stream₁ : S) := h.next stream₁
    rcases hs : pollStream stream with ⟨(_ | _ | c) | _, stream₁⟩
    · exact ⟨1, [], none, stream₁, .ended hs⟩
    · exact ⟨1, [], _, stream₁, .failed hs⟩
    · obtain ⟨_, _, hn, -, hrest⟩ := hyields.of_chunk (h.poll_chunk hs)
      obtain rfl := Nat.succ.inj hn
      obtain ⟨m, data, outcome, stream₂, hstream⟩ := ih (hnext stream₁) hrest
      exact ⟨m + 1, c ++ data, outcome, stream₂, .chunk hs hstream⟩
    · obtain ⟨_, hn, hrest⟩ := hyields.of_pending (h.poll_pending hs)
      obtain rfl := Nat.succ.inj hn
      obtain ⟨m, data, outcome, stream₂, hstream⟩ := ih (hnext stream₁) hrest
      exact ⟨m + 1, data, outcome, stream₂, .pending hs hstream⟩

theorem yields_final (herror : e.error = none) (hstate : e.state = .finalBoundary) :
    (∃ e', Yields (pollNext pollStream) e n text last e') ↔
      n = 2 ∧ text = Multipart.finalBoundary e.boundary ∧ last = none := by
  have hpoll : e.pollNext pollStream =
      (.ready (some (.ok (Multipart.finalBoundary e.boundary))), { e with state := .done }) := by
    rw [pollNext, herror, hstate]
  have hend : ({ e with state := .done } : MultipartEncoder S).pollNext pollStream =
      (.ready none, { e with state := .done }) := by
    simp only [pollNext, herror]
  constructor
  · rintro ⟨e', hyields⟩
    obtain ⟨m, rest, rfl, rfl, hrest⟩ := hyields.of_chunk hpoll
    obtain ⟨rfl, rfl, rfl, -⟩ := hrest.of_ended hend
    exact ⟨rfl, List.append_nil _, rfl⟩
  · rintro ⟨rfl, rfl, rfl⟩
    have hyields := Yields.chunk hpoll (.ended hend)
    rw [List.append_nil] at hyields
    exact ⟨_, hyields⟩

theorem polls_bytes (k : Nat) (data : Str) : k + (if data = [] then 1 else 2) + 1 = k + if data = [] then 2 else 3 := by
  split
  · rfl
  · rfl

private theorem Before.yields_iff (h : Before boundary e front rest) :
    (∃ e', Yields (pollNext pollStream) e n text last e') ↔ Encodes pollStream boundary rest n text last := by
  induction rest generalizing e front n text last with
  | nil =>
    cases h with
    | final herror hstate hboundary =>
      rw [yields_final herror hstate, hboundary]
      constructor
      · rintro ⟨rfl, rfl, rfl⟩
        exact .nil
      · rintro ⟨⟩
        exact ⟨rfl, rfl, rfl⟩
  | cons part rest ih =>
    cases h with
    | part hpart hboundary =>
      obtain ⟨e₁, hbody, hheader⟩ := hpart.yields_iff pollStream hboundary
      simp only [hheader]
      constructor
      · rintro ⟨e', m, t, rfl, rfl, hyields⟩
        cases hpb : part.body with
        | bytes data =>
          obtain ⟨e₂, front', hbefore, hiff⟩ := AtBody.bytes_iff pollStream (hpb ▸ hbody)
          obtain ⟨k, t', rfl, rfl, hrest⟩ := (hiff ..).mp hyields
          rw [polls_bytes]
          exact .bytes hpb ((ih hbefore).mp ⟨e', hrest⟩)
        | stream stream length =>
          rw [hpb] at hbody
          obtain ⟨m', data, outcome, stream', hstream⟩ := hbody.stream_yields hyields
          cases outcome with
          | none =>
            obtain ⟨e₂, front', hbefore, hiff⟩ := hbody.stream_iff hstream
            obtain ⟨k, t', rfl, rfl, hrest⟩ := (hiff ..).mp hyields
            rw [Nat.add_comm k]
            exact .stream hpb hstream ((ih hbefore).mp ⟨e', hrest⟩)
          | some error =>
            obtain ⟨rfl, rfl, rfl⟩ := (hbody.failed_iff hstream).mp ⟨e', hyields⟩
            exact .failed hpb hstream
      · intro hencodes
        cases hencodes with
        | bytes hpb hrest =>
          obtain ⟨e₂, front', hbefore, hiff⟩ := AtBody.bytes_iff pollStream (hpb ▸ hbody)
          obtain ⟨e', hyields⟩ := (ih hbefore).mpr hrest
          exact ⟨e', _, _, (polls_bytes ..).symm, rfl, (hiff ..).mpr ⟨_, _, rfl, rfl, hyields⟩⟩
        | stream hpb hstream hrest =>
          obtain ⟨e₂, front', hbefore, hiff⟩ := AtBody.stream_iff hstream (hpb ▸ hbody)
          obtain ⟨e', hyields⟩ := (ih hbefore).mpr hrest
          exact ⟨e', _, _, rfl, rfl, (hiff ..).mpr ⟨_, _, Nat.add_comm .., rfl, hyields⟩⟩
        | failed hpb hstream =>
          obtain ⟨e', hyields⟩ := (AtBody.failed_iff hstream (hpb ▸ hbody)).mpr ⟨rfl, rfl, rfl⟩
          exact ⟨e', _, _, rfl, rfl, hyields⟩

theorem before_new (mp : Multipart S) : Before mp.boundary.bytes (new mp) [] mp.parts := by
  cases hparts : mp.parts with
  | nil => exact .final rfl (by simp [new, hparts]) rfl
  | cons part rest => exact .part ⟨hparts, rfl, by simp [new, hparts], by simp [new, hparts], rfl, rfl⟩ rfl

def ends : Polled → Bool
  | .ready (some (.ok _)) => false
  | .ready _ => true
  | .pending => false

/-- What a poll without an error yet to give leads to. -/
structure Settles (q : Polled × MultipartEncoder S) : Prop where
  error : q.2.error = none
  done : ends q.1 = true → q.2.state = .done

theorem settles_pollTrailingCrlf (herror : e.error = none) : Settles e.pollTrailingCrlf := by
  rw [MultipartEncoder.pollTrailingCrlf]
  refine ⟨?_, by simp [ends]⟩
  dsimp only
  split
  · exact herror
  · exact herror

theorem settles_pollPartBody (herror : e.error = none) : Settles (e.pollPartBody pollStream) := by
  rw [pollPartBody.eq_def]
  split
  · split
    · exact settles_pollTrailingCrlf herror
    · exact ⟨herror, by simp [ends]⟩
  · split
    · exact ⟨herror, by simp [ends]⟩
    · exact ⟨herror, fun _ => rfl⟩
    · exact settles_pollTrailingCrlf herror
    · exact ⟨herror, by simp [ends]⟩
  · exact settles_pollTrailingCrlf herror

variable (pollStream) in
theorem settles_pollNext (herror : e.error = none) : Settles (e.pollNext pollStream) := by
  rw [pollNext, herror]
  dsimp only
  split
  · rw [pollPartHeader]
    split
    · exact ⟨herror, by simp [ends]⟩
    · exact settles_pollPartBody herror
  · exact settles_pollPartBody herror
  · exact settles_pollTrailingCrlf herror
  · exact ⟨rfl, by simp [ends]⟩
  · rename_i hdone
    exact ⟨herror, fun _ => hdone⟩

private theorem fused (herror : e.error = none) (h : Yields (pollNext pollStream) e n text outcome e') :
    e'.pollNext pollStream = (.ready none, e') := by
  induction h with
  | ended hpoll =>
    obtain ⟨hnone, hdone⟩ := hpoll ▸ settles_pollNext pollStream herror
    rw [pollNext, hnone, hdone rfl]
  | failed hpoll =>
    obtain ⟨hnone, hdone⟩ := hpoll ▸ settles_pollNext pollStream herror
    rw [pollNext, hnone, hdone rfl]
  | chunk hpoll _ ih => exact ih (hpoll ▸ settles_pollNext pollStream herror).error
  | pending hpoll _ ih => exact ih (hpoll ▸ settles_pollNext pollStream herror).error

end MultipartEncoder

section
variable {pollStream : S → Polled × S} {boundary text data : Str} {parts rest front : List (Part S)} {part : Part S}
  {n k m : Nat} {error : Error} {s s' : S} {length : Option Nat}

def writeParts (boundary : Str) (parts : List (Part S)) : Str :=
  parts.flatMap fun part => formatPartHeader boundary part ++ bodyBytes part.body ++ utf8 "\r\n"

theorem encodes_of_collected (boundary : Str) (h : Collected pollStream parts k rest) :
    ∃ n ≤ k + 3 * parts.length + 2, Encodes pollStream boundary parts n (encodeParts boundary rest) none := by
  induction h with
  | nil => exact ⟨2, Nat.le_refl 2, .nil⟩
  | @bytes part data _ _ k hbody _ ih =>
    obtain ⟨n, hn, hencodes⟩ := ih
    refine ⟨n + if data = [] then 2 else 3, ?_, ?_⟩
    · rw [List.length_cons]
      split <;> omega
    · rw [encodeParts_cons, hbody]
      exact .bytes hbody hencodes
  | @stream part _ _ _ m k data _ _ hbody hstream _ ih =>
    obtain ⟨n, hn, hencodes⟩ := ih
    refine ⟨m + n + 1, ?_, ?_⟩
    · rw [List.length_cons]
      omega
    · rw [encodeParts_cons]
      exact .stream hbody hstream hencodes

theorem collected_of_encodes (h : Encodes pollStream boundary parts n text none) :
    ∃ k rest, Collected pollStream parts k rest ∧ text = encodeParts boundary rest ∧ n ≤ k + 3 * parts.length + 2 := by
  generalize hlast : (none : Option Error) = last at h
  induction h with
  | nil => exact ⟨0, [], .nil, rfl, Nat.le_refl 2⟩
  | @bytes part data _ n _ _ hbody _ ih =>
    obtain ⟨k, rest, hcollected, rfl, hn⟩ := ih hlast
    refine ⟨k, part :: rest, .bytes hbody hcollected, by rw [encodeParts_cons, hbody]; rfl, ?_⟩
    rw [List.length_cons]
    split <;> omega
  | @stream part _ _ _ m n data _ _ _ hbody hstream _ ih =>
    obtain ⟨k, rest, hcollected, rfl, hn⟩ := ih hlast
    refine ⟨m + k, _, .stream hbody hstream hcollected, by rw [encodeParts_cons]; rfl, ?_⟩
    rw [List.length_cons]
    omega
  | failed _ _ => cases hlast

theorem writeParts_cons (part : Part S) (parts : List (Part S)) : writeParts boundary (part :: parts) =
    formatPartHeader boundary part ++ (bodyBytes part.body ++ (utf8 "\r\n" ++ writeParts boundary parts)) := by
  simp [writeParts]

/-- What is written before a stream fails, and the polls it takes at most: the parts in front
of it, its header and what it gave. -/
inductive Truncated (pollStream : S → Polled × S) (boundary : Str) : List (Part S) → Nat → Str → Error → Prop
  | intro {front written : List (Part S)} {part : Part S} (rest : List (Part S)) {k m : Nat} {s s' : S}
      {length : Option Nat} {data : Str} {error : Error} :
      Collected pollStream front k written → part.body = .stream s length → Yields pollStream s m data (some error) s' →
      Truncated pollStream boundary (front ++ part :: rest) (k + m + 3 * front.length + 1)
        (writeParts boundary written ++ (formatPartHeader boundary part ++ data)) error

theorem truncated_of_encodes (h : Encodes pollStream boundary parts n text (some error)) :
    ∃ polls ≥ n, Truncated pollStream boundary parts polls text error := by
  generalize hlast : some error = last at h
  induction h with
  | nil => cases hlast
  | @bytes part data _ n _ _ hbody _ ih =>
    obtain ⟨polls, hn, htruncated⟩ := ih hlast
    cases htruncated with
    | intro rest hcollected hfailing hfails =>
      have htruncated := @Truncated.intro S pollStream boundary _ _ _ rest _ _ _ _ _ _ _ (.bytes hbody hcollected) hfailing hfails
      rw [writeParts_cons, hbody] at htruncated
      simp only [bodyBytes, List.append_assoc] at htruncated
      refine ⟨_, ?_, htruncated⟩
      rw [List.length_cons]
      split <;> omega
  | @stream part _ _ _ m n data _ _ _ hbody hstream _ ih =>
    obtain ⟨polls, hn, htruncated⟩ := ih hlast
    cases htruncated with
    | intro rest hcollected hfailing hfails =>
      have htruncated := @Truncated.intro S pollStream boundary _ _ _ rest _ _ _ _ _ _ _ (.stream hbody hstream hcollected)
        hfailing hfails
      rw [writeParts_cons] at htruncated
      simp only [bodyBytes, List.append_assoc] at htruncated
      refine ⟨_, ?_, htruncated⟩
      rw [List.length_cons]
      omega
  | failed hbody hstream =>
    obtain rfl := Option.some.inj hlast
    exact ⟨_, by simp, .intro _ .nil hbody hstream⟩

theorem encodes_of_truncated (h : Truncated pollStream boundary parts k text error) :
    ∃ n ≤ k, Encodes pollStream boundary parts n text (some error) := by
  cases h with
  | intro rest hcollected hbody hfails =>
    induction hcollected with
    | nil => exact ⟨_, by simp, .failed hbody hfails⟩
    | @bytes head bytes _ _ k hhead _ ih =>
      obtain ⟨n, hn, hencodes⟩ := ih
      refine ⟨n + if bytes = [] then 2 else 3, ?_, ?_⟩
      · rw [List.length_cons]
        split <;> omega
      · rw [writeParts_cons, hhead]
        simp only [bodyBytes, List.append_assoc]
        exact .bytes hhead hencodes
    | @stream head _ _ _ m k bytes _ _ hhead hstream _ ih =>
      obtain ⟨n, hn, hencodes⟩ := ih
      refine ⟨m + n + 1, ?_, ?_⟩
      · rw [List.length_cons]
        omega
      · rw [writeParts_cons]
        simp only [bodyBytes, List.append_assoc]
        exact .stream hhead hstream hencodes

theorem checkedAdd_eq {a b c : Nat} (h : checkedAdd a b = some c) : c = a + b := by
  rw [checkedAdd] at h
  split at h
  · exact (Option.some.inj h).symm
  · cases h

def Declared (parts rest : List (Part S)) : Prop :=
  List.Forall₂ (fun part collected => ∀ n, part.body.len = some n → collected.body.len = some n) parts rest

theorem finalBoundary_length (boundary : Str) : (finalBoundary boundary).length = boundary.length + 6 := by
  have hopen : (utf8 "--").length = 2 := by decide
  have hclose : (utf8 "--\r\n").length = 4 := by decide
  rw [finalBoundary, List.length_append, List.length_append, hopen, hclose]
  omega

theorem foldlM_length {step : Nat → Part S → Option Nat} {start total : Nat}
    (hstep : ∀ sum part next, step sum part = some next →
      ∃ n, part.body.len = some n ∧ next = sum + (formatPartHeader boundary part).length + n + 2)
    (hcollected : Collected pollStream parts k rest) (hdeclared : Declared parts rest)
    (h : parts.foldlM step start = some total) : total + (boundary.length + 6) = start + (encodeParts boundary rest).length := by
  have hend : (utf8 "\r\n").length = 2 := by decide
  induction hcollected generalizing start with
  | nil =>
    obtain rfl := Option.some.inj h
    have hnil : encodeParts boundary ([] : List (Part S)) = finalBoundary boundary := rfl
    rw [hnil, finalBoundary_length]
  | @bytes part data _ _ _ hbody _ ih =>
    cases hdeclared with
    | cons _ hdeclared =>
      rw [List.foldlM_cons, Option.bind_eq_bind, Option.bind_eq_some_iff] at h
      obtain ⟨next, hnext, h⟩ := h
      obtain ⟨n, hlen, rfl⟩ := hstep _ _ _ hnext
      obtain rfl : data.length = n := by simpa [hbody, PartBody.len] using hlen
      rw [ih hdeclared h, encodeParts_cons, hbody]
      simp only [bodyBytes, List.length_append, hend]
      omega
  | @stream part _ _ _ _ _ data _ _ _ _ _ ih =>
    cases hdeclared with
    | cons hlength hdeclared =>
      rw [List.foldlM_cons, Option.bind_eq_bind, Option.bind_eq_some_iff] at h
      obtain ⟨next, hnext, h⟩ := h
      obtain ⟨n, hlen, rfl⟩ := hstep _ _ _ hnext
      obtain rfl : data.length = n := Option.some.inj (hlength n hlen)
      rw [ih hdeclared h, encodeParts_cons]
      have hsame : formatPartHeader boundary ({ part with body := .bytes data } : Part S) = formatPartHeader boundary part := rfl
      rw [hsame]
      simp only [bodyBytes, List.length_append, hend]
      omega

theorem contentLength_eq {mp : Multipart S} {total : Nat} (h : mp.contentLength = some total)
    (hcollected : Collected pollStream mp.parts k rest) (hdeclared : Declared mp.parts rest) :
    total = (buffered { mp with parts := rest }).length := by
  rw [contentLength, Option.bind_eq_bind, Option.bind_eq_some_iff] at h
  obtain ⟨sum, hsum, htotal⟩ := h
  rw [checkedAdd_eq htotal, foldlM_length (fun sum part next hnext => ?_) hcollected hdeclared hsum, Nat.zero_add]
  · rfl
  · simp only [Option.bind_eq_some_iff] at hnext
    obtain ⟨withHeader, hheader, n, hlen, withBody, hbody, hnext⟩ := hnext
    exact ⟨n, hlen, by rw [checkedAdd_eq hnext, checkedAdd_eq hbody, checkedAdd_eq hheader]⟩

theorem collected_isReplayable {mp : Multipart S} (h : Collected pollStream parts k rest) :
    ({ mp with parts := rest } : Multipart S).isReplayable = true := by
  rw [isReplayable, List.all_eq_true]
  induction h with
  | nil => exact fun _ hp => absurd hp List.not_mem_nil
  | bytes hbody _ ih =>
    refine List.forall_mem_cons.mpr ⟨?_, ih⟩
    rw [hbody]
    rfl
  | stream _ _ _ ih => exact List.forall_mem_cons.mpr ⟨rfl, ih⟩

end

/-- The encoder against the buffer: to its end, to an error, after either, and by length. -/
structure EncoderContract (pollStream : S → Polled × S) (mp : Multipart S) : Prop where
  complete : ∀ k parts, Collected pollStream mp.parts k parts → ∃ n ≤ k + 3 * mp.parts.length + 2, ∃ e,
    Yields (MultipartEncoder.pollNext pollStream) (.new mp) n (buffered { mp with parts }) none e
  sound : ∀ n text e, Yields (MultipartEncoder.pollNext pollStream) (.new mp) n text none e →
    ∃ k parts, Collected pollStream mp.parts k parts ∧ text = buffered { mp with parts } ∧ n ≤ k + 3 * mp.parts.length + 2
  fails : ∀ k text error, Truncated pollStream mp.boundary.bytes mp.parts k text error → ∃ n ≤ k, ∃ e,
    Yields (MultipartEncoder.pollNext pollStream) (.new mp) n text (some error) e
  failed : ∀ n text error e, Yields (MultipartEncoder.pollNext pollStream) (.new mp) n text (some error) e →
    ∃ k ≥ n, Truncated pollStream mp.boundary.bytes mp.parts k text error
  fused : ∀ n text last e, Yields (MultipartEncoder.pollNext pollStream) (.new mp) n text last e →
    e.pollNext pollStream = (.ready none, e)
  length : ∀ total k parts, mp.contentLength = some total → Collected pollStream mp.parts k parts → Declared mp.parts parts →
    total = (buffered { mp with parts }).length
  body : ∀ k parts draws, Collected pollStream mp.parts k parts → parts.any (collides mp.boundary.bytes ·.body) = false →
    intoBody { mp with parts } draws = .bytes (buffered { mp with parts })

theorem body_eq_buffered {mp : Multipart S} {draws : Nat → Vector UInt8 50} (hreplayable : mp.isReplayable = true)
    (hclear : mp.parts.any (collides mp.boundary.bytes ·.body) = false) : mp.intoBody draws = .bytes mp.buffered := by
  have hensure : mp.ensureNoBoundaryCollision draws = some mp := by
    rw [ensureNoBoundaryCollision, ensureLoop, hclear, if_neg Bool.false_ne_true]
  rw [intoBody, hensure]
  exact if_pos hreplayable

theorem encoder_contract (pollStream : S → Polled × S) (mp : Multipart S) : EncoderContract pollStream mp where
  complete k parts hcollected := by
    obtain ⟨n, hn, hencodes⟩ := encodes_of_collected mp.boundary.bytes hcollected
    exact ⟨n, hn, (MultipartEncoder.before_new mp).yields_iff.mpr hencodes⟩
  sound n text e hyields := by
    obtain ⟨k, parts, hcollected, htext, hn⟩ :=
      collected_of_encodes ((MultipartEncoder.before_new mp).yields_iff.mp ⟨e, hyields⟩)
    exact ⟨k, parts, hcollected, htext, hn⟩
  fails k text error htruncated := by
    obtain ⟨n, hn, hencodes⟩ := encodes_of_truncated htruncated
    exact ⟨n, hn, (MultipartEncoder.before_new mp).yields_iff.mpr hencodes⟩
  failed n text error e hyields := truncated_of_encodes ((MultipartEncoder.before_new mp).yields_iff.mp ⟨e, hyields⟩)
  fused n text last e := MultipartEncoder.fused rfl
  length total k parts := contentLength_eq
  body k parts draws hcollected := body_eq_buffered (collected_isReplayable hcollected)

end Eggfetch.Multipart
