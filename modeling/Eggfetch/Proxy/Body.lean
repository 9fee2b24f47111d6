import Eggfetch.Proxy.Head

/-! The body that a caller receives against the body that the message has. The client gives on
what arrives after the head up to the end of the connection. That is the body when the
connection ends it; a length is only compared when the end is abrupt, and chunks are not
decoded. -/
namespace Eggfetch.Proxy
open Text Http

namespace ResponseStream

def data (s : ResponseStream) : Str := s.initialBuf ++ s.inner.data

def size (s : ResponseStream) : Nat := s.data.length + s.inner.arrivals.length

end ResponseStream

def Path.truncated : Path → Str → Error
  | forward => .malformedProxyResponse
  | tunnel => .body

theorem Path.pollNext_eq (path : Path) (s : ResponseStream) : path.pollNext s = s.pollNext path.truncated := by
  cases path <;> rfl

/-- How a stream ends that delivers `n` bytes in all. -/
def Path.outcome (path : Path) (ending : Ending) (expectedLen : Option Nat) (n : Nat) : Option (Except Error Unit) :=
  match ending with
  | .closed => some (.ok ())
  | .aborted text =>
    if expectedLen.any (min n u64Max < ·) then
      some (.error (path.truncated (utf8 "proxy closed connection unexpectedly: " ++ text)))
    else some (.ok ())
  | .failed text => some (.error (.body (utf8 "proxy stream read error: " ++ text)))
  | .staysOpen => none

def Path.last (path : Path) (s : ResponseStream) : Option (Except Error Unit) :=
  path.outcome s.inner.ending s.expectedLen (s.delivered + s.data.length)

theorem Path.outcome_min (path : Path) (ending : Ending) (expectedLen : Option Nat) (d n m : Nat) :
    path.outcome ending expectedLen (min (d + n) u64Max + m) = path.outcome ending expectedLen (d + (n + m)) := by
  have hmin : min (min (d + n) u64Max + m) u64Max = min (d + (n + m)) u64Max := by omega
  simp only [outcome, hmin]

/-- The bytes of a poll are the next ones of the stream. -/
structure Gives (path : Path) (s : ResponseStream) (piece : Str) (s' : ResponseStream) : Prop where
  data : s.data = piece ++ s'.data
  smaller : s'.size < s.size
  delivered : s'.delivered ≤ u64Max
  last : path.last s' = path.last s

private theorem pollNext_aborted (path : Path) (text : Str) (expectedLen : Option Nat) {delivered : Nat} (h : delivered ≤ u64Max)
    {s : ResponseStream} (hs : s = ⟨[], ⟨[], .aborted text⟩, expectedLen, delivered⟩) :
    path.pollNext s = (.ready none, s) ∧ path.last s = some (.ok ()) ∨
      ∃ e, path.pollNext s = (.ready (some (.error e)), s) ∧ path.last s = some (.error e) := by
  have hmin : min (delivered + ([] : Str).length) u64Max = delivered := by simpa using h
  have hpoll : path.pollNext s = if expectedLen.isSome && !expectedLen.any (· ≤ delivered) then
        (.ready (some (.error (path.truncated (utf8 "proxy closed connection unexpectedly: " ++ text)))), s)
      else (.ready none, s) := by
    rw [path.pollNext_eq, hs]
    rfl
  have hlast : path.last s = path.outcome (.aborted text) expectedLen (delivered + ([] : Str).length) := by rw [hs]; rfl
  simp only [Path.outcome, hmin] at hlast
  have hsame : (expectedLen.isSome && !expectedLen.any (· ≤ delivered)) = expectedLen.any (delivered < ·) := by
    cases expectedLen with
    | none => rfl
    | some n => simp [decide_not.symm]
  rw [hpoll, hlast, hsame]
  by_cases htruncated : expectedLen.any (delivered < ·) = true
  · rw [if_pos htruncated, if_pos htruncated]
    exact .inr ⟨_, rfl, rfl⟩
  · rw [if_neg htruncated, if_neg htruncated]
    exact .inl ⟨rfl, rfl⟩

/-- A poll gives bytes, waits, or finds the end. -/
theorem pollNext_cases (path : Path) (s : ResponseStream) (h : s.delivered ≤ u64Max) :
    (∃ piece s', path.pollNext s = (.ready (some (.ok piece)), s') ∧ Gives path s piece s') ∨
    (∃ s', path.pollNext s = (.pending, s') ∧ Gives path s [] s') ∨
    (s.data = [] ∧ ((∃ s', path.pollNext s = (.ready none, s') ∧ path.last s = some (.ok ())) ∨
      (∃ e s', path.pollNext s = (.ready (some (.error e)), s') ∧ path.last s = some (.error e)) ∨
      (path.pollNext s = (.pending, s) ∧ path.last s = none))) := by
  obtain ⟨initialBuf, ⟨arrivals, ending⟩, expectedLen, delivered⟩ := s
  by_cases hbuf : initialBuf = []
  · subst hbuf
    cases arrivals with
    | nil =>
      -- the end of the connection
      refine .inr (.inr ⟨rfl, ?_⟩)
      cases ending with
      | closed => exact .inl ⟨_, path.pollNext_eq _, rfl⟩
      | aborted text =>
        rcases pollNext_aborted path text expectedLen h rfl with hend | ⟨e, hend⟩
        · exact .inl ⟨_, hend⟩
        · exact .inr (.inl ⟨e, _, hend⟩)
      | failed text => exact .inr (.inl ⟨_, _, path.pollNext_eq _, rfl⟩)
      | staysOpen => exact .inr (.inr ⟨path.pollNext_eq _, rfl⟩)
    | cons arrival arrivals =>
      cases arrival with
      | pending =>
        refine .inr (.inl ⟨_, path.pollNext_eq _, rfl, ?_, h, rfl⟩)
        exact Nat.lt_succ_self _
      | bytes first more =>
        -- a piece, or its first part
        have hcut := List.take_append_drop ResponseStream.chunkSize (first :: more)
        have hleave := length_leave ((first :: more).drop ResponseStream.chunkSize) arrivals
        have hdata : (⟨[], ⟨.bytes first more :: arrivals, ending⟩, expectedLen, delivered⟩ : ResponseStream).data =
            (first :: more).take ResponseStream.chunkSize ++
              (⟨leave ((first :: more).drop ResponseStream.chunkSize) arrivals, ending⟩ : Connection).data := by
          simp only [ResponseStream.data, Connection.data, flatMap_leave, ← List.append_assoc, hcut]
          rfl
        refine .inl ⟨(first :: more).take ResponseStream.chunkSize, _, path.pollNext_eq _, hdata, ?_,
          Nat.min_le_right _ _, ?_⟩
        · have hdrop := congrArg List.length hdata
          have hpos : 0 < ((first :: more).take ResponseStream.chunkSize).length := by
            rw [List.length_take, ResponseStream.chunkSize, List.length_cons]
            omega
          rw [List.length_append] at hdrop
          simp only [ResponseStream.size]
          rw [hdrop]
          simp only [ResponseStream.deliver, ResponseStream.data, List.nil_append, List.length_cons] at hleave hpos ⊢
          omega
        · rw [Path.last, Path.last, hdata, List.length_append, ← Path.outcome_min]
          rfl
  · -- the initial buffer
    have hpos : 0 < initialBuf.length := List.length_pos_iff.mpr hbuf
    have hcut := List.take_append_drop ResponseStream.chunkSize initialBuf
    refine .inl ⟨_, _, (path.pollNext_eq _).trans (if_pos hbuf), ?_, ?_, Nat.min_le_right _ _, ?_⟩
    · simp only [ResponseStream.data, ResponseStream.deliver, ← List.append_assoc, hcut]
    · simp only [ResponseStream.size, ResponseStream.data, ResponseStream.deliver, List.length_append,
        List.length_drop, ResponseStream.chunkSize]
      omega
    · simp only [Path.last, ResponseStream.data, ResponseStream.deliver, Path.outcome_min, ← List.length_append,
        ← List.append_assoc, hcut]

section
variable {path : Path} {s : ResponseStream}

private theorem run_prefix (n : Nat) (h : s.delivered ≤ u64Max) :
    (path.run n s).1 <+: s.data ∧ ((path.run n s).2 = none ∨ path.run n s = (s.data, path.last s)) := by
  induction n generalizing s with
  | zero => exact ⟨List.nil_prefix, .inl rfl⟩
  | succ n ih =>
    rcases pollNext_cases path s h with ⟨piece, s', hpoll, hgives⟩ | ⟨s', hpoll, hgives⟩ | ⟨hdata, hend⟩
    · obtain ⟨hstart, hout⟩ := ih hgives.delivered
      simp only [Path.run, hpoll, hgives.data, ← hgives.last]
      exact ⟨(List.prefix_append_right_inj piece).mpr hstart, hout.imp_right fun heq => by rw [heq]⟩
    · obtain ⟨hstart, hout⟩ := ih hgives.delivered
      simp only [Path.run, hpoll, hgives.data, List.nil_append, ← hgives.last]
      exact ⟨hstart, hout⟩
    · rcases hend with ⟨s', hpoll, hlast⟩ | ⟨e, s', hpoll, hlast⟩ | ⟨hpoll, hlast⟩
      · simp only [Path.run, hpoll]
        exact ⟨List.nil_prefix, .inr (by rw [hdata, hlast])⟩
      · simp only [Path.run, hpoll]
        exact ⟨List.nil_prefix, .inr (by rw [hdata, hlast])⟩
      · simp only [Path.run, hpoll]
        exact ih h

private theorem run_settles {n : Nat} (h : s.delivered ≤ u64Max) (hn : s.size < n) : path.run n s = (s.data, path.last s) := by
  induction n generalizing s with
  | zero => exact absurd hn (Nat.not_lt_zero _)
  | succ n ih =>
    rcases pollNext_cases path s h with ⟨piece, s', hpoll, hgives⟩ | ⟨s', hpoll, hgives⟩ | ⟨hdata, hend⟩
    · have hrest := ih hgives.delivered (by have := hgives.smaller; omega)
      simp only [Path.run, hpoll, hrest, hgives.data, hgives.last]
    · have hrest := ih hgives.delivered (by have := hgives.smaller; omega)
      simp only [Path.run, hpoll, hrest, hgives.data, hgives.last, List.nil_append]
    · rcases hend with ⟨s', hpoll, hlast⟩ | ⟨e, s', hpoll, hlast⟩ | ⟨hpoll, hlast⟩
      · simp only [Path.run, hpoll, hdata, hlast]
      · simp only [Path.run, hpoll, hdata, hlast]
      · -- an open connection with nothing to come
        have hwaits : ∀ m, path.run m s = ([], none) := by
          intro m
          induction m with
          | zero => rfl
          | succ m ihm => simp only [Path.run, hpoll, ihm]
        rw [hwaits, hdata, hlast]

end

def Arrived.outcome (a : Arrived) (path : Path) : Option (Except Error Unit) :=
  path.outcome a.connection.ending a.head.expectedLen a.rest.length

private theorem receive_within {a : Arrived} (path : Path) (h : a.head.WithinLimits) :
    (∀ n, (path.receive n a.connection).1 <+: a.rest ∧ ((path.receive n a.connection).2 = none ∨
      path.receive n a.connection = (a.rest, a.outcome path))) ∧
    ∃ n, path.receive n a.connection = (a.rest, a.outcome path) := by
  obtain ⟨response, hrespond, -, -, buf, inner, hbody, hrest, hending⟩ := respond_ok a.data_eq h
  have hdata : response.body.data = a.rest := by rw [hbody]; exact hrest
  have hlast : path.last response.body = a.outcome path := by
    rw [Path.last, hdata, hbody]
    simp only [ResponseStream.new, Nat.zero_add, hending]
    rfl
  have hdelivered : response.body.delivered ≤ u64Max := by rw [hbody]; exact Nat.zero_le _
  have hreceive : ∀ n, path.receive n a.connection = path.run n response.body := fun n => by
    rw [Path.receive, hrespond]
  refine ⟨fun n => ?_, response.body.size + 1, ?_⟩
  · rw [hreceive, ← hdata, ← hlast]
    exact run_prefix n hdelivered
  · rw [hreceive, ← hdata, ← hlast]
    exact run_settles hdelivered (Nat.lt_succ_self _)

private theorem outcome_staysOpen {a : Arrived} (path : Path) (h : a.connection.ending = .staysOpen) : a.outcome path = none := by
  rw [Arrived.outcome, h]
  rfl

/-- Within the limits, exactness is about what follows the head and how it ends. -/
theorem bodyExact_within {a : Arrived} (path : Path) (h : a.head.WithinLimits) :
    BodyExact path a ↔ a.rest <+: a.body ∧ (a.Complete → a.rest = a.body ∧ a.outcome path = some (.ok ())) ∧
      (¬ a.Complete → a.connection.ending ≠ .staysOpen → ∃ e, a.outcome path = some (.error e)) := by
  obtain ⟨hstart, last, hlast⟩ := receive_within path h
  constructor
  · intro hexact
    refine ⟨?_, fun hcomplete => ?_, fun hshort hends => ?_⟩
    · have honly := hexact.only last
      rwa [hlast] at honly
    · obtain ⟨n, hn⟩ := hexact.complete hcomplete
      rcases (hstart n).2 with hnone | hall
      · rw [hn] at hnone
        cases hnone
      · exact Prod.mk.inj (hall.symm.trans hn)
    · obtain ⟨n, e, hn⟩ := hexact.interrupted hshort hends
      rcases (hstart n).2 with hnone | hall
      · rw [hn] at hnone
        cases hnone
      · exact ⟨e, by rw [← hn, hall]⟩
  · rintro ⟨honly, hcomplete, hinterrupted⟩
    refine ⟨fun n => (hstart n).1.trans honly, fun hdone => ⟨last, ?_⟩, fun hshort hends => ?_, fun _ hopen n => ?_⟩
    · rw [hlast, (hcomplete hdone).1, (hcomplete hdone).2]
    · obtain ⟨e, he⟩ := hinterrupted hshort hends
      exact ⟨last, e, by rw [hlast, he]⟩
    · rcases (hstart n).2 with hnone | hall
      · exact hnone
      · rw [hall, outcome_staysOpen path hopen]

private theorem bodyExact_over {a : Arrived} (path : Path) (h : ¬ a.head.WithinLimits) :
    BodyExact path a ↔ ¬ a.Complete ∧ a.connection.ending ≠ .staysOpen := by
  obtain ⟨e, hrespond⟩ := respond_error a.data_eq h
  have hreceive : ∀ n, path.receive n a.connection = ([], some (.error e)) := fun n => by
    rw [Path.receive, hrespond]
  constructor
  · intro hexact
    have hshort : ¬ a.Complete := by
      intro hcomplete
      obtain ⟨n, hn⟩ := hexact.complete hcomplete
      cases (Prod.mk.inj ((hreceive n).symm.trans hn)).2
    refine ⟨hshort, fun hopen => ?_⟩
    have hwaits := hexact.waits hshort hopen 0
    rw [hreceive] at hwaits
    cases hwaits
  · rintro ⟨hshort, hends⟩
    refine ⟨fun n => ?_, fun hcomplete => absurd hcomplete hshort, fun _ _ => ⟨0, e, ?_⟩, fun _ hopen => absurd hopen hends⟩
    · rw [hreceive]
      exact List.nil_prefix
    · rw [hreceive]

private theorem scan_length_le (state : ChunkState) (received : Str) :
    (chunkDecoder.scan state received).1.length ≤ received.length := by
  induction received generalizing state with
  | nil => exact Nat.le_refl _
  | cons b rest ih =>
    have hstep : (chunkDecoder.step state b).1.length ≤ 1 := by
      cases state with
      | data left => exact Nat.le_refl _
      | _ => exact Nat.zero_le _
    have hrest := ih (chunkDecoder.step state b).2
    rw [Transducer.scan_cons, List.length_append, List.length_cons]
    omega

private theorem dechunk_length_lt {received : Str} (h : received ≠ []) : (dechunk received).1.length < received.length := by
  obtain ⟨b, rest, rfl⟩ := List.exists_cons_of_ne_nil h
  exact Nat.lt_succ_of_le (scan_length_le _ rest)

def ExactWhen (a : Arrived) : Prop :=
  (a.head.WithinLimits ∧
    match a.head.framing, a.connection.ending with
    | .chunked, .closed => False
    | .chunked, .aborted _ => False
    | .chunked, .failed _ => a.rest = []
    | .chunked, .staysOpen => a.rest = []
    | .length n, .closed => a.rest.length = n
    | .length n, .aborted _ => a.rest.length = n ∨ (a.rest.length < n ∧ n < 2 ^ 64)
    | .length n, .failed _ => a.rest.length < n
    | .length n, .staysOpen => a.rest.length < n
    | .close, _ => True) ∨
  (¬ a.head.WithinLimits ∧ ¬ a.Complete ∧ a.connection.ending ≠ .staysOpen)

section
variable {a : Arrived} (path : Path)

theorem exact_chunked (hframing : a.head.framing = .chunked) (hlimits : a.head.WithinLimits) :
    BodyExact path a ↔ ExactWhen a := by
  have hexpected : a.head.expectedLen = none := by rw [Head.expectedLen, hframing]
  have hraw : a.rest <+: (dechunk a.rest).1 ↔ a.rest = [] := by
    refine ⟨fun hstart => ?_, fun hnil => by rw [hnil]; exact List.nil_prefix⟩
    by_contra hne
    exact absurd hstart.length_le (not_le.mpr (dechunk_length_lt hne))
  have hshort : a.rest = [] → (dechunk a.rest).2 ≠ .done := by
    intro hnil
    rw [hnil]
    exact (by intro h; cases h)
  rw [bodyExact_within path hlimits, ExactWhen]
  simp only [Arrived.body, Arrived.Complete, Arrived.outcome, hframing, hexpected, hraw, hlimits, not_true_eq_false,
    false_and, or_false, true_and]
  cases hending : a.connection.ending with
  | closed =>
    refine ⟨fun h => ?_, False.elim⟩
    obtain ⟨e, he⟩ := h.2.2 (hshort h.1) (by intro h; cases h)
    cases he
  | aborted text =>
    refine ⟨fun h => ?_, False.elim⟩
    obtain ⟨e, he⟩ := h.2.2 (hshort h.1) (by intro h; cases h)
    cases he
  | failed text => exact ⟨fun h => h.1, fun h => ⟨h, fun hdone => absurd hdone (hshort h), fun _ _ => ⟨_, rfl⟩⟩⟩
  | staysOpen => exact ⟨fun h => h.1, fun h => ⟨h, fun hdone => absurd hdone (hshort h), fun _ hne => absurd rfl hne⟩⟩

theorem exact_close (hframing : a.head.framing = .close) (hlimits : a.head.WithinLimits) :
    BodyExact path a ↔ ExactWhen a := by
  have hexpected : a.head.expectedLen = none := by rw [Head.expectedLen, hframing]
  rw [bodyExact_within path hlimits, ExactWhen]
  simp only [Arrived.body, Arrived.Complete, Arrived.outcome, hframing, hexpected, hlimits, not_true_eq_false,
    false_and, or_false, true_and, iff_true, List.prefix_refl]
  cases hending : a.connection.ending with
  | closed => exact ⟨fun _ => rfl, fun hshort => absurd trivial hshort⟩
  | aborted text => exact ⟨fun _ => rfl, fun hshort => absurd trivial hshort⟩
  | failed text => exact ⟨False.elim, fun _ _ => ⟨_, rfl⟩⟩
  | staysOpen => exact ⟨False.elim, fun _ hne => absurd rfl hne⟩

private theorem aborted_error (text : Str) {n m : Nat} (h : m < n ∧ n ≤ u64Max) :
    path.outcome (.aborted text) (if n ≤ u64Max then some n else none) m =
      some (.error (path.truncated (utf8 "proxy closed connection unexpectedly: " ++ text))) := by
  rw [if_pos h.2]
  exact if_pos (decide_eq_true (by omega))

private theorem aborted_ok (text : Str) {n m : Nat} (h : ¬ (m < n ∧ n ≤ u64Max)) :
    path.outcome (.aborted text) (if n ≤ u64Max then some n else none) m = some (.ok ()) := by
  split_ifs with hn
  · refine if_neg fun htruncated => h ⟨?_, hn⟩
    have hlt : min m u64Max < n := of_decide_eq_true htruncated
    omega
  · rfl

private theorem exact_length {n : Nat} (hframing : a.head.framing = .length n) (hlimits : a.head.WithinLimits) :
    BodyExact path a ↔ ExactWhen a := by
  have hexpected : a.head.expectedLen = if n ≤ u64Max then some n else none := by rw [Head.expectedLen, hframing]
  have hstart : a.rest <+: a.rest.take n ↔ a.rest.length ≤ n := by
    constructor
    · intro h
      have hlength := h.length_le
      rw [List.length_take] at hlength
      omega
    · intro h
      simp only [List.take_of_length_le h, List.prefix_refl]
  have hfull : a.rest.length = n → a.rest = a.rest.take n := fun h => (List.take_of_length_le h.le).symm
  rw [bodyExact_within path hlimits, ExactWhen]
  simp only [Arrived.body, Arrived.Complete, Arrived.outcome, hframing, hexpected, hstart, hlimits, not_true_eq_false,
    false_and, or_false, true_and, not_le]
  cases hending : a.connection.ending with
  | closed =>
    constructor
    · rintro ⟨hle, -, hinterrupted⟩
      by_contra hne
      obtain ⟨e, he⟩ := hinterrupted (by omega) (by intro h; cases h)
      cases he
    · intro heq
      exact ⟨heq.le, fun _ => ⟨hfull heq, rfl⟩, fun hlt => absurd hlt (by omega)⟩
  | aborted text =>
    by_cases htruncated : a.rest.length < n ∧ n ≤ u64Max
    · rw [aborted_error path text htruncated]
      refine ⟨fun _ => .inr ⟨htruncated.1, htruncated.2.trans_lt (by decide)⟩, fun _ => ?_⟩
      exact ⟨htruncated.1.le, fun hge => absurd hge (by omega), fun _ _ => ⟨_, rfl⟩⟩
    · rw [aborted_ok path text htruncated]
      constructor
      · rintro ⟨hle, -, hinterrupted⟩
        by_contra hne
        obtain ⟨e, he⟩ := hinterrupted (by omega) (by intro h; cases h)
        cases he
      · intro hwhen
        have heq : a.rest.length = n := hwhen.resolve_right fun h => htruncated ⟨h.1, Nat.le_of_lt_succ h.2⟩
        exact ⟨heq.le, fun _ => ⟨hfull heq, rfl⟩, fun hlt => absurd hlt (by omega)⟩
  | failed text =>
    constructor
    · rintro ⟨hle, hcomplete, -⟩
      by_contra hge
      cases (hcomplete (by omega)).2
    · intro hlt
      exact ⟨hlt.le, fun hge => absurd hge (by omega), fun _ _ => ⟨_, rfl⟩⟩
  | staysOpen =>
    constructor
    · rintro ⟨hle, hcomplete, -⟩
      by_contra hge
      cases (hcomplete (by omega)).2
    · intro hlt
      exact ⟨hlt.le, fun hge => absurd hge (by omega), fun _ hne => absurd rfl hne⟩

end

/-- For every response, however it arrives and on both paths: the message body is received
exactly, if and only if the connection ends it, or is still within it in the ways the client
notices. -/
theorem body_exact_iff (path : Path) (a : Arrived) : BodyExact path a ↔ ExactWhen a := by
  by_cases hlimits : a.head.WithinLimits
  · cases hframing : a.head.framing with
    | chunked => exact exact_chunked path hframing hlimits
    | length n => exact exact_length path hframing hlimits
    | close => exact exact_close path hframing hlimits
  · rw [bodyExact_over path hlimits, ExactWhen]
    simp only [hlimits, false_and, not_false_eq_true, true_and, false_or]

/-- `Content-Length: 5`, three bytes, and an orderly close. -/
def cutShort : Arrived where
  head := {
    status := 200
    reason := utf8 "OK"
    fields := [⟨utf8 "Content-Length", [0x20], utf8 "5", [], by decide, List.forall_mem_singleton.mpr rfl,
      by decide, by decide, (by intro _ h; cases h)⟩]
    status_digits := by decide
    status_body := by decide
    reason_valid := by decide
    length_once := by decide
    length_digits := by decide
    length_alone := by decide }
  rest := utf8 "abc"
  connection := .atOnce (utf8 "HTTP/1.1 200 OK\r\nContent-Length: 5\r\n\r\nabc") .closed
  data_eq := by rw [Connection.data_atOnce]; decide
  chunks_valid := (by intro h; cases h)

/-- The client takes the cut body for a complete one. -/
theorem cut_body_accepted : ¬ BodyExact .tunnel cutShort := by
  have hlimits : cutShort.head.WithinLimits := ⟨by decide, by decide, by decide, by decide⟩
  intro hexact
  obtain ⟨-, -, hinterrupted⟩ := (bodyExact_within .tunnel hlimits).mp hexact
  have hshort : ¬ cutShort.Complete := by
    change ¬ 5 ≤ 3
    decide
  obtain ⟨e, he⟩ := hinterrupted hshort (by intro h; cases h)
  cases he

end Eggfetch.Proxy
