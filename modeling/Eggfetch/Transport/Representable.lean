import Eggfetch.Body.Timeout

/-! The deadlines that a request computes on its way. Two places add a duration to an instant with
`+`, which aborts the task when there is no such instant; all others saturate. -/
namespace Eggfetch.Transport
open Body (Instant checkedAdd years sleep saturatingTokioNowPlus)
open Pipeline (Duration Timeout)

/-- `Duration::MAX` -/
def durationMax : Duration := (2 ^ 64 - 1) * 10 ^ 9 + 999999999

def saturatingAddInstant (instantMax base : Instant) (duration : Duration) : Instant :=
  (checkedAdd instantMax base duration).getD ((checkedAdd instantMax base (years 10)).getD base)

/-- When a request reads the clock: at the start of its preparation, for what is left of its total, at the
dispatch, when it needs a new connection, when the send begins, when the body was taken before a response
came, at the first poll of the response body, and after each chunk of it. -/
structure Moments where
  prepared : Instant
  checked : Instant
  dispatched : Instant
  connecting : Option Instant
  sending : Instant
  sent : Option Instant
  opened : Option Instant
  chunks : List Instant

inductive Route where
  | hyper
  /-- With the send that it falls back to, if there is one. -/
  | http3 (fallback : Option Moments)

def remainingTotal (timeout : Timeout) (m : Moments) : Option Duration :=
  timeout.total.map (· - (m.checked - m.prepared))

section
variable (plus : Instant → Duration → Option Instant) (instantMax : Instant) (timeout : Timeout)

/-- The sums of `send_with_read_timeout`. -/
def sendWithReadTimeoutSums (remaining : Option Duration) (m : Moments) : Option (List Instant) :=
  match m.sent, timeout.read with
  | some sentAt, some read =>
    (plus sentAt read).bind fun readDeadline =>
      match remaining with
      | some left => (plus m.sending left).map fun totalDeadline => [readDeadline, totalDeadline]
      | none => some [readDeadline]
  | _, _ => some []

/-- The sum of `send_request_inner`. -/
def sendRequestInnerSums (m : Moments) : Option (List Instant) :=
  match m.connecting, timeout.connect with
  | some started, some connect => (plus started connect).map fun deadline => [deadline]
  | _, _ => some []

/-- The total deadline of `prepare_request`, and the sleep that `send_with_total_timeout` sets up. -/
def totalDeadlines (m : Moments) : List Instant :=
  (timeout.total.map (saturatingAddInstant instantMax m.prepared)).toList ++
    ((remainingTotal timeout m).map (sleep instantMax m.dispatched)).toList

def connectDeadlines (m : Moments) : List Instant :=
  match m.connecting, timeout.connect with
  | some started, some connect => [sleep instantMax started connect]
  | _, _ => []

def bodyDeadlines (m : Moments) : List Instant :=
  match timeout.read with
  | some read => (m.opened.map (sleep instantMax · read)).toList ++ m.chunks.map (saturatingTokioNowPlus instantMax · read)
  | none => []

/-- All deadlines of a request; `none` when one of the sums aborts it. A request that has no time left is refused. -/
def Route.deadlines (m : Moments) (route : Route) : Option (List Instant) :=
  let remaining := remainingTotal timeout m
  if remaining = some 0 then some []
  else
    match route with
    | hyper =>
      (sendWithReadTimeoutSums plus timeout remaining m).map fun sums =>
        totalDeadlines instantMax timeout m ++ connectDeadlines instantMax timeout m ++ sums ++ bodyDeadlines instantMax timeout m
    | http3 fallback =>
      (sendRequestInnerSums plus timeout m).bind fun session =>
        match fallback with
        | none => some (totalDeadlines instantMax timeout m ++ session ++ bodyDeadlines instantMax timeout m)
        | some again =>
          (sendWithReadTimeoutSums plus timeout remaining again).map fun sums =>
            totalDeadlines instantMax timeout m ++ session ++ (remaining.map (sleep instantMax again.dispatched)).toList ++
              connectDeadlines instantMax timeout again ++ sums ++ bodyDeadlines instantMax timeout again

end

def saturated (instantMax base : Instant) (duration : Duration) : Option Instant :=
  some (saturatingTokioNowPlus instantMax base duration)

/-- No sum aborts the request, and what cannot be represented saturates. -/
def Saturates (instantMax : Instant) (timeout : Timeout) (m : Moments) (route : Route) : Prop :=
  route.deadlines (checkedAdd instantMax) instantMax timeout m = route.deadlines (saturated instantMax) instantMax timeout m

section
variable (instantMax : Instant) (timeout : Timeout)

/-- If the body is taken before a response comes, both limits end at instants. -/
def SendFits (remaining : Option Duration) (m : Moments) : Prop :=
  ∀ sentAt ∈ m.sent, ∀ read ∈ timeout.read, sentAt + read ≤ instantMax ∧ ∀ left ∈ remaining, m.sending + left ≤ instantMax

def SessionFits (m : Moments) : Prop := ∀ started ∈ m.connecting, ∀ connect ∈ timeout.connect, started + connect ≤ instantMax

def Route.Fits (m : Moments) (route : Route) : Prop :=
  remainingTotal timeout m = some 0 ∨
    match route with
    | hyper => SendFits instantMax timeout (remainingTotal timeout m) m
    | http3 fallback => SessionFits instantMax timeout m ∧ ∀ again ∈ fallback,
        SendFits instantMax timeout (remainingTotal timeout m) again

end

section
variable {instantMax base : Instant} {duration : Duration} {timeout : Timeout} {remaining : Option Duration} {m : Moments}

theorem checkedAdd_fits (h : base + duration ≤ instantMax) :
    checkedAdd instantMax base duration = saturated instantMax base duration := by
  have hSome : checkedAdd instantMax base duration = some (base + duration) := if_pos h
  rw [saturated, saturatingTokioNowPlus, hSome, Option.getD_some]

theorem checkedAdd_overflows (h : ¬base + duration ≤ instantMax) : checkedAdd instantMax base duration = none := if_neg h

private theorem sendSums_eq (h : SendFits instantMax timeout remaining m) :
    sendWithReadTimeoutSums (checkedAdd instantMax) timeout remaining m =
      sendWithReadTimeoutSums (saturated instantMax) timeout remaining m := by
  rw [sendWithReadTimeoutSums, sendWithReadTimeoutSums]
  split
  · rename_i sentAt read hSent hRead
    obtain ⟨hReadFits, hLeft⟩ := h sentAt hSent read hRead
    rw [checkedAdd_fits hReadFits]
    split
    · rw [checkedAdd_fits (hLeft _ rfl)]
    · rfl
  · rfl

theorem sendSums_none (h : ¬SendFits instantMax timeout remaining m) :
    sendWithReadTimeoutSums (checkedAdd instantMax) timeout remaining m = none := by
  simp only [SendFits, not_forall] at h
  obtain ⟨sentAt, hSent, read, hRead, hFits⟩ := h
  rw [sendWithReadTimeoutSums, hSent, hRead]
  dsimp only
  by_cases hReadFits : sentAt + read ≤ instantMax
  · simp only [hReadFits, true_and, not_forall] at hFits
    obtain ⟨left, hLeft, hOver⟩ := hFits
    rw [hLeft, checkedAdd_fits hReadFits, saturated, Option.bind_some]
    dsimp only
    rw [checkedAdd_overflows hOver, Option.map_none]
  · rw [checkedAdd_overflows hReadFits, Option.bind_none]

theorem sessionSums_eq (h : SessionFits instantMax timeout m) :
    sendRequestInnerSums (checkedAdd instantMax) timeout m = sendRequestInnerSums (saturated instantMax) timeout m := by
  rw [sendRequestInnerSums, sendRequestInnerSums]
  split
  · rename_i started connect hStarted hConnect
    rw [checkedAdd_fits (h started hStarted connect hConnect)]
  · rfl

private theorem sessionSums_none (h : ¬SessionFits instantMax timeout m) :
    sendRequestInnerSums (checkedAdd instantMax) timeout m = none := by
  simp only [SessionFits, not_forall] at h
  obtain ⟨started, hStarted, connect, hConnect, hOver⟩ := h
  rw [sendRequestInnerSums, hStarted, hConnect]
  dsimp only
  rw [checkedAdd_overflows hOver]
  rfl

private theorem sendSums_saturated (instantMax : Instant) (timeout : Timeout) (remaining : Option Duration) (m : Moments) :
    ∃ sums, sendWithReadTimeoutSums (saturated instantMax) timeout remaining m = some sums := by
  rw [sendWithReadTimeoutSums]
  split
  · cases remaining with
    | none => exact ⟨_, rfl⟩
    | some left => exact ⟨_, rfl⟩
  · exact ⟨_, rfl⟩

private theorem sessionSums_saturated (instantMax : Instant) (timeout : Timeout) (m : Moments) :
    ∃ sums, sendRequestInnerSums (saturated instantMax) timeout m = some sums := by
  rw [sendRequestInnerSums]
  split
  · exact ⟨_, rfl⟩
  · exact ⟨_, rfl⟩

end

/-- A request has saturated deadlines exactly if the sums that it comes to are instants. -/
theorem saturates_iff (instantMax : Instant) (timeout : Timeout) (m : Moments) (route : Route) :
    Saturates instantMax timeout m route ↔ route.Fits instantMax timeout m := by
  unfold Saturates Route.deadlines Route.Fits
  dsimp only
  by_cases hLeft : remainingTotal timeout m = some 0
  · exact iff_of_true (by rw [if_pos hLeft, if_pos hLeft]) (.inl hLeft)
  rw [if_neg hLeft, if_neg hLeft, or_iff_right hLeft]
  cases route with
  | hyper =>
    dsimp only
    constructor
    · intro hSame
      by_contra hOver
      obtain ⟨sums, hSums⟩ := sendSums_saturated instantMax timeout (remainingTotal timeout m) m
      rw [sendSums_none hOver, hSums] at hSame
      cases hSame
    · intro hFits
      rw [sendSums_eq hFits]
  | http3 fallback =>
    dsimp only
    obtain ⟨session, hSession⟩ := sessionSums_saturated instantMax timeout m
    by_cases hOver : SessionFits instantMax timeout m
    · rw [and_iff_right hOver, sessionSums_eq hOver, hSession, Option.bind_some, Option.bind_some]
      cases fallback with
      | none => exact iff_of_true rfl fun again hAgain => by cases hAgain
      | some again =>
        obtain ⟨sums, hSums⟩ := sendSums_saturated instantMax timeout (remainingTotal timeout m) again
        constructor
        · intro hSame again' hAgain
          obtain rfl := Option.some.inj hAgain
          by_contra hSend
          dsimp only at hSame
          rw [sendSums_none hSend, hSums] at hSame
          cases hSame
        · intro hFits
          dsimp only
          rw [sendSums_eq (hFits again rfl)]
    · refine iff_of_false ?_ fun hFits => hOver hFits.1
      rw [sessionSums_none hOver, hSession, Option.bind_none, Option.bind_some]
      cases fallback with
      | none => exact fun hSame => by cases hSame
      | some again =>
        obtain ⟨sums, hSums⟩ := sendSums_saturated instantMax timeout (remainingTotal timeout m) again
        dsimp only
        rw [hSums]
        exact fun hSame => by cases hSame

def lastInstant : Instant := 2 ^ 63 * 10 ^ 9 - 1

/-- The longest read limit aborts a request whose body was taken. -/
theorem not_saturates :
    ¬ ∀ timeout m route, (∀ d ∈ timeout.read.toList ++ timeout.connect.toList ++ timeout.total.toList, d ≤ durationMax) →
      Saturates lastInstant timeout m route := by
  intro hAll
  have hSame := hAll { read := some durationMax } ⟨0, 0, 0, none, 0, some 0, none, []⟩ .hyper (by decide)
  have hAborted : Route.deadlines (checkedAdd lastInstant) lastInstant { read := some durationMax }
      ⟨0, 0, 0, none, 0, some 0, none, []⟩ .hyper = none := by decide
  have hSaturated : (Route.deadlines (saturated lastInstant) lastInstant { read := some durationMax }
      ⟨0, 0, 0, none, 0, some 0, none, []⟩ .hyper).isSome = true := by decide
  rw [Saturates, hAborted] at hSame
  rw [← hSame] at hSaturated
  cases hSaturated

end Eggfetch.Transport
