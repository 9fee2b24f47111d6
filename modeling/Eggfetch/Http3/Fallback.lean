import Eggfetch.AltSvc.Model
import Eggfetch.Retry.Policy

/-! The HTTP/3 route of `pipeline/h3_dispatch.rs`: one attempt, and the fallback to the
standard client where that is safe. The fallback is given the whole budget again, not what
the attempt has left of it. -/
namespace Eggfetch.Http3
open Text Pipeline AltSvc Retry

/-- What `H3FailureClass::from_error` tells apart of an error. -/
inductive RouteError where
  | connect
  | h3Connect
  | timeout (phase : Phase) (elapsed : Duration)
  | h3Protocol
  | h3Stream
  | h3ConnectionClosed
  | unsupported (reason : Str)
  | other (reason : Str)
  deriving DecidableEq, Repr

/-- `H3FailureClass::from_error`. -/
def RouteError.failureClass : RouteError → H3FailureClass
  | .connect | .h3Connect | .timeout .connect _ => .connectivity
  | .h3Protocol | .h3Stream => .protocol
  | .h3ConnectionClosed => .closed
  | _ => .other

structure H3DispatchError where
  error : RouteError
  bodyCommitted : Bool
  draining : Bool
  deriving DecidableEq, Repr

namespace H3DispatchError

def failureClass (e : H3DispatchError) : H3FailureClass := e.error.failureClass

def forTotalTimeout (elapsed : Duration) : H3DispatchError := ⟨.timeout .total elapsed, false, false⟩

def safeForFallback (e : H3DispatchError) : Bool := !e.bodyCommitted

end H3DispatchError

structure H3AltTarget where
  altHost : Str
  altPort : Nat
  sniHost : Str
  generation : Option Nat
  deriving DecidableEq, Repr

/-- A future: how long it runs, unless it runs for ever, and what comes of it. -/
structure Attempt (E : Type) where
  duration : Option Duration
  outcome : Except E Response

/-- The future under `tokio::time::timeout`: when it ends, and how. -/
def Attempt.bounded {E : Type} (a : Attempt E) (budget : Option Duration) (expired : Duration → E) :
    Option (Duration × Except E Response) :=
  match budget with
  | none => a.duration.map (·, a.outcome)
  | some dur =>
    match a.duration.filter (· ≤ dur) with
    | some elapsed => some (elapsed, a.outcome)
    | none => some (dur, .error (expired dur))

/-- The arguments of `send_h3_route` that it looks at; `built` is the error of the request
builder, if it fails. -/
structure RouteCall where
  connector : Bool
  built : Option RouteError
  origin : Option AltSvcOrigin
  h3Alt : Option H3AltTarget
  body : RequestBody
  remainingTotal : Option Duration

inductive SuppressorCall where
  | recordSuccess (origin : AltSvcOrigin)
  | recordFailure (origin : AltSvcOrigin) (generation : Nat) (reason : H3FailureClass)
  deriving DecidableEq, Repr

/-- The call of `send_hyper_request`. -/
structure FallbackCall where
  start : Duration
  body : RequestBody
  remainingTotal : Option Duration

/-- A run of the route, timed from its start; `finished` is `none` when it never ends. -/
structure RouteRun where
  finished : Option (Duration × Except RouteError Response)
  suppressor : Option SuppressorCall
  fallback : Option FallbackCall

namespace RouteCall
variable (c : RouteCall)

def fallbackBody : Option RequestBody :=
  if c.h3Alt.isNone then none else (some c.body).filter isReplayable

def suppression (dispatch : H3DispatchError) : Option SuppressorCall :=
  if c.h3Alt.isSome ∧ !dispatch.draining ∧ dispatch.failureClass ≠ .other then
    c.origin.map (.recordFailure · ((c.h3Alt.bind (·.generation)).getD 0) dispatch.failureClass)
  else none

/-- The body for the fallback, if a failure is followed by one. -/
def fallsBack (dispatch : H3DispatchError) : Option RequestBody :=
  if dispatch.safeForFallback ∧ dispatch.failureClass ≠ .other then c.fallbackBody else none

end RouteCall

/-- `send_h3_route`; `h3` is the attempt and `hyper` what `send_hyper_request` would do. -/
def sendH3Route (c : RouteCall) (h3 : Attempt H3DispatchError) (hyper : Attempt RouteError) : RouteRun :=
  if !c.connector then ⟨some (0, .error (.unsupported (utf8 "HTTP/3 connector not available; ensure http3 feature is enabled"))),
    none, none⟩
  else
    match c.built with
    | some e => ⟨some (0, .error e), none, none⟩
    | none =>
      match h3.bounded c.remainingTotal .forTotalTimeout with
      | none => ⟨none, none, none⟩
      | some (elapsed, .ok response) =>
        ⟨some (elapsed, .ok response), c.origin.map .recordSuccess, none⟩
      | some (elapsed, .error dispatch) =>
        match c.fallsBack dispatch with
        | some body =>
          let fallback := hyper.bounded c.remainingTotal (.timeout .total)
          ⟨fallback.map fun (took, outcome) => (elapsed + took, outcome), c.suppression dispatch,
            some ⟨elapsed, body, c.remainingTotal⟩⟩
        | none => ⟨some (elapsed, .error dispatch.error), c.suppression dispatch, none⟩

/-- The run ends within the total, and a fallback is given at most what is left of it. -/
def RouteRun.WithinTotal (run : RouteRun) (total : Duration) : Prop :=
  (∃ finish outcome, run.finished = some (finish, outcome) ∧ finish ≤ total) ∧
    ∀ fallback ∈ run.fallback, ∃ given ∈ fallback.remainingTotal, given ≤ total - fallback.start

/-- The attempt fails after `elapsed`, in time, with a failure that the fallback follows. -/
def FailsOver (c : RouteCall) (h3 : Attempt H3DispatchError) (total elapsed : Duration) : Prop :=
  c.connector = true ∧ c.built = none ∧ h3.duration = some elapsed ∧ elapsed ≤ total ∧
    ∃ dispatch, h3.outcome = .error dispatch ∧ (c.fallsBack dispatch).isSome

section
variable {E : Type} {a : Attempt E} {total elapsed : Duration} {expired : Duration → E}

theorem bounded_of_le (hDuration : a.duration = some elapsed) (hLe : elapsed ≤ total) :
    a.bounded (some total) expired = some (elapsed, a.outcome) := by
  simp [Attempt.bounded, hDuration, Option.filter_some, hLe]

theorem bounded_of_not_le (h : ∀ elapsed, a.duration = some elapsed → ¬ elapsed ≤ total) :
    a.bounded (some total) expired = some (total, .error (expired total)) := by
  cases hDuration : a.duration with
  | none => simp [Attempt.bounded, hDuration]
  | some elapsed => simp [Attempt.bounded, hDuration, Option.filter_some, h elapsed hDuration]

private theorem bounded_le (a : Attempt E) (total : Duration) (expired : Duration → E) :
    ∃ took outcome, a.bounded (some total) expired = some (took, outcome) ∧ took ≤ total := by
  by_cases h : ∃ elapsed, a.duration = some elapsed ∧ elapsed ≤ total
  · obtain ⟨elapsed, hDuration, hLe⟩ := h
    exact ⟨elapsed, a.outcome, bounded_of_le hDuration hLe, hLe⟩
  · push Not at h
    have hNotLe : ∀ elapsed, a.duration = some elapsed → ¬ elapsed ≤ total := by
      intro elapsed hDuration
      exact Nat.not_le.mpr (h elapsed hDuration)
    exact ⟨total, _, bounded_of_not_le hNotLe, le_rfl⟩

end

section Route
variable {c : RouteCall} {h3 : Attempt H3DispatchError} {hyper : Attempt RouteError} {total elapsed : Duration}

private theorem withinTotal_of_not_failsOver (hTotal : c.remainingTotal = some total)
    (h : ∀ elapsed, ¬ FailsOver c h3 total elapsed) : (sendH3Route c h3 hyper).WithinTotal total := by
  unfold sendH3Route
  split_ifs with hConnector
  · exact ⟨⟨0, _, rfl, Nat.zero_le _⟩, by simp⟩
  · cases hBuilt : c.built with
    | some e => exact ⟨⟨0, _, rfl, Nat.zero_le _⟩, by simp⟩
    | none =>
      by_cases hInTime : ∃ elapsed, h3.duration = some elapsed ∧ elapsed ≤ total
      · obtain ⟨elapsed, hDuration, hLe⟩ := hInTime
        rw [hTotal, bounded_of_le hDuration hLe]
        cases hOutcome : h3.outcome with
        | ok response => exact ⟨⟨elapsed, _, rfl, hLe⟩, by simp⟩
        | error dispatch =>
          have hStay : c.fallsBack dispatch = none := by
            apply Option.not_isSome_iff_eq_none.mp
            intro hFallsBack
            have hConnected : c.connector = true := by simpa using hConnector
            exact h elapsed ⟨hConnected, hBuilt, hDuration, hLe, dispatch, hOutcome, hFallsBack⟩
          simp only [hStay]
          exact ⟨⟨elapsed, _, rfl, hLe⟩, by simp⟩
      · have hLate : ∀ elapsed, h3.duration = some elapsed → ¬ elapsed ≤ total := by
          intro elapsed hDuration hLe
          exact hInTime ⟨elapsed, hDuration, hLe⟩
        rw [hTotal, bounded_of_not_le hLate]
        -- an expired total is a failure that nothing follows
        have hStay : c.fallsBack (.forTotalTimeout total) = none := rfl
        simp only [hStay]
        exact ⟨⟨total, _, rfl, le_rfl⟩, by simp⟩

private theorem sendH3Route_failsOver (hTotal : c.remainingTotal = some total)
    (h : FailsOver c h3 total elapsed) :
    ∃ took outcome body suppressor, took ≤ total ∧
      sendH3Route c h3 hyper =
        ⟨some (elapsed + took, outcome), suppressor, some ⟨elapsed, body, some total⟩⟩ := by
  obtain ⟨hConnector, hBuilt, hDuration, hLe, dispatch, hOutcome, hFallsBack⟩ := h
  obtain ⟨body, hBody⟩ := Option.isSome_iff_exists.mp hFallsBack
  obtain ⟨took, outcome, hBounded, hTook⟩ := bounded_le hyper total (.timeout .total)
  refine ⟨took, outcome, body, c.suppression dispatch, hTook, ?_⟩
  simp only [sendH3Route, hConnector, hBuilt, hTotal, bounded_of_le hDuration hLe, hOutcome, hBody, hBounded]
  rfl

/-- The route keeps to its total exactly where no fallback follows an attempt that took
time. -/
theorem route_within_total_iff (c : RouteCall) (h3 : Attempt H3DispatchError) (hyper : Attempt RouteError)
    (total : Duration) (hTotal : c.remainingTotal = some total) :
    (sendH3Route c h3 hyper).WithinTotal total ↔ ∀ elapsed, FailsOver c h3 total elapsed → elapsed = 0 := by
  constructor
  · rintro ⟨-, hFallback⟩ elapsed hFails
    obtain ⟨took, outcome, body, suppressor, -, hRun⟩ := @sendH3Route_failsOver c h3 hyper total elapsed hTotal hFails
    have hLe : elapsed ≤ total := hFails.2.2.2.1
    rw [hRun] at hFallback
    obtain ⟨given, hGiven, hLeft⟩ := hFallback _ rfl
    obtain rfl : total = given := Option.some.inj hGiven
    simp only [Duration] at *
    omega
  · intro h
    by_cases hFails : ∃ elapsed, FailsOver c h3 total elapsed
    · obtain ⟨elapsed, hFails⟩ := hFails
      obtain rfl := h elapsed hFails
      obtain ⟨took, outcome, body, suppressor, hTook, hRun⟩ := @sendH3Route_failsOver c h3 hyper total 0 hTotal hFails
      rw [hRun]
      refine ⟨⟨0 + took, outcome, rfl, by simpa using hTook⟩, ?_⟩
      rintro fallback ⟨rfl⟩
      exact ⟨total, rfl, le_rfl⟩
    · push Not at hFails
      exact withinTotal_of_not_failsOver hTotal hFails

end Route

def slowCall : RouteCall where
  connector := true
  built := none
  origin := none
  h3Alt := some ⟨utf8 "alt.example.com", 443, utf8 "example.com", some 1⟩
  body := .empty
  remainingTotal := some (10 * 10 ^ 9)

def slowHandshake : Attempt H3DispatchError := ⟨some (9 * 10 ^ 9), .error ⟨.h3Connect, false, false⟩⟩

def stalled : Attempt RouteError := ⟨none, .error .connect⟩

/-- With ten seconds left the route ends after nineteen. -/
theorem fallback_restarts_total : ¬ (sendH3Route slowCall slowHandshake stalled).WithinTotal (10 * 10 ^ 9) := by
  rintro ⟨⟨finish, outcome, hFinished, hLe⟩, -⟩
  have hRun : (sendH3Route slowCall slowHandshake stalled).finished =
      some (19 * 10 ^ 9, .error (.timeout .total (10 * 10 ^ 9))) := rfl
  rw [hRun] at hFinished
  obtain ⟨rfl, -⟩ := Prod.mk.inj (Option.some.inj hFinished)
  exact absurd hLe (by decide)

theorem route_within_total_iff_example :
    (sendH3Route slowCall slowHandshake stalled).WithinTotal (10 * 10 ^ 9) ↔
      ∀ elapsed, FailsOver slowCall slowHandshake (10 * 10 ^ 9) elapsed → elapsed = 0 :=
  route_within_total_iff slowCall slowHandshake stalled (10 * 10 ^ 9) rfl

end Eggfetch.Http3
