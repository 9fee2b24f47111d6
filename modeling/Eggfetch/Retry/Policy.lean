import Eggfetch.Pipeline.Request

/-! The retry policy of `retry.rs`: back-off, `Retry-After` and eligibility. The operations
on `f64`, the parser of HTTP dates and the random source are parameters. -/
namespace Eggfetch.Retry
open Text Pipeline

/-- The operations on `f64` and `Duration` that the back-off uses. -/
structure FloatOps (F : Type) where
  asSecs : Duration → F
  tryFromSecs : F → Option Duration
  mul : F → F → F
  powf : F → (exponent : Nat) → F
  lt : F → F → Bool
  isFinite : F → Bool
  min : F → F → F
  max : F → F → F
  zero : F
  oneAndHalf : F
  maxValue : F

structure BackoffPolicy (F : Type) where
  factor : F
  maxDelay : Duration
  initialDelay : Duration

def millisecond : Duration := 10 ^ 6

variable {F : Type} (ops : FloatOps F)

/-- `initial_delay * factor^exponent`, clamped to `max_delay`. -/
def BackoffPolicy.capped (backoff : BackoffPolicy F) (exponent : Nat) : Duration :=
  let raw := ops.mul (ops.asSecs backoff.initialDelay) (ops.powf backoff.factor exponent)
  let maxFloat := ops.asSecs backoff.maxDelay
  let maxSecs := if (ops.tryFromSecs maxFloat).isSome then maxFloat else ops.maxValue
  if !ops.isFinite raw || ops.lt raw ops.zero || ops.lt maxSecs raw then backoff.maxDelay
  else (ops.tryFromSecs raw).getD backoff.maxDelay

/-- Full jitter of a capped delay, with its floor; `jitter` is `none` when the random source
fails. -/
def jittered (capped : Duration) (jitter : Option F) : Duration :=
  let jitteredSecs := match jitter with
    | some jitter => ops.mul (ops.asSecs capped) jitter
    | none => ops.asSecs capped
  let finalDelay :=
    if !ops.isFinite jitteredSecs || ops.lt jitteredSecs ops.zero then capped
    else (ops.tryFromSecs jitteredSecs).getD capped
  max finalDelay (min millisecond capped)

def BackoffPolicy.delay (backoff : BackoffPolicy F) (attempt : Nat) (jitter : Option F) : Option Duration :=
  if attempt ≤ 1 then none else some (jittered ops (backoff.capped ops (attempt - 2)) jitter)

structure RetryPolicy (F : Type) where
  maxAttempts : Nat
  maxElapsed : Option Duration
  backoff : BackoffPolicy F
  methods : List Method
  statuses : List Nat
  respectRetryAfter : Bool

/-- The phases of `Error::Timeout`. -/
inductive Phase where
  | pool
  | connect
  | proxyConnect
  | proxyTls
  | read
  | write
  | total
  deriving DecidableEq, Repr

inductive DialErrorKind where
  | connection
  | timeout
  | authentication
  | rejected
  | other
  deriving DecidableEq, Repr

/-- What `is_error_retryable` tells apart of an error. -/
inductive AttemptError where
  | hyperClient (isConnect isCanceled : Bool)
  | connect
  | io
  | hyper
  | h3Connect
  | timeout (phase : Phase)
  | customTransport (kind : DialErrorKind)
  | http2StreamReset (reason : Str)
  | other (reason : Str)
  deriving DecidableEq, Repr

/-- `is_error_retryable`. -/
def AttemptError.isRetryable : AttemptError → Bool
  | .hyperClient isConnect isCanceled => isConnect || isCanceled
  | .connect | .io | .hyper | .h3Connect => true
  | .timeout phase => phase ∈ [.connect, .pool, .proxyConnect, .proxyTls]
  | .customTransport kind => kind = .connection ∨ kind = .timeout
  | .http2StreamReset reason => (utf8 "REFUSED_STREAM").isPrefixOf reason
  | .other _ => false

inductive RetryCause where
  | transportError
  | status (status : Nat)
  deriving DecidableEq, Repr

/-- `is_replayable`, and whether `try_clone_for_retry` succeeds. -/
def isReplayable : RequestBody → Bool
  | .empty | .bytes _ => true
  | .stream _ => false

namespace RetryPolicy
variable (policy : RetryPolicy F)

def isEnabled : Bool := 1 < policy.maxAttempts

/-- `should_retry` after an error. -/
def retriesError (method : Method) (body : RequestBody) (e : AttemptError) : Option RetryCause :=
  if method ∉ policy.methods then none
  else if !isReplayable body then none
  else if e.isRetryable then some .transportError else none

/-- `should_retry` after a response. -/
def retriesStatus (method : Method) (body : RequestBody) (status : Nat) : Option RetryCause :=
  if method ∉ policy.methods then none
  else if !isReplayable body then none
  else if status ∈ policy.statuses then some (.status status) else none

/-- `retry_after_delay`; `untilDate` is the time until an HTTP date that is not past. -/
def retryAfterDelay (untilDate : Str → Option Duration) (value : Str) : Option Duration :=
  if !policy.respectRetryAfter then none
  else
    let delay := match parseUnsigned (2 ^ 64 - 1) (trim value) with
      | some secs => some (secs * 10 ^ 9)
      | none => untilDate (trim value)
    delay.map (min · policy.backoff.maxDelay)

def adjust (cause : RetryCause) (base : Duration) : Duration :=
  if cause = .status 429 then
    let increased := ops.mul (ops.asSecs base) ops.oneAndHalf
    if !ops.isFinite increased || ops.lt increased ops.zero then policy.backoff.maxDelay
    else
      let capped := ops.min increased (ops.asSecs policy.backoff.maxDelay)
      (ops.tryFromSecs (ops.max capped ops.zero)).getD policy.backoff.maxDelay
  else base

def computeRetryDelay (untilDate : Str → Option Duration) (cause : RetryCause) (attempt : Nat)
    (retryAfter : Option Str) (jitter : Option F) : Option Duration :=
  match retryAfter.bind (policy.retryAfterDelay untilDate) with
  | some delay => some delay
  | none => (policy.backoff.delay ops attempt jitter).map (policy.adjust ops cause)

end RetryPolicy
end Eggfetch.Retry
