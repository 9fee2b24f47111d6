import Eggfetch.Retry.Policy

/-! The retry loop of `pipeline/retry.rs`. What happens around it is given as a list of
steps, one for each round: the readings of the clock, as the time since the send began, the
outcome of the attempt and the random draw. -/
namespace Eggfetch.Retry
open Text Pipeline

variable {F : Type}

/-- What the world does in one round. -/
structure Step (F : Type) where
  /-- At the top of the round, when the attempt starts. -/
  elapsed : Duration
  /-- The attempt's outcome, unless it still runs. -/
  outcome : Option (Except AttemptError Response)
  /-- At the check of the budget. -/
  budgetElapsed : Duration
  jitter : Option F
  /-- At the two checks before the sleep; it starts at the second. -/
  elapsedCheck : Duration
  totalCheck : Duration

/-- What the loop keeps of the request. -/
structure Saved where
  method : Method
  body : RequestBody
  timeout : Option Timeout

def shrinkTotalDeadline (timeout : Timeout) (elapsed : Duration) : Timeout :=
  { timeout with total := timeout.total.map (· - elapsed) }

structure Sleep where
  start : Duration
  delay : Duration
  deriving DecidableEq, Repr

inductive Outcome where
  | response (response : Response)
  | error (e : AttemptError)
  | retryBudgetExhausted (attempts : Nat)
  | totalTimeout (elapsed : Duration)
  | bodyNotReplayable
  /-- The last attempt still runs. -/
  | waiting

/-- An attempt: its number, when it started, the timeout of its request, and what came of
it. -/
structure Round (F : Type) where
  attempt : Nat
  elapsed : Duration
  timeout : Option Timeout
  step : Step F
  /-- The sleep after it. -/
  slept : Option Sleep

structure Trace (F : Type) where
  rounds : List (Round F)
  outcome : Outcome

/-- The policy and what it calls outside. -/
structure Env (F : Type) where
  ops : FloatOps F
  untilDate : Str → Option Duration

/-- What follows an attempt. -/
inductive Next where
  | stop (outcome : Outcome)
  | again (slept : Option Sleep)

def sleepIfBudgetAllows (policy : RetryPolicy F) (delay : Duration) (attempt : Nat)
    (total : Option Duration) (step : Step F) : Next :=
  if policy.maxElapsed.any (· < step.elapsedCheck + delay) then .stop (.retryBudgetExhausted attempt)
  else if total.any (· < step.totalCheck + delay) then .stop (.totalTimeout step.totalCheck)
  else .again (some ⟨step.totalCheck, delay⟩)

def hasBudget (policy : RetryPolicy F) (attempt : Nat) (step : Step F) : Bool :=
  attempt < policy.maxAttempts && !policy.maxElapsed.any (· ≤ step.budgetElapsed)

def pause (env : Env F) (policy : RetryPolicy F) (saved : Saved) (cause : RetryCause) (attempt : Nat)
    (retryAfter : Option Str) (step : Step F) : Next :=
  match policy.computeRetryDelay env.ops env.untilDate cause attempt retryAfter step.jitter with
  | some delay => sleepIfBudgetAllows policy delay attempt (saved.timeout.bind (·.total)) step
  | none => .again none

/-- The text of a response's `Retry-After`. -/
def retryAfter (response : Response) : Option Str :=
  (response.headers.get (utf8 "retry-after")).filter Http.isVisibleAscii

def isSuccess (status : Nat) : Bool := 200 ≤ status ∧ status < 300

/-- The cause of a retry and the `Retry-After` value, if the outcome is retried. -/
def retried (policy : RetryPolicy F) (saved : Saved) :
    Except AttemptError Response → Option (RetryCause × Option Str)
  | .ok response =>
    if isSuccess response.status then none
    else (policy.retriesStatus saved.method saved.body response.status).map (·, retryAfter response)
  | .error e => (policy.retriesError saved.method saved.body e).map (·, none)

def Outcome.of : Except AttemptError Response → Outcome
  | .ok answer => .response answer
  | .error e => .error e

def next (env : Env F) (policy : RetryPolicy F) (saved : Saved) (attempt : Nat) (step : Step F) : Next :=
  match step.outcome with
  | none => .stop .waiting
  | some outcome =>
    match retried policy saved outcome with
    | none => .stop (.of outcome)
    | some (cause, retryAfter) =>
      if !hasBudget policy attempt step then .stop (.of outcome)
      else pause env policy saved cause attempt retryAfter step

/-- The loop; `attempt` counts the attempts so far. -/
def retryLoop (env : Env F) (policy : RetryPolicy F) (saved : Saved) (attempt : Nat) :
    List (Step F) → Trace F
  | [] => ⟨[], .waiting⟩
  | step :: steps =>
    let attempt := attempt + 1
    if policy.maxAttempts < attempt then ⟨[], .retryBudgetExhausted (attempt - 1)⟩
    else if policy.maxElapsed.any (· ≤ step.elapsed) then ⟨[], .retryBudgetExhausted (attempt - 1)⟩
    else if (saved.timeout.bind (·.total)).any (· ≤ step.elapsed) then ⟨[], .totalTimeout step.elapsed⟩
    else
      let attemptTimeout := saved.timeout.map (shrinkTotalDeadline · step.elapsed)
      if (attemptTimeout.bind (·.total)) = some 0 then ⟨[], .totalTimeout step.elapsed⟩
      else if !isReplayable saved.body then ⟨[], .bodyNotReplayable⟩
      else
        match next env policy saved attempt step with
        | .stop outcome => ⟨[⟨attempt, step.elapsed, attemptTimeout, step, none⟩], outcome⟩
        | .again slept =>
          let rest := retryLoop env policy saved attempt steps
          ⟨⟨attempt, step.elapsed, attemptTimeout, step, slept⟩ :: rest.rounds, rest.outcome⟩

/-- The only attempt of a request that is not retried; it starts when the send begins. -/
def single (saved : Saved) : List (Step F) → Trace F
  | [] => ⟨[], .waiting⟩
  | step :: _ => ⟨[⟨1, 0, saved.timeout, step, none⟩], step.outcome.elim .waiting .of⟩

def loopPolicy (requestPolicy clientPolicy : Option (RetryPolicy F)) (body : RequestBody) :
    Option (RetryPolicy F) :=
  (requestPolicy <|> clientPolicy).filter fun policy => policy.isEnabled && isReplayable body

def sendWithRetry (env : Env F) (requestPolicy clientPolicy : Option (RetryPolicy F)) (saved : Saved)
    (steps : List (Step F)) : Trace F :=
  match loopPolicy requestPolicy clientPolicy saved.body with
  | some policy => retryLoop env policy saved 0 steps
  | none => single saved steps

end Eggfetch.Retry
