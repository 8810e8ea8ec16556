import Chronicle.Duration
import Chronicle.Telemetry

/-!
# Chronicle.Retry

Trying a failing operation again after a delay that grows. A `RetryPolicy` says how often and after
which delays; `Retry.afterFailure` decides what follows a failed attempt, and everything that retries
goes by it.

Delays are computed in binary floating point: the factor is a power of the multiplier, the product
with the first delay is cut off at the longest delay and rounded to the nearest nanosecond, a tie
going to the even one.
-/

namespace Chronicle

structure RetryPolicy where
  maxRetries : Nat := 3
  firstDelay : Duration := Duration.ofMillis 100
  longestDelay : Duration := Duration.ofSeconds 30
  multiplier : Float := 2.0

namespace RetryPolicy

def power (base : Float) (n : Nat) : Float :=
  go base n 1.0
where
  go (base : Float) (n : Nat) (acc : Float) : Float :=
    if h : n = 0 then acc
    else
      let acc := if n % 2 = 1 then acc * base else acc
      if n / 2 = 0 then acc else go (base * base) (n / 2) acc
  termination_by n

/-- Seconds in floating point. -/
def toSeconds (d : Duration) : Float :=
  d.seconds.toUInt64.toFloat + d.subsecNanos.toUInt64.toFloat / 1000000000.0

/-- The quotient rounded to the nearest number, a tie going to the even one. -/
def divideEven (numerator denominator : Nat) : Nat :=
  let low := numerator / denominator
  let rest := numerator % denominator
  if 2 * rest < denominator then low
  else if denominator < 2 * rest then low + 1
  else low + low % 2

/-- The duration nearest to a number of seconds. Negative numbers count as zero. -/
def ofSeconds (x : Float) : Duration :=
  if x ≤ 0.0 then Duration.ofNanos 0
  else
    let bits := x.toBits.toNat
    let exponent := bits / 0x10000000000000 % 2048
    let fraction := bits % 0x10000000000000
    let significand := if exponent = 0 then fraction else fraction + 0x10000000000000
    let scale := if exponent = 0 then 1 else exponent
    Duration.ofNanos
      (divideEven (significand * 1000000000 * Nat.pow 2 (scale - 1075)) (Nat.pow 2 (1075 - scale)))

/-- The delay after attempt `attempt`, counted from zero. -/
def delay (p : RetryPolicy) (attempt : Nat) : Duration :=
  let factor := power p.multiplier (min attempt 0x7fffffff)
  let seconds := toSeconds p.firstDelay * factor
  if seconds.isNaN || seconds.isInf || toSeconds p.longestDelay ≤ seconds then p.longestDelay
  else ofSeconds seconds

/-- Whether the two say the same. A multiplier that is no number equals none. -/
def equals (a b : RetryPolicy) : Bool :=
  a.maxRetries == b.maxRetries && a.firstDelay == b.firstDelay
    && a.longestDelay == b.longestDelay && a.multiplier == b.multiplier

end RetryPolicy

/-- Why retrying ended without success. -/
inductive RetryError (E : Type) where
  | exhausted (attempts : Nat) (last : E)
  | notRetryable (error : E)
  | cancelled
  deriving DecidableEq

namespace RetryError

variable {E : Type}

def label : RetryError E → String
  | .exhausted .. => "Exhausted"
  | .notRetryable _ => "NotRetryable"
  | .cancelled => "Cancelled"

def message (text : E → String) : RetryError E → String
  | .exhausted attempts last =>
    "Operation failed after " ++ toString attempts ++ " attempts: " ++ text last
  | .notRetryable error => "Operation failed with a non-retryable error: " ++ text error
  | .cancelled => "Retry cancelled"

def inner? : RetryError E → Option E
  | .exhausted _ last => some last
  | .notRetryable error => some error
  | .cancelled => none

end RetryError

namespace Retry

variable {T E : Type}

/-- What follows a failed attempt. -/
inductive Verdict (E : Type) where
  | giveUp (error : RetryError E)
  | again (delay : Duration)

/-- What follows when attempt `attempt`, counted from zero, failed. -/
def afterFailure (p : RetryPolicy) (retryable : E → Bool) (attempt : Nat) (error : E) :
    Verdict E :=
  if !retryable error then .giveUp (.notRetryable error)
  else if p.maxRetries ≤ attempt then .giveUp (.exhausted (attempt + 1) error)
  else .again (p.delay attempt)

/-- What retrying notes about a verdict. -/
def Verdict.notes : Verdict E → List Note
  | .giveUp (.notRetryable _) => [.log .notRetryable]
  | .giveUp (.exhausted ..) => [.metric .exhausted, .log .retriesExhausted]
  | .giveUp .cancelled => []
  | .again _ => [.metric .retried, .log .retrying]

/-- What retrying notes about a success. -/
def successNotes (attempt : Nat) : List Note :=
  if 0 < attempt then [.metric .recovered] else []

/-- One call of an operation: how long it takes in milliseconds and what it returns. -/
structure Call (T E : Type) where
  took : Nat := 0
  returns : Except E T

/-- A whole retry. -/
structure Run (T E : Type) where
  result : Except (RetryError E) T
  /-- The time of each call in milliseconds. -/
  calls : List Nat
  /-- The time at the end. -/
  finished : Nat
  notes : List Note

theorem attempt_lt_of_again {p : RetryPolicy} {retryable : E → Bool} {attempt : Nat} {error : E}
    {delay : Duration} (h : afterFailure p retryable attempt error = .again delay) :
    attempt < p.maxRetries := by
  unfold afterFailure at h
  split at h
  · cases h
  · split at h
    · cases h
    · omega

/-- Retries an operation whose calls go as scripted from time `now` on, while the token fires at
`cancelAt`, if it does. A delay that the token interrupts ends the retry; a call is never
interrupted. -/
def runFrom (p : RetryPolicy) (retryable : E → Bool) (script : Nat → Call T E)
    (cancelAt : Option Nat) (now attempt : Nat) : Run T E :=
  let call := script attempt
  let time := now + call.took
  match call.returns with
  | .ok value => ⟨.ok value, [now], time, successNotes attempt⟩
  | .error error =>
    match _h : afterFailure p retryable attempt error with
    | .giveUp e => ⟨.error e, [now], time, (Verdict.giveUp e).notes⟩
    | .again delay =>
      let due := time + delay.millis
      let notes := (Verdict.again (E := E) delay).notes
      match cancelAt.filter (· ≤ due) with
      | some t => ⟨.error .cancelled, [now], max time t, notes⟩
      | none =>
        let rest := runFrom p retryable script cancelAt due (attempt + 1)
        { rest with calls := now :: rest.calls, notes := notes ++ rest.notes }
termination_by p.maxRetries - attempt
decreasing_by have := attempt_lt_of_again _h; omega

/-- Retries an operation from time zero on. -/
def run (p : RetryPolicy) (retryable : E → Bool) (script : Nat → Call T E)
    (cancelAt : Option Nat) : Run T E :=
  runFrom p retryable script cancelAt 0 0

end Retry

end Chronicle
