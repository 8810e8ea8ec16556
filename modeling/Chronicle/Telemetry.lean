/-!
# Chronicle.Telemetry

What the runtime reports about itself: counters, one gauge, one histogram, and the warnings and
errors that it logs. Operations return their notes in order. `Telemetry.series` sums a list of notes
up to the named series that increased, `Telemetry.logLines` extracts the log.
-/

namespace Chronicle

/-- How a command's processing ended. -/
inductive OutcomeKind where
  | processed
  | unhandled
  | faulted
  | cancelled
  deriving DecidableEq

def OutcomeKind.label : OutcomeKind → String
  | .processed => "processed"
  | .unhandled => "unhandled"
  | .faulted => "faulted"
  | .cancelled => "cancelled"

/-- One measurement. -/
inductive Metric where
  /-- A poll loop read a batch of that many items. -/
  | batchRead (items : Nat)
  /-- A poll loop's read failed. -/
  | readFailed (temporary : Bool)
  /-- A poll loop skipped a cursor. -/
  | cursorSkipped
  /-- A command was submitted. -/
  | commandSubmitted
  /-- A command was processed in that many microseconds. -/
  | commandProcessed (kind : OutcomeKind) (micros : Nat)
  /-- The outcome of a command could not be written. -/
  | outcomeUnwritten
  /-- A projection was read from the log. -/
  | backfilled
  /-- A live event was folded at that position. -/
  | applied (position : Nat)
  /-- An operation is tried again. -/
  | retried
  /-- An operation succeeded after retries. -/
  | recovered
  /-- An operation used up its retries. -/
  | exhausted
  deriving DecidableEq

inductive Level where
  | warn
  | error
  deriving DecidableEq

def Level.label : Level → String
  | .warn => "WARN"
  | .error => "ERROR"

/-- The events worth a warning or an error in the log. -/
inductive Remark where
  | undecodableSkipped
  | notRetryable
  | retriesExhausted
  | retrying
  | pollReadFailed
  | cursorSkipped
  | replaySkipped
  | replayGaveUp
  | noSubscribers
  | noHandler
  | handlerFailed
  | handlerPanicked
  | eventsUnwritten
  | outcomeUnwritten
  | outcomeCheckFailed
  | loadSkipped
  | backfillFailed
  | unopenedAccount
  | recorderKept
  deriving DecidableEq

namespace Remark

def level : Remark → Level
  | .undecodableSkipped | .notRetryable | .retrying | .pollReadFailed | .noSubscribers
  | .noHandler | .outcomeCheckFailed | .loadSkipped | .unopenedAccount | .recorderKept => .warn
  | .retriesExhausted | .cursorSkipped | .replaySkipped | .replayGaveUp | .handlerFailed
  | .handlerPanicked | .eventsUnwritten | .outcomeUnwritten | .backfillFailed => .error

def message : Remark → String
  | .undecodableSkipped => "Skipping undecodable event"
  | .notRetryable => "Error is not retryable, failing immediately"
  | .retriesExhausted => "Operation failed after max retries"
  | .retrying => "Operation failed, retrying..."
  | .pollReadFailed => "Poll read failed"
  | .cursorSkipped =>
    "Skipping unreadable cursor; items at it are permanently lost to this stream"
  | .replaySkipped => "Replay skipped an unreadable position"
  | .replayGaveUp => "Replay gave up; ending stream"
  | .noSubscribers => "Command submitted with no subscribers"
  | .noHandler => "No handler registered"
  | .handlerFailed => "Handler failed"
  | .handlerPanicked => "Handler panicked"
  | .eventsUnwritten => "Failed to persist events"
  | .outcomeUnwritten => "Failed to persist CommandProcessed"
  | .outcomeCheckFailed => "Could not look for an earlier outcome write"
  | .loadSkipped => "Skipping unreadable position while loading all projections"
  | .backfillFailed => "Backfill failed while applying live event"
  | .unopenedAccount => "Balance change for an account that was never opened; dropped"
  | .recorderKept => "Metrics recorder already initialized, skipping re-initialization"

end Remark

/-- One note of the runtime about itself. -/
inductive Note where
  | metric (m : Metric)
  | log (r : Remark)
  deriving DecidableEq

namespace Telemetry

/-- A metric's type, as its exposition names it. -/
inductive SeriesType where
  | counter
  | gauge
  | histogram
  deriving DecidableEq

def SeriesType.label : SeriesType → String
  | .counter => "counter"
  | .gauge => "gauge"
  | .histogram => "histogram"

/-- Name, type and help text of every metric. -/
def catalogue : List (String × SeriesType × String) :=
  [("eventide_poll_batches_total", .counter,
      "Total number of non-empty batches read by poll loops"),
   ("eventide_poll_events_total", .counter, "Total number of events emitted by poll loops"),
   ("eventide_poll_failures_total", .counter, "Total number of failed poll reads"),
   ("eventide_poll_skips_total", .counter,
      "Total number of cursors skipped after exhausting retries"),
   ("eventide_commands_submitted_total", .counter,
      "Total number of commands submitted to command streams"),
   ("eventide_commands_processed_total", .counter,
      "Total number of processing results, by outcome"),
   ("eventide_command_duration_seconds", .histogram,
      "Time taken to process and persist a command"),
   ("eventide_command_outcome_write_failures_total", .counter,
      "Total number of CommandProcessed events that could not be written"),
   ("eventide_projection_backfills_total", .counter, "Total number of by-stream backfill reads"),
   ("eventide_projection_applied_total", .counter,
      "Total number of live events that changed a projection"),
   ("eventide_projection_high_water", .gauge, "Highest position applied by a projection cache"),
   ("eventide_retry_attempts_total", .counter, "Total number of retry attempts"),
   ("eventide_retry_successes_total", .counter,
      "Total number of operations that succeeded after retrying"),
   ("eventide_retry_exhausted_total", .counter,
      "Total number of operations that exhausted their retries")]

/-- The histogram's upper bounds: their text, and the bound in microseconds. -/
def buckets : List (String × Nat) :=
  [("0.001", 1000), ("0.005", 5000), ("0.01", 10000), ("0.025", 25000), ("0.05", 50000),
   ("0.1", 100000), ("0.25", 250000), ("0.5", 500000), ("1", 1000000), ("2.5", 2500000),
   ("5", 5000000), ("10", 10000000)]

def labelled (name label value : String) : String :=
  name ++ "\x7b" ++ label ++ "=\"" ++ value ++ "\"\x7d"

/-- The series that one measurement increases, and by how much. The histogram counts a measurement
in every bucket whose bound it does not exceed, and in the one without bound. -/
def increments : Metric → List (String × Nat)
  | .batchRead items =>
    [("eventide_poll_batches_total", 1), ("eventide_poll_events_total", items)]
  | .readFailed temporary =>
    [(labelled "eventide_poll_failures_total" "kind"
        (if temporary then "temporary" else "permanent"), 1)]
  | .cursorSkipped => [("eventide_poll_skips_total", 1)]
  | .commandSubmitted => [("eventide_commands_submitted_total", 1)]
  | .commandProcessed kind micros =>
    [(labelled "eventide_commands_processed_total" "outcome" kind.label, 1),
     ("eventide_command_duration_seconds_count", 1)]
    ++ ((buckets.filter fun b => micros ≤ b.2).map fun b =>
        (labelled "eventide_command_duration_seconds_bucket" "le" b.1, 1))
    ++ [(labelled "eventide_command_duration_seconds_bucket" "le" "+Inf", 1)]
  | .outcomeUnwritten => [("eventide_command_outcome_write_failures_total", 1)]
  | .backfilled => [("eventide_projection_backfills_total", 1)]
  | .applied _ => [("eventide_projection_applied_total", 1)]
  | .retried => [("eventide_retry_attempts_total", 1)]
  | .recovered => [("eventide_retry_successes_total", 1)]
  | .exhausted => [("eventide_retry_exhausted_total", 1)]

def metricOf (series : String) : String :=
  let base := String.ofList (series.toList.takeWhile (· != '\x7b'))
  if base == "eventide_command_duration_seconds_count"
    || base == "eventide_command_duration_seconds_bucket" then
    "eventide_command_duration_seconds"
  else base

/-- The nearest number with at most 53 significant bits, a tie going to the even one. Gauges hold
no more. -/
def toGauge (n : Nat) : Nat :=
  if n < 0x20000000000000 then n
  else
    let unit := Nat.pow 2 (n.log2 - 52)
    let low := n / unit
    let rest := n % unit
    let rounded :=
      if 2 * rest < unit then low
      else if unit < 2 * rest then low + 1
      else low + low % 2
    min (rounded * unit) 0xffffffffffffffff

def add (table : List (String × Nat)) (name : String) (n : Nat) : List (String × Nat) :=
  if table.any (·.1 == name) then
    table.map fun entry => if entry.1 == name then (name, entry.2 + n) else entry
  else table ++ [(name, n)]

def metrics (notes : List Note) : List Metric :=
  notes.filterMap fun
    | .metric m => some m
    | .log _ => none

/-- The position that the last folded live event had, if any. -/
def highWater? (notes : List Note) : Option Nat :=
  (metrics notes).reverse.findSome? fun
    | .applied position => some position
    | _ => none

/-- The series that increased, with their increase. The gauge is listed with its value as soon as it
was set. -/
def series (notes : List Note) : List (String × Nat) :=
  let counted := (metrics notes).flatMap increments
  let totals := counted.foldl (fun table entry => add table entry.1 entry.2) []
  (totals.filter fun entry => 0 < entry.2)
    ++ ((highWater? notes).map fun p => ("eventide_projection_high_water", toGauge p)).toList

/-- `series` without the histogram's buckets. -/
def summary (notes : List Note) : List (String × Nat) :=
  (series notes).filter fun entry =>
    !("eventide_command_duration_seconds_bucket".isPrefixOf entry.1)

/-- The catalogue's entries for the metrics of the given series. -/
def help (listed : List (String × Nat)) : List (String × SeriesType × String) :=
  catalogue.filter fun entry => listed.any fun s => metricOf s.1 == entry.1

def logLines (notes : List Note) : List (String × String) :=
  notes.filterMap fun
    | .log r => some (r.level.label, r.message)
    | .metric _ => none

end Telemetry

/-- The handle that installing a recorder gives. Only the first one renders the metrics. -/
structure RecorderHandle where
  installed : Bool
  deriving DecidableEq

namespace RecorderHandle

/-- Installs a recorder in a process that has one already or not. The first recorder is kept, and a
second installation is worth a warning. -/
def install (already : Bool) : RecorderHandle × List Note :=
  (⟨!already⟩, if already then [.log .recorderKept] else [])

def describe (h : RecorderHandle) : String :=
  "MetricsHandle \x7b installed: " ++ (if h.installed then "true" else "false") ++ " \x7d"

end RecorderHandle

end Chronicle
