import Chronicle.Duration

/-!
# Chronicle.WakeUp

How a poll loop rests between two reads. Writers raise a signal when there is work; signals are kept
in one slot, so any number of them are one until the loop clears it. Without a signal the loop
rests for the current interval, which doubles with every idle rest up to a limit. A signal, or a
read that found something, brings it back to the shortest one.

Clearing comes before reading: a signal raised while the loop reads is still there when it rests.
-/

namespace Chronicle

/-- The shortest and the longest interval. -/
structure WakeUpConfig where
  shortest : Duration := Duration.ofMillis 10
  longest : Duration := Duration.ofSeconds 2
  deriving DecidableEq

inductive WakeReason where
  | signalled
  | timedOut
  deriving DecidableEq

/-- The slot for signals, and the interval of the next idle rest. -/
structure WakeUp where
  config : WakeUpConfig
  signalled : Bool
  current : Duration
  deriving DecidableEq

namespace WakeUp

/-- A longest interval below the shortest one counts as that. -/
def new (config : WakeUpConfig) : WakeUp :=
  ⟨{ config with longest := max config.longest config.shortest }, false, config.shortest⟩

def clear (w : WakeUp) : WakeUp := { w with signalled := false }

def signal (w : WakeUp) : WakeUp := { w with signalled := true }

/-- How long to rest at most. `hot` says that the last read moved the loop on. -/
def timeout (w : WakeUp) (hot : Bool) : Duration :=
  if hot then w.config.shortest else w.current

/-- The interval after a rest of at most `rested`. -/
def interval (w : WakeUp) (hot : Bool) (rested : Duration) (reason : WakeReason) : Duration :=
  if reason = .signalled ∨ hot then w.config.shortest else min rested.double w.config.longest

/-- After a rest. The signal stays. -/
def rest (w : WakeUp) (hot : Bool) (rested : Duration) (reason : WakeReason) : WakeUp :=
  { w with current := w.interval hot rested reason }

def cancelReason : String := "wake-up wait cancelled"

structure Rest where
  /-- `none` if it was cancelled. -/
  reason : Option WakeReason
  /-- Milliseconds that it took. -/
  elapsed : Nat
  wakeUp : WakeUp
  deriving DecidableEq

/-- Rests once, with a signal and a cancellation that come that many milliseconds after the start,
if at all. A cancellation is seen before a signal, and a signal before the timeout. -/
def restFor (w : WakeUp) (hot : Bool) (signalAt cancelAt : Option Nat) : Rest :=
  let rested := w.timeout hot
  let within (t : Option Nat) (limit : Nat) : Bool :=
    match t with
    | some t => decide (t ≤ limit)
    | none => false
  let signalAt := if w.signalled then some 0 else signalAt
  let limit := match signalAt with
    | some t => min t rested.millis
    | none => rested.millis
  if within cancelAt limit then
    let time := cancelAt.getD 0
    ⟨none, time, w⟩
  else if within signalAt rested.millis then
    let w := w.signal
    ⟨some .signalled, limit, w.rest hot rested .signalled⟩
  else ⟨some .timedOut, limit, w.rest hot rested .timedOut⟩

end WakeUp

end Chronicle
