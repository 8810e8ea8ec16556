import Chronicle.Broadcast
import Chronicle.Feed.Replay
import Chronicle.Poll.Loop

/-!
# Chronicle.Feed.EventStream

A stream of events for any number of subscribers. It pulls from its source between `start` and
`stop`, one pull at a time: by polling the log, from a push source, or by replaying the log in front
of another stream. A polling source remembers the position behind the last event it passed on, and
the next pull resumes there; remembering and publishing are one step, so stopping between them
cannot happen.
-/

namespace Chronicle

/-- Where an event stream pulls from. -/
inductive Source (A : Type) where
  /-- Polls the log from `next` on. With a `budget`, positions that fail for good are skipped. -/
  | polling (wakeUp : WakeUp) (next : Position) (budget : Option Nat)
  /-- Takes what is pushed into the inlet. -/
  | pushed (inlet : Broadcaster (Event A))
  /-- Replays the log from `start`, then follows the stream numbered `live`. -/
  | replaying (start : Position) (policy : RetryPolicy) (live : Nat)

structure Timer where
  due : Nat
  span : Duration
  deriving DecidableEq

/-- A pull under way. -/
inductive Pull (A : Type) where
  | polling (loop : PollLoop Position (Event A)) (timer : Option Timer)
  | pushed (subscription : Nat)
  | replaying (replay : Replay A) (subscription : Nat) (timer : Option Timer)

structure EventStream (A : Type) where
  source : Source A
  outlet : Broadcaster (Event A) := {}
  pull : Option (Pull A) := none

namespace EventStream

variable {A : Type}

/-- Polls the log from its start. -/
def polling (config : WakeUpConfig) (budget : Option Nat) (start : Position) : EventStream A :=
  { source := .polling (WakeUp.new config) start budget }

def pushed : EventStream A := { source := .pushed .new }

def replaying (start : Position) (policy : RetryPolicy) (live : Nat) : EventStream A :=
  { source := .replaying start policy live }

def isRunning (s : EventStream A) : Bool := s.pull.isSome

/-- The poll loop of a pull that is about to begin. -/
def newLoop (budget : Option Nat) : PollLoop Position (Event A) :=
  let strategy := match budget with
    | some n => .retryThenSkip n Position.next 0
    | none => .retryForever
  .new strategy fun e => e.position.next

/-- The position that a polling source resumes at. -/
def nextPosition? (s : EventStream A) : Option Position :=
  match s.source with
  | .polling _ next _ => some next
  | _ => none

/-- Passes an event on: a polling source will resume behind it, and every subscriber gets it. -/
def passOn (s : EventStream A) (e : Event A) : EventStream A :=
  { s with
    source := match s.source with
      | .polling wakeUp _ budget => .polling wakeUp e.position.next budget
      | other => other
    outlet := (s.outlet.publish e).1 }

/-- Signals the wake-up of a polling source. -/
def signal (s : EventStream A) : EventStream A :=
  match s.source with
  | .polling wakeUp next budget => { s with source := .polling wakeUp.signal next budget }
  | _ => s

def describe (s : EventStream A) : String :=
  "EventStream \x7b running: " ++ (if s.isRunning then "true" else "false") ++ ", broadcaster: "
    ++ s.outlet.describe ++ ", .. \x7d"

end EventStream

end Chronicle
