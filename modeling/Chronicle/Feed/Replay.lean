import Chronicle.Event.Basic
import Chronicle.Retry

/-!
# Chronicle.Feed.Replay

Replaying the log from a position and then following a live stream, as a machine. It drains the log
page by page, retrying temporary failures, until a read comes back empty; from then on it passes live
events on. The live stream has to be subscribed to before the first read. What was both replayed and
delivered live is passed on once: a live event is dropped when it lies before the start or at or
below the last event passed on.

A permanent failure costs the one position. Cancellation ends a delay between two attempts and the
live phase; a read under way, and the drain as such, take no notice of it.
-/

namespace Chronicle

inductive ReplayPhase (A : Type) where
  /-- The next page is read from the cursor; attempts at it are counted from zero. -/
  | draining (cursor : Position) (attempt : Nat)
  | backingOff (cursor : Position) (attempt : Nat) (delay : Duration)
  | emitting (cursor : Position) (events : List (Event A))
  | following
  | ended

structure Replay (A : Type) where
  start : Position
  policy : RetryPolicy
  /-- The last event passed on. -/
  last : Option Position
  phase : ReplayPhase A

namespace Replay

variable {A : Type}

def new (start : Position) (policy : RetryPolicy) : Replay A :=
  ⟨start, policy, none, .draining start 0⟩

def answer (r : Replay A) (page : Page A) : Replay A × List Note :=
  match r.phase with
  | .draining cursor attempt =>
    match page with
    | .ok [] => ({ r with phase := .following }, Retry.successNotes attempt)
    | .ok events => ({ r with phase := .emitting cursor events }, Retry.successNotes attempt)
    | .error failure =>
      let verdict := Retry.afterFailure r.policy ReadFailure.isTemporary attempt failure
      match verdict with
      | .giveUp (.notRetryable _) =>
        ({ r with phase := .draining cursor.next 0 }, verdict.notes ++ [.log .replaySkipped])
      | .giveUp _ => ({ r with phase := .ended }, verdict.notes ++ [.log .replayGaveUp])
      | .again delay => ({ r with phase := .backingOff cursor attempt delay }, verdict.notes)
  | _ => (r, [])

/-- The next event of a page, if the replay is passing one on. -/
def emit? (r : Replay A) : Option (Event A × Replay A) :=
  match r.phase with
  | .emitting _ (e :: rest) =>
    some (e, { r with last := some e.position, phase := .emitting e.position.next rest })
  | _ => none

def finishPage (r : Replay A) : Replay A :=
  match r.phase with
  | .emitting cursor [] => { r with phase := .draining cursor 0 }
  | _ => r

def resume (r : Replay A) : Replay A :=
  match r.phase with
  | .backingOff cursor attempt _ => { r with phase := .draining cursor (attempt + 1) }
  | _ => r

/-- Whether a live event was passed on before or lies before the start. -/
def repeats (r : Replay A) (e : Event A) : Bool :=
  decide (e.position < r.start) || Position.reached r.last e.position

/-- A live event: it is passed on, or dropped. -/
def follow (r : Replay A) (e : Event A) : Option (Event A) × Replay A :=
  match r.phase with
  | .following =>
    if r.repeats e then (none, r) else (some e, { r with last := some e.position })
  | _ => (none, r)

def cancel (r : Replay A) : Replay A :=
  match r.phase with
  | .backingOff .. | .following => { r with phase := .ended }
  | _ => r

end Replay

end Chronicle
