import Chronicle.Poll.Strategy
import Chronicle.WakeUp

/-!
# Chronicle.Poll.Loop

The poll loop as a machine. It takes its first cursor (`opening`), then turns round: clear the
signal slot and read from the cursor (`reading`), hand out the items one by one (`emitting`), let the
strategy choose the next cursor, and rest (`resting`). Cancellation is seen before a read is begun
or while it is under way, and while resting; items that were read are handed out first.

The slot is cleared on the way into `reading`, so `begin` and `woken` return the wake-up too.
-/

namespace Chronicle

inductive PollPhase (C T : Type) where
  | opening
  | reading (cursor : C)
  | emitting (cursor : C) (items : List T) (next : C)
  | resting (cursor : C) (hot : Bool)
  | ended
  deriving DecidableEq

structure PollLoop (C T : Type) where
  strategy : Strategy C
  /-- The cursor behind an item. -/
  after : T → C
  phase : PollPhase C T

namespace PollLoop

variable {C T : Type}

def new (strategy : Strategy C) (after : T → C) : PollLoop C T := ⟨strategy, after, .opening⟩

def begin (l : PollLoop C T) (w : WakeUp) (cursor : C) : PollLoop C T × WakeUp :=
  match l.phase with
  | .opening => ({ l with phase := .reading cursor }, w.clear)
  | _ => (l, w)

def cancel (l : PollLoop C T) : PollLoop C T :=
  match l.phase with
  | .emitting .. => l
  | _ => { l with phase := .ended }

/-- Lets the strategy choose the next cursor. -/
def conclude [DecidableEq C] (l : PollLoop C T) (cursor : C) (outcome : PollOutcome C) :
    PollLoop C T × List Note :=
  let move := l.strategy.next cursor outcome
  ({ l with
      strategy := move.strategy
      phase := .resting move.cursor (decide (move.cursor ≠ cursor)) },
   move.notes)

def answer [DecidableEq C] (l : PollLoop C T) (page : Except ReadFailure (List T)) :
    PollLoop C T × List Note :=
  match l.phase with
  | .reading cursor =>
    match page with
    | .ok items =>
      match items.getLast? with
      | none => l.conclude cursor .empty
      | some last =>
        ({ l with phase := .emitting cursor items (l.after last) },
         [.metric (.batchRead items.length)])
    | .error failure =>
      let (l, notes) := l.conclude cursor (.failed failure)
      (l, .metric (.readFailed failure.isTemporary) :: .log .pollReadFailed :: notes)
  | _ => (l, [])

/-- The next item of a batch, if the loop is handing one out. -/
def emit? (l : PollLoop C T) : Option (T × PollLoop C T) :=
  match l.phase with
  | .emitting cursor (x :: rest) next => some (x, { l with phase := .emitting cursor rest next })
  | _ => none

def finishBatch [DecidableEq C] (l : PollLoop C T) : PollLoop C T × List Note :=
  match l.phase with
  | .emitting cursor [] next => l.conclude cursor (.advanced next)
  | _ => (l, [])

/-- The rest, of at most `rested`, is over. -/
def woken (l : PollLoop C T) (w : WakeUp) (rested : Duration) (reason : WakeReason) :
    PollLoop C T × WakeUp :=
  match l.phase with
  | .resting cursor hot =>
    ({ l with phase := .reading cursor }, (w.rest hot rested reason).clear)
  | _ => (l, w)

/-- Nothing more will come. -/
def isEnded (l : PollLoop C T) : Bool :=
  match l.phase with
  | .ended => true
  | _ => false

end PollLoop

end Chronicle
