import Chronicle.Command.Handler

/-!
# Chronicle.Command.Execution

Carrying out a command up to its `ProcessingResult`, without recording anything. `resolve` looks the
handler up, `Execution.next` says what a handler's run does next, and `classify` turns the way in
which it ended into a result. Whatever a handler does ends in exactly one result; only a panic while
the handler is built leaves none.
-/

namespace Chronicle

/-- A handler's run. -/
structure Execution (A S : Type) where
  work : Work A S
  /-- When its current sleep ends. -/
  wakeAt : Option Nat := none
  /-- What was read for its current question, which is not answered yet. -/
  page : Option (Page A) := none

namespace Execution

variable {A S : Type}

/-- What a run does next. -/
inductive Move (A S : Type) where
  | conclude (c : Completion A)
  | goOn (e : Execution A S)
  /-- It fires its own token and goes on. -/
  | fire (e : Execution A S)
  /-- It wants to know a stream's projection. -/
  | ask (stream : StreamId) (resume : Except RuntimeError (Option S) → Execution A S)
  /-- It has read the stream, and the read model is to keep what that makes. -/
  | keep (stream : StreamId) (page : Page A)
      (resume : Except RuntimeError (Option S) → Execution A S)
  /-- Its token stops it. -/
  | interrupt
  | wait

def awaits (e : Execution A S) : Bool :=
  match e.work with
  | .sleep .. | .untilCancelled _ | .query .. => true
  | .finish _ | .checkCancel _ | .fireToken _ => false

/-- What a run does at time `now`, its token having fired or not. A token that has fired stops a run
that has to wait. Where the run awaits what is there already, either of them may come first. -/
def next (e : Execution A S) (now : Nat) (fired tokenFirst : Bool) : Move A S :=
  if fired && tokenFirst && e.awaits then .interrupt
  else
    match e.work with
    | .finish c => .conclude c
    | .sleep millis rest =>
      match e.wakeAt with
      | none => .goOn { e with wakeAt := some (now + millis) }
      | some time =>
        if time ≤ now then .goOn { work := rest } else if fired then .interrupt else .wait
    | .untilCancelled rest => if fired then .goOn { work := rest } else .wait
    | .checkCancel rest => .goOn { work := rest fired }
    | .fireToken rest => .fire { work := rest }
    | .query stream rest =>
      match e.page with
      | none => .ask stream fun answer => { work := rest answer }
      | some page => .keep stream page fun answer => { work := rest answer }

end Execution

/-- What looking a command's handler up comes to. -/
inductive Resolution (A S : Type) where
  | run (e : Execution A S)
  | refused (r : ProcessingResult A)
  /-- Building the handler panicked. -/
  | collapsed

namespace HandlerTable

variable {A S B : Type}

/-- Looks up and builds a command's handler, the token having fired or not. -/
def resolve (t : HandlerTable A S B) (c : Command B) (fired : Bool) : Resolution A S × List Note :=
  match t.find? c.type with
  | none =>
    (.refused (.unhandled c.id ("no handler registered for " ++ c.type)), [.log .noHandler])
  | some provider =>
    if fired then (.refused (.cancelled c.id "cancelled before execution"), [])
    else
      match provider with
      | .shared handle => (.run { work := handle c }, [])
      | .fresh (.ok handle) => (.run { work := handle c }, [])
      | .fresh (.error _) => (.collapsed, [])

/-- Whether looking a command's handler up builds one. -/
def builds (t : HandlerTable A S B) (c : Command B) (fired : Bool) : Bool :=
  match t.find? c.type with
  | some (.fresh _) => !fired
  | _ => false

end HandlerTable

namespace ProcessingResult

variable {A : Type}

def interrupted (id : CommandId) : ProcessingResult A := .cancelled id "cancelled during execution"

/-- The result of a handler's run. An error counts as a cancellation if it says so, or if the token
has fired. -/
def classify (id : CommandId) (fired : Bool) : Completion A → ProcessingResult A × List Note
  | .handled h => (.processed id h.events h.result, [])
  | .failed e =>
    match e.stopped? with
    | some reason => (.cancelled id reason, [])
    | none =>
      if fired then (.cancelled id ("cancelled: " ++ e.text), [])
      else (.faulted id e.fullText, [.log .handlerFailed])
  | .panicked p => (.faulted id ("handler panicked: " ++ p.message), [.log .handlerPanicked])

end ProcessingResult

end Chronicle
