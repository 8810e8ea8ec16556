import Chronicle.Command.Execution
import Chronicle.Retry

/-!
# Chronicle.Command.Job

Carrying out one command as a machine. A job executes the handler (`executing`), writes the events
of a processed command in one batch (`writing`), records the outcome (`recording`), tries that again
after delays (`backingOff`), and announces the result. Before a repeated write it may look whether
an earlier one arrived without saying so (`checking`). Each transition takes the answer of the step
that the phase stands for.

A job that does not persist ends with its execution.
-/

namespace Chronicle

inductive JobPhase (A S : Type) where
  | received
  | executing (e : Execution A S)
  /-- The events of the result are written next. -/
  | writing (r : ProcessingResult A)
  /-- The log is searched for the outcome next. Attempts are counted from zero. -/
  | checking (r : ProcessingResult A) (attempt : Nat)
  /-- The outcome is written next. -/
  | recording (r : ProcessingResult A) (attempt : Nat)
  | backingOff (r : ProcessingResult A) (attempt : Nat) (delay : Duration)
  | announcing (r : ProcessingResult A)
  | finished (r : ProcessingResult A)
  | crashed

structure Job (A S B : Type) where
  command : Command B
  /-- Events and outcome are written. -/
  persists : Bool
  phase : JobPhase A S := .received

namespace Job

variable {A S B : Type}

def result? (j : Job A S B) : Option (ProcessingResult A) :=
  match j.phase with
  | .finished r => some r
  | _ => none

/-- Nothing more will happen. -/
def isOver (j : Job A S B) : Bool :=
  match j.phase with
  | .finished _ | .crashed => true
  | _ => false

/-- The execution ended with a result. -/
def conclude (j : Job A S B) (r : ProcessingResult A) : Job A S B :=
  { j with
    phase :=
      if !j.persists then .finished r
      else if r.events.isEmpty then .recording r 0
      else .writing r }

/-- The handler is looked up. -/
def begin (j : Job A S B) (t : HandlerTable A S B) (fired : Bool) : Job A S B × List Note :=
  match j.phase with
  | .received =>
    let (resolution, notes) := t.resolve j.command fired
    match resolution with
    | .run e => ({ j with phase := .executing e }, notes)
    | .refused r => (j.conclude r, notes)
    | .collapsed => ({ j with phase := .crashed }, notes)
  | _ => (j, [])

def complete (j : Job A S B) (fired : Bool) (c : Completion A) : Job A S B × List Note :=
  let (r, notes) := ProcessingResult.classify j.command.id fired c
  (j.conclude r, notes)

def interrupt (j : Job A S B) : Job A S B := j.conclude (.interrupted j.command.id)

def eventsAnswered (j : Job A S B) (answer : Except WriteFailure (List (Event A))) :
    Job A S B × List Note :=
  match j.phase with
  | .writing r =>
    match answer with
    | .ok _ => ({ j with phase := .recording r 0 }, [])
    | .error failure =>
      let r := .faulted r.id ("failed to persist events: " ++ failure.message)
      ({ j with phase := .recording r 0 }, [.log .eventsUnwritten])
  | _ => (j, [])

def searchAnswered (j : Job A S B) (answer : Page A) : Job A S B × List Note :=
  match j.phase with
  | .checking r attempt =>
    match answer with
    | .ok [] => ({ j with phase := .recording r attempt }, [])
    | .ok _ => ({ j with phase := .announcing r }, Retry.successNotes attempt)
    | .error _ => ({ j with phase := .recording r attempt }, [.log .outcomeCheckFailed])
  | _ => (j, [])

def outcomeAnswered (j : Job A S B) (p : RetryPolicy)
    (answer : Except WriteFailure (List (Event A))) : Job A S B × List Note :=
  match j.phase with
  | .recording r attempt =>
    match answer with
    | .ok _ => ({ j with phase := .announcing r }, Retry.successNotes attempt)
    | .error failure =>
      let verdict := Retry.afterFailure p (fun _ => true) attempt failure
      match verdict with
      | .again delay => ({ j with phase := .backingOff r attempt delay }, verdict.notes)
      | .giveUp _ =>
        ({ j with phase := .announcing r },
         verdict.notes ++ [.metric .outcomeUnwritten, .log .outcomeUnwritten])
  | _ => (j, [])

def resume (j : Job A S B) (searches : Bool) : Job A S B :=
  match j.phase with
  | .backingOff r attempt _ =>
    { j with phase := if searches then .checking r (attempt + 1) else .recording r (attempt + 1) }
  | _ => j

def announced (j : Job A S B) : Job A S B × List Note :=
  match j.phase with
  | .announcing r => ({ j with phase := .finished r }, [.metric (.commandProcessed r.kind 0)])
  | _ => (j, [])

end Job

end Chronicle
