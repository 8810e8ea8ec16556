import Chronicle.Node.Commands
import Chronicle.Node.Pulls
import Chronicle.Node.Reads

/-!
# Chronicle.Node.Schedule

Letting a node's tasks run. `settle` gives turns until every task waits; `runUntil` lets time pass
from one timer to the next, and settles at each.
-/

namespace Chronicle
namespace Node

variable {A S B : Type} [Vocabulary A] [DecidableEq S]

/-- A step of a task; `none` if it waits. -/
def move (n : Node A S B) : TaskId → Option (Node A S B)
  | .pull i => n.movePull i
  | .consumer => n.moveConsumer
  | .lookup i => n.moveLookup i
  | .job i => n.moveJob i
  | .token i => n.moveToken i
  | .dispatcher i => n.moveDispatcher i

/-- A task's turn, of at most `fuel` steps. -/
def turn : (fuel : Nat) → Node A S B → TaskId → Node A S B
  | 0, n, _ => n
  | fuel + 1, n, t =>
    match n.move t with
    | some n => turn fuel n t
    | none => n

def nextTurn? (n : Node A S B) : Option TaskId := n.turns.find? fun t => (n.move t).isSome

/-- More steps than any run takes. -/
def ample : Nat := 0x1000000000000000

/-- At most `fuel` turns. -/
def settleFor : (fuel : Nat) → Node A S B → Node A S B
  | 0, n => n
  | fuel + 1, n =>
    match n.nextTurn? with
    | none => n
    | some t =>
      let n := turn ample n t
      let n := if n.turns.contains t then (n.dismiss t).enlist t else n
      settleFor fuel n

/-- Lets the tasks run until all of them wait. -/
def settle (n : Node A S B) : Node A S B := settleFor ample n

def dues (n : Node A S B) : List Nat :=
  n.streams.filterMap pullDue? ++ n.jobs.flatMap n.jobDues

def nextDue? (n : Node A S B) : Option Nat := (n.dues.filter (n.now < ·)).min?

/-- At most `fuel` timers. -/
def runFor (limit : Option Nat) (done : Node A S B → Bool) : (fuel : Nat) → Node A S B →
    Node A S B
  | 0, n => n
  | fuel + 1, n =>
    let n := n.settle
    if done n then n
    else
      let stay : Node A S B := { n with now := max n.now (limit.getD n.now) }
      match n.nextDue? with
      | none => stay
      | some time =>
        if limit.all fun l => time ≤ l then runFor limit done fuel { n with now := time }
        else stay

/-- Lets time pass until something holds, until the limit, or until nothing will happen any more.
What is due at the limit still happens. -/
def runUntil (n : Node A S B) (limit : Option Nat) (done : Node A S B → Bool) : Node A S B :=
  runFor limit done ample n

def advance (n : Node A S B) (millis : Nat) : Node A S B :=
  n.runUntil (some (n.now + millis)) fun _ => false

/-- Lets the read model follow a new stream that polls the log from its start. -/
def followLog (n : Node A S B) (config : WakeUpConfig) (budget : Option Nat) : Node A S B :=
  let (n, i) := n.addStream (.polling config budget Position.zero)
  (n.attach i).start i

/-- Carries out a command, alone or beside the tasks that run, and waits until it is over. -/
def carryOut (n : Node A S B) (c : Command B) (persists : Bool) (token : JobToken)
    (cancelAfter : Option Nat) : Option (ProcessingResult A) × Node A S B :=
  let (n, i) := n.assign c persists token (cancelAfter.map (n.now + ·))
  let n := n.runUntil none fun n =>
    match n.jobs[i]? with
    | some a => a.job.isOver
    | none => true
  (n.jobs[i]?.bind fun a => a.job.result?, n)

/-- Waits until a stream is signalled, at most as long as after a read that found something, and
takes the signal. -/
def awaitSignal (n : Node A S B) (i : Nat) : Bool × Node A S B :=
  let wakeUp (n : Node A S B) : WakeUp :=
    match n.streams[i]? with
    | some ⟨.polling w _ _, _, _⟩ => w
    | _ => .new {}
  let limit := n.now + ((wakeUp n).timeout true).millis
  let n := n.runUntil (some limit) fun n => (wakeUp n).signalled
  let signalled := (wakeUp n).signalled
  let n := match n.streams[i]? with
    | some s =>
      match s.source with
      | .polling w next budget => n.putStream i { s with source := .polling w.clear next budget }
      | _ => n
    | none => n
  (signalled, n)

end Node
end Chronicle
