import Chronicle.Node.Basic

/-!
# Chronicle.Node.Commands

The steps of jobs and of dispatchers. Jobs write through the node's log, and the writes of jobs
may lose their acknowledgement.
-/

namespace Chronicle
namespace Node

variable {A S B : Type} [Vocabulary A]

/-- A write of a job. -/
def writeForJob (n : Node A S B) (batch : List (Payload A)) :
    Except WriteFailure (List (Event A)) × Node A S B :=
  match n.write batch with
  | (.ok written, n) =>
    let lost := n.lostAcks.headD false
    let n := { n with lostAcks := n.lostAcks.tail }
    (if lost then .error (.io "connection reset") else .ok written, n)
  | (.error failure, n) => (.error failure, n)

def signalWritten (n : Node A S B) : Node A S B :=
  match n.notifies with
  | some i => n.signal i
  | none => n

def fired (n : Node A S B) (a : Assignment A S B) : Bool :=
  match a.token with
  | .own source => source.fired
  | .never => false
  | .shutdown => n.shutdown.fired

/-- Fires the job's own source, if it has one. -/
def fireOwn (a : Assignment A S B) : Assignment A S B :=
  match a.token with
  | .own source => { a with token := .own source.cancel }
  | .never | .shutdown => a

def putJob (n : Node A S B) (i : Nat) (a : Assignment A S B) : Node A S B :=
  let n := { n with jobs := n.jobs.set i a }
  if a.job.isOver then n.dismiss (.job i) else n

def assign (n : Node A S B) (c : Command B) (persists : Bool) (token : JobToken)
    (cancelAt : Option Nat) : Node A S B × Nat :=
  let a : Assignment A S B := { job := { command := c, persists }, token, cancelAt }
  ({ n with jobs := n.jobs ++ [a] }.enlist (.job n.jobs.length), n.jobs.length)

/-- Whether the job's own source is due to fire. -/
def cancelDue (n : Node A S B) (a : Assignment A S B) : Bool :=
  match a.cancelAt, a.job.phase with
  | _, .received => false
  | some time, _ => decide (time ≤ n.now) && !n.fired a
  | none, _ => false

/-- A step of a job whose handler runs. -/
def moveExecution (n : Node A S B) (i : Nat) (a : Assignment A S B) (e : Execution A S) :
    Option (Node A S B) :=
  let put (n : Node A S B) (a : Assignment A S B) (e : Execution A S) : Node A S B :=
    n.putJob i { a with job := { a.job with phase := .executing e } }
  match e.next n.now (n.fired a) a.tokenFirst with
  | .conclude c =>
    let (job, notes) := a.job.complete (n.fired a) c
    some ((n.note notes).putJob i { a with job })
  | .goOn e => some (put n a e)
  | .fire e => some (put n (fireOwn a) e)
  | .ask stream resume => some <|
    match n.model.known? stream with
    | some state => put n a (resume (.ok state))
    | none =>
      let reading := n.store.readStream stream Position.last
      let n := { n with store := reading.store }.note reading.notes
      put n a { e with page := some reading.page }
  | .keep stream page resume =>
    -- Once the lock is taken, nothing else is waited for. This step does not wait for the lock: it
    -- may come at every moment when nobody holds it, and also while the consumer does.
    let (answer, model, notes) := n.model.digest stream page
    some (put ({ n with model }.note notes) a (resume answer))
  | .interrupt => some (n.putJob i { a with job := a.job.interrupt })
  | .wait => none

def moveJob (n : Node A S B) (i : Nat) : Option (Node A S B) :=
  match n.jobs[i]? with
  | none => none
  | some a =>
    if a.job.isOver then none
    else if n.cancelDue a then some (n.putJob i (fireOwn a))
    else
      let put (n : Node A S B) (answered : Job A S B × List Note) : Node A S B :=
        (n.note answered.2).putJob i { a with job := answered.1, due := none }
      match a.job.phase with
      | .received =>
        let fired := n.fired a
        let built := n.built + if n.handlers.builds a.job.command fired then 1 else 0
        some (put { n with built } (a.job.begin n.handlers fired))
      | .executing e => n.moveExecution i a e
      | .writing r =>
        let (answer, n) := n.writeForJob r.events
        let n := if answer.isOk then n.signalWritten else n
        some (put n (a.job.eventsAnswered answer))
      | .checking r _ =>
        let reading := n.store.readStream r.outcome.stream Position.last
        let n := { n with store := reading.store }.note reading.notes
        let found := match reading.page with
          | .ok (_ :: _) => true
          | _ => false
        let n := if found then n.signalWritten else n
        some (put n (a.job.searchAnswered reading.page))
      | .recording r _ =>
        let (answer, n) := n.writeForJob [.outcome r.outcome]
        let n := if answer.isOk then n.signalWritten else n
        some (put n (a.job.outcomeAnswered n.policy answer))
      | .backingOff _ _ delay =>
        match a.due with
        | none => some (n.putJob i { a with due := some (n.now + delay.millis) })
        | some time => if time ≤ n.now then some (put n (a.job.resume n.searches, [])) else none
      | .announcing r =>
        -- One step, though the outcome goes out before the result: nothing is waited for in between.
        let n := { n with
          outcomes := (n.outcomes.publish r.outcome).1
          results := (n.results.publish r).1 }
        some (put n a.job.announced)
      | .finished _ | .crashed => none

/-- From now on the token of a job comes before what its handler awaits. -/
def moveToken (n : Node A S B) (i : Nat) : Option (Node A S B) :=
  match n.jobs[i]? with
  | none => none
  | some a =>
    if a.tokenFirst then none else some { n with jobs := n.jobs.set i { a with tokenFirst := true } }

def jobDues (n : Node A S B) (a : Assignment A S B) : List Nat :=
  if a.job.isOver then []
  else
    let sleep := match a.job.phase with
      | .executing e => e.wakeAt.toList
      | _ => []
    let cancel := if n.fired a then [] else a.cancelAt.toList
    sleep ++ a.due.toList ++ cancel

def submit (n : Node A S B) (c : Command B) : Node A S B :=
  let (commands, notes) := Chronicle.submit n.commands c
  { n with commands }.note notes

def drainResults (n : Node A S B) (i : Nat) : Node A S B × List (ProcessingResult A) :=
  let (results, taken) := n.results.drain i
  ({ n with results }, taken)

def drainOutcomes (n : Node A S B) (i : Nat) : Node A S B × List Outcome :=
  let (outcomes, taken) := n.outcomes.drain i
  ({ n with outcomes }, taken)

def closeCommands (n : Node A S B) : Node A S B := { n with commands := n.commands.close }

/-- Asks the dispatchers and their jobs to end. -/
def shutDown (n : Node A S B) : Node A S B := { n with shutdown := n.shutdown.cancel }

/-- A further dispatcher, for what is submitted from now on. -/
def dispatch (n : Node A S B) : Node A S B :=
  let (commands, subscription) := n.commands.subscribe
  let d : Dispatcher := { subscription }
  { n with commands, dispatchers := n.dispatchers ++ [d] }.enlist (.dispatcher n.dispatchers.length)

def putDispatcher (n : Node A S B) (i : Nat) (d : Dispatcher) : Node A S B :=
  { n with dispatchers := n.dispatchers.set i d }

/-- Whether everything that a dispatcher began is over. -/
def drained (n : Node A S B) (d : Dispatcher) : Bool :=
  d.begun.all fun i =>
    match n.jobs[i]? with
    | some a => a.job.isOver
    | none => true

def moveDispatcher (n : Node A S B) (i : Nat) : Option (Node A S B) :=
  match n.dispatchers[i]? with
  | none => none
  | some d =>
    match d.phase with
    | .receiving =>
      if n.shutdown.fired then some (n.putDispatcher i { d with phase := .draining })
      else
        match n.commands.receive d.subscription with
        | (commands, .item c) =>
          let (n, job) := { n with commands }.assign c true .shutdown none
          some (n.putDispatcher i { d with begun := d.begun ++ [job] })
        | (_, .ended) => some (n.putDispatcher i { d with phase := .draining })
        | (_, .pending) => none
    | .draining =>
      if n.drained d then
        let n := { n with commands := n.commands.drop d.subscription }
        some ((n.putDispatcher i { d with phase := .stopped }).dismiss (.dispatcher i))
      else none
    | .stopped => none

def isStopped (n : Node A S B) : Bool :=
  match n.dispatchers.getLast? with
  | some d => decide (d.phase = .stopped)
  | none => false

end Node
end Chronicle
