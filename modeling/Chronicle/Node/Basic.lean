import Chronicle.Cancel
import Chronicle.Command.Await
import Chronicle.Command.Job
import Chronicle.Config
import Chronicle.Feed.EventStream
import Chronicle.Projection.ReadModel

/-!
# Chronicle.Node.Basic

A node: one log with everything that works on it. Event streams pull from the log, a consumer
applies a stream's events to the read model, lookups ask the read model, jobs carry out commands, and
dispatchers begin a job each for every command that is submitted.

Time is virtual and counted in milliseconds. Work takes no time; only timers do. A task's turn lasts
until it waits, and turns are taken in the order in which the tasks took their last ones.
-/

namespace Chronicle

/-- The tasks of a node. All but the consumer are known by their number. -/
inductive TaskId where
  | pull (stream : Nat)
  | consumer
  | lookup (number : Nat)
  | job (number : Nat)
  /-- What looks at the token of a job while the handler runs. -/
  | token (job : Nat)
  | dispatcher (number : Nat)
  deriving DecidableEq

/-- A lock that is granted in the order of the requests. -/
structure Lock where
  holder : Option TaskId := none
  waiting : List TaskId := []
  deriving DecidableEq

namespace Lock

/-- Whether a task may take the lock. -/
def grants (l : Lock) (t : TaskId) : Bool :=
  l.holder.isNone && (l.waiting.isEmpty || l.waiting.head? == some t)

def take (l : Lock) (t : TaskId) : Lock := ⟨some t, l.waiting.erase t⟩

def enqueue (l : Lock) (t : TaskId) : Lock := { l with waiting := l.waiting ++ [t] }

def release (l : Lock) : Lock := { l with holder := none }

/-- A task leaves, whether it holds the lock or waits for it. -/
def leave (l : Lock) (t : TaskId) : Lock :=
  ⟨if l.holder = some t then none else l.holder, l.waiting.erase t⟩

end Lock

inductive ConsumerPhase (A : Type) where
  | idle
  /-- It has an event to apply and needs the lock. -/
  | locking (e : Event A)
  | applying (e : Event A)
  /-- It has read what the event needs. -/
  | holding (e : Event A) (earlier : Page A)

/-- The task that applies the events of a stream to the read model. -/
structure Consumer (A : Type) where
  stream : Nat
  subscription : Nat
  phase : ConsumerPhase A := .idle

inductive LookupPhase (A S : Type) where
  | asked
  | holding (page : Page A)
  /-- It has an entry to keep and needs the lock. -/
  | locking (e : Entry S)
  | answered (answer : Except RuntimeError (Option S))

/-- A lookup that was begun under a name. -/
structure Lookup (A S : Type) where
  name : String
  stream : StreamId
  phase : LookupPhase A S := .asked

/-- The token that a job observes. -/
inductive JobToken where
  /-- The token of a source of its own. -/
  | own (source : CancelSource)
  | never
  /-- The token that shuts the dispatchers down. -/
  | shutdown
  deriving DecidableEq

/-- A job in a node. -/
structure Assignment (A S B : Type) where
  job : Job A S B
  token : JobToken
  /-- When its own source fires, if it does. -/
  cancelAt : Option Nat := none
  /-- When the delay that it waits out is over. -/
  due : Option Nat := none
  /-- Whether its token comes before what its handler awaits. -/
  tokenFirst : Bool := false

inductive DispatcherPhase where
  | receiving
  | draining
  | stopped
  deriving DecidableEq

/-- A task that begins a job for every command. -/
structure Dispatcher where
  subscription : Nat
  phase : DispatcherPhase := .receiving
  /-- The numbers of the jobs that it began. -/
  begun : List Nat := []
  deriving DecidableEq

/-- Who listens to an event stream: the subscription, and the type of event wanted, if not all. -/
structure Listener where
  stream : Nat
  subscription : Nat
  wanted : Option String := none
  deriving DecidableEq

structure Node (A S B : Type) [Vocabulary A] where
  now : Nat := 0
  store : Store A
  /-- Reads of event streams wait before they begin. -/
  holdsReads : Bool := false
  /-- What the consumer and lookups read for the read model waits with its answer. -/
  holdsAnswers : Bool := false
  streams : List (EventStream A) := []
  /-- Everybody who ever listened to a stream; a listener is known by its number. -/
  listeners : List Listener := []
  model : ReadModel A S
  lock : Lock := {}
  consumer : Option (Consumer A) := none
  lookups : List (Lookup A S) := []
  handlers : HandlerTable A S B := {}
  /-- How the writes of outcomes are retried. -/
  policy : RetryPolicy := ({} : Config).persistRetry
  /-- Whether the log is searched for an outcome before it is written again. -/
  searches : Bool := false
  /-- The event stream that is signalled after jobs have written. -/
  notifies : Option Nat := none
  /-- For the next writes of jobs that the store accepts: whether the acknowledgement is lost. -/
  lostAcks : List Bool := []
  /-- How many handlers were built. -/
  built : Nat := 0
  commands : Broadcaster (Command B) := {}
  results : Broadcaster (ProcessingResult A) := {}
  outcomes : Broadcaster Outcome := {}
  jobs : List (Assignment A S B) := []
  shutdown : CancelSource := {}
  dispatchers : List Dispatcher := []
  /-- The tasks that have not ended, the one whose last turn is longest ago first. -/
  turns : List TaskId := []
  notes : List Note := []

namespace Node

variable {A S B : Type} [Vocabulary A]

/-- A node over a log, with an empty read model and nothing running. -/
def new (store : Store A) (p : Projector A S) (entries : Collection S) : Node A S B :=
  { store, model := .new p entries }

def note (n : Node A S B) (notes : List Note) : Node A S B := { n with notes := n.notes ++ notes }

def enlist (n : Node A S B) (t : TaskId) : Node A S B :=
  if n.turns.contains t then n else { n with turns := n.turns ++ [t] }

def dismiss (n : Node A S B) (t : TaskId) : Node A S B := { n with turns := n.turns.erase t }

def putStream (n : Node A S B) (i : Nat) (s : EventStream A) : Node A S B :=
  { n with streams := n.streams.set i s }

def modifyOutlet (n : Node A S B) (i : Nat)
    (f : Broadcaster (Event A) → Broadcaster (Event A)) : Node A S B :=
  { n with streams := n.streams.modify i fun s => { s with outlet := f s.outlet } }

def outlet (n : Node A S B) (i : Nat) : Broadcaster (Event A) :=
  match n.streams[i]? with
  | some s => s.outlet
  | none => {}

def addStream (n : Node A S B) (s : EventStream A) : Node A S B × Nat :=
  ({ n with streams := n.streams ++ [s] }, n.streams.length)

def subscribe (n : Node A S B) (i : Nat) : Node A S B × Nat :=
  let (outlet, subscription) := (n.outlet i).subscribe
  (n.modifyOutlet i fun _ => outlet, subscription)

/-- A further listener to a stream, for the events of one type or for all, and its number. -/
def listen (n : Node A S B) (stream : Nat) (wanted : Option String) : Node A S B × Nat :=
  let (n, subscription) := n.subscribe stream
  ({ n with listeners := n.listeners ++ [{ stream, subscription, wanted }] }, n.listeners.length)

/-- Takes what a listener wanted of the events that it was sent. -/
def hear (n : Node A S B) (i : Nat) : Node A S B × List (Event A) :=
  match n.listeners[i]? with
  | some l =>
    let (outlet, events) := (n.outlet l.stream).drain l.subscription
    (n.modifyOutlet l.stream fun _ => outlet, events.filter fun e => l.wanted.all (e.tag == ·))
  | none => (n, [])

/-- Gives a listener's subscription up. -/
def dropListener (n : Node A S B) (i : Nat) : Node A S B :=
  match n.listeners[i]? with
  | some l => n.modifyOutlet l.stream fun outlet => outlet.drop l.subscription
  | none => n

def write (n : Node A S B) (batch : List (Payload A)) :
    Except WriteFailure (List (Event A)) × Node A S B :=
  let (written, store) := n.store.write batch
  (written, { n with store })

/-- Signals the wake-up behind a stream: a stream that replays signals the one it follows. -/
def signal (n : Node A S B) (i : Nat) : Node A S B :=
  match n.streams[i]? with
  | some s =>
    match s.source with
    | .polling .. => n.putStream i s.signal
    | .replaying _ _ live => { n with streams := n.streams.modify live EventStream.signal }
    | .pushed _ => n
  | none => n

end Node

end Chronicle
