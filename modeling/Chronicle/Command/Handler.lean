import Chronicle.Event.Basic

/-!
# Chronicle.Command.Handler

Commands, and what runs them. A handler's run is a `Work`: a tree whose nodes are the points at which
it waits for its surroundings, and whose leaves are the ways in which it can end. Handlers are bound
to command types; one is shared by all commands of its type, or built anew for each.
-/

namespace Chronicle

/-- A request to change state. `B` is the type of what commands ask for. -/
structure Command (B : Type) where
  id : CommandId
  type : String
  body : B
  deriving DecidableEq

/-- What a handler returns: events to be recorded, and a result in business terms. -/
structure Handled (A : Type) where
  events : List (Payload A)
  result : Result
  deriving DecidableEq

namespace Handled

variable {A : Type}

def ok (events : List (Payload A)) (message : String) : Handled A := ⟨events, .ok message⟩

def failed (failure : Failure) : Handled A := ⟨[], .error failure⟩

end Handled

/-- What made a handler fail. -/
inductive HandlerCause where
  | plain (message : String)
  /-- It observed its cancellation. -/
  | cancelled (reason : String)
  /-- An operation of the runtime failed under it. A cancellation reported that way is a failure
  like any other. -/
  | runtime (e : RuntimeError)
  deriving DecidableEq

def HandlerCause.texts : HandlerCause → List String
  | .plain message => [message]
  | .cancelled reason => [cancelledMessage reason]
  | .runtime e =>
    e.message :: match e with
      | .read failure => [failure.message]
      | .write failure => [failure.message]
      | .taskFailed reason => [reason]
      | .feedClosed _ | .cancelled _ => []

/-- An error that a handler ends with: its cause, in contexts of which the first is the outermost. -/
structure HandlerError where
  contexts : List String := []
  cause : HandlerCause
  deriving DecidableEq

namespace HandlerError

def withContext (e : HandlerError) (context : String) : HandlerError :=
  { e with contexts := context :: e.contexts }

def texts (e : HandlerError) : List String := e.contexts ++ e.cause.texts

def text (e : HandlerError) : String := e.texts.headD ""

def fullText (e : HandlerError) : String := String.intercalate ": " e.texts

/-- The reason, if the handler observed its cancellation. -/
def stopped? (e : HandlerError) : Option String :=
  match e.cause with
  | .cancelled reason => some reason
  | _ => none

end HandlerError

/-- What a panic carries. -/
inductive Panic where
  | text (message : String)
  | unnamed
  deriving DecidableEq

def Panic.message : Panic → String
  | .text message => message
  | .unnamed => "unknown panic"

inductive Completion (A : Type) where
  | handled (h : Handled A)
  | failed (e : HandlerError)
  | panicked (p : Panic)
  deriving DecidableEq

/-- A handler's run. `S` is the type of the projections that it may ask for. -/
inductive Work (A S : Type) where
  | finish (c : Completion A)
  /-- Waits that many milliseconds. -/
  | sleep (millis : Nat) (next : Work A S)
  /-- Waits until the command's token fires. -/
  | untilCancelled (next : Work A S)
  /-- Asks whether the command's token has fired. -/
  | checkCancel (next : Bool → Work A S)
  /-- Fires the command's own token. -/
  | fireToken (next : Work A S)
  /-- Asks the read model for a stream's projection. -/
  | query (stream : StreamId) (next : Except RuntimeError (Option S) → Work A S)

/-- What runs the commands of one type. -/
inductive Provider (A S B : Type) where
  /-- One handler for all of them. -/
  | shared (handle : Command B → Work A S)
  /-- A handler built for each of them, which may panic. -/
  | fresh (build : Except Panic (Command B → Work A S))

/-- The handlers, by command type. -/
structure HandlerTable (A S B : Type) where
  handlers : List (String × Provider A S B) := []

namespace HandlerTable

variable {A S B : Type}

/-- Binds a command type. The later of two bindings holds. -/
def register (t : HandlerTable A S B) (type : String) (p : Provider A S B) : HandlerTable A S B :=
  ⟨(t.handlers.filter fun bound => bound.1 != type) ++ [(type, p)]⟩

def find? (t : HandlerTable A S B) (type : String) : Option (Provider A S B) :=
  t.handlers.lookup type

def contains (t : HandlerTable A S B) (type : String) : Bool := (t.find? type).isSome

def size (t : HandlerTable A S B) : Nat := t.handlers.length

def isEmpty (t : HandlerTable A S B) : Bool := t.handlers.isEmpty

def describe (t : HandlerTable A S B) : String :=
  "HandlerRegistry \x7b handlers: " ++ toString t.size ++ " \x7d"

end HandlerTable

/-- What happened to a command, mechanically. -/
inductive ProcessingResult (A : Type) where
  | processed (id : CommandId) (events : List (Payload A)) (result : Result)
  | unhandled (id : CommandId) (reason : String)
  | faulted (id : CommandId) (error : String)
  | cancelled (id : CommandId) (reason : String)
  deriving DecidableEq

namespace ProcessingResult

variable {A : Type}

def id : ProcessingResult A → CommandId
  | .processed id _ _ => id
  | .unhandled id _ => id
  | .faulted id _ => id
  | .cancelled id _ => id

def kind : ProcessingResult A → OutcomeKind
  | .processed .. => .processed
  | .unhandled .. => .unhandled
  | .faulted .. => .faulted
  | .cancelled .. => .cancelled

def events : ProcessingResult A → List (Payload A)
  | .processed _ events _ => events
  | _ => []

def result : ProcessingResult A → Result
  | .processed _ _ result => result
  | .unhandled _ reason => .error (.internal ("Unhandled: " ++ reason))
  | .faulted _ error => .error (.internal ("Faulted: " ++ error))
  | .cancelled _ reason => .error (.cancelled reason)

def outcome (r : ProcessingResult A) : Outcome := ⟨r.id, r.result⟩

end ProcessingResult

end Chronicle
