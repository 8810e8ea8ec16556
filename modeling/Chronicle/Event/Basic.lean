import Chronicle.Event.Vocabulary
import Chronicle.Position

/-!
# Chronicle.Event.Basic

Events as readers see them, and as a store that keeps bytes records them, with the errors of going
from one form to the other and of reading and writing a log.
-/

namespace Chronicle

/-- A fact or outcome at its place in the log. `time` is in seconds since 1970 began. The hint says
whether the event is the first of its stream, if that is known. -/
structure Event (A : Type) where
  position : Position
  time : Int
  payload : Payload A
  firstOfStream : Option Bool := none
  deriving DecidableEq

namespace Event

variable {A : Type} [Vocabulary A]

def stream (e : Event A) : StreamId := e.payload.stream

def tag (e : Event A) : String := e.payload.tag

def render (e : Event A) : String :=
  "Event \x7b position: " ++ e.position.render ++ ", type: " ++ e.tag ++ ", stream: "
    ++ e.stream.render ++ " \x7d"

end Event

/-- A payload as bytes, under its event type. `M` is the type of what a writer notes beside it. -/
structure SerializedEvent (M : Type) where
  tag : String
  data : List UInt8
  metadata : Option M := none
  deriving DecidableEq

namespace SerializedEvent

variable {M : Type}

def render (e : SerializedEvent M) : String :=
  "SerializedEvent \x7b type: " ++ e.tag ++ ", size: " ++ toString e.data.length ++ " bytes \x7d"

def bare (e : SerializedEvent M) : SerializedEvent M := { e with metadata := none }

end SerializedEvent

/-- An event as a store of bytes keeps it. -/
structure Record where
  position : Position
  time : Int
  stream : StreamId
  firstOfStream : Bool
  tag : String
  data : List UInt8
  deriving DecidableEq

/-- A record with what its writer noted beside the payload. -/
structure RecordedEvent (M : Type) extends Record where
  metadata : Option M := none
  deriving DecidableEq

def RecordedEvent.event {M : Type} (record : RecordedEvent M) : SerializedEvent M :=
  ⟨record.tag, record.data, record.metadata⟩

/-- A record with nothing noted beside the payload. -/
def Record.bare (record : Record) : RecordedEvent Empty := ⟨record, none⟩

/-- Why a payload cannot be turned into bytes or back. -/
inductive EventError where
  | serialization (reason : String)
  | deserialization (reason : String)
  | unknownType (tag : String)
  | duplicateType (tag : String)
  deriving DecidableEq

def EventError.label : EventError → String
  | .serialization _ => "SerializationError"
  | .deserialization _ => "DeserializationError"
  | .unknownType _ => "UnknownEventType"
  | .duplicateType _ => "DuplicateEventType"

def EventError.message : EventError → String
  | .serialization reason => "Failed to serialize event: " ++ reason
  | .deserialization reason => "Failed to deserialize event: " ++ reason
  | .unknownType tag => "Unknown event type: " ++ tag
  | .duplicateType tag =>
    "Event type " ++ tag ++ " is already registered for another payload type"

/-- Turns payloads into bytes and back. `M` is the type of what it may note beside the bytes. -/
structure Serializer (A M : Type) where
  serialize : Payload A → Except EventError (SerializedEvent M)
  deserialize : SerializedEvent M → Except EventError (Payload A)

/-- Why a read yields no events: for now, or for good. -/
inductive ReadFailure where
  | temporary (reason : String)
  | permanent (reason : String)
  deriving DecidableEq

namespace ReadFailure

def label : ReadFailure → String
  | .temporary _ => "Temporary"
  | .permanent _ => "Permanent"

def message : ReadFailure → String
  | .temporary reason => "Temporary read failure: " ++ reason
  | .permanent reason => "Permanent read failure: " ++ reason

def isTemporary : ReadFailure → Bool
  | .temporary _ => true
  | .permanent _ => false

end ReadFailure

/-- What a read yields. -/
abbrev Page (A : Type) := Except ReadFailure (List (Event A))

/-- Why a write stored nothing, or seems to have stored nothing. -/
inductive WriteFailure where
  | database (reason : String)
  | serialization (reason : String)
  | io (reason : String)
  deriving DecidableEq

def WriteFailure.label : WriteFailure → String
  | .database _ => "DatabaseError"
  | .serialization _ => "SerializationError"
  | .io _ => "IoError"

def WriteFailure.message : WriteFailure → String
  | .database reason => "Database error: " ++ reason
  | .serialization reason => "Serialization error: " ++ reason
  | .io reason => "I/O error: " ++ reason

/-- Why an operation of the runtime yields no answer. Business failures are no errors: they are part
of outcomes. -/
inductive RuntimeError where
  | feedClosed (command : CommandId)
  | cancelled (reason : String)
  | read (failure : ReadFailure)
  | write (failure : WriteFailure)
  | taskFailed (reason : String)
  deriving DecidableEq

def cancelledMessage (reason : String) : String := "Cancelled: " ++ reason

def RuntimeError.label : RuntimeError → String
  | .feedClosed _ => "OutcomeFeedClosed"
  | .cancelled _ => "Cancelled"
  | .read _ => "Read"
  | .write _ => "Write"
  | .taskFailed _ => "TaskJoin"

def RuntimeError.message : RuntimeError → String
  | .feedClosed command =>
    "Outcome feed closed before command " ++ command.render ++ " completed"
  | .cancelled reason => cancelledMessage reason
  | .read failure => "Read failed: " ++ failure.message
  | .write failure => "Write failed: " ++ failure.message
  | .taskFailed reason => "Task failed: " ++ reason

end Chronicle
