import Chronicle.Failure
import Chronicle.Uuid
import Chronicle.StreamId
import Chronicle.Telemetry

/-!
# Chronicle.Outcome

A command is identified by a `CommandId`. Its `Outcome` is what the log records about it: the
result, in business terms. The outcomes of all commands are kept in streams of their own, one for
each command.
-/

namespace Chronicle

abbrev CommandId := Uuid

/-- What a command came to. -/
structure Outcome where
  command : CommandId
  result : Result
  deriving DecidableEq

namespace Outcome

def category : String := "CommandProcessed"

def tag : String := "CommandProcessed"

def streamOf (id : CommandId) : StreamId := ⟨category, id.render⟩

def stream (o : Outcome) : StreamId := streamOf o.command

end Outcome

end Chronicle
