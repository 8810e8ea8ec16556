import Chronicle.Event.Basic

/-!
# Chronicle.Projection.Projector

A projector folds the events of the streams that concern it into one state for each stream. `none`
stands for "no projection": nothing was created yet, or it was removed.
-/

namespace Chronicle

structure Projector (A S : Type) where
  /-- Whether events of a stream feed the projection. -/
  concerns : StreamId → Bool
  /-- The state after an event. -/
  fold : Option S → Event A → Option S
  /-- What folding an event notes. -/
  notes : Option S → Event A → List Note := fun _ _ => []

/-- A state, and the position of the last event folded into it. -/
structure Entry (S : Type) where
  state : Option S
  position : Position
  deriving DecidableEq

namespace Projector

variable {A S : Type}

def foldAll (p : Projector A S) (state : Option S) (events : List (Event A)) : Option S :=
  events.foldl p.fold state

def notesOf (p : Projector A S) : Option S → List (Event A) → List Note
  | _, [] => []
  | state, e :: rest => p.notes state e ++ notesOf p (p.fold state e) rest

/-- The entry that a stream's events make, if there are any. -/
def entry? (p : Projector A S) (events : List (Event A)) : Option (Entry S) :=
  events.getLast?.map fun last => ⟨p.foldAll none events, last.position⟩

end Projector

end Chronicle
