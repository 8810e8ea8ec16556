import Chronicle.Projection.Projector

/-!
# Chronicle.Projection.Collection

Where a cache keeps its entries, one for each stream, in the order in which they were last written.
A collection with a capacity drops the entry that was written longest ago when a further stream
comes; one without keeps them all.
-/

namespace Chronicle

structure Collection (S : Type) where
  /-- `none` keeps every entry. -/
  capacity : Option Nat
  /-- The entry written longest ago comes first. -/
  entries : List (StreamId × Entry S)

namespace Collection

variable {S : Type}

def unbounded : Collection S := ⟨none, []⟩

/-- Keeps at most `capacity` entries, and at least one. -/
def bounded (capacity : Nat) : Collection S := ⟨some (max capacity 1), []⟩

def find? (c : Collection S) (s : StreamId) : Option (Entry S) := c.entries.lookup s

def length (c : Collection S) : Nat := c.entries.length

/-- The streams held, the one written longest ago first. -/
def streams (c : Collection S) : List StreamId := c.entries.map (·.1)

/-- Writes the entry of a stream. -/
def insert (c : Collection S) (s : StreamId) (e : Entry S) : Collection S :=
  let written := (c.entries.filter fun held => held.1 != s) ++ [(s, e)]
  match c.capacity with
  | none => { c with entries := written }
  | some n => { c with entries := written.drop (written.length - n) }

/-- Whether every entry is kept. -/
def retainsAll (c : Collection S) : Bool := c.capacity.isNone

def emptied (c : Collection S) : Collection S := { c with entries := [] }

end Collection

end Chronicle
