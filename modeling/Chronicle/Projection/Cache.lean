import Chronicle.Projection.Collection

/-!
# Chronicle.Projection.Cache

The read model of a projector: the entries of some streams, how far the live events were applied
(`highWater`), and whether the whole log was loaded.

Three paths write entries. A lookup that misses folds a stream's events as the log holds them and
keeps the entry unless a newer one got there first (`keep`). A live event at or below the high water
or below its stream's entry is passed over, every other one is folded into its stream's state
(`examine`, `applyTo`). Loading folds the whole log (`Projection.Loading`). Lookups read the log
without holding anything, so what they keep may be older than the cache by then.
-/

namespace Chronicle

structure Cache (S : Type) where
  entries : Collection S
  highWater : Option Position := none
  allLoaded : Bool := false

/-- A projection that a live event changed. -/
structure Change (A S : Type) where
  stream : StreamId
  event : Event A
  state : Option S

/-- What became of a live event. -/
inductive Applied (A S : Type) where
  /-- It changed its stream's projection. -/
  | changed (event : Event A) (state : Option S)
  /-- It was folded and changed nothing. -/
  | unchanged
  /-- It records a command's outcome. -/
  | outcome (o : Outcome)
  /-- It does not concern the cache, or was applied before. -/
  | ignored

namespace Cache

variable {A S : Type} [Vocabulary A]

def new (entries : Collection S) : Cache S := { entries }

/-- What the cache knows of a stream without reading: its entry's state, or that it has none. -/
def known? (c : Cache S) (p : Projector A S) (s : StreamId) : Option (Option S) :=
  match c.entries.find? s with
  | some e => some e.state
  | none => if c.allLoaded || !p.concerns s then some none else none

/-- Keeps an entry, unless the stream has one that is as new. -/
def keep (c : Cache S) (s : StreamId) (e : Entry S) : Cache S :=
  match c.entries.find? s with
  | some held => if held.position < e.position then { c with entries := c.entries.insert s e } else c
  | none => { c with entries := c.entries.insert s e }

/-- The state to answer with after keeping an entry: what the cache holds then. -/
def answer (c : Cache S) (s : StreamId) (e : Entry S) : Option S :=
  match c.entries.find? s with
  | some held => held.state
  | none => e.state

def raise (c : Cache S) (position : Position) : Cache S :=
  { c with highWater := Position.raise c.highWater position }

/-- What to do with a live event. -/
inductive Verdict (S : Type) where
  /-- It is at or below the high water. -/
  | stale
  | outcome (o : Outcome)
  /-- Only the high water moves. -/
  | pass
  /-- Fold it into this state. -/
  | fold (state : Option S)
  /-- Fold it into the state that the stream's earlier events make. -/
  | backfill

/-- What to do with a live event, before anything is read. -/
def examine (c : Cache S) (p : Projector A S) (e : Event A) : Verdict S :=
  if Position.reached c.highWater e.position then .stale
  else
    match e.payload.outcome? with
    | some o => .outcome o
    | none =>
      if !p.concerns e.stream then .pass
      else
        match c.entries.find? e.stream with
        | some held => if e.position ≤ held.position then .pass else .fold held.state
        | none => if c.allLoaded || e.firstOfStream == some true then .fold none else .backfill

/-- The cache after a live event was folded into `state`. -/
def applyTo (c : Cache S) (p : Projector A S) (e : Event A) (state : Option S) : Cache S :=
  { c with
    entries := c.entries.insert e.stream ⟨p.fold state e, e.position⟩
    highWater := some e.position }

/-- What a live event that was folded into `state` came to. -/
def effect [DecidableEq S] (p : Projector A S) (e : Event A) (state : Option S) : Applied A S :=
  if p.fold state e = state then .unchanged else .changed e (p.fold state e)

/-- The cache after a live event, and what the event came to. `earlier` is what reading the stream
below the event yields, where the cache needs it. -/
def apply [DecidableEq S] (c : Cache S) (p : Projector A S) (e : Event A) (earlier : Page A) :
    Cache S × Applied A S :=
  match c.examine p e with
  | .stale => (c, .ignored)
  | .outcome o => (c.raise e.position, .outcome o)
  | .pass => (c.raise e.position, .ignored)
  | .fold state => (c.applyTo p e state, effect p e state)
  | .backfill =>
    match earlier with
    | .ok events =>
      let state := (p.entry? events).bind (·.state)
      (c.applyTo p e state, effect p e state)
    | .error _ => (c.raise e.position, .ignored)

/-- Drops every entry. What was applied stays applied. -/
def invalidate (c : Cache S) : Cache S :=
  { c with entries := c.entries.emptied, allLoaded := false }

def states (c : Cache S) : List (StreamId × S) :=
  c.entries.entries.filterMap fun held => held.2.state.map (held.1, ·)

end Cache

end Chronicle
