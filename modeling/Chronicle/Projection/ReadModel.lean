import Chronicle.Broadcast
import Chronicle.Projection.Loading

/-!
# Chronicle.Projection.ReadModel

A cache with its projector and with the feeds that tell others about live events: the projections
that changed, and the outcomes of commands.

Lookups and live events read the log in a step of their own; `backfilled`, `keep` and `apply` are
what follows the read. The operations that take the store do everything at once.
-/

namespace Chronicle

structure ReadModel (A S : Type) where
  projector : Projector A S
  cache : Cache S
  changes : Broadcaster (Change A S) := {}
  outcomes : Broadcaster Outcome := {}

/-- What an operation on a read model came to. -/
structure Served (A S R : Type) [Vocabulary A] where
  answer : R
  model : ReadModel A S
  store : Store A
  notes : List Note

namespace ReadModel

variable {A S : Type} [Vocabulary A]

def new (p : Projector A S) (entries : Collection S) : ReadModel A S :=
  { projector := p, cache := Cache.new entries }

def known? (m : ReadModel A S) (s : StreamId) : Option (Option S) := m.cache.known? m.projector s

/-- The entry that a read of a stream makes, if the stream has events. -/
def backfilled (p : Projector A S) (page : Page A) :
    Except RuntimeError (Option (Entry S)) × List Note :=
  match page with
  | .ok events => (.ok (p.entry? events), .metric .backfilled :: p.notesOf none events)
  | .error failure => (.error (.read failure), [])

/-- Keeps the entry of a lookup, and answers with what the cache holds then. -/
def keep (m : ReadModel A S) (s : StreamId) (e : Entry S) : ReadModel A S × Option S :=
  let cache := m.cache.keep s e
  ({ m with cache }, cache.answer s e)

/-- What a lookup does with what it has read of a stream: it keeps the entry that this makes, and
answers. -/
def digest (m : ReadModel A S) (s : StreamId) (page : Page A) :
    Except RuntimeError (Option S) × ReadModel A S × List Note :=
  let (entry, notes) := backfilled m.projector page
  match entry with
  | .ok (some e) =>
    let (m, state) := m.keep s e
    (.ok state, m, notes)
  | .ok none => (.ok none, m, notes)
  | .error failure => (.error failure, m, notes)

/-- Whether applying a live event takes a read of its stream. -/
def needsRead (m : ReadModel A S) (e : Event A) : Bool :=
  match m.cache.examine m.projector e with
  | .backfill => true
  | _ => false

def applyNotes (m : ReadModel A S) (e : Event A) (earlier : Page A) : List Note :=
  let folded (state : Option S) : List Note :=
    m.projector.notes state e ++ [.metric (.applied e.position.val)]
  match m.cache.examine m.projector e with
  | .stale | .outcome _ | .pass => []
  | .fold state => folded state
  | .backfill =>
    match earlier with
    | .ok events =>
      .metric .backfilled :: m.projector.notesOf none events
        ++ folded ((m.projector.entry? events).bind (·.state))
    | .error _ => [.log .backfillFailed]

/-- Tells the subscribers what became of a live event. -/
def announce (m : ReadModel A S) : Applied A S → ReadModel A S
  | .changed e state => { m with changes := (m.changes.publish ⟨e.stream, e, state⟩).1 }
  | .outcome o => { m with outcomes := (m.outcomes.publish o).1 }
  | .unchanged | .ignored => m

/-- Applies a live event, given what reading its stream below it yields. -/
def apply [DecidableEq S] (m : ReadModel A S) (e : Event A) (earlier : Page A) :
    ReadModel A S × Applied A S × List Note :=
  let (cache, applied) := m.cache.apply m.projector e earlier
  (announce { m with cache } applied, applied, m.applyNotes e earlier)

/-- The projection of a stream. -/
def get (m : ReadModel A S) (store : Store A) (s : StreamId) :
    Served A S (Except RuntimeError (Option S)) :=
  match m.known? s with
  | some state => ⟨.ok state, m, store, []⟩
  | none =>
    let reading := store.readStream s Position.last
    let (answer, m, notes) := m.digest s reading.page
    ⟨answer, m, reading.store, reading.notes ++ notes⟩

/-- The projection of a stream from its events below a bound. It is not kept. -/
def getUpTo (m : ReadModel A S) (store : Store A) (s : StreamId) (bound : Position) :
    Served A S (Except RuntimeError (Option S)) :=
  if bound.isLast then m.get store s
  else
    let reading := store.readStream s bound
    let (entry, notes) := backfilled m.projector reading.page
    ⟨entry.map fun e => e.bind (·.state), m, reading.store, reading.notes ++ notes⟩

/-- Every projection. A load keeps its folds in the order that `arrange` puts them in. -/
def getAllIn (arrange : List (StreamId × Entry S) → List (StreamId × Entry S))
    (m : ReadModel A S) (store : Store A) :
    Served A S (Except RuntimeError (List (StreamId × S))) :=
  if m.cache.allLoaded then ⟨.ok m.cache.states, m, store, []⟩
  else
    let loaded := Loading.load m.projector store
    match loaded.outcome with
    | .ok folded =>
      let cache := m.cache.keepLoaded (arrange folded)
      ⟨.ok cache.states, { m with cache }, loaded.store, loaded.notes ++ [.metric .backfilled]⟩
    | .error failure => ⟨.error (.read failure), m, loaded.store, loaded.notes⟩

/-- Every projection, those that are loaded in the order of their streams' last events. -/
def getAll (m : ReadModel A S) (store : Store A) :
    Served A S (Except RuntimeError (List (StreamId × S))) :=
  m.getAllIn id store

/-- Reads what a live event needs, and applies it. -/
def applyNow [DecidableEq S] (m : ReadModel A S) (store : Store A) (e : Event A) :
    Served A S (Applied A S) :=
  if m.needsRead e then
    let reading := store.readStream e.stream e.position
    let (m, applied, notes) := m.apply e reading.page
    ⟨applied, m, reading.store, reading.notes ++ notes⟩
  else
    let (m, applied, notes) := m.apply e (.ok [])
    ⟨applied, m, store, notes⟩

def drainChanges (m : ReadModel A S) (i : Nat) : ReadModel A S × List (Change A S) :=
  let (changes, taken) := m.changes.drain i
  ({ m with changes }, taken)

def drainOutcomes (m : ReadModel A S) (i : Nat) : ReadModel A S × List Outcome :=
  let (outcomes, taken) := m.outcomes.drain i
  ({ m with outcomes }, taken)

def invalidate (m : ReadModel A S) : ReadModel A S := { m with cache := m.cache.invalidate }

end ReadModel

end Chronicle
