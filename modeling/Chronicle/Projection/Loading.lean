import Chronicle.Projection.Cache
import Chronicle.Log.Store

/-!
# Chronicle.Projection.Loading

Loading every projection: the log is read page by page from the start, the events are folded stream
by stream, and the entries are kept at the end. A permanent failure fails the load as long as
nothing was read; later it costs the one position, since an undecodable record can only be met at
the head of a page.
-/

namespace Chronicle

/-- A load under way. -/
structure Loading (S : Type) where
  cursor : Position := Position.zero
  readAny : Bool := false
  folded : List (StreamId × Entry S) := []
  notes : List Note := []

namespace Loading

variable {A S : Type} [Vocabulary A]

/-- Folds one event of the log. -/
def foldEvent (p : Projector A S) (l : Loading S) (e : Event A) : Loading S :=
  let s := e.stream
  if p.concerns s then
    let previous := (l.folded.lookup s).bind (·.state)
    { l with
      folded := (l.folded.filter fun held => held.1 != s) ++ [(s, ⟨p.fold previous e, e.position⟩)]
      notes := l.notes ++ p.notes previous e }
  else l

/-- How a load goes on after a read. -/
inductive Progress (S : Type) where
  | more (l : Loading S)
  | complete (l : Loading S)
  | failed (failure : ReadFailure)

/-- What a read at the cursor does to the load. -/
def advance (p : Projector A S) (l : Loading S) (page : Page A) : Progress S :=
  match page with
  | .ok events =>
    match events.getLast? with
    | none => .complete { l with readAny := true }
    | some last =>
      .more (events.foldl (foldEvent p)
        { l with cursor := last.position.next, readAny := true })
  | .error (.permanent reason) =>
    if l.readAny then
      .more { l with cursor := l.cursor.next, notes := l.notes ++ [.log .loadSkipped] }
    else .failed (.permanent reason)
  | .error failure => .failed failure

/-- What a load came to, with the notes of its reads and the store after them. -/
structure Result (A S : Type) [Vocabulary A] where
  outcome : Except ReadFailure (List (StreamId × Entry S))
  notes : List Note
  store : Store A

/-- Reads on until the end, at most `fuel` pages. -/
def run (p : Projector A S) : (fuel : Nat) → Store A → List Note → Loading S → Result A S
  | 0, store, notes, l => ⟨.ok l.folded, notes, store⟩
  | fuel + 1, store, notes, l =>
    let reading := store.readFrom l.cursor
    let notes := notes ++ reading.notes
    match advance p { l with notes := [] } reading.page with
    | .more l => run p fuel reading.store (notes ++ l.notes) l
    | .complete l => ⟨.ok l.folded, notes ++ l.notes, reading.store⟩
    | .failed failure => ⟨.error failure, notes, reading.store⟩

/-- How many pages a load of a store reads at most: every read but the last moves the cursor on. -/
def pages (store : Store A) : Nat := store.length + store.readFaults.length + 1

def load (p : Projector A S) (store : Store A) : Result A S :=
  run p (pages store) store [] {}

end Loading

/-- The cache after a load: its entries are kept unless newer ones got there first. -/
def Cache.keepLoaded {S : Type} (c : Cache S) (folded : List (StreamId × Entry S)) : Cache S :=
  let c := folded.foldl (fun c entry => c.keep entry.1 entry.2) c
  { c with allLoaded := c.entries.retainsAll }

end Chronicle
