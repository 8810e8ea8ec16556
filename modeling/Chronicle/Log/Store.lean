import Chronicle.Event.Batch

/-!
# Chronicle.Log.Store

The log kept in memory. It holds payloads as they are, or records that a registry encodes and
decodes. Writes append whole batches, reads take pages from a position or a stream up to a bound,
and both can be made to fail for a test.

A write encodes every payload before it touches the log, so a write that fails appends nothing.

Which streams there are so far is worked out from what is stored (`Contents.streams`), and not kept
beside it in a set of its own: nothing is ever taken out of the log, so both say the same.
-/

namespace Chronicle

/-- What a store keeps. -/
inductive Contents (A : Type) [Vocabulary A] where
  | payloads (events : List (Event A))
  | records (registry : Registry A) (records : List Record)

namespace Contents

variable {A : Type} [Vocabulary A]

def length : Contents A → Nat
  | .payloads events => events.length
  | .records _ kept => kept.length

/-- The streams of the stored events, as recorded. -/
def streams : Contents A → List StreamId
  | .payloads events => events.map Event.stream
  | .records _ kept => kept.map Record.stream

/-- Reads at most `limit` events from the one numbered `start` on, of one stream or of all, with
positions below `bound`. -/
def read (c : Contents A) (start limit : Nat) (stream : Option StreamId) (bound : Position) :
    Page A × List Note :=
  let ofStream (s : StreamId) : Bool :=
    match stream with
    | some wanted => s == wanted
    | none => true
  match c with
  | .payloads events =>
    (.ok (((events.drop start).filter fun e =>
      decide (e.position < bound) && ofStream e.stream).take limit), [])
  | .records registry kept =>
    let selected := ((kept.drop start).filter fun r =>
      decide (r.position < bound) && ofStream r.stream).take limit
    (registry.decodeBatch selected, registry.batchNotes selected)

end Contents

/-- The log in memory. -/
structure Store (A : Type) [Vocabulary A] where
  contents : Contents A
  /-- At most this many events are read at once. -/
  pageSize : Nat := 0xffffffffffffffff
  /-- The time that writes are stamped with. -/
  clock : Int
  /-- The failures that reads from a position are to meet, the earliest first. -/
  readFaults : List (Position × ReadFailure) := []
  /-- The failures that reads of streams are to meet, the earliest first. -/
  streamFaults : List ReadFailure := []
  /-- How many writes are still to fail. -/
  writeFaults : Nat := 0
  /-- Reads from a position so far. -/
  reads : Nat := 0
  /-- Reads of a stream so far. -/
  streamReads : Nat := 0

namespace Store

variable {A : Type} [Vocabulary A]

/-- The clock of stores that are given none: the first second of 2025. -/
def testClock : Int := 20089 * 86400

def ofPayloads (clock : Int) : Store A := { contents := .payloads [], clock }

def ofRecords (registry : Registry A) (clock : Int) : Store A :=
  { contents := .records registry [], clock }

/-- The same store with pages of `n` events, at least one. -/
def withPageSize (s : Store A) (n : Nat) : Store A := { s with pageSize := max n 1 }

def length (s : Store A) : Nat := s.contents.length

def isEmpty (s : Store A) : Bool := s.length == 0

/-- Makes the next read from this position, after those that are to fail already, fail. -/
def failReadFrom (s : Store A) (p : Position) (f : ReadFailure) : Store A :=
  { s with readFaults := s.readFaults ++ [(p, f)] }

def failStreamRead (s : Store A) (f : ReadFailure) : Store A :=
  { s with streamFaults := s.streamFaults ++ [f] }

def failWrites (s : Store A) (n : Nat) : Store A := { s with writeFaults := s.writeFaults + n }

/-- The events that a batch becomes behind a log of `length` events of the given streams. -/
def stamp (time : Int) : (length : Nat) → (streams : List StreamId) → List (Payload A) →
    List (Event A)
  | _, _, [] => []
  | length, streams, p :: rest =>
    ⟨Position.ofNat length, time, p, some (!streams.contains p.stream)⟩
      :: stamp time (length + 1) (p.stream :: streams) rest

/-- The record of an event with its bytes. -/
def recordOf (e : Event A) (data : List UInt8) : Record :=
  ⟨e.position, e.time, e.stream, e.firstOfStream.getD false, e.tag, data⟩

def encodeAll (registry : Registry A) : List (Payload A) → Except EventError (List (List UInt8))
  | [] => .ok []
  | p :: rest => do return (← registry.serialize p) :: (← encodeAll registry rest)

/-- Appends a batch, or nothing. -/
def write (s : Store A) (batch : List (Payload A)) :
    Except WriteFailure (List (Event A)) × Store A :=
  if 0 < s.writeFaults then
    (.error (.database "scripted write failure"), { s with writeFaults := s.writeFaults - 1 })
  else
    let written := stamp s.clock s.length s.contents.streams batch
    match s.contents with
    | .payloads events => (.ok written, { s with contents := .payloads (events ++ written) })
    | .records registry records =>
      match encodeAll registry batch with
      | .error e => (.error (.serialization e.message), s)
      | .ok encoded =>
        (.ok written, { s with
          contents := .records registry (records ++ written.zipWith recordOf encoded) })

/-- Appends a record as it is. A store of payloads takes none. -/
def appendRaw (s : Store A) (stream : StreamId) (tag : String) (data : List UInt8) :
    Option Position × Store A :=
  match s.contents with
  | .payloads _ => (none, s)
  | .records registry records =>
    let position := Position.ofNat records.length
    let record : Record :=
      ⟨position, s.clock, stream, !s.contents.streams.contains stream, tag, data⟩
    (some position, { s with contents := .records registry (records ++ [record]) })

/-- The first failure that waits for reads from `p`, and the others. -/
def takeFault (p : Position) : List (Position × ReadFailure) →
    Option (ReadFailure × List (Position × ReadFailure))
  | [] => none
  | (q, f) :: rest =>
    if q = p then some (f, rest)
    else (takeFault p rest).map fun found => (found.1, (q, f) :: found.2)

/-- What a read yields, what it notes, and the store after it. -/
structure Reading (A : Type) [Vocabulary A] where
  page : Page A
  notes : List Note
  store : Store A

/-- The next page from a position on. -/
def readFrom (s : Store A) (p : Position) : Reading A :=
  let s := { s with reads := s.reads + 1 }
  match takeFault p s.readFaults with
  | some (failure, others) => ⟨.error failure, [], { s with readFaults := others }⟩
  | none =>
    let (page, notes) := s.contents.read p.val s.pageSize none Position.last
    ⟨page, notes, s⟩

/-- The events of a stream at positions below a bound. -/
def readStream (s : Store A) (stream : StreamId) (bound : Position) : Reading A :=
  let s := { s with streamReads := s.streamReads + 1 }
  match s.streamFaults with
  | failure :: others => ⟨.error failure, [], { s with streamFaults := others }⟩
  | [] =>
    let (page, notes) := s.contents.read 0 0xffffffffffffffff (some stream) bound
    ⟨page, notes, s⟩

/-- Every stored event that can be decoded. -/
def events (s : Store A) : List (Event A) :=
  match s.contents with
  | .payloads events => events
  | .records registry records => records.filterMap registry.decodeRecord?

/-- The stored events whose payload belongs to a stream. -/
def eventsOf (s : Store A) (stream : StreamId) : List (Event A) :=
  s.events.filter fun e => e.stream == stream

def describe (s : Store A) : String :=
  "InMemoryEventStore \x7b len: " ++ toString s.length ++ ", max_batch_size: "
    ++ toString s.pageSize ++ ", .. \x7d"

end Store

end Chronicle
