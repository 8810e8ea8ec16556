import Chronicle.Event.Registry

/-!
# Chronicle.Event.Batch

Decoding a run of records into events, one record after another. A record that cannot be decoded is
passed over, but not before there is an event: there it fails the whole read, so that a reader never
takes a run that begins with a loss for a complete one.
-/

namespace Chronicle

/-- The failure of a read whose first record cannot be decoded. -/
def Registry.headFailure (record : Record) (e : EventError) : ReadFailure :=
  .permanent ("event at position " ++ record.position.render ++ " (" ++ record.tag
    ++ ") could not be decoded: " ++ e.message)

namespace Serializer

variable {A M : Type}

/-- The event that a record holds. -/
def decodeRecord (s : Serializer A M) (record : RecordedEvent M) : Except EventError (Event A) :=
  match s.deserialize record.event with
  | .ok payload => .ok ⟨record.position, record.time, payload, some record.firstOfStream⟩
  | .error e => .error e

def decodeRecord? (s : Serializer A M) (record : RecordedEvent M) : Option (Event A) :=
  (s.decodeRecord record).toOption

/-- Goes on decoding behind the events so far, with one note for each record that is passed over. -/
def decodeFrom (s : Serializer A M) (events : List (Event A)) :
    List (RecordedEvent M) → Page A × List Note
  | [] => (.ok events, [])
  | record :: rest =>
    match s.decodeRecord record with
    | .ok event => s.decodeFrom (events ++ [event]) rest
    | .error e =>
      if events.isEmpty then (.error (Registry.headFailure record.toRecord e), [])
      else
        let (page, notes) := s.decodeFrom events rest
        (page, .log .undecodableSkipped :: notes)

def decodeBatch (s : Serializer A M) (records : List (RecordedEvent M)) : Page A :=
  (s.decodeFrom [] records).1

/-- The records of a run that decoding passes over, one note for each. -/
def batchNotes (s : Serializer A M) (records : List (RecordedEvent M)) : List Note :=
  (s.decodeFrom [] records).2

end Serializer

namespace Registry

variable {A : Type} [Vocabulary A]

/-- The event that a record holds. -/
def decodeRecord (r : Registry A) (record : Record) : Except EventError (Event A) :=
  r.serializer.decodeRecord record.bare

def decodeRecord? (r : Registry A) (record : Record) : Option (Event A) :=
  (r.decodeRecord record).toOption

def decodeBatch (r : Registry A) (records : List Record) : Page A :=
  r.serializer.decodeBatch (records.map Record.bare)

/-- The records of a run that decoding passes over, one note for each. -/
def batchNotes (r : Registry A) (records : List Record) : List Note :=
  r.serializer.batchNotes (records.map Record.bare)

end Registry
end Chronicle
