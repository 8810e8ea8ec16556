import Mathlib.Data.List.Forall2
import Chronicle.Event.Batch
import Chronicle.Notes

/-!
# Chronicle.Proofs.Event.Batches

What any serializer makes of a run of records. Once there is an event, decoding goes on to the end
of the run and passes over what it cannot decode (`decodeFrom_of_ne_nil`), so all depends on the
first record: a run that opens with an event is decoded to the events that its records hold, and any
other fails at its first record (`decodeBatch_eq_ok_iff`, `decodeBatch_eq_error_iff`). A run may
therefore be read in two parts wherever the second part is empty or opens with an event, and nowhere
else (`decoded_if_opened`).
-/

namespace Chronicle

/-! ## What the failure of a read names -/

namespace Position

theorem toList_render (p : Position) : p.render.toList = Nat.toDigits 10 p.val := by
  rw [render, Nat.toString_eq_repr, Nat.toList_repr]

/-- The number of a position ends at the first blank behind it. -/
theorem takeWhile_render (p : Position) (cs : List Char) :
    (p.render.toList ++ ' ' :: cs).takeWhile Char.isDigit = p.render.toList := by
  have hdigits : ∀ c ∈ p.render.toList, c.isDigit = true := by
    intro c hc
    rw [toList_render] at hc
    exact Nat.isDigit_of_mem_toDigits (by decide) (by decide) hc
  rw [List.takeWhile_append_of_pos hdigits, List.takeWhile_cons_of_neg (by decide),
    List.append_nil]

theorem eq_of_toList_render {p q : Position} (h : p.render.toList = q.render.toList) : p = q := by
  rw [toList_render, toList_render] at h
  have := congrArg (Nat.ofDigitChars 10 · 0) h
  simp only [Nat.ofDigitChars_ten_toDigits] at this
  exact ext this

end Position

namespace Registry

/-- The failure of a read names the position of the record that it failed at. -/
theorem position_of_headFailure {record other : Record} {e e' : EventError}
    (h : headFailure record e = headFailure other e') : record.position = other.position := by
  have htext := congrArg String.toList (ReadFailure.permanent.inj h)
  simp only [String.toList_append, List.append_assoc] at htext
  have hnumbers : ∀ cs cs' : List Char,
      record.position.render.toList ++ ' ' :: cs = other.position.render.toList ++ ' ' :: cs' →
        record.position.render.toList = other.position.render.toList := by
    intro cs cs' heq
    have := congrArg (List.takeWhile Char.isDigit) heq
    rwa [Position.takeWhile_render, Position.takeWhile_render] at this
  exact Position.eq_of_toList_render (hnumbers _ _ (List.append_cancel_left htext))

end Registry

namespace Serializer

variable {A M : Type} {s : Serializer A M} {record first : RecordedEvent M}
  {records rest before behind : List (RecordedEvent M)} {e : Event A} {events : List (Event A)}
  {failure : ReadFailure}

/-! ## One record -/

def decodes (s : Serializer A M) (record : RecordedEvent M) : Bool :=
  (s.deserialize record.event).isOk

/-- The event is what the record holds, at the record's place and time. -/
structure Holds (s : Serializer A M) (record : RecordedEvent M) (e : Event A) : Prop where
  position : e.position = record.position
  time : e.time = record.time
  firstOfStream : e.firstOfStream = some record.firstOfStream
  payload : s.deserialize record.event = .ok e.payload

/-- The run is empty, or its first record can be decoded. -/
def Opens (s : Serializer A M) : List (RecordedEvent M) → Prop
  | [] => True
  | first :: _ => s.decodes first = true

instance (s : Serializer A M) : (records : List (RecordedEvent M)) → Decidable (s.Opens records)
  | [] => isTrue trivial
  | first :: _ => inferInstanceAs (Decidable (s.decodes first = true))

theorem decodeRecord?_eq_some_iff : s.decodeRecord? record = some e ↔ s.Holds record e := by
  constructor
  · intro h
    unfold decodeRecord? decodeRecord at h
    cases hread : s.deserialize record.event with
    | ok payload =>
      rw [hread] at h
      cases h
      exact ⟨rfl, rfl, rfl, hread⟩
    | error reason =>
      rw [hread] at h
      cases h
  · rintro ⟨hposition, htime, hfirst, hread⟩
    rw [decodeRecord?, decodeRecord, hread, ← hposition, ← htime, ← hfirst]
    rfl

theorem isSome_decodeRecord? : (s.decodeRecord? record).isSome = s.decodes record := by
  rw [decodeRecord?, decodeRecord, decodes]
  cases s.deserialize record.event <;> rfl

/-- The events of the records that can be decoded are the events that these records hold. -/
theorem filterMap_decodeRecord?_eq_iff :
    records.filterMap s.decodeRecord? = events ↔
      List.Forall₂ s.Holds (records.filter s.decodes) events := by
  induction records generalizing events with
  | nil => simp [eq_comm]
  | cons record rest ih =>
    have hsome : (s.decodeRecord? record).isSome = s.decodes record := isSome_decodeRecord?
    cases hdecode : s.decodeRecord? record with
    | none =>
      rw [hdecode] at hsome
      rw [List.filterMap_cons_none hdecode, List.filter_cons_of_neg (by simp [← hsome]), ih]
    | some e =>
      rw [hdecode] at hsome
      rw [List.filterMap_cons_some hdecode, List.filter_cons_of_pos hsome.symm]
      constructor
      · rintro rfl
        exact .cons (decodeRecord?_eq_some_iff.mp hdecode) (ih.mp rfl)
      · rintro (_ | ⟨hholds, hrest⟩)
        have := decodeRecord?_eq_some_iff.mpr hholds
        rw [hdecode] at this
        rw [Option.some.inj this, ih.mpr hrest]

/-! ## The loop -/

/-- What decoding notes of the records that it passes over. -/
def passed (s : Serializer A M) (records : List (RecordedEvent M)) : List Note :=
  (records.filter fun record => (s.decodeRecord? record).isNone).map
    fun _ => .log .undecodableSkipped

/-- Behind an event no record fails the read. -/
theorem decodeFrom_of_ne_nil (h : events ≠ []) : s.decodeFrom events records =
    (.ok (events ++ records.filterMap s.decodeRecord?), s.passed records) := by
  -- the events so far stay at least one, whether a record adds to them or not
  induction records generalizing events with
  | nil => simp [decodeFrom, passed]
  | cons record rest ih =>
    cases hdecode : s.decodeRecord record with
    | ok e =>
      have hsome : s.decodeRecord? record = some e := by rw [decodeRecord?, hdecode]; rfl
      rw [decodeFrom, hdecode]
      dsimp only
      rw [ih (List.append_ne_nil_of_right_ne_nil _ (List.cons_ne_nil _ _)),
        List.filterMap_cons_some hsome, List.append_assoc, List.singleton_append, passed, passed,
        List.filter_cons_of_neg (by simp [hsome])]
    | error reason =>
      have hnone : s.decodeRecord? record = none := by rw [decodeRecord?, hdecode]; rfl
      rw [decodeFrom, hdecode]
      dsimp only
      rw [if_neg (by simpa using h), ih h, List.filterMap_cons_none hnone, passed, passed,
        List.filter_cons_of_pos (by simp [hnone]), List.map_cons]

/-- The first record decides what becomes of the run. -/
theorem decodeFrom_nil_cons : s.decodeFrom [] (first :: rest) =
    match s.decodeRecord first with
    | .ok e => (.ok (e :: rest.filterMap s.decodeRecord?), s.passed rest)
    | .error reason => (.error (Registry.headFailure first.toRecord reason), []) := by
  rw [decodeFrom]
  cases s.decodeRecord first with
  | ok e => exact decodeFrom_of_ne_nil (List.cons_ne_nil e [])
  | error reason => rfl

/-! ## Runs of records -/

theorem decodeBatch_eq_ok_iff : s.decodeBatch records = .ok events ↔
    s.Opens records ∧ records.filterMap s.decodeRecord? = events := by
  cases records with
  | nil => simp [decodeBatch, decodeFrom, Opens]
  | cons first rest =>
    rw [decodeBatch, decodeFrom_nil_cons, Opens, ← isSome_decodeRecord?, List.filterMap_cons,
      decodeRecord?]
    cases s.decodeRecord first with
    | ok e => simp [Except.toOption]
    | error reason => simp [Except.toOption]

theorem decodeBatch_eq_error_iff : s.decodeBatch records = .error failure ↔
    ∃ first rest reason, records = first :: rest ∧ s.deserialize first.event = .error reason ∧
      failure = Registry.headFailure first.toRecord reason := by
  cases records with
  | nil => simp [decodeBatch, decodeFrom]
  | cons first rest =>
    rw [decodeBatch, decodeFrom_nil_cons, decodeRecord]
    cases hread : s.deserialize first.event with
    | ok payload => simp [hread]
    | error reason => simp [hread, eq_comm]

theorem Opens.of_append (h : s.Opens (before ++ behind)) : s.Opens before := by
  cases before with
  | nil => trivial
  | cons first rest => exact h

/-- A run that is decoded is decoded alike in two parts exactly if the second part opens. -/
theorem decodeBatch_append_iff (h : s.decodeBatch (before ++ behind) = .ok events) :
    (∃ one two, s.decodeBatch before = .ok one ∧ s.decodeBatch behind = .ok two ∧
      events = one ++ two) ↔ s.Opens behind := by
  obtain ⟨hopens, rfl⟩ := decodeBatch_eq_ok_iff.mp h
  constructor
  · rintro ⟨one, two, -, htwo, -⟩
    exact (decodeBatch_eq_ok_iff.mp htwo).1
  · intro hbehind
    exact ⟨_, _, decodeBatch_eq_ok_iff.mpr ⟨hopens.of_append, rfl⟩,
      decodeBatch_eq_ok_iff.mpr ⟨hbehind, rfl⟩, List.filterMap_append⟩

/-- A run of records is decoded exactly if it is empty or its first record can be decoded. It yields
the events of the records that can be decoded, in their order, each with the position, the time and
the hint of its record and with the payload that the record's bytes stand for. Any other run fails
for good, and the failure names the position of the first record. A run that is decoded can be
decoded in two parts, with the same events, exactly if the second part is itself empty or begins
with a record that can be decoded. -/
theorem decoded_if_opened (s : Serializer A M) (records : List (RecordedEvent M)) :
    ((∃ events, s.decodeBatch records = .ok events) ↔ s.Opens records) ∧
    (∀ events, s.decodeBatch records = .ok events →
      List.Forall₂ s.Holds (records.filter s.decodes) events) ∧
    (¬s.Opens records → ∃ first rest reason text,
      records = first :: rest ∧ s.deserialize first.event = .error reason ∧
      s.decodeBatch records = .error (.permanent text) ∧
      text = "event at position " ++ first.position.render ++ " (" ++ first.tag
        ++ ") could not be decoded: " ++ reason.message ∧
      ∀ other reason', Registry.headFailure other reason' = .permanent text →
        other.position = first.position) ∧
    ∀ before behind events, before ++ behind = records → s.decodeBatch records = .ok events →
      ((∃ one two, s.decodeBatch before = .ok one ∧ s.decodeBatch behind = .ok two ∧
        events = one ++ two) ↔ s.Opens behind) := by
  refine ⟨?_, ?_, ?_, ?_⟩
  · constructor
    · rintro ⟨events, h⟩
      exact (decodeBatch_eq_ok_iff.mp h).1
    · intro hopens
      exact ⟨_, decodeBatch_eq_ok_iff.mpr ⟨hopens, rfl⟩⟩
  · intro events h
    exact filterMap_decodeRecord?_eq_iff.mp (decodeBatch_eq_ok_iff.mp h).2
  · intro hclosed
    cases hread : s.decodeBatch records with
    | ok events => exact absurd (decodeBatch_eq_ok_iff.mp hread).1 hclosed
    | error failure =>
      obtain ⟨first, rest, reason, rfl, hfirst, rfl⟩ := decodeBatch_eq_error_iff.mp hread
      exact ⟨first, rest, reason, _, rfl, hfirst, rfl, rfl,
        fun other reason' h => Registry.position_of_headFailure h⟩
  · rintro before behind events rfl h
    exact decodeBatch_append_iff h

/-! ## A run with a record of an unknown type -/

/-- The number 2, noted under the topic `a`. -/
def notedRecord (p : Nat) (tag : String) : RecordedEvent String where
  position := Position.ofNat p
  time := 7
  stream := ⟨Notes.category, "a"⟩
  firstOfStream := p == 4
  tag := tag
  data := [1, 0, 0, 0, 0, 0, 0, 0, 0x61, 2, 0, 0, 0, 0, 0, 0, 0]
  metadata := some "imported"

def broken : List (RecordedEvent String) :=
  [notedRecord 4 "Noted.v1", notedRecord 5 "Noted.v0", notedRecord 6 "Noted.v1"]

def notesSerializer : Serializer Notes.Fact String :=
  Registry.serializer ⟨[("Noted.v1", ⟨.fact Notes.Kind.noted, "Noted"⟩)]⟩

theorem broken_decoded_if_opened :
    let events : List (Event Notes.Fact) :=
      [⟨Position.ofNat 4, 7, .fact (.noted "a" 2), some true⟩,
        ⟨Position.ofNat 6, 7, .fact (.noted "a" 2), some false⟩]
    notesSerializer.decodeBatch broken = .ok events ∧
    (∃ one two, notesSerializer.decodeBatch (broken.take 2) = .ok one ∧
      notesSerializer.decodeBatch (broken.drop 2) = .ok two ∧ events = one ++ two) ∧
    (¬∃ one two, notesSerializer.decodeBatch (broken.take 1) = .ok one ∧
      notesSerializer.decodeBatch (broken.drop 1) = .ok two ∧ events = one ++ two) ∧
    ∃ text, notesSerializer.decodeBatch (broken.drop 1) = .error (.permanent text) ∧
      ∀ other reason', Registry.headFailure other reason' = .permanent text →
        other.position = Position.ofNat 5 := by
  intro events
  have hread : notesSerializer.decodeBatch broken = .ok events := by rfl
  have hclosed : ¬notesSerializer.Opens (broken.drop 1) := by decide
  obtain ⟨-, -, -, hparts⟩ := decoded_if_opened notesSerializer broken
  obtain ⟨-, -, hfails, -⟩ := decoded_if_opened notesSerializer (broken.drop 1)
  obtain ⟨first, rest, reason, text, hrun, -, htext, -, hnames⟩ := hfails hclosed
  cases hrun
  exact ⟨hread, (hparts (broken.take 2) (broken.drop 2) events rfl hread).mpr rfl,
    fun h => hclosed ((hparts (broken.take 1) (broken.drop 1) events rfl hread).mp h),
    text, htext, hnames⟩

end Serializer

/-! ## Runs that a registry decodes -/

namespace Registry

variable {A : Type} [Vocabulary A] {r : Registry A} {first : Record} {rest : List Record}

theorem filterMap_bare (records : List Record) :
    (records.map Record.bare).filterMap r.serializer.decodeRecord?
      = records.filterMap r.decodeRecord? :=
  List.filterMap_map

theorem decodeBatch_cons : r.decodeBatch (first :: rest) =
    match r.decodeRecord first with
    | .ok e => .ok (e :: rest.filterMap r.decodeRecord?)
    | .error reason => .error (headFailure first reason) := by
  rw [decodeBatch, List.map_cons, Serializer.decodeBatch, Serializer.decodeFrom_nil_cons,
    filterMap_bare, decodeRecord]
  cases r.serializer.decodeRecord first.bare <;> rfl

theorem batchNotes_cons : r.batchNotes (first :: rest) =
    if (r.decodeRecord? first).isSome then
      (rest.filter fun record => (r.decodeRecord? record).isNone).map
        fun _ => .log .undecodableSkipped
    else [] := by
  rw [batchNotes, List.map_cons, Serializer.batchNotes, Serializer.decodeFrom_nil_cons,
    Serializer.passed, List.filter_map, List.map_map, decodeRecord?, decodeRecord]
  cases r.serializer.decodeRecord first.bare <;> rfl

end Registry
end Chronicle
