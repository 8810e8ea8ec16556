import Chronicle.Notes
import Chronicle.Proofs.Log.Slots
import Chronicle.Proofs.Log.Recalling

/-!
# Chronicle.Proofs.Log.Calls

A store under any sequence of calls: writes, records that are planted as they are, reads, and
failures that are to come. Whatever is asked of it, what it keeps is numbered from zero, and every
stream is marked where it comes up first. A write appends the events that it returns
(`Store.Written`), or it fails and the whole store is as it was, but for the failure that has been
used up. So what is kept is what the calls that succeeded would have left alone
(`contents_after_lasting`).
-/

namespace Chronicle

variable {A : Type} [Vocabulary A]

/-! ## Calls -/

namespace Store

inductive Call (A : Type) where
  | write (batch : List (Payload A))
  | appendRaw (stream : StreamId) (tag : String) (data : List UInt8)
  | failWrites (n : Nat)
  | failReadFrom (p : Position) (failure : ReadFailure)
  | failStreamRead (failure : ReadFailure)
  | readFrom (p : Position)
  | readStream (stream : StreamId) (bound : Position)
  | events
  | eventsOf (stream : StreamId)
  | length
  | clock (time : Int)

inductive Answer (A : Type) where
  | written (result : Except WriteFailure (List (Event A)))
  | planted (position : Option Position)
  | page (page : Page A) (notes : List Note)
  | events (events : List (Event A))
  | length (n : Nat)
  | done
  deriving DecidableEq

def fresh (mode : Option (Registry A)) (time : Int) (pageSize : Nat) : Store A :=
  let s := match mode with
    | some registry => ofRecords registry time
    | none => ofPayloads time
  s.withPageSize pageSize

def answer (s : Store A) : Call A → Answer A × Store A
  | .write batch => let (result, s) := s.write batch; (.written result, s)
  | .appendRaw stream tag data =>
    let (position, s) := s.appendRaw stream tag data; (.planted position, s)
  | .failWrites n => (.done, s.failWrites n)
  | .failReadFrom p failure => (.done, s.failReadFrom p failure)
  | .failStreamRead failure => (.done, s.failStreamRead failure)
  | .readFrom p => let r := s.readFrom p; (.page r.page r.notes, r.store)
  | .readStream stream bound => let r := s.readStream stream bound; (.page r.page r.notes, r.store)
  | .events => (.events s.events, s)
  | .eventsOf stream => (.events (s.eventsOf stream), s)
  | .length => (.length s.length, s)
  | .clock time => (.done, { s with clock := time })

def after (s : Store A) (calls : List (Call A)) : Store A :=
  calls.foldl (fun s call => (s.answer call).2) s

def answers (s : Store A) : List (Call A) → List (Answer A)
  | [] => []
  | call :: rest => (s.answer call).1 :: (s.answer call).2.answers rest

variable {s : Store A} {batch : List (Payload A)}

@[simp] theorem after_nil : s.after [] = s := rfl

@[simp] theorem after_cons {call : Call A} {calls : List (Call A)} :
    s.after (call :: calls) = (s.answer call).2.after calls := rfl

/-- What every call keeps is kept by all of them. -/
theorem after_induction {P : Store A → Prop} (hstep : ∀ s call, P s → P (s.answer call).2)
    (calls : List (Call A)) (hs : P s) : P (s.after calls) := by
  induction calls generalizing s with
  | nil => exact hs
  | cons call rest ih => exact ih (hstep s call hs)

end Store

/-! ## Marks -/

/-- Streams in order, each marked where it comes up first, when `known` have come up before. -/
def marks (known : List StreamId) : List StreamId → List (StreamId × Option Bool)
  | [] => []
  | stream :: rest => (stream, some (!known.contains stream)) :: marks (stream :: known) rest

theorem map_fst_marks {streams : List StreamId} :
    ∀ {known : List StreamId}, (marks known streams).map Prod.fst = streams := by
  induction streams with
  | nil =>
    intro known
    rfl
  | cons stream rest ih =>
    intro known
    rw [marks, List.map_cons, ih]

theorem marks_congr {streams : List StreamId} : ∀ {known known' : List StreamId},
    (∀ stream, stream ∈ known ↔ stream ∈ known') → marks known streams = marks known' streams := by
  induction streams with
  | nil =>
    intro known known' _
    rfl
  | cons stream rest ih =>
    intro known known' h
    have hrest : marks (stream :: known) rest = marks (stream :: known') rest := by
      refine ih fun other => ?_
      rw [List.mem_cons, List.mem_cons, h other]
    have hcontains : known.contains stream = known'.contains stream := by
      rw [Bool.eq_iff_iff, List.contains_iff_mem, List.contains_iff_mem]
      exact h stream
    rw [marks, marks, hrest, hcontains]

theorem marks_append {streams more : List StreamId} : ∀ {known : List StreamId},
    marks known (streams ++ more) = marks known streams ++ marks (known ++ streams) more := by
  induction streams with
  | nil =>
    intro known
    rw [List.append_nil]
    rfl
  | cons stream rest ih =>
    intro known
    have hknown : marks (stream :: known ++ rest) more = marks (known ++ stream :: rest) more := by
      refine marks_congr fun other => ?_
      simp only [List.mem_append, List.mem_cons]
      tauto
    rw [List.cons_append, marks, marks, ih, hknown]
    rfl

/-- A stream is marked exactly when it is not among those before it. -/
theorem getElem?_marks {streams : List StreamId} {stream : StreamId} {hint : Option Bool} :
    ∀ {known : List StreamId} {i : Nat}, (marks known streams)[i]? = some (stream, hint) →
      hint = some (decide (stream ∉ known ++ streams.take i)) := by
  induction streams with
  | nil =>
    intro known i h
    cases h
  | cons first rest ih =>
    intro known i h
    cases i with
    | zero =>
      obtain ⟨rfl, rfl⟩ := Prod.mk.inj (Option.some.inj h)
      simp
    | succ i =>
      have hmem : stream ∈ first :: known ++ rest.take i ↔
          stream ∈ known ++ (first :: rest).take (i + 1) := by
        simp only [List.take_succ_cons, List.mem_append, List.mem_cons]
        tauto
      rw [ih h, decide_eq_decide.mpr (not_congr hmem)]

namespace Contents

variable {c c' : Contents A}

/-- Every stream is marked where it comes up first, and nowhere else. -/
def Marked (c : Contents A) : Prop := c.labels = marks [] c.streams

theorem Marked.append (h : c.Marked) {streams : List StreamId}
    (hlabels : c'.labels = c.labels ++ marks c.streams streams) : c'.Marked := by
  have hstreams : c'.streams = c.streams ++ streams := by
    rw [← Store.map_fst_labels, hlabels, List.map_append, Store.map_fst_labels, map_fst_marks]
  rw [Marked, hlabels, hstreams, marks_append, h]
  rfl

end Contents

namespace Store

variable {s : Store A} {batch : List (Payload A)}

theorem labels_stamp {time : Int} : ∀ {length : Nat} {streams : List StreamId},
    (stamp time length streams batch).map Event.label = marks streams (batch.map Payload.stream) := by
  induction batch with
  | nil =>
    intro length streams
    rfl
  | cons p rest ih =>
    intro length streams
    rw [stamp, List.map_cons, ih]
    rfl

theorem marked_write (h : s.contents.Marked) : (s.write batch).2.contents.Marked := by
  rcases labels_write s batch with hsame | hlabels
  · rw [hsame]
    exact h
  · rw [labels_stamp] at hlabels
    exact h.append hlabels

theorem marked_appendRaw (h : s.contents.Marked) {stream : StreamId} {tag : String}
    {data : List UInt8} : (s.appendRaw stream tag data).2.contents.Marked := by
  unfold appendRaw
  split
  · exact h
  · rename_i registry kept hkept
    refine h.append (?_ : _ = s.contents.labels ++ marks s.contents.streams [stream])
    rw [hkept]
    exact List.map_append

/-! ## What is kept -/

/-- What is kept is numbered from zero, as long as it does not reach the last position, and every
stream is marked where it comes up first. -/
structure Kept (c : Contents A) : Prop where
  numbered : c.length < 0x10000000000000000 → c.Numbered
  marked : c.Marked

theorem Kept.grows {c c' : Contents A} (h : Kept c) (hgrows : c.Grows c') (hmarked : c'.Marked) :
    Kept c' where
  numbered hroom := hgrows.numbered hroom (h.numbered (Nat.lt_of_le_of_lt hgrows.length_le hroom))
  marked := hmarked

theorem kept_answer (call : Call A) (h : Kept s.contents) : Kept (s.answer call).2.contents := by
  cases call with
  | write batch => exact h.grows (grows_write batch) (marked_write h.marked)
  | appendRaw stream tag data =>
    exact h.grows (grows_appendRaw stream tag data) (marked_appendRaw h.marked)
  | readFrom p =>
    show Kept (s.readFrom p).store.contents
    rw [after_readFrom.contents]
    exact h
  | readStream stream bound =>
    show Kept (s.readStream stream bound).store.contents
    rw [after_readStream.contents]
    exact h
  | failWrites n => exact h
  | failReadFrom p failure => exact h
  | failStreamRead failure => exact h
  | events => exact h
  | eventsOf stream => exact h
  | length => exact h
  | clock time => exact h

theorem kept_after (mode : Option (Registry A)) (time : Int) (pageSize : Nat)
    (calls : List (Call A)) : Kept ((fresh mode time pageSize).after calls).contents := by
  refine after_induction (P := fun s => Kept s.contents) (fun s call => kept_answer call) calls ?_
  have hempty : 0 < 0x10000000000000000 := by omega
  cases mode with
  | none => exact ⟨fun _ => ⟨hempty, rfl⟩, rfl⟩
  | some registry => exact ⟨fun _ => ⟨hempty, rfl⟩, rfl⟩

end Store

/-! ## What a write does -/

/-- The record is that of an event, with the bytes of its payload. -/
structure Record.IsOf (registry : Registry A) (record : Record) (e : Event A) : Prop where
  position : record.position = e.position
  time : record.time = e.time
  stream : record.stream = e.stream
  firstOfStream : some record.firstOfStream = e.firstOfStream
  tag : record.tag = e.tag
  data : registry.serialize e.payload = .ok record.data

namespace Contents

/-- These events, in this order and nothing else, are kept behind what was there. -/
def Gains (events : List (Event A)) : Contents A → Contents A → Prop
  | .payloads log, c' => c' = .payloads (log ++ events)
  | .records registry kept, c' => ∃ more, c' = .records registry (kept ++ more) ∧
      List.Forall₂ (Record.IsOf registry) more events

/-- The payload would have to be turned into bytes, and cannot be. -/
def Refuses : Contents A → Payload A → EventError → Prop
  | .payloads _, _, _ => False
  | .records registry _, p, e => registry.serialize p = .error e

end Contents

namespace Store

/-- What a write may yield, and the store that it leaves. -/
inductive Written (s : Store A) (batch : List (Payload A)) :
    Except WriteFailure (List (Event A)) → Store A → Prop where
  | stored {events : List (Event A)} {contents : Contents A} (faults : s.writeFaults = 0)
      (encoded : ∀ p ∈ batch, ∀ e, ¬s.contents.Refuses p e)
      (payloads : events.map Event.payload = batch) (times : ∀ e ∈ events, e.time = s.clock)
      (gains : s.contents.Gains events contents) : Written s batch (.ok events) { s with contents }
  | refused {p : Payload A} {e : EventError} (faults : s.writeFaults = 0) (mem : p ∈ batch)
      (refuses : s.contents.Refuses p e) :
      Written s batch (.error (.serialization e.message)) s
  | scripted (faults : 0 < s.writeFaults) :
      Written s batch (.error (.database "scripted write failure"))
        { s with writeFaults := s.writeFaults - 1 }

variable {s : Store A} {batch : List (Payload A)} {registry : Registry A}

theorem time_stamp {time : Int} : ∀ {length : Nat} {streams : List StreamId} {e : Event A},
    e ∈ stamp time length streams batch → e.time = time := by
  induction batch with
  | nil =>
    intro length streams e he
    cases he
  | cons p rest ih =>
    intro length streams e he
    rcases List.mem_cons.mp he with rfl | hrest
    · rfl
    · exact ih hrest

theorem encodeAll_cons {p : Payload A} {rest : List (Payload A)} :
    encodeAll registry (p :: rest) =
      match registry.serialize p with
      | .error e => .error e
      | .ok data =>
        match encodeAll registry rest with
        | .error e => .error e
        | .ok more => .ok (data :: more) := by
  simp only [encodeAll, bind, Except.bind, pure, Except.pure]
  cases registry.serialize p with
  | error e => rfl
  | ok data => cases encodeAll registry rest <;> rfl

/-- A batch that cannot be turned into bytes has a payload that cannot. -/
theorem exists_of_encodeAll_error {e : EventError} (h : encodeAll registry batch = .error e) :
    ∃ p ∈ batch, registry.serialize p = .error e := by
  induction batch with
  | nil => cases h
  | cons p rest ih =>
    rw [encodeAll_cons] at h
    cases hp : registry.serialize p with
    | error e' =>
      rw [hp] at h
      cases h
      exact ⟨p, List.mem_cons_self, hp⟩
    | ok data =>
      cases hrest : encodeAll registry rest with
      | error e' =>
        rw [hp, hrest] at h
        cases h
        obtain ⟨q, hq, hrefused⟩ := ih hrest
        exact ⟨q, List.mem_cons_of_mem _ hq, hrefused⟩
      | ok more =>
        rw [hp, hrest] at h
        cases h

/-- The records of a batch that can be turned into bytes are those of its events. -/
theorem isOf_of_encodeAll {time : Int} : ∀ {length : Nat} {streams : List StreamId}
    {encoded : List (List UInt8)}, encodeAll registry batch = .ok encoded →
      (∀ p ∈ batch, ∀ e, registry.serialize p ≠ .error e) ∧
      List.Forall₂ (Record.IsOf registry)
        ((stamp time length streams batch).zipWith recordOf encoded)
        (stamp time length streams batch) := by
  induction batch with
  | nil =>
    intro length streams encoded h
    refine ⟨fun p hp => ?_, .nil⟩
    cases hp
  | cons p rest ih =>
    intro length streams encoded h
    rw [encodeAll_cons] at h
    cases hp : registry.serialize p with
    | error e =>
      rw [hp] at h
      cases h
    | ok data =>
      cases hrest : encodeAll registry rest with
      | error e =>
        rw [hp, hrest] at h
        cases h
      | ok more =>
        rw [hp, hrest] at h
        cases h
        obtain ⟨htaken, hrecords⟩ := ih hrest
        refine ⟨fun q hq e he => ?_, .cons ⟨rfl, rfl, rfl, rfl, rfl, hp⟩ hrecords⟩
        rcases List.mem_cons.mp hq with rfl | hq
        · rw [hp] at he
          cases he
        · exact htaken q hq e he

theorem written_write (s : Store A) (batch : List (Payload A)) :
    s.Written batch (s.write batch).1 (s.write batch).2 := by
  unfold write
  by_cases hfaults : 0 < s.writeFaults
  · rw [if_pos hfaults]
    exact .scripted hfaults
  · have hnone : s.writeFaults = 0 := by omega
    rw [if_neg hfaults]
    cases hcontents : s.contents with
    | payloads log =>
      refine .stored hnone (fun p _ e hrefuses => ?_) map_payload_stamp (fun e => time_stamp) ?_
      · rw [hcontents] at hrefuses
        exact hrefuses
      · rw [hcontents]
        rfl
    | records registry kept =>
      dsimp only
      cases hencoded : encodeAll registry batch with
      | error e =>
        obtain ⟨p, hp, hrefused⟩ := exists_of_encodeAll_error hencoded
        refine .refused hnone hp ?_
        rw [hcontents]
        exact hrefused
      | ok encoded =>
        obtain ⟨htaken, hrecords⟩ := isOf_of_encodeAll hencoded
        refine .stored hnone (fun p hp e hrefuses => ?_) map_payload_stamp (fun e => time_stamp) ?_
        · rw [hcontents] at hrefuses
          exact htaken p hp e hrefuses
        · rw [hcontents]
          exact ⟨_, rfl, hrecords⟩

/-! ## What lasts -/

/-- Whether the call has an effect on what is kept, now or by the time that it sets. -/
def lasts (s : Store A) : Call A → Bool
  | .write batch => (s.write batch).1.isOk
  | .appendRaw .. => true
  | .clock _ => true
  | _ => false

/-- The calls with such an effect. -/
def lasting (s : Store A) : List (Call A) → List (Call A)
  | [] => []
  | call :: rest =>
    let more := (s.answer call).2.lasting rest
    if s.lasts call then call :: more else more

/-- The same is kept, at the same time, by a store whose writes are not to fail. -/
structure Shadow (s u : Store A) : Prop where
  contents : u.contents = s.contents
  clock : u.clock = s.clock
  faults : u.writeFaults = 0

theorem Shadow.write {u : Store A} (h : Shadow s u) (hok : (s.write batch).1.isOk = true) :
    Shadow (s.write batch).2 (u.write batch).2 := by
  have hfaults : ¬0 < s.writeFaults := by
    intro hfaults
    rw [Store.write, if_pos hfaults] at hok
    cases hok
  have hfaults' : ¬0 < u.writeFaults := by
    rw [h.faults]
    omega
  rw [Store.write, if_neg hfaults] at hok ⊢
  rw [Store.write, if_neg hfaults', Store.length, Store.length, h.contents, h.clock]
  cases hcontents : s.contents with
  | payloads log => exact ⟨rfl, rfl, h.faults⟩
  | records registry kept =>
    dsimp only
    rw [hcontents] at hok
    dsimp only at hok
    cases hencoded : encodeAll registry batch with
    | error e =>
      rw [hencoded] at hok
      cases hok
    | ok encoded => exact ⟨rfl, rfl, h.faults⟩

theorem Shadow.appendRaw {u : Store A} (h : Shadow s u) {stream : StreamId} {tag : String}
    {data : List UInt8} :
    Shadow (s.appendRaw stream tag data).2 (u.appendRaw stream tag data).2 := by
  rw [Store.appendRaw, Store.appendRaw, h.contents, h.clock]
  cases hcontents : s.contents with
  | payloads log => exact ⟨h.contents, h.clock, h.faults⟩
  | records registry kept => exact ⟨rfl, rfl, h.faults⟩

theorem Shadow.of_effectless {u : Store A} (h : Shadow s u) {call : Call A}
    (hnone : s.lasts call = false) : Shadow (s.answer call).2 u := by
  cases call with
  | write batch =>
    -- the write has failed
    have hwritten := written_write s batch
    have hfailed : (s.write batch).1.isOk = false := hnone
    show Shadow (s.write batch).2 u
    generalize (s.write batch).1 = result, (s.write batch).2 = t at hwritten hfailed
    cases hwritten with
    | stored faults encoded payloads times gains => cases hfailed
    | refused faults mem refuses => exact h
    | scripted faults => exact ⟨h.contents, h.clock, h.faults⟩
  | appendRaw stream tag data => cases hnone
  | clock time => cases hnone
  | readFrom p =>
    refine ⟨h.contents.trans after_readFrom.contents.symm, ?_, h.faults⟩
    show u.clock = (s.readFrom p).store.clock
    unfold readFrom
    dsimp only
    split <;> exact h.clock
  | readStream stream bound =>
    refine ⟨h.contents.trans after_readStream.contents.symm, ?_, h.faults⟩
    show u.clock = (s.readStream stream bound).store.clock
    unfold readStream
    dsimp only
    split <;> exact h.clock
  | failWrites n => exact ⟨h.contents, h.clock, h.faults⟩
  | failReadFrom p failure => exact ⟨h.contents, h.clock, h.faults⟩
  | failStreamRead failure => exact ⟨h.contents, h.clock, h.faults⟩
  | events => exact h
  | eventsOf stream => exact h
  | length => exact h

theorem Shadow.answer {u : Store A} (h : Shadow s u) {call : Call A} (hlasts : s.lasts call = true) :
    Shadow (s.answer call).2 (u.answer call).2 := by
  cases call with
  | write batch => exact h.write hlasts
  | appendRaw stream tag data => exact h.appendRaw
  | clock time => exact ⟨h.contents, rfl, h.faults⟩
  | _ => cases hlasts

theorem contents_after_lasting (calls : List (Call A)) : ∀ {s u : Store A}, Shadow s u →
    (u.after (s.lasting calls)).contents = (s.after calls).contents := by
  induction calls with
  | nil =>
    intro s u h
    exact h.contents
  | cons call rest ih =>
    intro s u h
    cases hlasts : s.lasts call with
    | true =>
      simp only [lasting, hlasts, if_true, after_cons]
      exact ih (h.answer hlasts)
    | false =>
      simp only [lasting, hlasts, Bool.false_eq_true, if_false, after_cons]
      exact ih (h.of_effectless hlasts)

/-- Whatever is asked of a new store, it keeps what it keeps under the positions from zero on, and
its hints are true. A write stores its whole batch behind that and returns these events, or it fails
and leaves the store as it was. What is kept is therefore what the calls that had an effect would
have left alone. -/
theorem kept_in_order (mode : Option (Registry A)) (time : Int) (pageSize : Nat)
    (calls : List (Call A))
    (hroom : ((fresh mode time pageSize).after calls).length < 0x10000000000000000) :
    let s := (fresh mode time pageSize).after calls
    s.contents.positions = List.range s.length ∧
      (∀ i stream hint, s.contents.labels[i]? = some (stream, hint) →
        hint = some (decide (stream ∉ s.contents.streams.take i))) ∧
      (∀ batch, s.Written batch (s.write batch).1 (s.write batch).2) ∧
      ((fresh mode time pageSize).after
        ((fresh mode time pageSize).lasting calls)).contents = s.contents := by
  intro s
  have hkept : Kept s.contents := kept_after mode time pageSize calls
  have hnew : Shadow (fresh mode time pageSize) (fresh mode time pageSize) := by
    cases mode <;> exact ⟨rfl, rfl, rfl⟩
  refine ⟨(hkept.numbered hroom).2, ?_, written_write s, contents_after_lasting calls hnew⟩
  intro i stream hint hlabel
  rw [hkept.marked] at hlabel
  exact getElem?_marks hlabel

/-- Binds notes, but not the facts that claim their tag. -/
def noting : Registry Notes.Fact :=
  ⟨[(Outcome.tag, ⟨.outcome, Outcome.tag⟩), ("Noted.v1", ⟨.fact Notes.Kind.noted, "Noted"⟩)]⟩

/-- A batch with a fact that is not bound, a write that is made to fail, a stream that comes up
twice in a batch, and a record that is planted under a stream that is written to afterwards. -/
def mixed : List (Store.Call Notes.Fact) :=
  [.write [.fact (.noted "a" 1), .fact .stray], .failWrites 1, .write [.fact (.noted "b" 2)],
    .write [.fact (.noted "a" 3), .fact (.noted "b" 4), .fact (.noted "a" 5)],
    .appendRaw ⟨"Topic", "c"⟩ "Unknown" [7], .write [.fact (.noted "c" 6)]]

theorem mixed_kept_in_order :
    let s := (fresh (some noting) testClock 10).after mixed
    s.length = 5 ∧ s.contents.positions = [0, 1, 2, 3, 4] ∧
      s.contents.labels.map Prod.snd = [some true, some true, some false, some true, some false] ∧
      ((fresh (some noting) testClock 10).after (mixed.drop 3)).contents = s.contents := by
  intro s
  have hlength : s.length = 5 := by decide
  obtain ⟨hpositions, hhints, -, hlasting⟩ := kept_in_order (some noting) testClock 10 mixed (by
    show s.length < _
    omega)
  refine ⟨hlength, ?_, ?_, hlasting⟩
  · rw [hlength] at hpositions
    exact hpositions
  · decide

end Store
end Chronicle
