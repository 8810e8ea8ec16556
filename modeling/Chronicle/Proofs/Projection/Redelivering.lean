import Chronicle.Notes
import Chronicle.Proofs.Projection.Retaining

/-!
# Chronicle.Proofs.Projection.Redelivering

Live events that come in any order and any number of times. An event counts if it is beyond the high
water and beyond every event that came before it (`leading`). All others are passed over: to the
entries, the feeds and the store they might as well not have come (`applyAll_leading`).

What carries this is that every event raises the high water to its own position, whatever else
becomes of it (`highWater_applyNow`). So the high water is the latest of all positions so far, and
an event leads exactly if it is beyond that (`Event.leads_iff`).
-/

namespace Chronicle

/-! ## The latest position -/

namespace Position

variable {mark : Option Position} {positions : List Position} {q : Position}

/-- The latest of a mark and some positions, where `none` is before every position. -/
structure Latest (mark : Option Position) (positions : List Position) (high : Option Position) :
    Prop where
  among : high = mark ∨ ∃ q ∈ positions, high = some q
  mark_le : ∀ q, mark = some q → reached high q = true
  le : ∀ q ∈ positions, reached high q = true

theorem raise_of_reached (h : reached mark q = true) : raise mark q = mark := by
  cases mark with
  | none => cases h
  | some high => exact if_neg (Nat.not_lt_of_le (reached_some.mp h))

theorem raise_cases (mark : Option Position) (q : Position) :
    raise mark q = mark ∨ raise mark q = some q := by
  by_cases h : reached mark q = true
  · exact .inl (raise_of_reached h)
  · exact .inr (raise_of_unreached (Bool.eq_false_iff.mpr h))

theorem reached_foldl_raise : reached (positions.foldl raise mark) q = true ↔
    reached mark q = true ∨ ∃ r ∈ positions, q ≤ r := by
  induction positions generalizing mark with
  | nil => simp
  | cons r rest ih =>
    rw [List.foldl_cons, ih, reached_raise, or_assoc]
    simp

theorem foldl_raise_cases (mark : Option Position) (positions : List Position) :
    positions.foldl raise mark = mark ∨ ∃ q ∈ positions, positions.foldl raise mark = some q := by
  induction positions generalizing mark with
  | nil => exact .inl rfl
  | cons r rest ih =>
    rw [List.foldl_cons]
    rcases ih (raise mark r) with hsame | ⟨q, hq, hsome⟩
    · rw [hsame]
      exact (raise_cases mark r).imp id fun hr => ⟨r, List.mem_cons_self, hr⟩
    · exact .inr ⟨q, List.mem_cons_of_mem _ hq, hsome⟩

theorem latest_foldl_raise (mark : Option Position) (positions : List Position) :
    Latest mark positions (positions.foldl raise mark) where
  among := foldl_raise_cases mark positions
  mark_le q hq := by
    refine reached_foldl_raise.mpr (.inl ?_)
    rw [hq]
    exact reached_some.mpr (Nat.le_refl _)
  le q hq := reached_foldl_raise.mpr (.inr ⟨q, hq, Nat.le_refl _⟩)

end Position

/-! ## Events that lead -/

section Leading

variable {A : Type} {mark : Option Position} {earlier : List (Event A)} {e : Event A}

/-- The event is beyond the mark, and beyond the events before it. -/
def Event.leads (mark : Option Position) (earlier : List (Event A)) (e : Event A) : Bool :=
  !Position.reached mark e.position && earlier.all fun d => decide (d.position < e.position)

/-- Of events that come after `earlier` ones, those that lead. -/
def leadingAfter (mark : Option Position) : (earlier events : List (Event A)) → List (Event A)
  | _, [] => []
  | earlier, e :: rest =>
    if e.leads mark earlier then e :: leadingAfter mark (earlier ++ [e]) rest
    else leadingAfter mark (earlier ++ [e]) rest

/-- The events that are beyond the mark, and beyond every event before them. -/
def leading (mark : Option Position) (events : List (Event A)) : List (Event A) :=
  leadingAfter mark [] events

/-- An event leads if it is beyond the latest position so far. -/
theorem Event.leads_iff : e.leads mark earlier = true ↔
    Position.reached ((earlier.map Event.position).foldl Position.raise mark) e.position = false := by
  rw [Bool.eq_false_iff, Ne, Position.reached_foldl_raise, not_or, leads, Bool.and_eq_true,
    Bool.not_eq_true', Bool.eq_false_iff, List.all_eq_true]
  simp only [decide_eq_true_eq, List.mem_map, not_exists, not_and, forall_exists_index, and_imp,
    forall_apply_eq_imp_iff₂]
  exact and_congr_right fun _ => forall₂_congr fun d _ => Nat.not_le.symm

end Leading

/-! ## Applying whatever comes -/

variable {A S : Type} [Vocabulary A]

def Applied.counts : Applied A S → Bool
  | .ignored => false
  | _ => true

variable [DecidableEq S]

/-- Whatever becomes of an event that is above the high water, that is where the high water is then. -/
theorem Cache.highWater_apply {c : Cache S} {p : Projector A S} {e : Event A}
    (h : Position.reached c.highWater e.position = false) (earlier : Page A) :
    (c.apply p e earlier).1.highWater = some e.position := by
  have hraise : (c.raise e.position).highWater = some e.position := Position.raise_of_unreached h
  have hspec := examine_spec c p e
  unfold apply
  cases hx : c.examine p e with
  | stale =>
    rw [hx, h] at hspec
    cases hspec
  | outcome o => exact hraise
  | pass => exact hraise
  | fold state => rfl
  | backfill =>
    cases earlier with
    | ok events => rfl
    | error failure => exact hraise

namespace ReadModel

variable {m : ReadModel A S} {store : Store A} {mark : Option Position}

theorem highWater_applyNow (e : Event A) : (m.applyNow store e).model.cache.highWater
    = Position.raise m.cache.highWater e.position := by
  by_cases h : Position.reached m.cache.highWater e.position = true
  · rw [applyNow_stale h, Position.raise_of_reached h]
  · have hunreached := Bool.eq_false_iff.mpr h
    rw [Position.raise_of_unreached hunreached]
    have happly (earlier : Page A) : (m.apply e earlier).1.cache.highWater = some e.position := by
      rw [cache_apply]
      exact Cache.highWater_apply hunreached earlier
    unfold applyNow
    split
    · exact happly _
    · exact happly (.ok [])

def applyAll (m : ReadModel A S) (store : Store A) :
    List (Event A) → Served A S (List (Applied A S))
  | [] => ⟨[], m, store, []⟩
  | e :: rest =>
    let first := m.applyNow store e
    let others := first.model.applyAll first.store rest
    ⟨first.answer :: others.answer, others.model, others.store, first.notes ++ others.notes⟩

theorem highWater_applyAll (events : List (Event A)) :
    (m.applyAll store events).model.cache.highWater
      = (events.map Event.position).foldl Position.raise m.cache.highWater := by
  induction events generalizing m store with
  | nil => rfl
  | cons e rest ih => exact ih.trans (by rw [highWater_applyNow, List.map_cons, List.foldl_cons])

theorem applyAll_stale {events : List (Event A)}
    (h : ∀ e ∈ events, Position.reached m.cache.highWater e.position = true) :
    m.applyAll store events = ⟨events.map fun _ => .ignored, m, store, []⟩ := by
  induction events with
  | nil => rfl
  | cons e rest ih =>
    obtain ⟨hfirst, hrest⟩ := List.forall_mem_cons.mp h
    simp only [applyAll, applyNow_stale hfirst, ih hrest, List.map_cons, List.append_nil]

/-- What applying events has come to, apart from the answers to those that were passed over. -/
def gist (served : Served A S (List (Applied A S))) : Served A S (List (Applied A S)) :=
  { served with answer := served.answer.filter Applied.counts }

theorem gist_applyAll_stale {e : Event A} (h : Position.reached m.cache.highWater e.position = true)
    (rest : List (Event A)) : gist (m.applyAll store (e :: rest)) = gist (m.applyAll store rest) := by
  simp only [applyAll, applyNow_stale h]
  rfl

theorem gist_applyAll_cons {e : Event A} {rest rest' : List (Event A)}
    (h : gist ((m.applyNow store e).model.applyAll (m.applyNow store e).store rest)
      = gist ((m.applyNow store e).model.applyAll (m.applyNow store e).store rest')) :
    gist (m.applyAll store (e :: rest)) = gist (m.applyAll store (e :: rest')) := by
  simp only [gist, applyAll, Served.mk.injEq, List.filter_cons] at h ⊢
  obtain ⟨hanswer, hmodel, hstore, hnotes⟩ := h
  rw [hanswer, hmodel, hstore, hnotes]
  exact ⟨rfl, rfl, rfl, rfl⟩

/-- Events that come after others, which have raised the high water. -/
theorem gist_leadingAfter (events : List (Event A)) {earlier : List (Event A)}
    (h : m.cache.highWater = (earlier.map Event.position).foldl Position.raise mark) :
    gist (m.applyAll store events) = gist (m.applyAll store (leadingAfter mark earlier events)) := by
  induction events generalizing m store earlier with
  | nil => rfl
  | cons e rest ih =>
    -- Whether the event leads or not, the next ones find it in the high water.
    have hnext : (m.applyNow store e).model.cache.highWater
        = ((earlier ++ [e]).map Event.position).foldl Position.raise mark := by
      rw [highWater_applyNow, h, List.map_append, List.foldl_append]
      rfl
    rw [leadingAfter]
    by_cases hleads : e.leads mark earlier = true
    · rw [if_pos hleads]
      exact gist_applyAll_cons (ih hnext)
    · rw [if_neg hleads]
      rw [Event.leads_iff, ← h, Bool.not_eq_false] at hleads
      rw [applyNow_stale hleads] at hnext
      exact (gist_applyAll_stale hleads rest).trans (ih hnext)

/-- Events that come in any order and any number of times take the high water to the latest of their
positions. The entries, the feeds, the store and every answer to an event that was not passed over
are what they are if only those events come that are beyond the high water and beyond every event
before them. Whatever comes again then, or further back, is passed over and changes nothing. -/
theorem applyAll_leading (m : ReadModel A S) (store : Store A) (events : List (Event A)) :
    Position.Latest m.cache.highWater (events.map Event.position)
      (m.applyAll store events).model.cache.highWater ∧
    ((m.applyAll store events).model
        = (m.applyAll store (leading m.cache.highWater events)).model ∧
      (m.applyAll store events).answer.filter Applied.counts
        = (m.applyAll store (leading m.cache.highWater events)).answer.filter Applied.counts ∧
      (m.applyAll store events).store
        = (m.applyAll store (leading m.cache.highWater events)).store ∧
      (m.applyAll store events).notes
        = (m.applyAll store (leading m.cache.highWater events)).notes) ∧
    ∀ again : List (Event A), (∀ e ∈ again, ∃ d ∈ events, e.position ≤ d.position) →
      (m.applyAll store events).model.applyAll (m.applyAll store events).store again
        = ⟨again.map fun _ => .ignored, (m.applyAll store events).model,
          (m.applyAll store events).store, []⟩ := by
  refine ⟨?_, ?_, fun again hagain => applyAll_stale fun e he => ?_⟩
  · rw [highWater_applyAll]
    exact Position.latest_foldl_raise _ _
  · have hgist : gist (m.applyAll store events)
        = gist (m.applyAll store (leading m.cache.highWater events)) := gist_leadingAfter events rfl
    exact ⟨congrArg (·.model) hgist, congrArg (·.answer) hgist, congrArg (·.store) hgist,
      congrArg (·.notes) hgist⟩
  · obtain ⟨d, hd, hle⟩ := hagain e he
    rw [highWater_applyAll, Position.reached_foldl_raise]
    exact .inr ⟨d.position, List.mem_map_of_mem hd, hle⟩

/-- A number is noted, an outcome recorded, and another number noted. Each comes twice. -/
def twice : List (Event Notes.Fact) :=
  let noted : Event Notes.Fact := ⟨.ofNat 0, 0, .fact (.noted "a" 1), some true⟩
  let ended : Event Notes.Fact := ⟨.ofNat 1, 0, .outcome ⟨.ofNat 7, .ok "done"⟩, some true⟩
  let more : Event Notes.Fact := ⟨.ofNat 2, 0, .fact (.noted "a" 2), some false⟩
  [noted, noted, ended, more, ended, more]

-- Each of the three is applied and published once.
example :
    let m : ReadModel Notes.Fact Int64 :=
      { ReadModel.new Notes.projector .unbounded with
        changes := Broadcaster.new.subscribe.1
        outcomes := Broadcaster.new.subscribe.1 }
    let served := m.applyAll (.ofPayloads 0) twice
    served.answer.map Applied.counts = [true, false, true, true, false, false] ∧
      (served.model.changes.mailbox 0).queue.map (fun c => (c.event.position, c.state))
        = [(.ofNat 0, some 1), (.ofNat 2, some 3)] ∧
      (served.model.outcomes.mailbox 0).queue = [⟨.ofNat 7, .ok "done"⟩] := by
  decide

end ReadModel
end Chronicle
