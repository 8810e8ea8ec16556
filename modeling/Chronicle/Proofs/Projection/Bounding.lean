import Chronicle.Notes
import Chronicle.Proofs.Log.Filing
import Chronicle.Proofs.Projection.Folding
import Chronicle.Projection.ReadModel

/-!
# Chronicle.Proofs.Projection.Bounding

Lookups up to a bound. Whatever the cache holds, such a lookup folds the events that the log has under
the stream below the bound, and leaves the read model as it is (`getUpTo_folds`).

It does not ask whether the stream concerns the projector, as a lookup without a bound does. So the
two agree on the whole of a stream exactly if the stream concerns the projector, or its events fold
to nothing.
-/

namespace Chronicle

variable {A S : Type} [Vocabulary A] {s : StreamId} {bound : Position}

/-- The projection that the events of a stream make. A stream that does not concern the projector
has none. -/
def Projector.viewOf (p : Projector A S) (s : StreamId) (events : List (Event A)) : Option S :=
  if p.concerns s then p.foldAll none events else none

omit [Vocabulary A] in
theorem Projector.foldAll_eq_viewOf {p : Projector A S} {events : List (Event A)} :
    p.foldAll none events = p.viewOf s events ↔
      p.concerns s = true ∨ p.foldAll none events = none := by
  unfold viewOf
  split <;> simp_all

theorem Cache.answer_keep_of_empty {c : Cache S} {x : Entry S} (hempty : c.entries.entries = []) :
    (c.keep s x).answer s x = x.state := by
  unfold answer
  cases hfind : (c.keep s x).entries.find? s with
  | none => rfl
  | some held =>
    rcases mem_keep (Collection.mem_of_find? hfind) with hold | ⟨-, rfl⟩
    · rw [hempty] at hold
      cases hold
    · rfl

namespace ReadModel

variable {m : ReadModel A S} {store : Store A} {p : Projector A S} {entries : Collection S}
  {events : List (Event A)}

omit [Vocabulary A] in
theorem known?_new (hempty : entries.entries = []) :
    (new p entries).known? s = if p.concerns s then none else some none := by
  have hfind : entries.find? s = none := by
    rw [Collection.find?, hempty]
    rfl
  simp only [known?, new, Cache.known?, Cache.new, hfind, Bool.false_or]
  cases p.concerns s <;> rfl

theorem answer_get_new (hempty : entries.entries = [])
    (hread : (store.readStream s Position.last).page = .ok events) :
    ((new p entries).get store s).answer = .ok (p.viewOf s events) := by
  have hknown := known?_new (p := p) (s := s) hempty
  unfold get Projector.viewOf
  by_cases hs : p.concerns s = true
  · rw [if_pos hs] at hknown ⊢
    rw [hknown, ← p.entry?_state events]
    dsimp only
    rw [hread]
    cases hx : p.entry? events with
    | none => simp only [digest, backfilled, new, hx, Option.bind_none]
    | some x =>
      simp only [digest, backfilled, new, hx, Option.bind_some]
      exact congrArg Except.ok (Cache.answer_keep_of_empty hempty)
  · rw [if_neg hs] at hknown ⊢
    rw [hknown]

theorem getUpTo_of_page (hbound : bound.isLast = false)
    (hread : (store.readStream s bound).page = .ok events) :
    (m.getUpTo store s bound).answer = .ok (m.projector.foldAll none events) ∧
      (m.getUpTo store s bound).model = m := by
  have hlast : ¬ bound.isLast = true := Bool.eq_false_iff.mp hbound
  unfold getUpTo
  rw [if_neg hlast]
  dsimp only
  rw [hread]
  exact ⟨congrArg Except.ok (Projector.entry?_state events), rfl⟩

/-- Let everything that the store keeps be decodable, and no read of a stream fail. A lookup up to a
bound folds what is kept under the stream below the bound, whatever the cache holds, and leaves
the read model as it is. That is the stream's projection if the stream concerns the projector, and
otherwise exactly if the events fold to nothing. With a bound above the whole log, it is on this
condition what a lookup without a bound finds from an empty cache. -/
theorem getUpTo_folds (m : ReadModel A S) {store : Store A} {log events : List (Event A)}
    (s : StreamId) {bound : Position} (hlog : store.contents.Decodes log)
    (hroom : log.length < 0x10000000000000000) (hquiet : store.streamFaults = [])
    (hbound : bound.isLast = false)
    (hevents : events = Log.filed log store.contents.streams s bound) :
    (m.getUpTo store s bound).answer = .ok (m.projector.foldAll none events) ∧
    (m.getUpTo store s bound).model = m ∧
    ((m.getUpTo store s bound).answer = .ok (m.projector.viewOf s events) ↔
      m.projector.concerns s = true ∨ m.projector.foldAll none events = none) ∧
    ((∀ e ∈ log, e.position < bound) → ∀ entries : Collection S, entries.entries = [] →
      ((new m.projector entries).get store s).answer = .ok (m.projector.viewOf s events) ∧
      ((m.getUpTo store s bound).answer = ((new m.projector entries).get store s).answer ↔
        m.projector.concerns s = true ∨ m.projector.foldAll none events = none)) := by
  have hread (bound : Position) : (store.readStream s bound).page =
      .ok (Log.filed log store.contents.streams s bound) := by
    rw [Store.page_readStream_filed hlog hroom, hquiet]
    rfl
  obtain ⟨hanswer, hmodel⟩ := getUpTo_of_page (m := m) hbound (hevents ▸ hread bound)
  have hagree : (m.getUpTo store s bound).answer = .ok (m.projector.viewOf s events) ↔
      m.projector.concerns s = true ∨ m.projector.foldAll none events = none := by
    rw [hanswer, Except.ok.injEq, Projector.foldAll_eq_viewOf]
  refine ⟨hanswer, hmodel, hagree, fun habove entries hempty => ?_⟩
  have habove' : ∀ e ∈ log, e.position < Position.last := fun e he =>
    Nat.lt_of_lt_of_le (habove e he) (Nat.le_of_lt_succ bound.isLt)
  -- A lookup without a bound reads below the last position, which is above the whole log as well.
  have hwhole : (store.readStream s Position.last).page = .ok events := by
    rw [hread, hevents, Log.filed_eq_of_above habove habove']
  have hget := answer_get_new (p := m.projector) hempty hwhole
  exact ⟨hget, by rw [hget, hagree]⟩

/-- Counts what is kept under every topic. -/
def keptCount : Projector Notes.Fact Int64 where
  concerns s := s.isOf Notes.category
  fold state _ := some (state.getD 0 + 1)

/-- Two numbers of a topic, and between them the outcome of a command. -/
def notesAndOutcome : Store Notes.Fact :=
  ((Store.ofPayloads 0).write [.fact (.noted "a" 2), .outcome ⟨.ofNat 1, .ok "done"⟩,
    .fact (.noted "a" 3)]).2

/-- Below the second number of the topic there is one. -/
theorem getUpTo_topic :
    ((new keptCount .unbounded).getUpTo notesAndOutcome ⟨"Topic", "a"⟩ (.ofNat 2)).answer
        = .ok (some 1) ∧
      ((new keptCount .unbounded).getUpTo notesAndOutcome ⟨"Topic", "a"⟩ (.ofNat 3)).answer
        = ((new keptCount (.bounded 1)).get notesAndOutcome ⟨"Topic", "a"⟩).answer := by
  have hlog : notesAndOutcome.contents.Decodes notesAndOutcome.events := rfl
  have hbelow := (getUpTo_folds (new keptCount .unbounded) ⟨"Topic", "a"⟩ hlog (by decide) rfl
    (rfl : (Position.ofNat 2).isLast = false) rfl).1
  have hwhole := (getUpTo_folds (new keptCount .unbounded) ⟨"Topic", "a"⟩ hlog (by decide) rfl
    (rfl : (Position.ofNat 3).isLast = false) rfl).2.2.2 (by decide) (.bounded 1) rfl
  exact ⟨hbelow.trans rfl, hwhole.2.mpr (.inl (by decide))⟩

/-- A number of a topic that is kept under a stream of another category. -/
def strayNote : Store Notes.Fact where
  contents := .records ⟨[("Noted.v1", ⟨.fact .noted, "Noted"⟩)]⟩
    [⟨.ofNat 0, 0, ⟨"Other", "a"⟩, true, "Noted.v1",
      [1, 0, 0, 0, 0, 0, 0, 0, 97, 2, 0, 0, 0, 0, 0, 0, 0]⟩]
  clock := 0

/-- Up to a bound, streams that do not concern the projector have a projection. Without a bound they
have none. -/
theorem getUpTo_unconcerned :
    (keptCount.concerns (Outcome.streamOf (.ofNat 1)) = false ∧
      ((new keptCount .unbounded).getUpTo notesAndOutcome (Outcome.streamOf (.ofNat 1))
        (.ofNat 3)).answer = .ok (some 1) ∧
      ((new keptCount .unbounded).get notesAndOutcome (Outcome.streamOf (.ofNat 1))).answer
        = .ok none) ∧
    (Notes.projector : Projector Notes.Fact Int64).concerns ⟨"Other", "a"⟩ = false ∧
      ((new Notes.projector .unbounded).getUpTo strayNote ⟨"Other", "a"⟩ (.ofNat 1)).answer
        = .ok (some 2) ∧
      ((new Notes.projector .unbounded).get strayNote ⟨"Other", "a"⟩).answer = .ok none :=
  ⟨⟨by decide, rfl, rfl⟩, by decide, rfl, rfl⟩

end ReadModel
end Chronicle
