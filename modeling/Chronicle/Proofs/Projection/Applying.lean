import Chronicle.Proofs.Projection.Folding

/-!
# Chronicle.Proofs.Projection.Applying

What applying a live event does to a cache, when the event is above the high water: the high water
becomes the event's position (`reached_apply`), and the entries stay as they are or get one that the
event was folded into (`Cache.Fate`, `apply_fate`).
-/

namespace Chronicle

namespace Position

theorem reached_some {high q : Position} : reached (some high) q = true ↔ q ≤ high :=
  decide_eq_true_iff

theorem reached_raise {mark : Option Position} {q r : Position} :
    reached (raise mark q) r = true ↔ reached mark r = true ∨ r ≤ q := by
  cases mark with
  | none =>
    rw [raise, reached_some]
    simp [reached]
  | some high =>
    rw [raise]
    by_cases h : high < q
    · rw [if_pos h, reached_some, reached_some]
      exact ⟨.inr, fun hr => hr.elim (fun hr => Nat.le_trans hr (Nat.le_of_lt h)) id⟩
    · rw [if_neg h, reached_some]
      exact ⟨.inl, fun hr => hr.elim id fun hr => Nat.le_trans hr (Nat.le_of_not_lt h)⟩

theorem reached_above {mark : Option Position} {q r : Position} (h : reached mark q = false) :
    reached (some q) r = true ↔ reached mark r = true ∨ r ≤ q := by
  cases mark with
  | none => simp [reached]
  | some high =>
    rw [reached_some, reached_some]
    refine ⟨.inr, fun hr => hr.elim (fun hr => ?_) id⟩
    have hq : ¬ q ≤ high := by simpa [reached] using h
    exact Nat.le_trans hr (Nat.le_of_not_le hq)

end Position

namespace Cache

variable {A S : Type} [Vocabulary A] {c : Cache S} {p : Projector A S} {e : Event A}

theorem examine_spec (c : Cache S) (p : Projector A S) (e : Event A) :
    match c.examine p e with
    | .stale => Position.reached c.highWater e.position = true
    | .outcome o => e.payload.outcome? = some o
    | .pass => p.concerns e.stream = false ∨
        ∃ held, c.entries.find? e.stream = some held ∧ e.position ≤ held.position
    | .fold state => p.concerns e.stream = true ∧
        ((∃ held, c.entries.find? e.stream = some held ∧ held.position < e.position ∧
            state = held.state) ∨
          (c.entries.find? e.stream = none ∧ state = none ∧
            (c.allLoaded = true ∨ e.firstOfStream = some true)))
    | .backfill => p.concerns e.stream = true ∧ c.entries.find? e.stream = none ∧
        c.allLoaded = false := by
  unfold examine
  by_cases hstale : Position.reached c.highWater e.position = true
  · rw [if_pos hstale]; exact hstale
  rw [if_neg hstale]
  cases ho : e.payload.outcome? with
  | some o => rfl
  | none =>
    by_cases hc : p.concerns e.stream = true
    · rw [if_neg (by simp [hc])]
      cases hf : c.entries.find? e.stream with
      | some held =>
        by_cases hle : e.position ≤ held.position
        · dsimp only; rw [if_pos hle]
          exact .inr ⟨held, rfl, hle⟩
        · dsimp only; rw [if_neg hle]
          exact ⟨hc, .inl ⟨held, rfl, Nat.lt_of_not_le hle, rfl⟩⟩
      | none =>
        by_cases hfirst : (c.allLoaded || e.firstOfStream == some true) = true
        · dsimp only; rw [if_pos hfirst]
          exact ⟨hc, .inr ⟨rfl, rfl, by simpa using hfirst⟩⟩
        · dsimp only; rw [if_neg hfirst]
          refine ⟨hc, rfl, ?_⟩
          cases hl : c.allLoaded with
          | true => rw [hl] at hfirst; exact absurd rfl hfirst
          | false => rfl
    · rw [if_pos (by simp [hc])]
      exact .inl (by simpa using hc)

/-- What becomes of the entries when a live event is applied, and why. -/
inductive Fate (c : Cache S) (p : Projector A S) (e : Event A) (earlier : Page A) :
    Collection S → Prop where
  /-- The event records an outcome. -/
  | outcome (o : Outcome) : e.payload.outcome? = some o → Fate c p e earlier c.entries
  | foreign : p.concerns e.stream = false → Fate c p e earlier c.entries
  /-- The stream's entry has the event already. -/
  | known (held : Entry S) : c.entries.find? e.stream = some held → e.position ≤ held.position →
      Fate c p e earlier c.entries
  | unread (failure : ReadFailure) : p.concerns e.stream = true →
      c.entries.find? e.stream = none → c.examine p e = .backfill → earlier = .error failure →
      Fate c p e earlier c.entries
  | onto (held : Entry S) : p.concerns e.stream = true → c.entries.find? e.stream = some held →
      held.position < e.position →
      Fate c p e earlier (c.entries.insert e.stream ⟨p.fold held.state e, e.position⟩)
  /-- The stream is taken to have no earlier events. -/
  | fresh : p.concerns e.stream = true → c.entries.find? e.stream = none →
      c.allLoaded = true ∨ e.firstOfStream = some true →
      Fate c p e earlier (c.entries.insert e.stream ⟨p.fold none e, e.position⟩)
  | backfilled (events : List (Event A)) : p.concerns e.stream = true →
      c.entries.find? e.stream = none → c.examine p e = .backfill → earlier = .ok events →
      Fate c p e earlier
        (c.entries.insert e.stream ⟨p.fold (p.foldAll none events) e, e.position⟩)

variable [DecidableEq S]

theorem apply_fate (h : Position.reached c.highWater e.position = false) (earlier : Page A) :
    Fate c p e earlier (c.apply p e earlier).1.entries := by
  have hspec := examine_spec c p e
  unfold apply
  cases hx : c.examine p e with
  | stale => rw [hx, h] at hspec; cases hspec
  | outcome o => rw [hx] at hspec; exact .outcome o hspec
  | pass =>
    rw [hx] at hspec
    rcases hspec with hc | ⟨held, hf, hle⟩
    · exact .foreign hc
    · exact .known held hf hle
  | fold state =>
    rw [hx] at hspec
    obtain ⟨hc, ⟨held, hf, hlt, rfl⟩ | ⟨hf, rfl, hfirst⟩⟩ := hspec
    · exact .onto held hc hf hlt
    · exact .fresh hc hf hfirst
  | backfill =>
    rw [hx] at hspec
    cases earlier with
    | error failure => exact .unread failure hspec.1 hspec.2.1 hx rfl
    | ok events =>
      have : Fate c p e (.ok events) _ := .backfilled events hspec.1 hspec.2.1 hx rfl
      rw [← Projector.entry?_state] at this
      exact this

theorem reached_apply (h : Position.reached c.highWater e.position = false) (earlier : Page A)
    {q : Position} :
    Position.reached (c.apply p e earlier).1.highWater q = true ↔
      Position.reached c.highWater q = true ∨ q ≤ e.position := by
  have hspec := examine_spec c p e
  unfold apply
  cases hx : c.examine p e with
  | stale => rw [hx, h] at hspec; cases hspec
  | outcome o => exact Position.reached_raise
  | pass => exact Position.reached_raise
  | fold state => exact Position.reached_above h
  | backfill =>
    cases earlier with
    | error failure => exact Position.reached_raise
    | ok events => exact Position.reached_above h

@[simp] theorem allLoaded_apply (earlier : Page A) :
    (c.apply p e earlier).1.allLoaded = c.allLoaded := by
  unfold apply
  cases c.examine p e <;> try rfl
  cases earlier <;> rfl

@[simp] theorem capacity_apply (earlier : Page A) :
    (c.apply p e earlier).1.entries.capacity = c.entries.capacity := by
  unfold apply
  cases c.examine p e with
  | backfill =>
    cases earlier with
    | ok events => exact Collection.capacity_insert
    | error failure => rfl
  | fold state => exact Collection.capacity_insert
  | _ => rfl

end Cache

namespace ReadModel

variable {A S : Type} [Vocabulary A] {m : ReadModel A S} {e : Event A}

theorem needsRead_iff : m.needsRead e = true ↔ m.cache.examine m.projector e = .backfill := by
  unfold needsRead
  cases m.cache.examine m.projector e <;> simp

@[simp] theorem projector_announce (applied : Applied A S) :
    (m.announce applied).projector = m.projector := by
  cases applied <;> rfl

@[simp] theorem cache_announce (applied : Applied A S) : (m.announce applied).cache = m.cache := by
  cases applied <;> rfl

variable [DecidableEq S]

@[simp] theorem projector_apply (earlier : Page A) :
    (m.apply e earlier).1.projector = m.projector :=
  projector_announce _

@[simp] theorem cache_apply (earlier : Page A) :
    (m.apply e earlier).1.cache = (m.cache.apply m.projector e earlier).1 :=
  cache_announce _

end ReadModel
end Chronicle
