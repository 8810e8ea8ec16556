import Chronicle.Proofs.Projection.Evicting

/-!
# Chronicle.Proofs.Projection.Retaining

A cache that keeps every entry and has everything loaded. Live events are behind the load at first:
they come to the loaded part of the log again, and then go beyond it.

* `Collection.Retains`: the entries are those of the first `n` events of the log, where `n` is the
  later of the two ends. A missing entry means that the stream has no event among those.
* `ReadModel.known_eq`, `mem_states_iff`: so what is answered from memory is the fold of a stream's
  events up to there.
* `ReadModel.applyNow_highWater`: to an event above the high water it makes no difference how far
  below it the high water was.
-/

namespace Chronicle

variable {A S : Type} [Vocabulary A] {p : Projector A S} {log : List (Event A)} {n : Nat}

/-! ## The entries of the first events -/

/-- The entries miss none of the first `n` events of the log, and have nothing of the others. -/
structure Collection.Retains (p : Projector A S) (log : List (Event A)) (n : Nat)
    (c : Collection S) : Prop extends Covers p log n c where
  bounded : n ≤ log.length
  below : ∀ s x, (s, x) ∈ c.entries → x.position.val < n

/-- An entry that applying an event leaves was there before, or is at the event. -/
theorem Cache.Fate.mem {cache : Cache S} {e : Event A} {earlier : Page A} {c' : Collection S}
    (hfate : cache.Fate p e earlier c') {s : StreamId} {x : Entry S} (hx : (s, x) ∈ c'.entries) :
    (s, x) ∈ cache.entries.entries ∨ x.position = e.position := by
  have hinserted : ∀ {state : Option S},
      (s, x) ∈ (cache.entries.insert e.stream ⟨state, e.position⟩).entries →
        (s, x) ∈ cache.entries.entries ∨ x.position = e.position := by
    intro state hmem
    rcases Collection.mem_insert hmem with ⟨-, hold⟩ | ⟨-, rfl⟩
    · exact .inl hold
    · exact .inr rfl
  cases hfate with
  | onto _ _ _ _ => exact hinserted hx
  | fresh _ _ _ => exact hinserted hx
  | backfilled _ _ _ _ _ => exact hinserted hx
  | _ => exact .inl hx

/-- After everything was loaded no event needs a read. -/
theorem Cache.examine_ne_backfill {cache : Cache S} (h : cache.allLoaded = true) (e : Event A) :
    cache.examine p e ≠ .backfill := by
  intro hx
  have hspec := Cache.examine_spec cache p e
  rw [hx] at hspec
  rw [hspec.2.2] at h
  cases h

namespace Collection.Retains

variable {c : Collection S}

theorem append {more : List (Event A)} (hc : c.Retains p log n)
    (h : Log.Numbered (log ++ more)) : c.Retains p (log ++ more) n where
  toCovers := hc.toCovers.append hc.bounded h
  bounded := by
    have := hc.bounded
    rw [List.length_append]
    omega
  below := hc.below

/-- The next event is the first that the entries have nothing of. -/
theorem applied {cache : Cache S} {e : Event A} {earlier : Page A} {c' : Collection S}
    (hc : cache.entries.Retains p log n) (h : Log.Numbered log) (hall : cache.allLoaded = true)
    (hq : ∀ o, e.payload.outcome? = some o → p.concerns e.stream = false)
    (he : log[n]? = some e) (hfate : cache.Fate p e earlier c') : c'.Retains p log (n + 1) where
  toCovers := hc.toCovers.applied h hq he hfate fun hx =>
    absurd hx (Cache.examine_ne_backfill hall e)
  bounded := (List.getElem?_eq_some_iff.mp he).1
  below s x hx := by
    rcases hfate.mem hx with hold | hposition
    · exact Nat.lt_succ_of_lt (hc.below s x hold)
    · rw [hposition, h.position he]
      exact Nat.lt_succ_self n

/-- An entry is the fold of the first `n` events of its stream. -/
theorem state_eq (hc : c.Retains p log n) (h : Log.Numbered log) (hexact : c.Exact p log)
    {s : StreamId} (hs : p.concerns s = true) {x : Entry S} (hf : c.find? s = some x) :
    x.state = p.foldAll none (Log.early log s n) :=
  have hx := mem_of_find? hf
  (hexact s x hx).state_eq h (hc.below s x hx) (hc.toCovers.beyond hs hf)

/-- A load that found the log's end leaves the entries of the whole log. -/
theorem of_loaded {cache : Cache S} {folded : List (StreamId × Entry S)}
    (hc : cache.entries.capacity = none) (h : Log.Numbered log)
    (hexact : cache.entries.Exact p log) (hfolded : Loading.Folded p log folded) :
    (cache.keepLoaded folded).entries.Retains p log log.length := by
  rw [← List.take_length (l := log)] at hfolded
  have hwhole := hexact.keepLoaded fun s x hx => (hfolded.exact h (Nat.le_refl _) hx).1
  refine ⟨.of_loaded hc h hfolded (Nat.le_refl _) (Nat.le_refl _) (.refl _), Nat.le_refl _,
    fun s x hx => ?_⟩
  obtain ⟨e, he, -, hposition⟩ := (hwhole s x hx).position
  rw [← hposition]
  exact h.position_lt he

end Collection.Retains

/-! ## Answers from memory -/

theorem Store.unread_write {store : Store A} (batch : List (Payload A)) :
    (store.write batch).2.reads = store.reads ∧
      (store.write batch).2.streamReads = store.streamReads := by
  unfold write
  split
  · exact ⟨rfl, rfl⟩
  · dsimp only
    split
    · exact ⟨rfl, rfl⟩
    · split <;> exact ⟨rfl, rfl⟩

namespace ReadModel

variable {m : ReadModel A S} {store : Store A} {s : StreamId}

theorem get_of_known {state : Option S} (h : m.known? s = some state) :
    m.get store s = ⟨.ok state, m, store, []⟩ := by
  unfold get
  rw [h]

omit [Vocabulary A] in
theorem exists_known (h : m.cache.allLoaded = true) (s : StreamId) :
    ∃ state, m.known? s = some state := by
  unfold known? Cache.known?
  cases m.cache.entries.find? s with
  | some x => exact ⟨x.state, rfl⟩
  | none => exact ⟨none, by simp [h]⟩

/-- What is known of a stream is the fold of its first `n` events, and none are missed. -/
theorem known_eq (hc : m.cache.entries.Retains p log n) (h : Log.Numbered log)
    (hall : m.cache.allLoaded = true) (hexact : m.cache.entries.Exact p log)
    (hs : p.concerns s = true) : m.known? s = some (p.foldAll none (Log.early log s n)) := by
  unfold known? Cache.known?
  cases hf : m.cache.entries.find? s with
  | some x =>
    rw [← hc.state_eq h hexact hs hf]
  | none =>
    rw [hc.toCovers.early_eq_nil h hs hf]
    simp [hall, Projector.foldAll]

/-- The projections that the cache holds are those of the first `n` events. -/
theorem mem_states_iff (hc : m.cache.entries.Retains p log n) (h : Log.Numbered log)
    (hexact : m.cache.entries.Exact p log)
    (habreast : m.cache.entries.Abreast p log n) {v : S} :
    (s, v) ∈ m.cache.states ↔
      p.concerns s = true ∧ p.foldAll none (Log.early log s n) = some v := by
  rw [Cache.mem_states]
  constructor
  · rintro ⟨x, hx, hv⟩
    have hs := habreast.concerned s x hx
    rw [← hc.state_eq h hexact hs (habreast.distinct.find? hx)]
    exact ⟨hs, hv⟩
  · rintro ⟨hs, hv⟩
    cases hf : m.cache.entries.find? s with
    | some x =>
      exact ⟨x, Collection.mem_of_find? hf, (hc.state_eq h hexact hs hf).trans hv⟩
    | none =>
      rw [hc.toCovers.early_eq_nil h hs hf] at hv
      cases hv

/-- A lookup keeps one entry at most. -/
theorem model_get : (m.get store s).model = m ∨
    ∃ x, (m.get store s).model = (m.keep s x).1 := by
  unfold get
  cases m.known? s with
  | some state => exact .inl rfl
  | none =>
    have hdigested := m.digested_digest s (store.readStream s Position.last).page
    dsimp only
    generalize (m.digest s _).1 = answer, (m.digest s _).2.1 = model at hdigested ⊢
    cases hdigested with
    | kept events x _ _ => exact .inr ⟨x, rfl⟩
    | _ => exact .inl rfl

theorem model_getUpTo {bound : Position} : (m.getUpTo store s bound).model = m ∨
    ∃ x, (m.getUpTo store s bound).model = (m.keep s x).1 := by
  unfold getUpTo
  split
  · exact model_get
  · exact .inl rfl

variable [DecidableEq S]

theorem store_applyNow (h : m.cache.allLoaded = true) (e : Event A) :
    (m.applyNow store e).store = store := by
  unfold applyNow
  rw [if_neg]
  rw [needsRead_iff]
  exact Cache.examine_ne_backfill h e

/-- An event at or below the high water is passed over. -/
theorem applyNow_stale {e : Event A} (h : Position.reached m.cache.highWater e.position = true) :
    m.applyNow store e = ⟨.ignored, m, store, []⟩ := by
  have hx : m.cache.examine m.projector e = .stale := if_pos h
  have hneeds : m.needsRead e = false := by rw [needsRead, hx]
  unfold applyNow
  rw [hneeds]
  simp only [Bool.false_eq_true, if_false, apply, applyNotes, Cache.apply, hx, announce]

end ReadModel

/-! ## Events further on -/

def Position.before : (j : Nat) → Option Position
  | 0 => none
  | k + 1 => some (.ofNat k)

theorem Position.reached_before {j : Nat} (h : j ≤ 0x10000000000000000) {q : Position} :
    reached (before j) q = true ↔ q.val < j := by
  cases j with
  | zero => simp [before, reached]
  | succ k =>
    rw [before, reached_some]
    show q.val ≤ (ofNat k).val ↔ _
    rw [val_ofNat h, Nat.lt_succ_iff]

theorem Position.raise_of_unreached {mark : Option Position} {q : Position}
    (h : reached mark q = false) : raise mark q = some q := by
  cases mark with
  | none => rfl
  | some high =>
    have hq : ¬ q ≤ high := by simpa [reached] using h
    exact if_pos (Nat.lt_of_not_le hq)

section HighWater

variable {mark : Option Position} {e : Event A}

theorem Cache.examine_highWater {c : Cache S} (h : Position.reached c.highWater e.position = false)
    (hmark : Position.reached mark e.position = false) :
    ({ c with highWater := mark } : Cache S).examine p e = c.examine p e := by
  simp only [examine, h, hmark]

/-- To an event above it, it makes no difference where the high water was before. -/
theorem ReadModel.applyNow_highWater [DecidableEq S] {m : ReadModel A S} {store : Store A}
    (h : Position.reached m.cache.highWater e.position = false)
    (hmark : Position.reached mark e.position = false) :
    ({ m with cache := { m.cache with highWater := mark } } : ReadModel A S).applyNow store e
      = m.applyNow store e := by
  have hexamine := Cache.examine_highWater (p := m.projector) h hmark
  have happly : ∀ earlier, ({ m.cache with highWater := mark } : Cache S).apply m.projector e
      earlier = m.cache.apply m.projector e earlier := by
    intro earlier
    have hspec := Cache.examine_spec m.cache m.projector e
    simp only [Cache.apply, hexamine]
    cases hx : m.cache.examine m.projector e with
    | stale =>
      rw [hx, h] at hspec
      cases hspec
    | fold state => rfl
    | backfill =>
      cases earlier with
      | ok events => rfl
      | error failure =>
        simp only [Cache.raise, Position.raise_of_unreached h, Position.raise_of_unreached hmark]
    | _ => simp only [Cache.raise, Position.raise_of_unreached h, Position.raise_of_unreached hmark]
  simp only [applyNow, needsRead, apply, applyNotes, hexamine, happly]
  rfl

end HighWater

/-- The live events up to the one numbered `j` are passed over. -/
def Session.skipTo (t : Session A S) (j : Nat) : Session A S :=
  { t with
    model := { t.model with cache := { t.model.cache with highWater := Position.before j } }
    applied := j }

end Chronicle
