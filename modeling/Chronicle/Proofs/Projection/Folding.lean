import Chronicle.Projection.ReadModel
import Chronicle.Proofs.Log.Reading

/-!
# Chronicle.Proofs.Projection.Folding

Entries and the events that they were folded from.

* `Entry.Exact`: an entry is the fold of its stream's events up to its position. Folding the next
  event of the stream keeps that (`exact_fold`), and so does appending to the log (`Exact.append`).
* `AtOrBeyond`: a position is not before any event of a stream among the first `n`.
* `Folded`, `Loading.Sound`: what a load has folded is what the part of the log that it read makes.
* `Collection`, `Cache`: which entries are held after one was written or kept.
-/

namespace Chronicle

/-! ## Entries by stream -/

section Entries

variable {α : Type} {entries : List (StreamId × α)} {s t : StreamId} {v x : α}

theorem mem_of_lookup : ∀ {entries : List (StreamId × α)}, entries.lookup s = some v →
    (s, v) ∈ entries
  | [], h => by cases h
  | (t, x) :: rest, h => by
    rw [List.lookup_cons] at h
    by_cases hs : s = t
    · subst hs
      rw [beq_self_eq_true] at h
      cases h
      exact List.mem_cons_self
    · rw [beq_false_of_ne hs] at h
      exact List.mem_cons_of_mem _ (mem_of_lookup h)

theorem not_mem_of_lookup : ∀ {entries : List (StreamId × α)}, entries.lookup s = none →
    (s, v) ∉ entries
  | [], _, hmem => by cases hmem
  | (t, x) :: rest, h, hmem => by
    rw [List.lookup_cons] at h
    by_cases hs : s = t
    · subst hs
      rw [beq_self_eq_true] at h
      cases h
    · rw [beq_false_of_ne hs] at h
      rcases List.mem_cons.mp hmem with heq | hmem
      · exact hs (congrArg Prod.fst heq)
      · exact not_mem_of_lookup h hmem

theorem lookup_of_mem : ∀ {entries : List (StreamId × α)},
    entries.Pairwise (fun a b => a.1 ≠ b.1) → (s, v) ∈ entries → entries.lookup s = some v
  | [], _, hmem => by cases hmem
  | held :: rest, hd, hmem => by
    obtain ⟨hne, hrest⟩ := List.pairwise_cons.mp hd
    rw [List.lookup_cons]
    rcases List.mem_cons.mp hmem with rfl | hmem
    · rw [beq_self_eq_true]
    · rw [beq_false_of_ne (hne _ hmem).symm]
      exact lookup_of_mem hrest hmem

/-- Writing a stream's entry: the stream's old entries are dropped, the new one comes last. -/
theorem mem_rewritten :
    (t, x) ∈ (entries.filter fun held => held.1 != s) ++ [(s, v)] ↔
      (t ≠ s ∧ (t, x) ∈ entries) ∨ (t = s ∧ x = v) := by
  rw [List.mem_append, List.mem_filter, List.mem_singleton, Prod.mk.injEq]
  constructor
  · rintro (⟨hmem, hne⟩ | h)
    · exact .inl ⟨by simpa using hne, hmem⟩
    · exact .inr h
  · rintro (⟨hne, hmem⟩ | h)
    · exact .inl ⟨hmem, by simpa using hne⟩
    · exact .inr h

theorem lookup_rewritten :
    ((entries.filter fun held => held.1 != s) ++ [(s, v)]).lookup t
      = if t = s then some v else entries.lookup t := by
  induction entries with
  | nil =>
    rw [List.filter_nil, List.nil_append, List.lookup_cons]
    by_cases ht : t = s
    · rw [ht, beq_self_eq_true, if_pos rfl]
    · rw [beq_false_of_ne ht, if_neg ht]
  | cons held rest ih =>
    by_cases hs : held.1 = s
    · rw [List.filter_cons_of_neg (by simp [hs]), ih, List.lookup_cons]
      by_cases ht : t = s
      · simp [ht]
      · rw [if_neg ht, if_neg ht, hs, beq_false_of_ne ht]
    · rw [List.filter_cons_of_pos (by simp [hs]), List.cons_append, List.lookup_cons, ih,
        List.lookup_cons]
      by_cases ht : t = held.1
      · rw [ht, beq_self_eq_true]
        exact (if_neg hs).symm
      · rw [beq_false_of_ne ht]

end Entries

namespace Collection

variable {S : Type} {c : Collection S} {s t : StreamId} {e x : Entry S}

/-- The collection can hold an entry. -/
def Roomy (c : Collection S) : Prop := ∀ n, c.capacity = some n → 0 < n

theorem roomy_unbounded : (unbounded : Collection S).Roomy := by
  intro n h
  cases h

theorem roomy_bounded (capacity : Nat) : (bounded capacity : Collection S).Roomy := by
  intro n h
  cases h
  exact Nat.lt_of_lt_of_le Nat.one_pos (Nat.le_max_right _ _)

/-- A collection that was just made has room for an entry, and has none. -/
theorem roomy_of_new {c : Collection S} (h : c = .unbounded ∨ ∃ k, c = .bounded k) :
    c.Roomy ∧ c.entries = [] := by
  rcases h with rfl | ⟨k, rfl⟩
  · exact ⟨roomy_unbounded, rfl⟩
  · exact ⟨roomy_bounded k, rfl⟩

theorem mem_of_find? (h : c.find? s = some e) : (s, e) ∈ c.entries := mem_of_lookup h

theorem not_mem_of_find? (h : c.find? s = none) : (s, e) ∉ c.entries := not_mem_of_lookup h

@[simp] theorem capacity_insert : (c.insert s e).capacity = c.capacity := by
  rw [insert]
  cases h : c.capacity <;> rfl

/-- What is held after writing an entry was held before, or is that entry. -/
theorem mem_insert (h : (t, x) ∈ (c.insert s e).entries) :
    (t ≠ s ∧ (t, x) ∈ c.entries) ∨ (t = s ∧ x = e) := by
  rw [insert] at h
  cases hc : c.capacity with
  | none =>
    simp only [hc] at h
    exact mem_rewritten.mp h
  | some n =>
    simp only [hc] at h
    exact mem_rewritten.mp (List.mem_of_mem_drop h)

theorem mem_insert_self (h : c.Roomy) : (s, e) ∈ (c.insert s e).entries := by
  rw [insert]
  cases hc : c.capacity with
  | none => exact mem_rewritten.mpr (.inr ⟨rfl, rfl⟩)
  | some n =>
    have hn := h n hc
    show (s, e) ∈ List.drop (List.length (_ ++ [(s, e)]) - n) (_ ++ [(s, e)])
    rw [List.length_append, List.length_singleton, List.drop_append_of_le_length (by omega)]
    exact List.mem_append_right _ List.mem_cons_self

theorem find?_insert (h : c.capacity = none) :
    (c.insert s e).find? t = if t = s then some e else c.find? t := by
  rw [insert, h]
  exact lookup_rewritten

end Collection

namespace Cache

variable {A S : Type} {c : Cache S} {s t : StreamId} {e x : Entry S}

theorem keep_cases (c : Cache S) (s : StreamId) (e : Entry S) :
    (c.keep s e = { c with entries := c.entries.insert s e } ∧
      ∀ held, c.entries.find? s = some held → held.position < e.position) ∨
    (c.keep s e = c ∧
      ∃ held, c.entries.find? s = some held ∧ ¬ held.position < e.position) := by
  rw [keep]
  cases hf : c.entries.find? s with
  | none => exact .inl ⟨rfl, fun held h => by cases h⟩
  | some held =>
    by_cases hlt : held.position < e.position
    · exact .inl ⟨if_pos hlt, fun held' h => by cases h; exact hlt⟩
    · exact .inr ⟨if_neg hlt, held, rfl, hlt⟩

@[simp] theorem capacity_keep : (c.keep s e).entries.capacity = c.entries.capacity := by
  rcases keep_cases c s e with ⟨h, _⟩ | ⟨h, _⟩ <;> rw [h]
  exact Collection.capacity_insert

@[simp] theorem highWater_keep : (c.keep s e).highWater = c.highWater := by
  rcases keep_cases c s e with ⟨h, _⟩ | ⟨h, _⟩ <;> rw [h]

theorem mem_keep (h : (t, x) ∈ (c.keep s e).entries.entries) :
    (t, x) ∈ c.entries.entries ∨ (t = s ∧ x = e) := by
  rcases keep_cases c s e with ⟨hk, _⟩ | ⟨hk, _⟩ <;> rw [hk] at h
  · exact (Collection.mem_insert h).imp And.right id
  · exact .inl h

/-- Without a capacity, keeping an entry takes no stream's entry back. -/
theorem find?_keep (hc : c.entries.capacity = none) (h : c.entries.find? t = some x) :
    ∃ y, (c.keep s e).entries.find? t = some y ∧ x.position ≤ y.position := by
  rcases keep_cases c s e with ⟨hk, hnew⟩ | ⟨hk, _⟩ <;> rw [hk]
  · by_cases ht : t = s
    · subst ht
      exact ⟨e, by rw [Collection.find?_insert hc, if_pos rfl], Nat.le_of_lt (hnew x h)⟩
    · exact ⟨x, by rw [Collection.find?_insert hc, if_neg ht, h], Nat.le_refl _⟩
  · exact ⟨x, h, Nat.le_refl _⟩

@[simp] theorem allLoaded_keep : (c.keep s e).allLoaded = c.allLoaded := by
  rcases keep_cases c s e with ⟨h, _⟩ | ⟨h, _⟩ <;> rw [h]

theorem find?_keep_self (hc : c.entries.capacity = none) :
    ∃ y, (c.keep s e).entries.find? s = some y ∧ e.position ≤ y.position := by
  rcases keep_cases c s e with ⟨hk, _⟩ | ⟨hk, held, hf, hold⟩ <;> rw [hk]
  · exact ⟨e, by rw [Collection.find?_insert hc, if_pos rfl], Nat.le_refl _⟩
  · exact ⟨held, hf, Nat.le_of_not_lt hold⟩

section Loaded

variable {folded : List (StreamId × Entry S)}

theorem mem_keepAll
    (h : (t, x) ∈ (folded.foldl (fun c entry => c.keep entry.1 entry.2) c).entries.entries) :
    (t, x) ∈ c.entries.entries ∨ (t, x) ∈ folded := by
  induction folded generalizing c with
  | nil => exact .inl h
  | cons entry rest ih =>
    rcases ih h with hmem | hmem
    · rcases mem_keep hmem with hmem | ⟨ht, hx⟩
      · exact .inl hmem
      · exact .inr (by rw [ht, hx]; exact List.mem_cons_self)
    · exact .inr (List.mem_cons_of_mem _ hmem)

theorem mem_keepLoaded (h : (t, x) ∈ (c.keepLoaded folded).entries.entries) :
    (t, x) ∈ c.entries.entries ∨ (t, x) ∈ folded := mem_keepAll h

@[simp] theorem capacity_keepLoaded :
    (c.keepLoaded folded).entries.capacity = c.entries.capacity := by
  rw [keepLoaded]
  induction folded generalizing c with
  | nil => rfl
  | cons entry rest ih => rw [List.foldl_cons, ih, capacity_keep]

@[simp] theorem highWater_keepLoaded : (c.keepLoaded folded).highWater = c.highWater := by
  rw [keepLoaded]
  induction folded generalizing c with
  | nil => rfl
  | cons entry rest ih => rw [List.foldl_cons, ih, highWater_keep]

theorem find?_keepLoaded (hc : c.entries.capacity = none) (h : c.entries.find? t = some x) :
    ∃ y, (c.keepLoaded folded).entries.find? t = some y ∧ x.position ≤ y.position := by
  rw [keepLoaded]
  induction folded generalizing c x with
  | nil => exact ⟨x, h, Nat.le_refl _⟩
  | cons entry rest ih =>
    obtain ⟨y, hy, hxy⟩ := find?_keep (s := entry.1) (e := entry.2) hc h
    obtain ⟨z, hz, hyz⟩ := ih (by rw [capacity_keep]; exact hc) hy
    exact ⟨z, hz, Nat.le_trans hxy hyz⟩

theorem find?_keepLoaded_mem (hc : c.entries.capacity = none) (h : (t, x) ∈ folded) :
    ∃ y, (c.keepLoaded folded).entries.find? t = some y ∧ x.position ≤ y.position := by
  induction folded generalizing c with
  | nil => cases h
  | cons entry rest ih =>
    have hcapacity : (c.keep entry.1 entry.2).entries.capacity = none := by
      rw [capacity_keep]
      exact hc
    rcases List.mem_cons.mp h with rfl | hmem
    · obtain ⟨y, hy, hxy⟩ := find?_keep_self (s := t) (e := x) hc
      obtain ⟨z, hz, hyz⟩ := find?_keepLoaded hcapacity hy
      exact ⟨z, hz, Nat.le_trans hxy hyz⟩
    · exact ih hcapacity hmem

end Loaded

end Cache

/-! ## Exact entries -/

section Exactness

variable {A S : Type} [Vocabulary A] {p : Projector A S} {log : List (Event A)} {s : StreamId}

/-- A position is not before any event of a stream among the first `n`. -/
def AtOrBeyond (log : List (Event A)) (s : StreamId) (n : Nat) (q : Position) : Prop :=
  ∀ e ∈ log, e.stream = s → e.position.val < n → e.position ≤ q

/-- An entry is the fold of its stream's events up to its position, which is that of one of them. -/
structure Entry.Exact (p : Projector A S) (log : List (Event A)) (s : StreamId) (x : Entry S) :
    Prop where
  state : x.state = p.foldAll none (Log.upTo log s x.position)
  position : ∃ e ∈ log, e.stream = s ∧ e.position = x.position

namespace Projector

omit [Vocabulary A] in
theorem foldAll_append (state : Option S) (events : List (Event A)) (e : Event A) :
    p.foldAll state (events ++ [e]) = p.fold (p.foldAll state events) e := by
  rw [foldAll, List.foldl_append]
  rfl

omit [Vocabulary A] in
theorem entry?_append (events : List (Event A)) (e : Event A) :
    p.entry? (events ++ [e]) = some ⟨p.fold (p.foldAll none events) e, e.position⟩ := by
  unfold entry?
  rw [List.getLast?_concat, ← foldAll_append]
  rfl

omit [Vocabulary A] in
theorem entry?_state (events : List (Event A)) :
    (p.entry? events).bind (·.state) = p.foldAll none events := by
  rcases List.eq_nil_or_concat events with rfl | ⟨init, e, rfl⟩
  · rfl
  · rw [List.concat_eq_append, entry?_append, foldAll_append]
    rfl

omit [Vocabulary A] in
/-- What was read makes no projection. -/
def findsNothing (p : Projector A S) : Page A → Bool
  | .ok events => (p.foldAll none events).isNone
  | .error _ => false

omit [Vocabulary A] in
theorem entry?_eq_none {events : List (Event A)} : p.entry? events = none ↔ events = [] := by
  unfold entry?
  rw [Option.map_eq_none_iff, List.getLast?_eq_none_iff]

end Projector

theorem exact_fold (h : Log.Numbered log) {n : Nat} {e : Event A} (he : log[n]? = some e)
    {state : Option S} (hstate : state = p.foldAll none (Log.early log e.stream n)) :
    Entry.Exact p log e.stream ⟨p.fold state e, e.position⟩ where
  state := by
    rw [Log.upTo_eq_early h, h.position he, Log.early_succ he, if_pos rfl,
      Projector.foldAll_append, hstate]
  position := ⟨e, List.mem_of_getElem? he, rfl, rfl⟩

theorem entry?_early (h : Log.Numbered log) {x : Entry S} :
    ∀ n ≤ log.length, p.entry? (Log.early log s n) = some x →
      x.Exact p log s ∧ x.position.val < n ∧ AtOrBeyond log s n x.position := by
  intro n
  induction n with
  | zero => intro _ hx; cases hx
  | succ n ih =>
    intro hn hx
    obtain ⟨e, he⟩ : ∃ e, log[n]? = some e := ⟨log[n], List.getElem?_eq_getElem (by omega)⟩
    rw [Log.early_succ he] at hx
    by_cases hs : e.stream = s
    · subst hs
      rw [if_pos rfl, Projector.entry?_append] at hx
      cases hx
      refine ⟨exact_fold h he rfl, by rw [h.position he]; omega, ?_⟩
      intro e' _ _ hlt
      show e'.position.val ≤ e.position.val
      rw [h.position he]
      omega
    · rw [if_neg hs, List.append_nil] at hx
      obtain ⟨hexact, hlt, hbeyond⟩ := ih (by omega) hx
      refine ⟨hexact, by omega, ?_⟩
      intro e' he' hs' hlt'
      -- the event numbered `n` is of another stream
      refine hbeyond e' he' hs' (Nat.lt_of_le_of_ne (by omega) fun hn' => hs ?_)
      have := h.getElem? he'
      rw [hn', he] at this
      rw [Option.some.inj this, hs']

theorem Entry.Exact.append {x : Entry S} {more : List (Event A)}
    (h : Log.Numbered (log ++ more)) (hx : x.Exact p log s) : x.Exact p (log ++ more) s where
  state := by
    obtain ⟨e, he, -, hpos⟩ := hx.position
    have := h.of_append.position_lt he
    rw [hx.state, Log.upTo_eq_early h, Log.upTo_eq_early h.of_append,
      Log.early_append (by rw [← hpos]; omega)]
  position := by
    obtain ⟨e, he, hs, hpos⟩ := hx.position
    exact ⟨e, List.mem_append_left _ he, hs, hpos⟩

/-- An exact entry that misses none of the first `n` events is the fold of those. -/
theorem Entry.Exact.state_eq (h : Log.Numbered log) {x : Entry S} (hx : x.Exact p log s) {n : Nat}
    (hlt : x.position.val < n) (hbeyond : AtOrBeyond log s n x.position) :
    x.state = p.foldAll none (Log.early log s n) := by
  rw [hx.state, Log.upTo_eq_early h, Log.early_stretch h (Nat.succ_le_of_lt hlt)]
  intro e he hs hn
  exact Nat.lt_succ_of_le (hbeyond e he hs hn)

end Exactness

/-! ## Loading -/

namespace Loading

variable {A S : Type} [Vocabulary A] {p : Projector A S} {log : List (Event A)}

/-- What was folded stream by stream are the entries that the events make. -/
def Folded (p : Projector A S) (events : List (Event A)) (folded : List (StreamId × Entry S)) :
    Prop :=
  ∀ s x, (s, x) ∈ folded ↔
    p.concerns s = true ∧ p.entry? (events.filter fun e => e.stream == s) = some x

/-- A load has folded what it has read, and that is the log up to its cursor. -/
def Sound (p : Projector A S) (log : List (Event A)) (l : Loading S) : Prop :=
  l.cursor.val ≤ log.length ∧ Folded p (log.take l.cursor.val) l.folded

/-- The entries are put in some order. -/
def Arranges (arrange : List (StreamId × Entry S) → List (StreamId × Entry S)) : Prop :=
  ∀ folded, (arrange folded).Perm folded

theorem arranges_id : Arranges (id : List (StreamId × Entry S) → List (StreamId × Entry S)) :=
  fun _ => .refl _

theorem Folded.arranged {events : List (Event A)} {folded : List (StreamId × Entry S)}
    (h : Folded p events folded) {arrange : List (StreamId × Entry S) → List (StreamId × Entry S)}
    (harrange : Arranges arrange) : Folded p events (arrange folded) :=
  fun s x => (harrange folded).mem_iff.trans (h s x)

theorem sound_new : Sound p log {} := by
  refine ⟨Nat.zero_le _, fun s x => ⟨fun h => ?_, fun h => ?_⟩⟩
  · cases h
  · cases h.2

theorem Folded.state {events : List (Event A)} {folded : List (StreamId × Entry S)}
    (h : Folded p events folded) {s : StreamId} (hs : p.concerns s = true) :
    (folded.lookup s).bind (·.state)
      = p.foldAll none (events.filter fun e => e.stream == s) := by
  rw [← Projector.entry?_state]
  cases hl : folded.lookup s with
  | some x => rw [((h s x).mp (mem_of_lookup hl)).2]
  | none =>
    cases he : p.entry? (events.filter fun e => e.stream == s) with
    | none => rfl
    | some x => exact absurd ((h s x).mpr ⟨hs, he⟩) (not_mem_of_lookup hl)

theorem Folded.foldEvent {events : List (Event A)} {l : Loading S} (h : Folded p events l.folded)
    (e : Event A) : Folded p (events ++ [e]) (foldEvent p l e).folded := by
  intro s x
  rw [Loading.foldEvent, List.filter_append]
  by_cases hc : p.concerns e.stream = true
  · simp only [hc, if_true]
    rw [mem_rewritten, h s x]
    by_cases hs : s = e.stream
    · subst hs
      rw [List.filter_cons_of_pos (by simp), List.filter_nil, Projector.entry?_append,
        ← h.state hc]
      simp [hc, eq_comm]
    · rw [List.filter_cons_of_neg (by simpa using fun h => hs h.symm), List.filter_nil,
        List.append_nil]
      simp [hs]
  · simp only [hc, if_false, Bool.false_eq_true]
    rw [h s x]
    by_cases hs : e.stream = s
    · simp [← hs, hc]
    · rw [List.filter_cons_of_neg (by simpa using hs), List.filter_nil, List.append_nil]

theorem Folded.foldl (more : List (Event A)) :
    ∀ {events : List (Event A)} {l : Loading S}, Folded p events l.folded →
      Folded p (events ++ more) (more.foldl (Loading.foldEvent p) l).folded := by
  induction more with
  | nil => intro events l h; rw [List.append_nil]; exact h
  | cons e rest ih =>
    intro events l h
    rw [List.append_cons]
    exact ih (h.foldEvent e)

theorem foldl_cursor (events : List (Event A)) :
    ∀ l : Loading S, (events.foldl (foldEvent p) l).cursor = l.cursor := by
  induction events with
  | nil => intro l; rfl
  | cons e rest ih =>
    intro l
    rw [List.foldl_cons, ih, foldEvent]
    split <;> rfl

/-- A page either takes a load further into the log or finds it at the log's end. -/
theorem Sound.advance (h : Log.Numbered log) {l : Loading S} (hl : Sound p log l) {n : Nat}
    (hn : 0 < n) :
    (∃ l', advance p l (.ok (Log.page log l.cursor n)) = .more l' ∧ Sound p log l') ∨
    (∃ l', advance p l (.ok (Log.page log l.cursor n)) = .complete l' ∧
      Folded p log l'.folded) := by
  obtain ⟨hcursor, hfolded⟩ := hl
  cases hlast : (Log.page log l.cursor n).getLast? with
  | none =>
    right
    have hend := Log.page_eq_nil hn (List.getLast?_eq_none_iff.mp hlast)
    refine ⟨{ l with readAny := true }, by simp only [Loading.advance, hlast], ?_⟩
    rw [List.take_of_length_le hend] at hfolded
    exact hfolded
  | some last =>
    left
    obtain ⟨hmem, hnext⟩ := Log.page_last h hlast
    refine ⟨(Log.page log l.cursor n).foldl (foldEvent p)
      { l with cursor := last.position.next, readAny := true },
      by simp only [Loading.advance, hlast], ?_⟩
    constructor
    · rw [foldl_cursor]
      show last.position.next.val ≤ log.length
      rw [h.next hmem]
      exact h.position_lt hmem
    · rw [foldl_cursor]
      show Folded p (log.take last.position.next.val) _
      rw [hnext, ← Log.take_append_page]
      exact Folded.foldl _ (l := { l with cursor := last.position.next, readAny := true }) hfolded

end Loading
end Chronicle
