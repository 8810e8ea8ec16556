import Mathlib.Data.Finmap
import Mathlib.Data.List.DropRight
import Chronicle.Proofs.Projection.Overtaking

/-!
# Chronicle.Proofs.Projection.Rewriting

What a collection with a capacity holds after any writes: the streams that were written last, as many
as it has room for, each with its last entry (`Collection.holds_last_written`).

* `Collection.Recent`: that description of a collection, kept by every write (`Recent.insert`).
* `Shelf`: the same entries kept in two places, a table of them and a queue of their streams. A write
  changes both, and a stream that is written again moves in the queue. The two stay in step with each
  other and with the collection (`Shelf.Mirrors`), so the shelf evicts what the collection drops.
-/

namespace Chronicle

/-! ## The end of a list -/

section Ends

variable {α : Type} {l m : List α} {n : Nat}

theorem rtake_of_length_le (h : l.length ≤ n) : l.rtake n = l := by
  rw [List.rtake, Nat.sub_eq_zero_of_le h, List.drop_zero]

theorem rtake_append_of_le_length (h : n ≤ m.length) : (l ++ m).rtake n = m.rtake n := by
  have hindex : (l ++ m).length - n = l.length + (m.length - n) := by
    rw [List.length_append]
    omega
  rw [List.rtake, hindex, List.drop_length_add_append, List.rtake]

theorem length_rtake : (l.rtake n).length = min n l.length := by
  rw [List.rtake, List.length_drop]
  omega

theorem nodup_rtake (h : l.Nodup) : (l.rtake n).Nodup := h.sublist (List.drop_sublist _ _)

variable [DecidableEq α] {a : α}

/-- A further element comes last, and its earlier occurrences no longer count. -/
theorem dedup_concat : (l ++ [a]).dedup = (l.dedup.filter fun b => b != a) ++ [a] := by
  induction l with
  | nil => rfl
  | cons b l ih =>
    rw [List.cons_append, List.dedup_cons, List.dedup_cons, ih]
    by_cases hb : b = a
    · subst hb
      by_cases hmem : b ∈ l <;> simp [hmem]
    · by_cases hmem : b ∈ l <;> simp [hmem, hb]

/-- Of the elements at the end, those that are left when `a` has moved behind them are the same
whether the elements before them were there or not. -/
theorem rtake_moved (hl : l.Nodup) :
    (((l.rtake n).filter fun b => b != a) ++ [a]).rtake n
      = ((l.filter fun b => b != a) ++ [a]).rtake n := by
  by_cases hlength : l.length ≤ n
  · rw [rtake_of_length_le hlength]
  · have hkept : n ≤ (((l.rtake n).filter fun b => b != a) ++ [a]).length := by
      have herase := List.le_length_erase (l := l.rtake n) (a := a)
      rw [length_rtake] at herase
      rw [← (nodup_rtake hl).erase_eq_filter, List.length_append, List.length_singleton]
      omega
    have hsplit : l = l.take (l.length - n) ++ l.rtake n := (List.take_append_drop _ _).symm
    conv_rhs => rw [hsplit, List.filter_append, List.append_assoc]
    rw [rtake_append_of_le_length hkept]

end Ends

/-! ## Write after write -/

namespace Collection

variable {S : Type} {c : Collection S} {s t : StreamId} {e : Entry S} {n : Nat}
  {writes : List (StreamId × Entry S)}

def insertAll (c : Collection S) (writes : List (StreamId × Entry S)) : Collection S :=
  writes.foldl (fun c write => c.insert write.1 write.2) c

def lastStreams (n : Nat) (writes : List (StreamId × Entry S)) : List StreamId :=
  (writes.map (·.1)).dedup.rtake n

def lastEntry? (writes : List (StreamId × Entry S)) (s : StreamId) : Option (Entry S) :=
  writes.reverse.lookup s

theorem distinct_iff : c.Distinct ↔ c.streams.Nodup := by
  rw [Distinct, streams, List.Nodup, List.pairwise_map]

theorem mem_streams_iff : s ∈ c.streams ↔ (c.find? s).isSome = true := by
  rw [streams, find?, List.mem_map, List.lookup_isSome_iff]
  simp only [beq_iff_eq, eq_comm (a := s)]

theorem find?_eq_none (hs : s ∉ c.streams) : c.find? s = none :=
  Option.not_isSome_iff_eq_none.mp (mt mem_streams_iff.mpr hs)

theorem streams_insert (hc : c.capacity = some n) :
    (c.insert s e).streams = ((c.streams.filter fun t => t != s) ++ [s]).rtake n := by
  rw [insert, hc]
  simp only [streams, List.rtake, List.map_drop, List.map_append, List.map_cons, List.map_nil,
    List.length_append, List.filter_map, List.length_map, List.length_cons, List.length_nil]
  rfl

/-- What is held after a write is what a collection without a capacity would hold. -/
theorem find?_insert_held (hc : c.Distinct) (ht : t ∈ (c.insert s e).streams) :
    (c.insert s e).find? t = if t = s then some e else c.find? t := by
  obtain ⟨x, hx⟩ := Option.isSome_iff_exists.mp (mem_streams_iff.mp ht)
  rw [hx]
  rcases mem_insert (mem_of_find? hx) with ⟨hne, hmem⟩ | ⟨heq, rfl⟩
  · rw [if_neg hne, hc.find? hmem]
  · rw [if_pos heq]

/-- The collection holds the last entries of the streams that were written last. -/
structure Recent (n : Nat) (writes : List (StreamId × Entry S)) (c : Collection S) : Prop where
  capacity : c.capacity = some n
  streams : c.streams = lastStreams n writes
  entry : ∀ s ∈ c.streams, c.find? s = lastEntry? writes s

namespace Recent

theorem nodup (h : Recent n writes c) : c.streams.Nodup :=
  h.streams ▸ nodup_rtake (List.nodup_dedup _)

theorem insert (h : Recent n writes c) : Recent n (writes ++ [(s, e)]) (c.insert s e) where
  capacity := capacity_insert.trans h.capacity
  streams := by
    rw [streams_insert h.capacity, h.streams, lastStreams, lastStreams,
      rtake_moved (List.nodup_dedup _), List.map_append, List.map_singleton, dedup_concat]
  entry t ht := by
    rw [find?_insert_held (distinct_iff.mpr h.nodup) ht, lastEntry?, List.reverse_concat,
      List.lookup_cons]
    by_cases heq : t = s
    · rw [if_pos heq, heq, beq_self_eq_true]
    · -- What is held of the older streams was held before, so its entry is the one it had.
      have hold : t ∈ c.streams := by
        rw [streams_insert h.capacity] at ht
        simpa [heq] using List.mem_of_mem_drop ht
      rw [if_neg heq, beq_false_of_ne heq, h.entry t hold]
      rfl

theorem insertAll (h : Recent n writes c) (more : List (StreamId × Entry S)) :
    Recent n (writes ++ more) (c.insertAll more) := by
  induction more generalizing writes c with
  | nil =>
    rw [List.append_nil]
    exact h
  | cons write more ih =>
    rw [List.append_cons]
    exact ih h.insert

theorem find?_eq (h : Recent n writes c) (s : StreamId) :
    c.find? s = if s ∈ lastStreams n writes then lastEntry? writes s else none := by
  rw [← h.streams]
  by_cases hs : s ∈ c.streams
  · rw [if_pos hs, h.entry s hs]
  · rw [if_neg hs, find?_eq_none hs]

theorem mem_entries_iff (h : Recent n writes c) :
    (s, e) ∈ c.entries ↔ s ∈ lastStreams n writes ∧ lastEntry? writes s = some e := by
  have hfind : (s, e) ∈ c.entries ↔ c.find? s = some e :=
    ⟨(distinct_iff.mpr h.nodup).find?, mem_of_find?⟩
  rw [hfind, h.find?_eq]
  by_cases hs : s ∈ lastStreams n writes <;> simp [hs]

theorem length_eq (h : Recent n writes c) :
    c.length = min n (writes.map (·.1)).dedup.length := by
  rw [← length_rtake, ← lastStreams, ← h.streams, Collection.streams, List.length_map, length]

/-- A stream that is held has a place already, so that none has to make room for it. -/
theorem find?_insert_again (h : Recent n writes c) (hs : s ∈ c.streams) :
    (c.insert s e).find? t = if t = s then some e else c.find? t := by
  have hroom : ((c.streams.filter fun t => t != s) ++ [s]).length ≤ n := by
    have hlength : c.streams.length ≤ n := by
      rw [h.streams, lastStreams, length_rtake]
      exact Nat.min_le_left _ _
    have hpos := List.length_pos_of_mem hs
    rw [← h.nodup.erase_eq_filter, List.length_append, List.length_erase_of_mem hs,
      List.length_singleton]
    omega
  have hstreams := streams_insert (s := s) (e := e) h.capacity
  rw [rtake_of_length_le hroom] at hstreams
  by_cases ht : t ∈ (c.insert s e).streams
  · exact find?_insert_held (distinct_iff.mpr h.nodup) ht
  · have hnone := find?_eq_none ht
    rw [hstreams] at ht
    simp only [List.mem_append, List.mem_filter, List.mem_singleton, bne_iff_ne, not_or, not_and,
      not_not] at ht
    have hold : t ∉ c.streams := fun hmem => ht.2 (ht.1 hmem)
    rw [hnone, if_neg ht.2, find?_eq_none hold]

end Recent

theorem recent_bounded (n : Nat) : Recent (max n 1) [] (bounded n : Collection S) where
  capacity := rfl
  streams := (List.rtake_nil (n := max n 1)).symm
  entry := nofun

end Collection

/-! ## A table and a queue -/

/-- Entries by stream, and apart from them the streams in the order of their last writes. -/
structure Shelf (S : Type) where
  capacity : Nat
  table : Finmap fun _ : StreamId => Entry S
  /-- The stream written longest ago comes first. -/
  order : List StreamId

namespace Shelf

variable {S : Type} {shelf : Shelf S} {c : Collection S} {s : StreamId} {e : Entry S}

def bounded (capacity : Nat) : Shelf S := ⟨max capacity 1, ∅, []⟩

/-- Takes streams from the front of the queue, and their entries out of the table, until there are no
more entries than the capacity allows. -/
def evict (capacity : Nat) (table : Finmap fun _ : StreamId => Entry S) : List StreamId → Shelf S
  | [] => ⟨capacity, table, []⟩
  | oldest :: rest =>
    if capacity < table.keys.card then evict capacity (table.erase oldest) rest
    else ⟨capacity, table, oldest :: rest⟩

def insert (shelf : Shelf S) (s : StreamId) (e : Entry S) : Shelf S :=
  let others := if s ∈ shelf.table then shelf.order.filter fun t => t != s else shelf.order
  evict shelf.capacity (shelf.table.insert s e) (others ++ [s])

def insertAll (shelf : Shelf S) (writes : List (StreamId × Entry S)) : Shelf S :=
  writes.foldl (fun shelf write => shelf.insert write.1 write.2) shelf

/-- A queue that lists the streams of a table once each keeps its end, and the table the entries of
that. -/
theorem evict_eq {n : Nat} {order : List StreamId} :
    ∀ {table : Finmap fun _ : StreamId => Entry S}, order.Nodup → (∀ t, t ∈ table ↔ t ∈ order) →
      (evict n table order).capacity = n ∧ (evict n table order).order = order.rtake n ∧
        ∀ t, (evict n table order).table.lookup t
          = if t ∈ order.rtake n then table.lookup t else none := by
  induction order with
  | nil =>
    intro table _ hsame
    refine ⟨rfl, (List.rtake_nil (n := n)).symm, fun t => ?_⟩
    rw [if_neg (by simp)]
    exact Finmap.lookup_eq_none.mpr (mt (hsame t).mp (by simp))
  | cons oldest rest ih =>
    intro table hnodup hsame
    have hcard : table.keys.card = (oldest :: rest).length := by
      rw [← List.toFinset_card_of_nodup hnodup]
      congr 1
      ext t
      rw [Finmap.mem_keys, hsame, List.mem_toFinset]
    obtain ⟨hgone, hrest⟩ := List.nodup_cons.mp hnodup
    -- The table is as large as the queue is long, so the queue alone says when the evicting stops.
    rw [evict, hcard]
    by_cases hfull : n < (oldest :: rest).length
    · have hend : (oldest :: rest).rtake n = rest.rtake n :=
        rtake_append_of_le_length (l := [oldest]) (Nat.lt_succ_iff.mp hfull)
      have hless : ∀ t, t ∈ table.erase oldest ↔ t ∈ rest := by
        intro t
        rw [Finmap.mem_erase, hsame, List.mem_cons]
        constructor
        · rintro ⟨hne, hmem⟩
          exact hmem.resolve_left hne
        · intro hmem
          exact ⟨fun heq => hgone (heq ▸ hmem), .inr hmem⟩
      obtain ⟨hcapacity, horder, htable⟩ := ih hrest hless
      rw [if_pos hfull, hend]
      refine ⟨hcapacity, horder, fun t => ?_⟩
      rw [htable t]
      by_cases ht : t ∈ rest.rtake n
      · have hne : t ≠ oldest := fun heq => hgone (heq ▸ List.mem_of_mem_drop ht)
        rw [if_pos ht, if_pos ht, Finmap.lookup_erase_ne hne]
      · rw [if_neg ht, if_neg ht]
    · rw [if_neg hfull, rtake_of_length_le (Nat.le_of_not_lt hfull)]
      refine ⟨rfl, rfl, fun t => ?_⟩
      by_cases ht : t ∈ oldest :: rest
      · rw [if_pos ht]
      · rw [if_neg ht]
        exact Finmap.lookup_eq_none.mpr (mt (hsame t).mp ht)

/-- The queue is the collection's streams, and the table its entries. -/
structure Mirrors (shelf : Shelf S) (c : Collection S) : Prop where
  capacity : c.capacity = some shelf.capacity
  order : shelf.order = c.streams
  table : ∀ s, shelf.table.lookup s = c.find? s

namespace Mirrors

theorem mem_table_iff (h : shelf.Mirrors c) (s : StreamId) :
    s ∈ shelf.table ↔ s ∈ c.streams := by
  rw [← Finmap.lookup_isSome, h.table, Collection.mem_streams_iff]

theorem size_eq (h : shelf.Mirrors c) (hc : c.Distinct) : shelf.table.keys.card = c.length := by
  have hkeys : shelf.table.keys = c.streams.toFinset := by
    ext s
    rw [Finmap.mem_keys, h.mem_table_iff, List.mem_toFinset]
  rw [hkeys, List.toFinset_card_of_nodup (Collection.distinct_iff.mp hc), Collection.streams,
    List.length_map, Collection.length]

theorem insert (h : shelf.Mirrors c) (hc : c.Distinct) :
    (shelf.insert s e).Mirrors (c.insert s e) := by
  have hnodup := Collection.distinct_iff.mp hc
  have hothers : (if s ∈ shelf.table then shelf.order.filter fun t => t != s else shelf.order)
      = c.streams.filter fun t => t != s := by
    rw [h.order]
    by_cases hs : s ∈ shelf.table
    · rw [if_pos hs]
    · rw [if_neg hs, eq_comm, List.filter_eq_self]
      intro t ht
      rw [bne_iff_ne]
      rintro rfl
      exact hs ((h.mem_table_iff t).mpr ht)
  have hqueue : ((c.streams.filter fun t => t != s) ++ [s]).Nodup := by
    rw [List.nodup_append]
    refine ⟨hnodup.filter _, List.nodup_singleton s, ?_⟩
    rintro t ht _ hs rfl
    rw [List.mem_singleton.mp hs] at ht
    simp at ht
  have hsame : ∀ t, t ∈ shelf.table.insert s e ↔ t ∈ (c.streams.filter fun t => t != s) ++ [s] := by
    intro t
    rw [Finmap.mem_insert, h.mem_table_iff]
    by_cases ht : t = s <;> simp [ht]
  obtain ⟨hcapacity, horder, htable⟩ := evict_eq (n := shelf.capacity) hqueue hsame
  rw [← Collection.streams_insert (e := e) h.capacity] at horder htable
  rw [Shelf.insert, hothers]
  refine ⟨?_, horder, fun t => ?_⟩
  · rw [Collection.capacity_insert, hcapacity, h.capacity]
  · rw [htable t]
    by_cases ht : t ∈ (c.insert s e).streams
    · rw [if_pos ht, Collection.find?_insert_held hc ht]
      by_cases heq : t = s
      · rw [if_pos heq, heq, Finmap.lookup_insert]
      · rw [if_neg heq, Finmap.lookup_insert_of_ne _ heq, h.table]
    · rw [if_neg ht, Collection.find?_eq_none ht]

theorem insertAll (h : shelf.Mirrors c) (hc : c.Distinct) (writes : List (StreamId × Entry S)) :
    (shelf.insertAll writes).Mirrors (c.insertAll writes) := by
  induction writes generalizing shelf c with
  | nil => exact h
  | cons write rest ih => exact ih (h.insert hc) hc.insert

end Mirrors

theorem mirrors_bounded (n : Nat) : (bounded n : Shelf S).Mirrors (.bounded n) where
  capacity := rfl
  order := rfl
  table s := Finmap.lookup_empty s

end Shelf

namespace Collection

variable {S : Type}

/-- Whatever is written to a collection with a capacity, it holds the streams that were written last,
each of them once, the one written longest ago first, as many as the capacity allows and at least one.
Each has the entry of its last write. Writing a stream that is held changes its entry and no other. A
table of the entries and a queue of their streams that are both changed by every write agree with it
in everything. -/
theorem holds_last_written (n : Nat) (writes : List (StreamId × Entry S)) :
    let c := (bounded n).insertAll writes
    let shelf := (Shelf.bounded n).insertAll writes
    let held := lastStreams (max n 1) writes
    (c.streams = held ∧ held.Nodup) ∧
    (∀ s, c.find? s = if s ∈ held then lastEntry? writes s else none) ∧
    (∀ s e, (s, e) ∈ c.entries ↔ s ∈ held ∧ lastEntry? writes s = some e) ∧
    c.length = min (max n 1) (writes.map (·.1)).dedup.length ∧
    (∀ s e t, s ∈ held → (c.insert s e).find? t = if t = s then some e else c.find? t) ∧
    (shelf.order = held ∧ ∀ s, s ∈ shelf.order ↔ s ∈ shelf.table) ∧
    (∀ s, shelf.table.lookup s = c.find? s) ∧ shelf.table.keys.card = c.length := by
  intro c shelf held
  have hrecent : Recent (max n 1) writes c := (recent_bounded n).insertAll writes
  have hdistinct : c.Distinct := distinct_iff.mpr hrecent.nodup
  have hmirrors : shelf.Mirrors c := (Shelf.mirrors_bounded n).insertAll .nil writes
  have hheld : c.streams = held := hrecent.streams
  refine ⟨⟨hheld, hheld ▸ hrecent.nodup⟩, hrecent.find?_eq, fun s e => hrecent.mem_entries_iff,
    hrecent.length_eq, ?_, ⟨hmirrors.order.trans hheld, ?_⟩, hmirrors.table,
    hmirrors.size_eq hdistinct⟩
  · intro s e t hs
    rw [← hheld] at hs
    exact hrecent.find?_insert_again hs
  · intro s
    rw [hmirrors.order, hmirrors.mem_table_iff]

/-- Two topics, the first of which is written again. -/
def twoTopics : List (StreamId × Entry Nat) :=
  [(⟨"Topic", "a"⟩, ⟨some 1, .ofNat 0⟩), (⟨"Topic", "b"⟩, ⟨some 2, .ofNat 1⟩),
    (⟨"Topic", "a"⟩, ⟨some 3, .ofNat 2⟩)]

theorem twoTopics_held :
    let c : Collection Nat := (bounded 2).insertAll twoTopics
    c.streams = [⟨"Topic", "b"⟩, ⟨"Topic", "a"⟩] ∧
      (c.insert ⟨"Topic", "b"⟩ ⟨some 4, .ofNat 3⟩).find? ⟨"Topic", "a"⟩ = some ⟨some 3, .ofNat 2⟩ := by
  intro c
  obtain ⟨⟨hheld, -⟩, hfind, -, -, hagain, -⟩ := holds_last_written 2 twoTopics
  have hlast : lastStreams (max 2 1) twoTopics = [⟨"Topic", "b"⟩, ⟨"Topic", "a"⟩] := by decide
  refine ⟨hheld.trans hlast, ?_⟩
  rw [hagain _ _ _ (by rw [hlast]; decide), if_neg (by decide), hfind, hlast]
  rfl

end Collection
end Chronicle
