import Mathlib.Data.List.Induction
import Mathlib.Data.List.ReduceOption
import Chronicle.Proofs.Log.Decoding

/-!
# Chronicle.Proofs.Log.Skipping

Reads of a log in which some records cannot be decoded. What is kept at each position is a slot: an
event, or nothing that can be decoded (`Contents.slots`). A read that begins at an event yields the
events of its page and says nothing of the empty slots between them; one that begins at an empty
slot fails for good (`Store.Yields`). The slots of a page behind its last event are empty, so a
reader that goes on behind that event has missed none (`exists_last_reduceOption`).
-/

namespace Chronicle

variable {A : Type} [Vocabulary A]

namespace Contents

variable {c : Contents A}

def slots : Contents A → List (Option (Event A))
  | .payloads events => events.map some
  | .records registry kept => kept.map registry.decodeRecord?

/-- Why a read that begins at a place fails for good. -/
def failure? : Contents A → Nat → Option ReadFailure
  | .payloads _, _ => none
  | .records registry kept, i =>
    kept[i]?.bind fun record =>
      match registry.decodeRecord record with
      | .ok _ => none
      | .error e => some (Registry.headFailure record e)

def positions : Contents A → List Nat
  | .payloads events => events.map (fun e => e.position.val)
  | .records _ kept => kept.map (fun r => r.position.val)

/-- What is kept is numbered from zero, and the last position is not reached. -/
def Numbered (c : Contents A) : Prop :=
  c.length < 0x10000000000000000 ∧ c.positions = List.range c.length

instance (c : Contents A) : Decidable c.Numbered := inferInstanceAs (Decidable (_ ∧ _))

@[simp] theorem length_slots : c.slots.length = c.length := by
  cases c <;> exact List.length_map _

/-- A read fails for good exactly at an empty slot. -/
theorem failure?_isSome {i : Nat} : (c.failure? i).isSome = true ↔ c.slots[i]? = some none := by
  cases c with
  | payloads events => simp [failure?, slots]
  | records registry kept =>
    rw [failure?, slots, List.getElem?_map]
    cases kept[i]? with
    | none => simp
    | some record =>
      rw [Option.bind_some, Option.map_some, Registry.decodeRecord?]
      cases registry.decodeRecord record <;> simp [Except.toOption]

theorem permanent_of_failure? {i : Nat} {failure : ReadFailure} (h : c.failure? i = some failure) :
    ∃ reason, failure = .permanent reason := by
  cases c with
  | payloads events => cases h
  | records registry kept =>
    obtain ⟨record, -, hfailure⟩ := Option.bind_eq_some_iff.mp h
    split at hfailure
    · cases hfailure
    · cases hfailure
      exact ⟨_, rfl⟩

theorem Numbered.position (h : c.Numbered) {i : Nat} {e : Event A}
    (he : c.slots[i]? = some (some e)) : e.position.val = i := by
  obtain ⟨hi, -⟩ := List.getElem?_eq_some_iff.mp he
  rw [length_slots] at hi
  have hat := congrArg (·[i]?) h.2
  simp only [List.getElem?_range hi] at hat
  cases c with
  | payloads events =>
    rw [slots, List.getElem?_map] at he
    obtain ⟨e', he', heq⟩ := Option.map_eq_some_iff.mp he
    cases heq
    rw [positions, List.getElem?_map, he'] at hat
    exact Option.some.inj hat
  | records registry kept =>
    rw [slots, List.getElem?_map] at he
    obtain ⟨r, hr, hdecode⟩ := Option.map_eq_some_iff.mp he
    rw [positions, List.getElem?_map, hr] at hat
    rw [Registry.position_decodeRecord? hdecode]
    exact Option.some.inj hat

theorem Decodes.slots_eq {log : List (Event A)} (h : c.Decodes log) : c.slots = log.map some := by
  cases c with
  | payloads events =>
    obtain rfl := h
    rfl
  | records registry kept => exact h

theorem Decodes.numbered {log : List (Event A)} (h : c.Decodes log) (hlog : Log.Numbered log) :
    c.Numbered := by
  have hlength : c.length = log.length := by
    rw [← length_slots, h.slots_eq, List.length_map]
  have hpositions : c.positions = log.map (fun e => e.position.val) := by
    cases c with
    | payloads events =>
      obtain rfl := h
      rfl
    | records registry kept => exact (positions_of_decoded h).symm
  rw [Numbered, hlength, hpositions]
  exact hlog

end Contents

/-! ## Pages -/

theorem reduceOption_map_eq {α β : Type} (f : α → Option β) (xs : List α) :
    (xs.map f).reduceOption = xs.filterMap f := by
  rw [List.reduceOption, List.filterMap_map]
  rfl

theorem reduceOption_map_some {α : Type} (xs : List α) : (xs.map some).reduceOption = xs := by
  rw [reduceOption_map_eq, List.filterMap_some]

/-- Behind the last value there is nothing: the list up to that value has the same values. -/
theorem exists_last_reduceOption {α : Type} {xs : List (Option α)} {last : α}
    (h : xs.reduceOption.getLast? = some last) :
    ∃ i, xs[i]? = some (some last) ∧ (xs.take (i + 1)).reduceOption = xs.reduceOption := by
  induction xs using List.reverseRecOn with
  | nil => cases h
  | append_singleton init x ih =>
    cases x with
    | some a =>
      rw [List.reduceOption_append, List.reduceOption_singleton, Option.toList_some,
        List.getLast?_concat] at h
      refine ⟨init.length, ?_, ?_⟩
      · rw [List.getElem?_concat_length, h]
      · rw [List.take_of_length_le (by simp)]
    | none =>
      rw [List.reduceOption_append, List.reduceOption_singleton, Option.toList_none,
        List.append_nil] at h ⊢
      obtain ⟨i, hi, htake⟩ := ih h
      have hlt := (List.getElem?_eq_some_iff.mp hi).1
      refine ⟨i, by rw [List.getElem?_append_left hlt, hi], ?_⟩
      rw [List.take_append_of_le_length hlt, htake]

namespace Store

variable {s : Store A} {p : Position}

theorem events_eq_reduceOption : s.events = s.contents.slots.reduceOption := by
  unfold events
  cases s.contents with
  | payloads events => exact (reduceOption_map_some events).symm
  | records registry kept => exact (reduceOption_map_eq registry.decodeRecord? kept).symm

theorem page_readFrom_slots (h : s.contents.Numbered) (hsize : 0 < s.pageSize)
    (hfault : takeFault p s.readFaults = none) :
    (∃ failure, s.contents.failure? p.val = some failure ∧
      (s.readFrom p).page = .error failure) ∨
    (s.contents.failure? p.val = none ∧
      (s.readFrom p).page
        = .ok ((s.contents.slots.drop p.val).take s.pageSize).reduceOption) := by
  have hlast : ∀ {i : Nat}, i ∈ s.contents.positions → i < Position.last.val := by
    intro i hi
    rw [h.2, List.mem_range] at hi
    have := h.1
    show i < 0xffffffffffffffff
    omega
  cases hcontents : s.contents with
  | payloads events =>
    rw [hcontents] at hlast
    have hall : (events.drop p.val).filter
        (fun e => decide (e.position < Position.last) && true) = events.drop p.val := by
      refine List.filter_eq_self.mpr fun e he => ?_
      have : e.position < Position.last := hlast (List.mem_map_of_mem (List.mem_of_mem_drop he))
      simpa using this
    refine .inr ⟨rfl, ?_⟩
    simp only [readFrom, hfault, Contents.read, hcontents, hall, Contents.slots, ← List.map_drop,
      ← List.map_take, reduceOption_map_some]
  | records registry kept =>
    rw [hcontents] at hlast
    have hall : (kept.drop p.val).filter
        (fun r => decide (r.position < Position.last) && true) = kept.drop p.val := by
      refine List.filter_eq_self.mpr fun r hr => ?_
      have : r.position < Position.last := hlast (List.mem_map_of_mem (List.mem_of_mem_drop hr))
      simpa using this
    simp only [readFrom, hfault, Contents.read, hcontents, hall, Contents.slots, ← List.map_drop,
      ← List.map_take, Contents.failure?]
    cases hat : kept[p.val]? with
    | none =>
      rw [List.drop_eq_nil_iff.mpr (List.getElem?_eq_none_iff.mp hat), List.take_nil]
      exact .inr ⟨rfl, rfl⟩
    | some first =>
      obtain ⟨hlt, rfl⟩ := List.getElem?_eq_some_iff.mp hat
      obtain ⟨n, hn⟩ := Nat.exists_eq_succ_of_ne_zero (Nat.ne_of_gt hsize)
      rw [List.drop_eq_getElem_cons hlt, hn, List.take_succ_cons, Registry.decodeBatch_cons,
        List.map_cons, Option.bind_some, Registry.decodeRecord?]
      cases registry.decodeRecord kept[p.val] with
      | ok e =>
        refine .inr ⟨rfl, ?_⟩
        rw [Except.toOption, List.reduceOption_cons_of_some, reduceOption_map_eq]
      | error failure => exact .inl ⟨_, rfl, rfl⟩

/-- What a read yields that is not made to fail. -/
inductive Yields (c : Contents A) (p : Position) : Page A → Prop where
  | empty (failure : ReadFailure) : c.failure? p.val = some failure → Yields c p (.error failure)
  | behind : c.slots.length ≤ p.val → Yields c p (.ok [])
  /-- It yields every event from its slot on up to the last one that it yields. -/
  | events (events : List (Event A)) (last : Event A) : c.failure? p.val = none →
      events.getLast? = some last → p < last.position.next →
      last.position.next.val ≤ c.slots.length →
      (c.slots.take last.position.next.val).reduceOption
        = (c.slots.take p.val).reduceOption ++ events → Yields c p (.ok events)

theorem yields_readFrom (h : s.contents.Numbered) (hsize : 0 < s.pageSize)
    (hfault : takeFault p s.readFaults = none) : Yields s.contents p (s.readFrom p).page := by
  have hroom := h.1
  rw [← Contents.length_slots] at hroom
  rcases page_readFrom_slots h hsize hfault with ⟨failure, hempty, hpage⟩ | ⟨hfull, hpage⟩
  · rw [hpage]
    exact .empty failure hempty
  · rw [hpage]
    cases hlast : ((s.contents.slots.drop p.val).take s.pageSize).reduceOption.getLast? with
    | none =>
      rw [List.getLast?_eq_none_iff.mp hlast]
      refine .behind (Nat.le_of_not_lt fun hlt => ?_)
      -- the page would begin with the event of the slot
      have hslot : s.contents.slots[p.val] ≠ none := by
        intro hnone
        have hempty := Contents.failure?_isSome.mpr
          ((List.getElem?_eq_getElem hlt).trans (congrArg some hnone))
        rw [hfull] at hempty
        cases hempty
      obtain ⟨e, he⟩ := Option.ne_none_iff_exists'.mp hslot
      obtain ⟨n, hn⟩ := Nat.exists_eq_succ_of_ne_zero (Nat.ne_of_gt hsize)
      rw [List.drop_eq_getElem_cons hlt, hn, List.take_succ_cons, he,
        List.reduceOption_cons_of_some] at hlast
      simp at hlast
    | some last =>
      obtain ⟨i, hi, htake⟩ := exists_last_reduceOption hlast
      have hsmall : i < s.pageSize := by
        have := (List.getElem?_eq_some_iff.mp hi).1
        rw [List.length_take] at this
        omega
      rw [List.getElem?_take_of_lt hsmall, List.getElem?_drop] at hi
      have hlt := (List.getElem?_eq_some_iff.mp hi).1
      have hnext : last.position.next.val = p.val + i + 1 := by
        have hposition := h.position hi
        rw [← hposition]
        exact Position.val_next (by omega)
      refine .events _ last hfull hlast ?_ (by omega) ?_
      · show p.val < last.position.next.val
        omega
      · rw [hnext, Nat.add_assoc, List.take_add, List.reduceOption_append, ← htake,
          List.take_take, Nat.min_eq_left hsmall]

end Store
end Chronicle
