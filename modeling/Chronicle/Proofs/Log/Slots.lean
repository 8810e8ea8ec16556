import Chronicle.Proofs.Log.Skipping

/-!
# Chronicle.Proofs.Log.Slots

The events in front of a place of a log that grows and in which some records cannot be decoded
(`Contents.early`). Whoever reads such a log and gets from one place to another has passed over
nothing if the events before the first place and those that it was given are the events before the
second one. This is what is said of every way to get on: by a page (`Store.Yields`), by an empty slot
(`early_skip`) and by a single event (`early_next`). `early_eq_filter` turns it into a statement about
positions.
-/

namespace Chronicle

variable {A : Type} [Vocabulary A]

/-- A value of the list has its place, and the list up to there has the values up to this one. -/
theorem exists_take_reduceOption {α : Type} {xs : List (Option α)} {x : α} {rest : List α} :
    ∀ {pre : List α}, xs.reduceOption = pre ++ x :: rest →
      ∃ i, xs[i]? = some (some x) ∧ (xs.take (i + 1)).reduceOption = pre ++ [x] := by
  induction xs with
  | nil =>
    intro pre h
    simp at h
  | cons y ys ih =>
    intro pre h
    cases y with
    | none =>
      rw [List.reduceOption_cons_of_none] at h
      obtain ⟨i, hi, htake⟩ := ih h
      refine ⟨i + 1, by simpa using hi, ?_⟩
      rw [List.take_succ_cons, List.reduceOption_cons_of_none, htake]
    | some y =>
      rw [List.reduceOption_cons_of_some] at h
      cases pre with
      | nil =>
        simp only [List.nil_append, List.cons.injEq] at h
        exact ⟨0, by simp [h.1], by simp [h.1]⟩
      | cons z pre =>
        simp only [List.cons_append, List.cons.injEq] at h
        obtain ⟨i, hi, htake⟩ := ih h.2
        refine ⟨i + 1, by simpa using hi, ?_⟩
        rw [List.take_succ_cons, List.reduceOption_cons_of_some, htake, h.1, List.cons_append]

namespace Contents

variable {c c' : Contents A} {m n : Nat}

/-- The events that can be decoded before the place. -/
def early (c : Contents A) (n : Nat) : List (Event A) := (c.slots.take n).reduceOption

/-- Nothing is lost with an empty slot. -/
theorem early_skip {failure : ReadFailure} (h : c.failure? n = some failure) :
    n < c.slots.length ∧ c.early (n + 1) = c.early n := by
  have hempty : c.slots[n]? = some none := failure?_isSome.mp (by rw [h]; rfl)
  refine ⟨(List.getElem?_eq_some_iff.mp hempty).1, ?_⟩
  rw [early, List.take_add_one, hempty, List.reduceOption_append]
  simp [early]

theorem early_prefix (h : m ≤ n) : c.early m <+: c.early n := by
  have htake : c.slots.take m <+: c.slots.take n := by
    rw [← Nat.min_eq_left h, ← List.take_take]
    exact List.take_prefix _ _
  exact htake.filterMap _

theorem Numbered.early_next (h : c.Numbered) {e : Event A} {pre rest : List (Event A)}
    (hn : c.early n = pre ++ e :: rest) :
    c.early e.position.next.val = pre ++ [e] ∧ e.position.next.val ≤ c.slots.length := by
  obtain ⟨i, hi, htake⟩ := exists_take_reduceOption hn
  have hlt : i < n := by
    have := (List.getElem?_eq_some_iff.mp hi).1
    rw [List.length_take] at this
    omega
  rw [List.getElem?_take_of_lt hlt] at hi
  have hlength := (List.getElem?_eq_some_iff.mp hi).1
  have hposition := h.position hi
  have hroom := h.1
  rw [← length_slots] at hroom
  have hnext : e.position.next.val = i + 1 := by
    rw [← hposition]
    exact Position.val_next (by omega)
  rw [List.take_take, Nat.min_eq_left hlt] at htake
  rw [hnext]
  exact ⟨htake, hlength⟩

theorem Numbered.lt_of_mem_early (h : c.Numbered) {e : Event A} (he : e ∈ c.early n) :
    e.position.val < n := by
  obtain ⟨i, hi⟩ := List.getElem?_of_mem (List.reduceOption_mem_iff.mp he)
  have hlt : i < n := by
    have := (List.getElem?_eq_some_iff.mp hi).1
    rw [List.length_take] at this
    omega
  rw [List.getElem?_take_of_lt hlt] at hi
  rw [h.position hi]
  exact hlt

theorem Numbered.le_of_mem_drop (h : c.Numbered) {e : Event A}
    (he : e ∈ (c.slots.drop n).reduceOption) :
    n ≤ e.position.val := by
  obtain ⟨i, hi⟩ := List.getElem?_of_mem (List.reduceOption_mem_iff.mp he)
  rw [List.getElem?_drop] at hi
  rw [h.position hi]
  exact Nat.le_add_right n i

theorem reduceOption_eq (n : Nat) :
    c.slots.reduceOption = c.early n ++ (c.slots.drop n).reduceOption := by
  rw [early, ← List.reduceOption_append, List.take_append_drop]

/-- The events before a place are those at positions below it. -/
theorem Numbered.early_eq_filter (h : c.Numbered) (n : Position) :
    c.early n.val = c.slots.reduceOption.filter fun e => e.position < n := by
  have hearly : ∀ e ∈ c.early n.val, decide (e.position < n) = true := by
    intro e he
    exact decide_eq_true (h.lt_of_mem_early he)
  have hlate : ∀ e ∈ (c.slots.drop n.val).reduceOption, ¬ decide (e.position < n) = true := by
    intro e he
    rw [decide_eq_true_eq]
    exact Nat.not_lt_of_le (h.le_of_mem_drop he)
  rw [reduceOption_eq n.val, List.filter_append, List.filter_eq_self.mpr hearly,
    List.filter_eq_nil_iff.mpr hlate, List.append_nil]

theorem Numbered.drop_eq_filter (h : c.Numbered) (n : Position) :
    (c.slots.drop n.val).reduceOption = c.slots.reduceOption.filter fun e => n ≤ e.position := by
  have hearly : ∀ e ∈ c.early n.val, ¬ decide (n ≤ e.position) = true := by
    intro e he
    rw [decide_eq_true_eq]
    exact Nat.not_le_of_lt (h.lt_of_mem_early he)
  have hlate : ∀ e ∈ (c.slots.drop n.val).reduceOption, decide (n ≤ e.position) = true := by
    intro e he
    exact decide_eq_true (h.le_of_mem_drop he)
  rw [reduceOption_eq n.val, List.filter_append, List.filter_eq_nil_iff.mpr hearly,
    List.filter_eq_self.mpr hlate, List.nil_append]

/-- Events are kept in the order of their positions. -/
theorem Numbered.ordered (h : c.Numbered) :
    c.slots.reduceOption.Pairwise fun e e' => e.position < e'.position := by
  refine List.pairwise_filterMap.mpr (List.pairwise_iff_getElem.mpr ?_)
  intro i j hi hj hij e he e' he'
  have hposition : e.position.val = i := h.position (List.getElem?_eq_some_iff.mpr ⟨hi, he⟩)
  have hposition' : e'.position.val = j := h.position (List.getElem?_eq_some_iff.mpr ⟨hj, he'⟩)
  show e.position.val < e'.position.val
  omega

/-! ## Growing -/

/-- The contents after appends that leave what was there, and go on numbering. -/
structure Grows (c c' : Contents A) : Prop where
  slots : c.slots <+: c'.slots
  numbered : c'.length < 0x10000000000000000 → c.Numbered → c'.Numbered

theorem Grows.refl (c : Contents A) : c.Grows c := ⟨List.prefix_rfl, fun _ => id⟩

theorem Grows.length_le (h : c.Grows c') : c.length ≤ c'.length := by
  rw [← length_slots, ← length_slots (c := c')]
  exact h.slots.length_le

theorem Grows.early_eq (h : c.Grows c') (hn : n ≤ c.slots.length) : c'.early n = c.early n := by
  obtain ⟨more, hmore⟩ := h.slots
  rw [early, ← hmore, List.take_append_of_le_length hn, early]

theorem Grows.of_append {extra : List Nat} {k : Nat} (hslots : c.slots <+: c'.slots)
    (hlength : c'.length = c.length + k) (hpositions : c'.positions = c.positions ++ extra)
    (hextra : c.length + k < 0x10000000000000000 → extra = List.range' c.length k) :
    c.Grows c' where
  slots := hslots
  numbered hroom hnumbered := by
    have hrange := List.range'_append_1 (s := 0) (m := c.length) (n := k)
    rw [Nat.zero_add] at hrange
    refine ⟨hroom, ?_⟩
    rw [hlength] at hroom
    rw [hpositions, hlength, hnumbered.2, hextra hroom, List.range_eq_range', hrange,
      List.range_eq_range']

/-! ## Getting on -/

/-- What was sent are the events from place `first` on, before place `next`. -/
structure Sends (c : Contents A) (first : Position) (sent : List (Event A)) (next : Position) :
    Prop where
  events : c.early next.val = c.early first.val ++ sent
  reach : next = first ∨ first ≤ next ∧ next.val ≤ c.slots.length

namespace Sends

variable {first next : Position} {sent : List (Event A)}

theorem refl (c : Contents A) (first : Position) : c.Sends first [] first :=
  ⟨(List.append_nil _).symm, .inl rfl⟩

theorem first_le (h : c.Sends first sent next) : first ≤ next := by
  rcases h.reach with hsame | ⟨hle, -⟩
  · rw [hsame]
    exact Nat.le_refl _
  · exact hle

/-- An empty slot is passed over. -/
theorem skip (h : c.Sends first sent next) (hc : c.Numbered) {failure : ReadFailure}
    (hempty : c.failure? next.val = some failure) : c.Sends first sent next.next := by
  obtain ⟨hlt, hearly⟩ := early_skip hempty
  have hroom := hc.1
  rw [← length_slots] at hroom
  have hnext : next.next.val = next.val + 1 := Position.val_next (by omega)
  have hle : first.val ≤ next.val := h.first_le
  refine ⟨?_, .inr ⟨?_, by omega⟩⟩
  · rw [hnext, hearly, h.events]
  · show first.val ≤ next.next.val
    omega

/-- A page is read, up to the place `target`. -/
theorem page (h : c.Sends first sent next) {events : List (Event A)} {target : Position}
    (hlt : next < target) (hle : target.val ≤ c.slots.length)
    (hpage : c.early target.val = c.early next.val ++ events) :
    c.Sends first (sent ++ events) target := by
  have hfirst : first.val ≤ next.val := h.first_le
  have hlater : next.val < target.val := hlt
  refine ⟨by rw [hpage, h.events, List.append_assoc], .inr ⟨?_, hle⟩⟩
  show first.val ≤ target.val
  omega

/-- Of what is sent up to some place, a part ends behind each event. -/
theorem item {e : Event A} {rest : List (Event A)} (h : c.Sends first (sent ++ e :: rest) next)
    (hc : c.Numbered) : c.Sends first (sent ++ [e]) e.position.next := by
  have hevents := h.events
  rw [← List.append_assoc] at hevents
  obtain ⟨hearly, hle⟩ := hc.early_next hevents
  refine ⟨by rw [hearly, List.append_assoc], .inr ⟨?_, hle⟩⟩
  refine Nat.le_of_not_lt fun hlt => ?_
  have hshort := (c.early_prefix (Nat.le_of_lt hlt)).length_le
  rw [hearly] at hshort
  simp only [List.length_append, List.length_singleton] at hshort
  omega

theorem grow (h : c.Sends first sent next) (hc : c.Grows c') : c'.Sends first sent next := by
  rcases h.reach with rfl | ⟨hle, hnext⟩
  · have hnone : sent = [] := by simpa using h.events
    rw [hnone]
    exact refl c' next
  · have hle' : first.val ≤ next.val := hle
    refine ⟨?_, .inr ⟨hle, Nat.le_trans hnext hc.slots.length_le⟩⟩
    rw [hc.early_eq hnext, hc.early_eq (Nat.le_trans hle' hnext)]
    exact h.events

theorem eq_reduceOption (h : c.Sends first sent next) :
    sent = ((c.slots.take next.val).drop first.val).reduceOption := by
  have hle : first.val ≤ next.val := h.first_le
  have hsplit : c.early next.val =
      c.early first.val ++ ((c.slots.take next.val).drop first.val).reduceOption := by
    have htake : c.slots.take first.val = (c.slots.take next.val).take first.val := by
      rw [List.take_take, Nat.min_eq_left hle]
    rw [early, early, htake, ← List.reduceOption_append, List.take_append_drop]
  exact List.append_cancel_left (h.events.symm.trans hsplit)

theorem prefix_filter (h : c.Sends first sent next) (hc : c.Numbered) :
    sent <+: c.slots.reduceOption.filter fun e => first ≤ e.position := by
  rw [← hc.drop_eq_filter, h.eq_reduceOption, List.drop_take]
  exact (List.take_prefix _ _).filterMap _

theorem eq_filter (h : c.Sends first sent next) (hc : c.Numbered) :
    sent = c.slots.reduceOption.filter fun e => first ≤ e.position ∧ e.position < next := by
  have hbefore : ∀ e ∈ c.early first.val, ¬ decide (first ≤ e.position) = true := by
    intro e he
    rw [decide_eq_true_eq]
    exact Nat.not_le_of_lt (hc.lt_of_mem_early he)
  have hsent : ∀ e ∈ sent, decide (first ≤ e.position) = true := by
    intro e he
    exact (List.mem_filter.mp ((h.prefix_filter hc).subset he)).2
  calc
    sent = (c.early first.val ++ sent).filter fun e => first ≤ e.position := by
      rw [List.filter_append, List.filter_eq_nil_iff.mpr hbefore, List.filter_eq_self.mpr hsent,
        List.nil_append]
    _ = c.slots.reduceOption.filter fun e => first ≤ e.position ∧ e.position < next := by
      rw [← h.events, hc.early_eq_filter, List.filter_filter]
      simp only [Bool.decide_and]

/-- Behind the last place everything is sent. -/
theorem all (h : c.Sends first sent next) (hc : c.Numbered) (hend : c.slots.length ≤ next.val) :
    sent = c.slots.reduceOption.filter fun e => first ≤ e.position := by
  rw [← hc.drop_eq_filter, h.eq_reduceOption, List.take_of_length_le hend]

theorem ordered (h : c.Sends first sent next) (hc : c.Numbered) :
    sent.Pairwise fun e e' => e.position < e'.position := by
  rw [h.eq_filter hc]
  exact hc.ordered.filter _

end Sends

end Contents

namespace Store

variable {s : Store A}

theorem grows_write (batch : List (Payload A)) :
    s.contents.Grows (s.write batch).2.contents := by
  unfold write
  split
  · exact .refl _
  · dsimp only
    split
    · rename_i events hevents
      rw [Store.length, hevents]
      refine .of_append ?_ ?_ (List.map_append ..) positions_stamp
      · rw [Contents.slots, Contents.slots, List.map_append]
        exact List.prefix_append _ _
      · rw [Contents.length, List.length_append, length_stamp, Contents.length]
    · rename_i registry kept hkept
      split
      · exact .refl _
      · rename_i encoded hencoded
        have hlength := length_encodeAll hencoded
        rw [Store.length, hkept]
        refine .of_append (k := batch.length) ?_ ?_ (List.map_append ..) fun hroom => ?_
        · rw [Contents.slots, Contents.slots, List.map_append]
          exact List.prefix_append _ _
        · rw [Contents.length, List.length_append, List.length_zipWith, length_stamp, hlength,
            Nat.min_self, Contents.length]
        · rw [positions_recordOf (by rw [length_stamp, hlength])]
          exact positions_stamp hroom

theorem grows_appendRaw (stream : StreamId) (tag : String) (data : List UInt8) :
    s.contents.Grows (s.appendRaw stream tag data).2.contents := by
  unfold appendRaw
  split
  · exact .refl _
  · rename_i registry kept hkept
    rw [hkept]
    refine .of_append ?_ (List.length_append ..) (List.map_append ..) fun hroom => ?_
    · rw [Contents.slots, Contents.slots, List.map_append]
      exact List.prefix_append _ _
    · have hfits : kept.length < 0x10000000000000000 := by
        simp only [Contents.length, List.length_singleton] at hroom
        omega
      exact congrArg (fun n => [n]) (Position.val_ofNat hfits)

theorem pageSize_appendRaw {stream : StreamId} {tag : String} {data : List UInt8} :
    (s.appendRaw stream tag data).2.pageSize = s.pageSize := by
  unfold appendRaw
  split <;> rfl

end Store
end Chronicle
