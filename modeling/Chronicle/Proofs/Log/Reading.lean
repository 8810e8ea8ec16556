import Chronicle.Log.Store
import Chronicle.Notes

/-!
# Chronicle.Proofs.Log.Reading

What reading a log yields. A log is a list of events that are numbered from zero, and too short for
the last position, so `Position.last` bounds nothing as a bound (`Numbered`).

* `below`, `upTo`: the events of a stream at positions below, or up to, a position.
* `early`: the events of a stream among the first `n`. Both are `early` (`below_eq_early`,
  `upTo_eq_early`), and `early` grows event by event and never changes afterwards.
* `page`: what a read from a position returns.
-/

namespace Chronicle
namespace Log

variable {A : Type}

/-- The events are numbered from zero, and the last position is not reached. -/
def Numbered (log : List (Event A)) : Prop :=
  log.length < 0x10000000000000000 ∧ log.map (fun e => e.position.val) = List.range log.length

instance (log : List (Event A)) : Decidable (Numbered log) := inferInstanceAs (Decidable (_ ∧ _))

section Numbering

variable {log : List (Event A)}

theorem Numbered.position (h : Numbered log) {i : Nat} {e : Event A} (he : log[i]? = some e) :
    e.position.val = i := by
  have hi : i < log.length := (List.getElem?_eq_some_iff.mp he).1
  have hmap := congrArg (·[i]?) h.2
  simp only [List.getElem?_map, he, Option.map_some, List.getElem?_range hi] at hmap
  exact Option.some.inj hmap

theorem Numbered.getElem? (h : Numbered log) {e : Event A} (he : e ∈ log) :
    log[e.position.val]? = some e := by
  obtain ⟨i, hi⟩ := List.getElem?_of_mem he
  rw [h.position hi]
  exact hi

theorem Numbered.position_lt (h : Numbered log) {e : Event A} (he : e ∈ log) :
    e.position.val < log.length :=
  (List.getElem?_eq_some_iff.mp (h.getElem? he)).1

theorem Numbered.below_last (h : Numbered log) {e : Event A} (he : e ∈ log) :
    e.position < Position.last := by
  have := h.position_lt he
  have := h.1
  show e.position.val < 0xffffffffffffffff
  omega

/-- What is to come after the first `n` events begins with the event numbered `n`. -/
theorem next_of_prefix_drop {n : Nat} {e : Event A} {rest : List (Event A)}
    (h : e :: rest <+: log.drop n) : log[n]? = some e ∧ rest <+: log.drop (n + 1) := by
  obtain ⟨more, hmore⟩ := h
  constructor
  · have hhead := congrArg List.head? hmore
    rw [List.head?_drop] at hhead
    exact hhead.symm
  · have htail := congrArg List.tail hmore
    rw [List.tail_drop] at htail
    exact ⟨more, htail⟩

/-- A position names one event. -/
theorem Numbered.unique (h : Numbered log) {e e' : Event A} (he : e ∈ log) (he' : e' ∈ log)
    (hp : e.position = e'.position) : e = e' := by
  have := h.getElem? he
  rw [hp, h.getElem? he'] at this
  exact (Option.some.inj this).symm

theorem Numbered.next (h : Numbered log) {e : Event A} (he : e ∈ log) :
    e.position.next.val = e.position.val + 1 := by
  have := h.position_lt he
  have := h.1
  exact Position.val_next (by omega)

theorem Numbered.of_append {more : List (Event A)} (h : Numbered (log ++ more)) : Numbered log := by
  obtain ⟨hlen, hmap⟩ := h
  rw [List.length_append] at hlen
  refine ⟨by omega, ?_⟩
  have := congrArg (List.take log.length) hmap
  rw [List.map_append, List.take_left' (by simp), List.length_append, List.take_range] at this
  rw [this, Nat.min_eq_left (by omega)]

theorem Numbered.append (h : Numbered log) {more : List (Event A)}
    (hmore : more.map (fun e => e.position.val) = List.range' log.length more.length)
    (hroom : log.length + more.length < 0x10000000000000000) : Numbered (log ++ more) := by
  refine ⟨by rwa [List.length_append], ?_⟩
  have hrange := List.range'_append_1 (s := 0) (m := log.length) (n := more.length)
  rw [Nat.zero_add] at hrange
  rw [List.map_append, h.2, hmore, List.length_append, List.range_eq_range',
    List.range_eq_range', hrange]

theorem Numbered.take (h : Numbered log) (n : Nat) : Numbered (log.take n) := by
  rw [← List.take_append_drop n log] at h
  exact h.of_append

theorem Numbered.lt_of_mem_take (h : Numbered log) {n : Nat} {e : Event A} (he : e ∈ log.take n) :
    e.position.val < n := by
  obtain ⟨i, hi⟩ := List.getElem?_of_mem he
  have hlt : i < n := by
    have := (List.getElem?_eq_some_iff.mp hi).1
    rw [List.length_take] at this
    omega
  rw [List.getElem?_take_of_lt hlt] at hi
  rw [h.position hi]
  exact hlt

theorem Numbered.le_of_mem_drop (h : Numbered log) {n : Nat} {e : Event A} (he : e ∈ log.drop n) :
    n ≤ e.position.val := by
  obtain ⟨i, hi⟩ := List.getElem?_of_mem he
  rw [List.getElem?_drop] at hi
  rw [h.position hi]
  exact Nat.le_add_right n i

theorem Numbered.lt_of_append {more : List (Event A)} (h : Numbered (log ++ more)) {e e' : Event A}
    (he : e ∈ log) (he' : e' ∈ more) : e.position < e'.position := by
  have hdrop : (log ++ more).drop log.length = more := List.drop_left
  rw [← hdrop] at he'
  exact Nat.lt_of_lt_of_le (h.of_append.position_lt he) (h.le_of_mem_drop he')

/-- A stretch of the log are the events at its positions. -/
theorem Numbered.drop_take (h : Numbered log) (m n : Position) :
    (log.take n.val).drop m.val = log.filter (fun e => m ≤ e.position ∧ e.position < n) := by
  have hlate : ∀ e ∈ log.drop n.val, ¬ decide (m ≤ e.position ∧ e.position < n) = true := by
    intro e he
    rw [decide_eq_true_eq]
    exact fun hin => Nat.not_lt_of_le (h.le_of_mem_drop he) hin.2
  have hearly : ∀ e ∈ (log.take n.val).take m.val,
      ¬ decide (m ≤ e.position ∧ e.position < n) = true := by
    intro e he
    rw [decide_eq_true_eq]
    exact fun hin => Nat.not_lt_of_le hin.1 ((h.take n.val).lt_of_mem_take he)
  have hin : ∀ e ∈ (log.take n.val).drop m.val,
      decide (m ≤ e.position ∧ e.position < n) = true := by
    intro e he
    rw [decide_eq_true_eq]
    exact ⟨(h.take n.val).le_of_mem_drop he, h.lt_of_mem_take (List.mem_of_mem_drop he)⟩
  conv =>
    rhs
    rw [← List.take_append_drop n.val log, ← List.take_append_drop m.val (log.take n.val)]
  rw [List.filter_append, List.filter_append, List.filter_eq_nil_iff.mpr hlate,
    List.filter_eq_nil_iff.mpr hearly, List.filter_eq_self.mpr hin, List.nil_append,
    List.append_nil]

theorem Numbered.positions_drop_take (h : Numbered log) {m n : Nat}
    (hn : n ≤ m ∨ n ≤ log.length) :
    ((log.take n).drop m).map (fun e => e.position.val) = List.range' m (n - m) := by
  rw [List.map_drop, List.map_take, h.2, List.take_range, List.range_eq_range', List.drop_range']
  rcases hn with hn | hn
  · rw [Nat.sub_eq_zero_of_le (by omega), Nat.sub_eq_zero_of_le hn]
    rfl
  · rw [Nat.min_eq_left hn, Nat.zero_add, Nat.mul_one]

end Numbering

/-- What a read from a position returns, of at most `n` events. -/
def page (log : List (Event A)) (cursor : Position) (n : Nat) : List (Event A) :=
  (log.drop cursor.val).take n

/-- What a read comes to that may fail. -/
def answered (fault : Option ReadFailure) (events : List (Event A)) : Page A :=
  match fault with
  | some failure => .error failure
  | none => .ok events

section Pages

variable {log : List (Event A)}

/-- The first `m` events and the page read behind them are the first events together. -/
theorem take_append_page (cursor : Position) (n : Nat) :
    log.take cursor.val ++ page log cursor n
      = log.take (cursor.val + (page log cursor n).length) := by
  rw [List.take_add, page, List.length_take, List.take_eq_take_min (i := n)]

theorem page_eq_nil {cursor : Position} {n : Nat} (hn : 0 < n) (h : page log cursor n = []) :
    log.length ≤ cursor.val := by
  rw [page, List.take_eq_nil_iff] at h
  rcases h with h | h
  · omega
  · exact List.drop_eq_nil_iff.mp h

/-- The cursor behind a page is the number of events read. -/
theorem page_last (h : Numbered log) {cursor : Position} {n : Nat} {e : Event A}
    (he : (page log cursor n).getLast? = some e) :
    e ∈ log ∧ e.position.next.val = cursor.val + (page log cursor n).length := by
  have hpos : 0 < (page log cursor n).length := by
    cases hp : page log cursor n with
    | nil => rw [hp] at he; cases he
    | cons x xs => exact Nat.succ_pos _
  rw [List.getLast?_eq_getElem?] at he
  have hat : log[cursor.val + ((page log cursor n).length - 1)]? = some e := by
    rw [← List.getElem?_drop]
    have hlt : (page log cursor n).length - 1 < n := by
      have : (page log cursor n).length ≤ n := by rw [page, List.length_take]; omega
      omega
    rw [← List.getElem?_take_of_lt hlt]
    exact he
  refine ⟨List.mem_of_getElem? hat, ?_⟩
  rw [h.next (List.mem_of_getElem? hat), h.position hat]
  omega

end Pages

variable [Vocabulary A]

def below (log : List (Event A)) (s : StreamId) (bound : Position) : List (Event A) :=
  log.filter fun e => decide (e.position < bound) && e.stream == s

def upTo (log : List (Event A)) (s : StreamId) (last : Position) : List (Event A) :=
  log.filter fun e => decide (e.position ≤ last) && e.stream == s

def early (log : List (Event A)) (s : StreamId) (n : Nat) : List (Event A) :=
  (log.take n).filter fun e => e.stream == s

section Early

variable {log : List (Event A)} {s : StreamId}

/-- Filtering by position is cutting the log off. -/
theorem filter_position (h : Numbered log) (n : Nat) :
    log.filter (fun e => decide (e.position.val < n) && e.stream == s) = early log s n := by
  have hlate : ∀ e ∈ log.drop n, ¬ (decide (e.position.val < n) && e.stream == s) = true := by
    intro e he
    simp [Nat.not_lt_of_le (h.le_of_mem_drop he)]
  have hearly : ∀ e ∈ log.take n,
      (decide (e.position.val < n) && e.stream == s) = (e.stream == s) := by
    intro e he
    simp [h.lt_of_mem_take he]
  conv => lhs; rw [← List.take_append_drop n log]
  rw [List.filter_append, List.filter_eq_nil_iff.mpr hlate, List.append_nil,
    List.filter_congr hearly, early]

theorem below_eq_early (h : Numbered log) (bound : Position) :
    below log s bound = early log s bound.val :=
  filter_position h bound.val

theorem upTo_eq_early (h : Numbered log) (last : Position) :
    upTo log s last = early log s (last.val + 1) := by
  rw [← filter_position h, upTo]
  refine List.filter_congr fun e _ => ?_
  have : e.position ≤ last ↔ e.position.val < last.val + 1 := Nat.lt_succ_iff.symm
  simp [this]

theorem early_succ {n : Nat} {e : Event A} (he : log[n]? = some e) :
    early log s (n + 1) = early log s n ++ if e.stream = s then [e] else [] := by
  rw [early, List.take_add_one, he, List.filter_append, early]
  by_cases hs : e.stream = s <;> simp [hs]

theorem early_of_length_le {n : Nat} (hn : log.length ≤ n) :
    early log s n = log.filter fun e => e.stream == s := by
  rw [early, List.take_of_length_le hn]

/-- Appending changes nothing that came before. -/
theorem early_append {more : List (Event A)} {n : Nat} (hn : n ≤ log.length) :
    early (log ++ more) s n = early log s n := by
  rw [early, List.take_append_of_le_length hn, early]

theorem mem_early (h : Numbered log) {n : Nat} {e : Event A} :
    e ∈ early log s n ↔ e ∈ log ∧ e.stream = s ∧ e.position.val < n := by
  rw [← filter_position h, List.mem_filter]
  simp only [Bool.and_eq_true, decide_eq_true_eq, beq_iff_eq]
  constructor
  · rintro ⟨hmem, hlt, hs⟩
    exact ⟨hmem, hs, hlt⟩
  · rintro ⟨hmem, hs, hlt⟩
    exact ⟨hmem, hlt, hs⟩

/-- Where a stretch of the log holds no event of the stream, `early` does not grow. -/
theorem early_stretch (h : Numbered log) {m n : Nat} (hmn : m ≤ n)
    (hfree : ∀ e ∈ log, e.stream = s → e.position.val < n → e.position.val < m) :
    early log s n = early log s m := by
  rw [← filter_position h, ← filter_position h]
  refine List.filter_congr fun e he => ?_
  by_cases hs : e.stream = s
  · by_cases hn : e.position.val < n
    · rw [decide_eq_true hn, decide_eq_true (hfree e he hs hn)]
    · rw [decide_eq_false hn, decide_eq_false (by omega)]
  · rw [beq_false_of_ne hs, Bool.and_false, Bool.and_false]

end Early

/-- The hints of the log are true: an event that is said to be the first of its stream is. -/
def Hinted (log : List (Event A)) : Prop :=
  ∀ e ∈ log, e.firstOfStream = some true → ∀ e' ∈ log, e'.stream = e.stream →
    e.position ≤ e'.position

instance (log : List (Event A)) : Decidable (Hinted log) :=
  inferInstanceAs (Decidable (∀ e ∈ log, _ → ∀ e' ∈ log, _ → _))

theorem Hinted.early_eq_nil {log : List (Event A)} (hh : Hinted log) (h : Numbered log) {n : Nat}
    {e : Event A} (he : log[n]? = some e) (hfirst : e.firstOfStream = some true) :
    early log e.stream n = [] := by
  rw [List.eq_nil_iff_forall_not_mem]
  intro e' he'
  obtain ⟨hmem, hs, hlt⟩ := (mem_early h).mp he'
  have : e.position.val ≤ e'.position.val := hh e (List.mem_of_getElem? he) hfirst e' hmem hs
  rw [h.position he] at this
  omega

end Log

/-- A number noted under the topic `a`, at a position of the log. -/
def Notes.noted (n : Int64) (position : Nat) : Event Notes.Fact :=
  { position := .ofNat position, time := 0, payload := .fact (.noted "a" n) }

end Chronicle
