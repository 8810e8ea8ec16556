import Mathlib.Order.SuccPred.Basic
import Chronicle.Feed.EventStream
import Chronicle.Notes
import Chronicle.Proofs.Running

/-!
# Chronicle.Proofs.Feed.Polling

A poll loop over any ordered cursors, as long as the cursor behind an item is the successor of the
item's own. The log is appended to at any time, and each read fails, for now or for good, or yields
some of what the log has from the polled cursor on. The reads so far decide everything: where the
next one is made (`Poll.resume`), which cursors were given up (`Poll.skips`), and what was handed
out, which is the rest of the log up to there (`Polling.Polled`).
-/

namespace Chronicle

/-! ## Reads -/

/-- A read of a poll loop: its cursor, what it yielded, and what was noted of it. -/
structure Poll (C T : Type) where
  cursor : C
  page : Except ReadFailure (List T)
  notes : List Note

namespace Poll

variable {C T : Type}

/-- The cursor was given up. -/
def skipped (p : Poll C T) : Bool := p.notes.contains (.metric .cursorSkipped)

/-- The read failed for good. -/
def lost (p : Poll C T) : Bool :=
  match p.page with
  | .error (.permanent _) => true
  | _ => false

/-- No earlier failure counts any more. -/
def settles (p : Poll C T) : Bool := p.page.isOk || p.skipped

/-- The reads since the last one that succeeded or gave its cursor up, the latest first. -/
def unsettled (polls : List (Poll C T)) : List (Poll C T) :=
  polls.reverse.takeWhile fun p => !p.settles

def failures (polls : List (Poll C T)) : Nat := (unsettled polls).countP lost

variable [LinearOrder C]

/-- This cursor was given up. -/
def skips (polls : List (Poll C T)) (cursor : C) : Bool :=
  polls.any fun p => p.skipped && decide (p.cursor = cursor)

variable [SuccOrder C]

/-- The cursor after the read. -/
def next (place : T → C) (p : Poll C T) : C :=
  if p.skipped then Order.succ p.cursor
  else
    match p.page with
    | .ok items => (items.getLast?.map fun x => Order.succ (place x)).getD p.cursor
    | .error _ => p.cursor

def resume (place : T → C) (initial : C) (polls : List (Poll C T)) : C :=
  (polls.getLast?.map (next place)).getD initial

end Poll

namespace Poll

variable {C T : Type}

/-- A read that failed, with what is noted when the strategy makes this move. -/
def ofFailure (cursor : C) (failure : ReadFailure) (move : Strategy.Move C) : Poll C T where
  cursor := cursor
  page := .error failure
  notes := .metric (.readFailed failure.isTemporary) :: .log .pollReadFailed :: move.notes

section

variable {cursor : C} {failure : ReadFailure} {move : Strategy.Move C}

@[simp] theorem skipped_ofFailure :
    (ofFailure cursor failure move : Poll C T).skipped = move.skipped := by
  unfold skipped ofFailure Strategy.Move.notes
  cases move.skipped <;> simp

@[simp] theorem lost_ofFailure :
    (ofFailure cursor failure move : Poll C T).lost = !failure.isTemporary := by
  cases failure <;> rfl

@[simp] theorem settles_ofFailure :
    (ofFailure cursor failure move : Poll C T).settles = move.skipped := by
  rw [settles, skipped_ofFailure]
  rfl

end

variable {polls : List (Poll C T)} {p : Poll C T}

theorem unsettled_concat :
    unsettled (polls ++ [p]) = if p.settles then [] else p :: unsettled polls := by
  rw [unsettled, List.reverse_concat, List.takeWhile_cons]
  cases p.settles <;> rfl

theorem failures_concat : failures (polls ++ [p]) =
    if p.settles then 0 else failures polls + if p.lost then 1 else 0 := by
  rw [failures, unsettled_concat]
  cases hsettles : p.settles with
  | true => rfl
  | false => exact List.countP_cons

variable [LinearOrder C]

theorem skips_concat (c : C) :
    skips (polls ++ [p]) c = (skips polls c || p.skipped && decide (p.cursor = c)) := by
  simp [skips]

variable [SuccOrder C] {place : T → C} {initial : C}

@[simp] theorem resume_nil : resume place initial ([] : List (Poll C T)) = initial := rfl

@[simp] theorem resume_concat : resume place initial (polls ++ [p]) = p.next place := by
  simp [resume]

@[simp] theorem next_ofFailure {cursor : C} {failure : ReadFailure} {move : Strategy.Move C} :
    (ofFailure cursor failure move : Poll C T).next place =
      if move.skipped then Order.succ cursor else cursor := by
  rw [next, skipped_ofFailure]
  rfl

/-- A read that settles nothing leaves the cursor. -/
theorem next_of_unsettled (h : p.settles = false) : p.next place = p.cursor := by
  obtain ⟨hpage, hskipped⟩ := Bool.or_eq_false_iff.mp h
  rw [next, hskipped]
  cases hresult : p.page with
  | ok items =>
    rw [hresult] at hpage
    cases hpage
  | error failure => rfl

end Poll

/-! ## What reads account for -/

/-- A list in order is what it has before a place, and then the rest. -/
theorem split_at_place {C T : Type} [LinearOrder C] {place : T → C} {log : List T}
    (h : log.Pairwise fun x y => place x < place y) (c : C) :
    (log.filter fun x => place x < c) ++ (log.filter fun x => c ≤ place x) = log := by
  induction log with
  | nil => rfl
  | cons x rest ih =>
    rw [List.pairwise_cons] at h
    by_cases hx : place x < c
    · rw [List.filter_cons_of_pos (by simpa using hx), List.filter_cons_of_neg (by simpa using hx),
        List.cons_append, ih h.2]
    · have hc : c ≤ place x := not_lt.mp hx
      have hnone : rest.filter (fun y => place y < c) = [] := by
        refine List.filter_eq_nil_iff.mpr fun y hy => ?_
        simpa using hc.trans (h.1 y hy).le
      have hall : rest.filter (fun y => c ≤ place y) = rest := by
        refine List.filter_eq_self.mpr fun y hy => ?_
        simpa using hc.trans (h.1 y hy).le
      rw [List.filter_cons_of_neg (by simpa using hx), List.filter_cons_of_pos (by simpa using hc),
        hnone, hall, List.nil_append]

theorem le_last_place {C T : Type} [LinearOrder C] {place : T → C} {items : List T} {last x : T}
    (h : items.Pairwise fun x y => place x < place y) (hlast : items.getLast? = some last)
    (hx : x ∈ items) : place x ≤ place last := by
  obtain ⟨init, rfl⟩ := List.getLast?_eq_some_iff.mp hlast
  rcases List.mem_append.mp hx with hinit | hend
  · exact ((List.pairwise_append.mp h).2.2 x hinit last List.mem_cons_self).le
  · rw [List.mem_singleton.mp hend]

namespace Poll

variable {C T : Type} [LinearOrder C] [SuccOrder C] {place : T → C} {initial : C}

/-- The items of the log from the first cursor up to where the reads have got, but for those at a
cursor that was given up. -/
def due (place : T → C) (initial : C) (log : List T) (polls : List (Poll C T)) : List T :=
  log.filter fun x => initial ≤ place x ∧ place x < resume place initial polls ∧
    skips polls (place x) = false

theorem due_append {log more : List T} {polls : List (Poll C T)} :
    due place initial (log ++ more) polls =
      due place initial log polls ++ due place initial more polls := List.filter_append ..

/-- The log is in order, and the reads have brought what is due. -/
structure Accounts (place : T → C) (initial : C) (log : List T) (polls : List (Poll C T))
    (brought : List T) : Prop where
  ordered : log.Pairwise fun x y => place x < place y
  below : ∀ x ∈ log, place x < Order.succ (place x)
  ahead : initial ≤ resume place initial polls
  /-- What will be appended is not before the cursor, or at one that was given up. -/
  covered : ∀ c, initial ≤ c → c < resume place initial polls →
    skips polls c = true ∨ ∃ x ∈ log, c ≤ place x
  /-- What was given up is not read later. -/
  behind : ∀ c, skips polls c = true → c < resume place initial polls ∨ IsMax c
  brought : brought = due place initial log polls

namespace Accounts

variable {log brought : List T} {polls : List (Poll C T)} {p : Poll C T}

theorem nil : Accounts place initial [] [] [] where
  ordered := .nil
  below := fun _ hx => nomatch hx
  ahead := le_rfl
  covered := fun _ hle hlt => absurd hlt (not_lt.mpr hle)
  behind := fun _ hc => nomatch hc
  brought := rfl

theorem append (h : Accounts place initial log polls brought) {items : List T}
    (hordered : (log ++ items).Pairwise fun x y => place x < place y)
    (hbelow : ∀ x ∈ items, place x < Order.succ (place x)) :
    Accounts place initial (log ++ items) polls brought := by
  have hlate : ∀ x ∈ log, ∀ y ∈ items, place x < place y := (List.pairwise_append.mp hordered).2.2
  have hnone : due place initial items polls = [] := by
    refine List.filter_eq_nil_iff.mpr fun y hy hdue => ?_
    obtain ⟨hle, hlt, hkept⟩ := of_decide_eq_true hdue
    rcases h.covered _ hle hlt with hskip | ⟨x, hx, hxy⟩
    · rw [hskip] at hkept
      cases hkept
    · exact absurd (hlate x hx y hy) (not_lt.mpr hxy)
  refine ⟨hordered, fun x hx => ?_, h.ahead, fun c hle hlt => ?_, h.behind, ?_⟩
  · exact (List.mem_append.mp hx).elim (h.below x) (hbelow x)
  · refine (h.covered c hle hlt).imp_right ?_
    rintro ⟨x, hx, hxc⟩
    exact ⟨x, List.mem_append_left _ hx, hxc⟩
  · rw [due_append, hnone, List.append_nil]
    exact h.brought

/-- A read that brings nothing and leaves the cursor. -/
theorem stay (h : Accounts place initial log polls brought) (hskipped : p.skipped = false)
    (hnext : p.next place = resume place initial polls) :
    Accounts place initial log (polls ++ [p]) brought := by
  have hskips : ∀ c, skips (polls ++ [p]) c = skips polls c := by
    intro c
    rw [skips_concat, hskipped, Bool.false_and, Bool.or_false]
  refine ⟨h.ordered, h.below, ?_, ?_, ?_, ?_⟩
  · rw [resume_concat, hnext]
    exact h.ahead
  · simp only [resume_concat, hnext, hskips]
    exact h.covered
  · simp only [resume_concat, hnext, hskips]
    exact h.behind
  · simp only [due, resume_concat, hnext, hskips]
    exact h.brought

/-- A read that gives its cursor up. -/
theorem skip (h : Accounts place initial log polls brought) (hskipped : p.skipped = true)
    (hcursor : p.cursor = resume place initial polls) :
    Accounts place initial log (polls ++ [p]) brought := by
  have hskips : ∀ c, skips (polls ++ [p]) c = true ↔
      skips polls c = true ∨ resume place initial polls = c := by
    intro c
    rw [skips_concat, hskipped, hcursor]
    simp
  have hnext : resume place initial (polls ++ [p]) = Order.succ (resume place initial polls) := by
    rw [resume_concat, next, if_pos hskipped, hcursor]
  refine ⟨h.ordered, h.below, ?_, ?_, ?_, ?_⟩
  · rw [hnext]
    exact h.ahead.trans (Order.le_succ _)
  · intro c hle hlt
    rw [hnext] at hlt
    rcases (Order.le_of_lt_succ hlt).lt_or_eq with hbefore | hat
    · exact (h.covered c hle hbefore).imp_left fun hskip => (hskips c).mpr (.inl hskip)
    · exact .inl ((hskips c).mpr (.inr hat.symm))
  · intro c hc
    rw [hnext]
    rcases (hskips c).mp hc with hold | rfl
    · exact (h.behind c hold).imp_left fun hlt => hlt.trans_le (Order.le_succ _)
    · by_cases hmax : IsMax (resume place initial polls)
      · exact .inr hmax
      · exact .inl (Order.lt_succ_of_not_isMax hmax)
  · rw [h.brought, due, due]
    refine List.filter_congr fun x _ => decide_eq_decide.mpr ?_
    rw [← Bool.not_eq_true, ← Bool.not_eq_true, hskips, hnext, not_or]
    constructor
    · rintro ⟨hle, hlt, hkept⟩
      exact ⟨hle, hlt.trans_le (Order.le_succ _), hkept, hlt.ne'⟩
    · rintro ⟨hle, hlt, hkept, hne⟩
      exact ⟨hle, (Order.le_of_lt_succ hlt).lt_of_ne' hne, hkept⟩

/-- A read that brings the next items of the log. -/
theorem batch (h : Accounts place initial log polls brought) (hskipped : p.skipped = false)
    {items rest : List T} {last : T}
    (hitems : log.filter (fun x => resume place initial polls ≤ place x) = items ++ rest)
    (hlast : items.getLast? = some last) (hnext : p.next place = Order.succ (place last)) :
    Accounts place initial log (polls ++ [p]) (brought ++ items) := by
  have hskips : ∀ c, skips (polls ++ [p]) c = skips polls c := by
    intro c
    rw [skips_concat, hskipped, Bool.false_and, Bool.or_false]
  have hresume : resume place initial (polls ++ [p]) = Order.succ (place last) := by
    rw [resume_concat, hnext]
  have hmem : ∀ x ∈ items ++ rest, x ∈ log ∧ resume place initial polls ≤ place x := by
    intro x hx
    rw [← hitems] at hx
    simpa using hx
  have hlastMem : last ∈ items := List.mem_of_getLast? hlast
  obtain ⟨hlastLog, hlastLe⟩ := hmem last (List.mem_append_left _ hlastMem)
  have hbeyond : place last < Order.succ (place last) := h.below last hlastLog
  have hordered : (items ++ rest).Pairwise fun x y => place x < place y := by
    rw [← hitems]
    exact h.ordered.sublist List.filter_sublist
  obtain ⟨horderedItems, -, hrest⟩ := List.pairwise_append.mp hordered
  refine ⟨h.ordered, h.below, ?_, ?_, ?_, ?_⟩
  · rw [hresume]
    exact (h.ahead.trans hlastLe).trans (Order.le_succ _)
  · intro c _ hlt
    rw [hresume] at hlt
    exact .inr ⟨last, hlastLog, Order.le_of_lt_succ hlt⟩
  · intro c hc
    rw [hskips] at hc
    rw [hresume]
    exact (h.behind c hc).imp_left fun hlt => (hlt.trans_le hlastLe).trans hbeyond
  · -- what was due stays due, the items become due, and the rest is behind them
    obtain ⟨before, hbefore⟩ : ∃ before, log.filter (fun x => place x < resume place initial polls) =
      before := ⟨_, rfl⟩
    have hlog : before ++ (items ++ rest) = log := by
      rw [← hbefore, ← hitems]
      exact split_at_place h.ordered _
    have hold : due place initial before (polls ++ [p]) = due place initial before polls := by
      refine List.filter_congr fun x hx => decide_eq_decide.mpr ?_
      have hlt : place x < resume place initial polls := by
        rw [← hbefore] at hx
        simpa using (List.mem_filter.mp hx).2
      rw [hskips, hresume]
      simp only [hlt, (hlt.trans_le hlastLe).trans hbeyond]
    have hlate : due place initial (items ++ rest) polls = [] := by
      refine List.filter_eq_nil_iff.mpr fun x hx hdue => ?_
      exact absurd (of_decide_eq_true hdue).2.1 (not_lt.mpr (hmem x hx).2)
    have hnew : due place initial items (polls ++ [p]) = items := by
      refine List.filter_eq_self.mpr fun x hx => decide_eq_true ?_
      obtain ⟨hxLog, hxLe⟩ := hmem x (List.mem_append_left _ hx)
      rw [hskips, hresume]
      refine ⟨h.ahead.trans hxLe, (le_last_place horderedItems hlast hx).trans_lt hbeyond, ?_⟩
      rw [← Bool.not_eq_true]
      intro hskip
      rcases h.behind _ hskip with hlt | hmax
      · exact absurd hlt (not_lt.mpr hxLe)
      · exact absurd (Order.lt_succ_iff_not_isMax.mp (h.below x hxLog)) (not_not.mpr hmax)
    have hnone : due place initial rest (polls ++ [p]) = [] := by
      refine List.filter_eq_nil_iff.mpr fun x hx hdue => ?_
      have hlt := (of_decide_eq_true hdue).2.1
      rw [hresume] at hlt
      exact absurd (hrest last hlastMem x hx) (not_lt.mpr (Order.le_of_lt_succ hlt))
    have hwas : due place initial log polls = due place initial before polls := by
      rw [← hlog, due_append, hlate, List.append_nil]
    have hnow : due place initial log (polls ++ [p]) = due place initial before polls ++ items := by
      rw [← hlog, due_append, due_append, hold, hnew, hnone, List.append_nil]
    rw [h.brought, hwas, hnow]

end Accounts

/-! ## Reads and their budget -/

/-- Every read was made where those before it left off, and gave its cursor up exactly if it failed
for good when the failures that counted had used the budget up. -/
structure Counted (place : T → C) (initial : C) (budget? : Option Nat) (polls : List (Poll C T)) :
    Prop where
  cursor {pre post : List (Poll C T)} {p : Poll C T} (h : polls = pre ++ p :: post) :
    p.cursor = resume place initial pre
  skipped {pre post : List (Poll C T)} {p : Poll C T} (h : polls = pre ++ p :: post) :
    p.skipped = true ↔ p.lost = true ∧ budget? = some (failures pre)

namespace Counted

variable {budget? : Option Nat} {polls : List (Poll C T)} {p : Poll C T}

theorem nil : Counted place initial budget? ([] : List (Poll C T)) where
  cursor h := by simp at h
  skipped h := by simp at h

theorem concat (h : Counted place initial budget? polls)
    (hcursor : p.cursor = resume place initial polls)
    (hskipped : p.skipped = true ↔ p.lost = true ∧ budget? = some (failures polls)) :
    Counted place initial budget? (polls ++ [p]) where
  cursor {pre post q} hsplit := by
    rcases split_concat hsplit with ⟨rfl, rfl⟩ | ⟨earlier, hearlier⟩
    · exact hcursor
    · exact h.cursor hearlier
  skipped {pre post q} hsplit := by
    rcases split_concat hsplit with ⟨rfl, rfl⟩ | ⟨earlier, hearlier⟩
    · exact hskipped
    · exact h.skipped hearlier

theorem of_split {pre post : List (Poll C T)} (h : Counted place initial budget? polls)
    (hsplit : polls = pre ++ p :: post) : Counted place initial budget? pre where
  cursor hearlier := h.cursor (by rw [hsplit, hearlier, List.append_assoc, List.cons_append])
  skipped hearlier := h.skipped (by rw [hsplit, hearlier, List.append_assoc, List.cons_append])

/-- Nothing is given up where there is no budget. -/
theorem skips_none (h : Counted place initial none polls) (c : C) : skips polls c = false := by
  refine List.any_eq_false.mpr fun p hp hgone => ?_
  obtain ⟨pre, post, hsplit⟩ := List.append_of_mem hp
  have hskipped := (Bool.and_eq_true_iff.mp hgone).1
  have hbudget := ((h.skipped hsplit).mp hskipped).2
  cases hbudget

/-- The failures that count are within the budget. -/
theorem within (h : Counted place initial budget? polls) {budget : Nat}
    (hbudget : budget? = some budget) : failures polls ≤ budget := by
  induction polls using List.reverseRecOn with
  | nil => exact Nat.zero_le _
  | append_singleton polls p ih =>
    have hsplit : polls ++ [p] = polls ++ p :: [] := rfl
    have hwithin := ih (h.of_split hsplit)
    rw [failures_concat]
    by_cases hsettles : p.settles = true
    · rw [if_pos hsettles]
      omega
    · rw [if_neg hsettles]
      by_cases hlost : p.lost = true
      · -- the failure counts, so the budget was not used up
        have hkept : p.skipped ≠ true := fun hskip => hsettles (by simp [settles, hskip])
        have hmore : failures polls ≠ budget := by
          rintro rfl
          exact hkept ((h.skipped hsplit).mpr ⟨hlost, hbudget⟩)
        rw [if_pos hlost]
        omega
      · rw [if_neg hlost]
        omega

/-- The reads that count were all made at the cursor where the loop is. -/
theorem unsettled (h : Counted place initial budget? polls) :
    ∀ q ∈ Poll.unsettled polls, q.cursor = resume place initial polls := by
  induction polls using List.reverseRecOn with
  | nil => exact fun q hq => nomatch hq
  | append_singleton polls p ih =>
    intro q hq
    have hsplit : polls ++ [p] = polls ++ p :: [] := rfl
    rw [unsettled_concat] at hq
    cases hsettles : p.settles with
    | true =>
      rw [hsettles] at hq
      cases hq
    | false =>
      rw [hsettles] at hq
      rw [resume_concat, next_of_unsettled hsettles, h.cursor hsplit]
      rcases List.mem_cons.mp hq with rfl | hearlier
      · exact h.cursor hsplit
      · exact ih (h.of_split hsplit) q hearlier

end Counted

end Poll

/-! ## Runs -/

/-- A poll loop over a log, with what it has handed out and what it has read. -/
structure Polling (C T : Type) where
  log : List T
  loop : PollLoop C T
  wakeUp : WakeUp
  emitted : List T := []
  polls : List (Poll C T) := []

inductive Polling.Move (T : Type) where
  | append (items : List T)
  | signal
  | begin
  | read (n : Nat)
  | fail (failure : ReadFailure)
  | emit
  | finish
  | wake (rested : Duration) (reason : WakeReason)
  | cancel

/-- The strategy that has no budget, or the one that has and skips to the successor. -/
def Strategy.ofBudget {C : Type} [LinearOrder C] [SuccOrder C] (budget? : Option Nat)
    (failures : Nat) : Strategy C :=
  match budget? with
  | some budget => .retryThenSkip budget Order.succ failures
  | none => .retryForever

namespace Strategy

variable {C : Type} [LinearOrder C] [SuccOrder C] {budget? : Option Nat} {n : Nat} {polled : C}

theorem next_ofBudget_advanced (c : C) :
    (ofBudget budget? n).next polled (.advanced c) = ⟨ofBudget budget? 0, c, false⟩ := by
  cases budget? <;> rfl

theorem next_ofBudget_empty :
    (ofBudget budget? n).next polled .empty = ⟨ofBudget budget? 0, polled, false⟩ := by
  cases budget? <;> rfl

theorem next_ofBudget_temporary (reason : String) :
    (ofBudget budget? n).next polled (.failed (.temporary reason)) =
      ⟨ofBudget budget? n, polled, false⟩ := by
  cases budget? <;> rfl

/-- The read is made again, until the failures so far are as many as the budget allows. -/
theorem next_ofBudget_permanent (hn : ∀ budget, budget? = some budget → n ≤ budget)
    (reason : String) : (ofBudget budget? n).next polled (.failed (.permanent reason)) =
      if budget? = some n then ⟨ofBudget budget? 0, Order.succ polled, true⟩
      else ⟨ofBudget budget? (n + 1), polled, false⟩ := by
  cases budget? with
  | none => rfl
  | some budget =>
    have hle := hn budget rfl
    simp only [ofBudget, next, Option.some.injEq]
    by_cases hused : budget = n
    · rw [if_neg (by omega), if_pos hused]
    · rw [if_pos (by omega), if_neg hused]

end Strategy

/-- The items of a batch that are still to be handed out. -/
def PollPhase.unread {C T : Type} : PollPhase C T → List T
  | .emitting _ items _ => items
  | _ => []

namespace Polling

variable {C T : Type} [LinearOrder C] [SuccOrder C]

def start (place : T → C) (budget? : Option Nat) (config : WakeUpConfig) : Polling C T where
  log := []
  loop := .new (.ofBudget budget? 0) fun x => Order.succ (place x)
  wakeUp := .new config

def answer (s : Polling C T) (cursor : C) (page : Except ReadFailure (List T)) : Polling C T :=
  let (loop, notes) := s.loop.answer page
  { s with loop, polls := s.polls ++ [⟨cursor, page, notes⟩] }

def step (place : T → C) (initial : C) (s : Polling C T) : Move T → Option (Polling C T)
  | .append items =>
    if (s.log ++ items).Pairwise (fun x y => place x < place y) ∧
        ∀ x ∈ items, place x < Order.succ (place x) then
      some { s with log := s.log ++ items }
    else none
  | .signal => some { s with wakeUp := s.wakeUp.signal }
  | .begin =>
    match s.loop.phase with
    | .opening =>
      let (loop, wakeUp) := s.loop.begin s.wakeUp initial
      some { s with loop, wakeUp }
    | _ => none
  | .read n =>
    match s.loop.phase with
    | .reading cursor =>
      some (s.answer cursor (.ok ((s.log.filter fun x => cursor ≤ place x).take n)))
    | _ => none
  | .fail failure =>
    match s.loop.phase with
    | .reading cursor => some (s.answer cursor (.error failure))
    | _ => none
  | .emit => s.loop.emit?.map fun (x, loop) => { s with loop, emitted := s.emitted ++ [x] }
  | .finish =>
    match s.loop.phase with
    | .emitting _ [] _ => some { s with loop := s.loop.finishBatch.1 }
    | _ => none
  | .wake rested reason =>
    match s.loop.phase with
    | .resting .. =>
      let (loop, wakeUp) := s.loop.woken s.wakeUp rested reason
      some { s with loop, wakeUp }
    | _ => none
  | .cancel => some { s with loop := s.loop.cancel }

/-! ## The loop and its reads -/

variable (place : T → C) (initial : C) (budget? : Option Nat)

/-- The loop is where its reads have brought it. A strategy with a budget has counted the failures
among them, but it learns of a batch only when all of it is handed out. -/
def InPlace (s : Polling C T) : Prop :=
  match s.loop.phase with
  | .opening => s.polls = [] ∧ s.loop.strategy = .ofBudget budget? 0
  | .reading cursor => cursor = Poll.resume place initial s.polls ∧
      s.loop.strategy = .ofBudget budget? (Poll.failures s.polls)
  | .emitting _ _ next => next = Poll.resume place initial s.polls ∧
      Poll.failures s.polls = 0 ∧ ∃ n, s.loop.strategy = .ofBudget budget? n
  | .resting cursor _ => cursor = Poll.resume place initial s.polls ∧
      s.loop.strategy = .ofBudget budget? (Poll.failures s.polls)
  | .ended => True

structure Polled (s : Polling C T) : Prop where
  after : s.loop.after = fun x => Order.succ (place x)
  inPlace : InPlace place initial budget? s
  counted : Poll.Counted place initial budget? s.polls
  accounts : Poll.Accounts place initial s.log s.polls (s.emitted ++ s.loop.phase.unread)

variable {place initial budget?} {s t : Polling C T}

theorem polled_start (config : WakeUpConfig) :
    Polled place initial budget? (start place budget? config) :=
  ⟨rfl, ⟨rfl, rfl⟩, .nil, .nil⟩

/-! ### Reads -/

/-- A poll that ends with its read: the strategy is told, and the loop rests. -/
theorem Polled.conclude (h : Polled place initial budget? s) {cursor : C} {outcome : PollOutcome C}
    {p : Poll C T} (hphase : s.loop.phase = .reading cursor) (hcursor : p.cursor = cursor)
    (hmove : s.loop.strategy.next cursor outcome =
      ⟨.ofBudget budget? (Poll.failures (s.polls ++ [p])), p.next place, p.skipped⟩)
    (hskipped : p.skipped = true ↔ p.lost = true ∧ budget? = some (Poll.failures s.polls))
    (haccounts : Poll.Accounts place initial s.log (s.polls ++ [p]) s.emitted) :
    Polled place initial budget?
      { s with loop := (s.loop.conclude cursor outcome).1, polls := s.polls ++ [p] } := by
  have hat := h.inPlace
  simp only [InPlace, hphase] at hat
  refine ⟨h.after, ?_, h.counted.concat (hcursor.trans hat.1) hskipped, ?_⟩
  · simp only [InPlace, PollLoop.conclude, hmove, Poll.resume_concat]
    exact ⟨trivial, trivial⟩
  · simp only [PollLoop.conclude, PollPhase.unread, List.append_nil]
    exact haccounts

theorem Polled.read (h : Polled place initial budget? s) {cursor : C}
    (hphase : s.loop.phase = .reading cursor) (n : Nat) :
    Polled place initial budget?
      (s.answer cursor (.ok ((s.log.filter fun x => cursor ≤ place x).take n))) := by
  have hat := h.inPlace
  have haccounts := h.accounts
  simp only [InPlace, hphase] at hat
  simp only [hphase, PollPhase.unread, List.append_nil] at haccounts
  obtain ⟨rfl, hstrategy⟩ := hat
  have hitems := (List.take_append_drop n (s.log.filter fun x =>
    Poll.resume place initial s.polls ≤ place x)).symm
  generalize (s.log.filter fun x => Poll.resume place initial s.polls ≤ place x).take n = items
    at hitems ⊢
  cases hlast : items.getLast? with
  | none =>
    have hmove : s.loop.strategy.next (Poll.resume place initial s.polls) .empty =
        ⟨Strategy.ofBudget budget? 0, Poll.resume place initial s.polls, false⟩ := by
      rw [hstrategy]
      exact Strategy.next_ofBudget_empty
    have hnext : (⟨Poll.resume place initial s.polls, .ok items, []⟩ : Poll C T).next place =
        Poll.resume place initial s.polls := by
      simp [Poll.next, Poll.skipped, hlast]
    simp only [answer, PollLoop.answer, hphase, hlast]
    have hnotes : (s.loop.conclude (Poll.resume place initial s.polls) .empty).2 = [] := by
      rw [PollLoop.conclude, hmove]
      rfl
    rw [hnotes]
    refine h.conclude hphase rfl ?_ ?_ (haccounts.stay rfl hnext)
    · rw [hmove, Poll.failures_concat, hnext]
      rfl
    · simp [Poll.skipped, Poll.lost]
  | some last =>
    have hnext : (⟨Poll.resume place initial s.polls, .ok items,
        [.metric (.batchRead items.length)]⟩ : Poll C T).next place = Order.succ (place last) := by
      simp [Poll.next, Poll.skipped, hlast]
    simp only [answer, PollLoop.answer, hphase, hlast]
    refine ⟨h.after, ?_, h.counted.concat rfl ?_, ?_⟩
    · refine ⟨?_, ?_, _, hstrategy⟩
      · rw [Poll.resume_concat, hnext, h.after]
      · rw [Poll.failures_concat]
        rfl
    · simp [Poll.skipped, Poll.lost]
    · exact haccounts.batch rfl hitems hlast hnext

theorem Polled.fail (h : Polled place initial budget? s) {cursor : C}
    (hphase : s.loop.phase = .reading cursor) (failure : ReadFailure) :
    Polled place initial budget? (s.answer cursor (.error failure)) := by
  have hat := h.inPlace
  have haccounts := h.accounts
  simp only [InPlace, hphase] at hat
  simp only [hphase, PollPhase.unread, List.append_nil] at haccounts
  obtain ⟨rfl, hstrategy⟩ := hat
  obtain ⟨move, hmove⟩ : ∃ move, s.loop.strategy.next (Poll.resume place initial s.polls)
    (.failed failure) = move := ⟨_, rfl⟩
  have hanswer : s.answer (Poll.resume place initial s.polls) (.error failure) =
      { s with
        loop := (s.loop.conclude (Poll.resume place initial s.polls) (.failed failure)).1
        polls := s.polls ++ [.ofFailure (Poll.resume place initial s.polls) failure move] } := by
    simp only [answer, PollLoop.answer, hphase, ← hmove]
    rfl
  rw [hanswer]
  have hcase := hmove
  rw [hstrategy] at hcase
  cases failure with
  | temporary reason =>
    rw [Strategy.next_ofBudget_temporary] at hcase
    subst hcase
    refine h.conclude hphase rfl ?_ ?_ (haccounts.stay ?_ ?_)
    · simp [hmove, Poll.failures_concat, ReadFailure.isTemporary]
    · simp [ReadFailure.isTemporary]
    · simp
    · simp
  | permanent reason =>
    rw [Strategy.next_ofBudget_permanent fun budget => h.counted.within] at hcase
    by_cases hused : budget? = some (Poll.failures s.polls)
    · rw [if_pos hused] at hcase
      subst hcase
      refine h.conclude hphase rfl ?_ ?_ (haccounts.skip ?_ ?_)
      · simp [hmove, Poll.failures_concat]
      · simp [hused, ReadFailure.isTemporary]
      · simp
      · rfl
    · rw [if_neg hused] at hcase
      subst hcase
      refine h.conclude hphase rfl ?_ ?_ (haccounts.stay ?_ ?_)
      · simp [hmove, Poll.failures_concat, ReadFailure.isTemporary]
      · simp [hused]
      · simp
      · simp

/-! ### Everything else -/

theorem Polled.append (h : Polled place initial budget? s) {items : List T}
    (hordered : (s.log ++ items).Pairwise fun x y => place x < place y)
    (hbelow : ∀ x ∈ items, place x < Order.succ (place x)) :
    Polled place initial budget? { s with log := s.log ++ items } :=
  ⟨h.after, h.inPlace, h.counted, h.accounts.append hordered hbelow⟩

theorem Polled.emit (h : Polled place initial budget? s) {x : T} {loop : PollLoop C T}
    (hemit : s.loop.emit? = some (x, loop)) :
    Polled place initial budget? { s with loop, emitted := s.emitted ++ [x] } := by
  unfold PollLoop.emit? at hemit
  split at hemit
  · rename_i cursor x' rest next hphase
    cases hemit
    have hat := h.inPlace
    have haccounts := h.accounts
    simp only [InPlace, hphase] at hat
    simp only [hphase, PollPhase.unread] at haccounts
    refine ⟨h.after, hat, h.counted, ?_⟩
    show Poll.Accounts place initial s.log s.polls (s.emitted ++ [x] ++ rest)
    rw [List.append_assoc]
    exact haccounts
  · cases hemit

theorem Polled.finish (h : Polled place initial budget? s) {cursor next : C}
    (hphase : s.loop.phase = .emitting cursor [] next) :
    Polled place initial budget? { s with loop := s.loop.finishBatch.1 } := by
  have hat := h.inPlace
  have haccounts := h.accounts
  simp only [InPlace, hphase] at hat
  simp only [hphase, PollPhase.unread] at haccounts
  obtain ⟨hnext, hfailures, n, hstrategy⟩ := hat
  have hloop : s.loop.finishBatch.1 = { s.loop with
      strategy := .ofBudget budget? 0, phase := .resting next (decide (next ≠ cursor)) } := by
    simp only [PollLoop.finishBatch, hphase, PollLoop.conclude, hstrategy,
      Strategy.next_ofBudget_advanced]
  rw [hloop]
  refine ⟨h.after, ?_, h.counted, haccounts⟩
  show next = _ ∧ _
  rw [hfailures]
  exact ⟨hnext, rfl⟩

theorem Polled.begin (h : Polled place initial budget? s) (hphase : s.loop.phase = .opening) :
    Polled place initial budget? { s with
      loop := (s.loop.begin s.wakeUp initial).1, wakeUp := (s.loop.begin s.wakeUp initial).2 } := by
  have hat := h.inPlace
  have haccounts := h.accounts
  simp only [InPlace, hphase] at hat
  simp only [hphase, PollPhase.unread] at haccounts
  obtain ⟨hpolls, hstrategy⟩ := hat
  simp only [PollLoop.begin, hphase]
  refine ⟨h.after, ?_, h.counted, haccounts⟩
  simp only [InPlace, hpolls]
  exact ⟨rfl, hstrategy⟩

theorem Polled.wake (h : Polled place initial budget? s) {cursor : C} {hot : Bool}
    (hphase : s.loop.phase = .resting cursor hot) (rested : Duration) (reason : WakeReason) :
    Polled place initial budget? { s with
      loop := (s.loop.woken s.wakeUp rested reason).1
      wakeUp := (s.loop.woken s.wakeUp rested reason).2 } := by
  have hat := h.inPlace
  have haccounts := h.accounts
  simp only [InPlace, hphase] at hat
  simp only [hphase, PollPhase.unread] at haccounts
  simp only [PollLoop.woken, hphase]
  exact ⟨h.after, hat, h.counted, haccounts⟩

theorem Polled.cancel (h : Polled place initial budget? s) :
    Polled place initial budget? { s with loop := s.loop.cancel } := by
  have haccounts := h.accounts
  cases hphase : s.loop.phase with
  | emitting cursor items next =>
    have hloop : s.loop.cancel = s.loop := by simp only [PollLoop.cancel, hphase]
    rw [hloop]
    exact h
  | opening | reading cursor | resting cursor hot | ended =>
    simp only [hphase, PollPhase.unread] at haccounts
    simp only [PollLoop.cancel, hphase]
    exact ⟨h.after, trivial, h.counted, haccounts⟩

theorem Polled.step (h : Polled place initial budget? s) {m : Move T}
    (hstep : step place initial s m = some t) : Polled place initial budget? t := by
  unfold Polling.step at hstep
  cases m with
  | append items =>
    simp only [Option.ite_none_right_eq_some, Option.some.injEq] at hstep
    obtain ⟨⟨hordered, hbelow⟩, rfl⟩ := hstep
    exact h.append hordered hbelow
  | signal =>
    cases hstep
    exact ⟨h.after, h.inPlace, h.counted, h.accounts⟩
  | begin =>
    dsimp only at hstep
    split at hstep
    · rename_i hphase
      cases hstep
      exact h.begin hphase
    · cases hstep
  | read n =>
    dsimp only at hstep
    split at hstep
    · rename_i cursor hphase
      cases hstep
      exact h.read hphase n
    · cases hstep
  | fail failure =>
    dsimp only at hstep
    split at hstep
    · rename_i cursor hphase
      cases hstep
      exact h.fail hphase failure
    · cases hstep
  | emit =>
    obtain ⟨⟨x, loop⟩, hemit, rfl⟩ := Option.map_eq_some_iff.mp hstep
    exact h.emit hemit
  | finish =>
    dsimp only at hstep
    split at hstep
    · rename_i cursor next hphase
      cases hstep
      exact h.finish hphase
    · cases hstep
  | wake rested reason =>
    dsimp only at hstep
    split at hstep
    · rename_i cursor hot hphase
      cases hstep
      exact h.wake hphase rested reason
    · cases hstep
  | cancel =>
    cases hstep
    exact h.cancel

theorem polled_run {config : WakeUpConfig} {moves : List (Move T)}
    (hrun : runMoves (step place initial) (start place budget? config) moves = some s) :
    Polled place initial budget? s :=
  runMoves_induction (P := Polled place initial budget?) (polled_start config)
    (fun _ _ hstep h => h.step hstep) hrun

/-- Whatever the reads of a poll loop yield and however the log grows, the loop hands out items in
the order of their cursors. What it has handed out, with the rest of the batch that it is at, are
the items of the log between the first cursor and the one that the reads have brought it to, where
it polls next, but for those at a cursor that was given up. Without a budget none is; with one, a
read gives its cursor up exactly if it fails for good and the reads since the last one that succeeded
or gave its cursor up, all made at this cursor, have failed for good as often as the budget says. -/
theorem emitted_as_read {config : WakeUpConfig} {moves : List (Move T)}
    (hrun : runMoves (step place initial) (start place budget? config) moves = some s) :
    (s.emitted.Pairwise fun x y => place x < place y) ∧
      (∀ cursor, (s.loop.phase = .reading cursor ∨ ∃ hot, s.loop.phase = .resting cursor hot) →
        cursor = Poll.resume place initial s.polls) ∧
      s.emitted ++ s.loop.phase.unread = s.log.filter (fun x => initial ≤ place x ∧
        place x < Poll.resume place initial s.polls ∧ Poll.skips s.polls (place x) = false) ∧
      (budget? = none → s.emitted ++ s.loop.phase.unread = s.log.filter fun x =>
        initial ≤ place x ∧ place x < Poll.resume place initial s.polls) ∧
      ∀ pre p post, s.polls = pre ++ p :: post →
        p.cursor = Poll.resume place initial pre ∧
          (p.skipped = true ↔ p.lost = true ∧ budget? = some (Poll.failures pre)) ∧
          ∀ q ∈ Poll.unsettled pre, q.cursor = p.cursor := by
  have h := polled_run hrun
  have hbrought := h.accounts.brought
  refine ⟨?_, ?_, hbrought, ?_, ?_⟩
  · have hordered := h.accounts.ordered.sublist (List.filter_sublist (p := fun x =>
      initial ≤ place x ∧ place x < Poll.resume place initial s.polls ∧
        Poll.skips s.polls (place x) = false))
    rw [← Poll.due, ← hbrought] at hordered
    exact (List.pairwise_append.mp hordered).1
  · intro cursor hphase
    have hat := h.inPlace
    rcases hphase with hphase | ⟨hot, hphase⟩
    · simp only [InPlace, hphase] at hat
      exact hat.1
    · simp only [InPlace, hphase] at hat
      exact hat.1
  · rintro rfl
    rw [hbrought, Poll.due]
    simp only [h.counted.skips_none, and_true]
  · intro pre p post hsplit
    refine ⟨h.counted.cursor hsplit, h.counted.skipped hsplit, fun q hq => ?_⟩
    rw [h.counted.cursor hsplit]
    exact (h.counted.of_split hsplit).unsettled q hq

end Polling

/-! ## Positions -/

-- Local, so that no other module gets to see another `≤` for positions than their own.
local instance : LinearOrder Position where
  le_refl a := Nat.le_refl a.val
  le_trans a b c hab hbc := Nat.le_trans (m := b.val) hab hbc
  lt_iff_le_not_ge a b := Nat.lt_iff_le_and_not_ge (m := a.val) (n := b.val)
  le_antisymm a b hab hba := Position.ext (Nat.le_antisymm hab hba)
  le_total a b := Nat.le_total a.val b.val
  toDecidableLE := inferInstance
  toDecidableLT := inferInstance
  toDecidableEq := inferInstance

local instance : SuccOrder Position where
  succ := Position.next
  le_succ := Position.le_next
  max_of_succ_le {a} h := by
    intro b _
    show b.val ≤ a.val
    have hb := b.isLt
    by_cases hroom : a.val + 1 < 0x10000000000000000
    · have hle : a.next.val ≤ a.val := h
      rw [Position.val_next hroom] at hle
      omega
    · omega
  succ_le_of_lt {a b} h := by
    have hlt : a.val < b.val := h
    have hb := b.isLt
    show a.next.val ≤ b.val
    rw [Position.val_next (by omega)]
    omega

namespace Polling

/-- The loop that polls the log for an event stream is such a loop. -/
theorem loop_start_position {A : Type} (budget? : Option Nat) (config : WakeUpConfig) :
    (start (Event.position (A := A)) budget? config).loop = EventStream.newLoop budget? := by
  cases budget? <;> rfl

/-- A note at a position. -/
def noteAt (n : Nat) : Event Notes.Fact := ⟨.ofNat n, 0, .fact (.noted "a" 1), none⟩

/-- The second of three events cannot be read: it fails for good, for a time, and for good again. -/
def unreadable : List (Move (Event Notes.Fact)) :=
  let rest := .wake (.ofMillis 10) .timedOut
  [.begin, .append [noteAt 0, noteAt 1, noteAt 2], .read 1, .emit, .finish, rest,
    .fail (.permanent "broken"), rest, .fail (.temporary "busy"), rest,
    .fail (.permanent "broken"), rest, .read 5, .emit, .finish]

/-- The loop is the one that an event stream with a budget of one opens. -/
theorem unreadable_passed_over :
    (start (Event.position (A := Notes.Fact)) (some 1) {}).loop = EventStream.newLoop (some 1) ∧
    ∃ s, runMoves (step Event.position .zero) (start Event.position (some 1) {}) unreadable = some s ∧
      s.polls.map Poll.cursor = [.ofNat 0, .ofNat 1, .ofNat 1, .ofNat 1, .ofNat 2] ∧
      s.polls.map Poll.skipped = [false, false, false, true, false] ∧
      s.emitted ++ s.loop.phase.unread = [noteAt 0, noteAt 2] := by
  obtain ⟨s, hrun⟩ : ∃ s, runMoves (step Event.position .zero)
    (start Event.position (some 1) {}) unreadable = some s := ⟨_, rfl⟩
  obtain ⟨-, -, hbrought, -⟩ := emitted_as_read hrun
  obtain rfl := Option.some.inj (hrun.symm.trans rfl)
  exact ⟨loop_start_position (some 1) {}, _, rfl, rfl, rfl, hbrought.trans rfl⟩

end Polling
end Chronicle
