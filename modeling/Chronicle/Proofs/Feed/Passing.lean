import Chronicle.Proofs.Feed.Resuming
import Chronicle.Proofs.Log.Slots

/-!
# Chronicle.Proofs.Feed.Passing

A log in which some records cannot be decoded, as poll loops and replays read it. Such a record is
left out of the middle of a page, and a read that begins at one fails for good; then a poll loop
skips it when its budget is used up, and a replay does at once. Where the pages end decides which of
the two happens to a record. In every phase, what was handed out so far are the events between the
first position and the cursor (`PollLoop.Passes`, `ReplayPhase.Drains`).
-/

namespace Chronicle

variable {A : Type} [Vocabulary A] {c c' : Contents A} {first : Position} {sent : List (Event A)}

/-! ## Reads -/

/-- A read fails for a time, or it yields what is there. -/
theorem Store.readFrom_cases {s : Store A} (hc : s.contents.Numbered) (hpages : 0 < s.pageSize)
    (htemporary : ∀ fault ∈ s.readFaults, fault.2.isTemporary = true) (p : Position) :
    (∃ reason, (s.readFrom p).page = .error (.temporary reason)) ∨
      Store.Yields s.contents p (s.readFrom p).page := by
  cases hfault : takeFault p s.readFaults with
  | none => exact .inr (yields_readFrom hc hpages hfault)
  | some found =>
    obtain ⟨failure, others⟩ := found
    have hmem := (takeFault_perm hfault).mem_iff.mpr List.mem_cons_self
    have htime := htemporary _ hmem
    cases failure with
    | permanent reason => cases htime
    | temporary reason =>
      refine .inl ⟨reason, ?_⟩
      simp only [readFrom, hfault]

/-! ## The poll loop -/

/-- The strategy skips one position at a time, if any. -/
def Strategy.SkipsOne : Strategy Position → Prop
  | .retryForever => True
  | .retryThenSkip _ skip _ => skip = Position.next

theorem Strategy.SkipsOne.next {s : Strategy Position} (h : s.SkipsOne) (polled : Position)
    (outcome : PollOutcome Position) : (s.next polled outcome).strategy.SkipsOne := by
  cases s with
  | retryForever => cases outcome <;> trivial
  | retryThenSkip budget skip failures =>
    cases outcome with
    | advanced next => exact h
    | empty => exact h
    | failed failure =>
      cases failure with
      | temporary reason => exact h
      | permanent reason =>
        simp only [Strategy.next]
        split <;> exact h

/-- After a failure for good a loop stays, or goes on behind the position. -/
theorem Strategy.SkipsOne.cursor {s : Strategy Position} (h : s.SkipsOne) (polled : Position)
    (reason : String) :
    (s.next polled (.failed (.permanent reason))).cursor = polled ∨
      (s.next polled (.failed (.permanent reason))).cursor = polled.next := by
  cases s with
  | retryForever => exact .inl rfl
  | retryThenSkip budget skip failures =>
    obtain rfl : skip = Position.next := h
    simp only [Strategy.next]
    split
    · exact .inl rfl
    · exact .inr rfl

/-- What is sent by then, where the phase says how far the loop has got. -/
def PollPhase.Passes (c : Contents A) (first : Position) (sent : List (Event A)) :
    PollPhase Position (Event A) → Prop
  | .opening => True
  | .reading cursor => c.Sends first sent cursor
  | .emitting _ items target => c.Sends first (sent ++ items) target
  | .resting cursor _ => c.Sends first sent cursor
  | .ended => True

/-- The cursor, if the loop is not in the middle of a page; before the first one it is `next`. -/
def PollPhase.cursor? (next : Position) : PollPhase Position (Event A) → Option Position
  | .opening => some next
  | .reading cursor => some cursor
  | .resting cursor _ => some cursor
  | .emitting .. => none
  | .ended => none

theorem PollPhase.Passes.sends {phase : PollPhase Position (Event A)} {next cursor : Position}
    (h : phase.Passes c first sent) (hnext : c.Sends first sent next)
    (hcursor : phase.cursor? next = some cursor) : c.Sends first sent cursor := by
  cases phase with
  | opening =>
    cases hcursor
    exact hnext
  | reading at' | resting at' _ =>
    cases hcursor
    exact h
  | emitting _ _ _ | ended => cases hcursor

structure PollLoop.Passes (c : Contents A) (first : Position) (sent : List (Event A))
    (l : PollLoop Position (Event A)) : Prop where
  after : l.after = fun e => e.position.next
  strategy : l.strategy.SkipsOne
  phase : l.phase.Passes c first sent

namespace PollLoop

variable {l l' : PollLoop Position (Event A)} {w : WakeUp} {next : Position}

theorem passes_new (budget : Option Nat) : (EventStream.newLoop budget).Passes c first sent := by
  unfold EventStream.newLoop
  cases budget with
  | none => exact ⟨rfl, trivial, trivial⟩
  | some n => exact ⟨rfl, rfl, trivial⟩

theorem Passes.grow (h : l.Passes c first sent) (hc : c.Grows c') : l.Passes c' first sent := by
  refine ⟨h.after, h.strategy, ?_⟩
  have hphase := h.phase
  cases hp : l.phase with
  | opening => trivial
  | ended => trivial
  | reading cursor | resting cursor _ | emitting _ _ _ =>
    rw [hp] at hphase
    exact Contents.Sends.grow hphase hc

theorem Passes.begin (h : l.Passes c first sent) (hnext : c.Sends first sent next) :
    (l.begin w next).1.Passes c first sent := by
  unfold PollLoop.begin
  split
  · exact ⟨h.after, h.strategy, hnext⟩
  · exact h

theorem Passes.conclude (h : l.Passes c first sent) {cursor : Position}
    {outcome : PollOutcome Position}
    (hcursor : c.Sends first sent (l.strategy.next cursor outcome).cursor) :
    (l.conclude cursor outcome).1.Passes c first sent :=
  ⟨h.after, h.strategy.next cursor outcome, hcursor⟩

/-- A poll either has a page to hand out, or ends where nothing was passed over. -/
theorem Passes.answer (h : l.Passes c first sent) (hc : c.Numbered) {cursor : Position}
    {page : Page A} (hphase : l.phase = .reading cursor)
    (hpage : (∃ reason, page = .error (.temporary reason)) ∨ Store.Yields c cursor page) :
    (l.answer page).1.Passes c first sent := by
  have hsends : c.Sends first sent cursor := by
    have hat := h.phase
    rw [hphase] at hat
    exact hat
  rcases hpage with ⟨reason, rfl⟩ | hyields
  · simp only [PollLoop.answer, hphase]
    refine h.conclude ?_
    rw [Strategy.cursor_next_temporary]
    exact hsends
  · cases hyields with
    | empty failure hempty =>
      obtain ⟨reason, rfl⟩ := Contents.permanent_of_failure? hempty
      simp only [PollLoop.answer, hphase]
      refine h.conclude ?_
      rcases h.strategy.cursor cursor reason with hstay | hskip
      · rw [hstay]
        exact hsends
      · rw [hskip]
        exact hsends.skip hc hempty
    | behind hend =>
      simp only [PollLoop.answer, hphase, List.getLast?_nil]
      refine h.conclude ?_
      rw [Strategy.cursor_next_empty]
      exact hsends
    | events events last _ hlast hlt hle hevents =>
      simp only [PollLoop.answer, hphase, hlast]
      refine ⟨h.after, h.strategy, ?_⟩
      show c.Sends first (sent ++ events) (l.after last)
      rw [h.after]
      exact hsends.page hlt hle hevents

theorem Passes.emit (h : l.Passes c first sent) (hc : c.Numbered) {e : Event A}
    (hemit : l.emit? = some (e, l')) :
    c.Sends first (sent ++ [e]) e.position.next ∧ l'.Passes c first (sent ++ [e]) := by
  unfold PollLoop.emit? at hemit
  split at hemit
  · rename_i cursor x rest target hphase
    cases hemit
    have hitems := h.phase
    rw [hphase] at hitems
    refine ⟨Contents.Sends.item hitems hc, h.after, h.strategy, ?_⟩
    show c.Sends first (sent ++ [e] ++ rest) target
    rw [List.append_assoc]
    exact hitems
  · cases hemit

theorem Passes.finishBatch (h : l.Passes c first sent) : l.finishBatch.1.Passes c first sent := by
  unfold PollLoop.finishBatch
  split
  · rename_i cursor target hphase
    have hitems := h.phase
    rw [hphase] at hitems
    refine h.conclude ?_
    rw [Strategy.cursor_next_advanced, ← List.append_nil sent]
    exact hitems
  · exact h

theorem Passes.woken (h : l.Passes c first sent) {rested : Duration} {reason : WakeReason} :
    (l.woken w rested reason).1.Passes c first sent := by
  unfold PollLoop.woken
  split
  · rename_i cursor hot hphase
    have hcursor := h.phase
    rw [hphase] at hcursor
    exact ⟨h.after, h.strategy, hcursor⟩
  · exact h

end PollLoop

/-! ## The replay -/

namespace ReplayPhase

/-- The log is being replayed, and this is sent by then. -/
def Drains (c : Contents A) (first : Position) (sent : List (Event A)) : ReplayPhase A → Prop
  | .draining cursor _ => c.Sends first sent cursor
  | .backingOff cursor _ _ => c.Sends first sent cursor
  | .emitting cursor events =>
    c.Sends first sent cursor ∧ ∃ target, c.Sends first (sent ++ events) target
  | .following => False
  | .ended => False

/-- The cursor, if the log is being replayed and the replay is not in the middle of a page. -/
def cursor? : ReplayPhase A → Option Position
  | .draining cursor _ => some cursor
  | .backingOff cursor _ _ => some cursor
  | .emitting .. => none
  | .following => none
  | .ended => none

def drains : ReplayPhase A → Bool
  | .following => false
  | .ended => false
  | _ => true

def follows : ReplayPhase A → Bool
  | .following => true
  | _ => false

variable {phase : ReplayPhase A}

theorem Drains.grow (h : phase.Drains c first sent) (hc : c.Grows c') :
    phase.Drains c' first sent := by
  cases phase with
  | draining cursor _ | backingOff cursor _ _ => exact Contents.Sends.grow h hc
  | emitting cursor events =>
    obtain ⟨hsent, target, hpage⟩ := h
    exact ⟨hsent.grow hc, target, hpage.grow hc⟩
  | following => exact h.elim
  | ended => exact h.elim

theorem Drains.sends (h : phase.Drains c first sent) :
    ∃ next, c.Sends first sent next ∧ ∀ cursor, phase.cursor? = some cursor → cursor = next := by
  cases phase with
  | draining cursor _ | backingOff cursor _ _ =>
    refine ⟨cursor, h, ?_⟩
    rintro _ ⟨⟩
    rfl
  | emitting cursor events => exact ⟨cursor, h.1, nofun⟩
  | following => exact h.elim
  | ended => exact h.elim

theorem Drains.not_follows (h : phase.Drains c first sent) : phase.follows = false := by
  cases phase with
  | following => exact h.elim
  | _ => rfl

end ReplayPhase

namespace Replay

variable {r r' : Replay A}

/-- A read finds a page, or nothing was passed over, or everything is sent, or the replay gives up. -/
theorem drains_answer {cursor : Position} {attempt : Nat} {page : Page A}
    (h : c.Sends first sent cursor) (hc : c.Numbered) (hphase : r.phase = .draining cursor attempt)
    (hpage : (∃ reason, page = .error (.temporary reason)) ∨ Store.Yields c cursor page) :
    (r.answer page).1.phase.Drains c first sent ∨
      ((r.answer page).1.phase = .following ∧ c.slots.length ≤ cursor.val) ∨
      (r.answer page).1.phase = .ended := by
  rcases hpage with ⟨reason, rfl⟩ | hyields
  · simp only [answer, hphase, Retry.afterFailure, ReadFailure.isTemporary, Bool.not_true,
      Bool.false_eq_true, if_false]
    by_cases hlast : r.policy.maxRetries ≤ attempt
    · simp only [hlast, if_true]
      exact .inr (.inr trivial)
    · simp only [hlast, if_false]
      exact .inl h
  · cases hyields with
    | empty failure hempty =>
      obtain ⟨reason, rfl⟩ := Contents.permanent_of_failure? hempty
      simp only [answer, hphase, Retry.afterFailure, ReadFailure.isTemporary, Bool.not_false,
        if_true]
      exact .inl (h.skip hc hempty)
    | behind hend =>
      simp only [answer, hphase]
      exact .inr (.inl ⟨trivial, hend⟩)
    | events events last _ hlast hlt hle hevents =>
      cases events with
      | nil => cases hlast
      | cons e rest =>
        simp only [answer, hphase]
        exact .inl ⟨h, last.position.next, h.page hlt hle hevents⟩

theorem drains_emit (h : r.phase.Drains c first sent) (hc : c.Numbered) {e : Event A}
    (hemit : r.emit? = some (e, r')) : r'.phase.Drains c first (sent ++ [e]) := by
  unfold emit? at hemit
  split at hemit
  · rename_i cursor x rest hphase
    cases hemit
    rw [hphase] at h
    obtain ⟨-, target, hpage⟩ := h
    refine ⟨hpage.item hc, target, ?_⟩
    rw [List.append_assoc]
    exact hpage
  · cases hemit

theorem drains_finishPage (h : r.phase.Drains c first sent) :
    r.finishPage.phase.Drains c first sent := by
  unfold finishPage
  split
  · rename_i cursor hphase
    rw [hphase] at h
    exact h.1
  · exact h

theorem drains_resume (h : r.phase.Drains c first sent) : r.resume.phase.Drains c first sent := by
  unfold resume
  split
  · rename_i cursor attempt delay hphase
    rw [hphase] at h
    exact h
  · exact h

end Replay

end Chronicle
