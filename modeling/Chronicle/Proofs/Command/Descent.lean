import Chronicle.Node.Commands
import Mathlib.Data.List.Forall2
import Mathlib.Order.RelClasses

/-!
# Chronicle.Proofs.Command.Descent

How much a job still has to do. A handler's run gets shorter with every step (`Work.Rest`), and so
does what comes after it: the outcome is tried a bounded number of times. The two together rank jobs
in a well-founded order (`Assignment.rank`, `Lower`).
-/

namespace Chronicle

section Work

variable {A S : Type}

/-- A completion that a handler's run can end with. -/
inductive Work.MayEnd : Work A S → Completion A → Prop where
  | finish (c : Completion A) : MayEnd (.finish c) c
  | sleep {millis : Nat} {rest : Work A S} {c : Completion A} :
      MayEnd rest c → MayEnd (.sleep millis rest) c
  | untilCancelled {rest : Work A S} {c : Completion A} :
      MayEnd rest c → MayEnd (.untilCancelled rest) c
  | checkCancel {rest : Bool → Work A S} (fired : Bool) {c : Completion A} :
      MayEnd (rest fired) c → MayEnd (.checkCancel rest) c
  | fireToken {rest : Work A S} {c : Completion A} : MayEnd rest c → MayEnd (.fireToken rest) c
  | query {stream : StreamId} {rest : Except RuntimeError (Option S) → Work A S}
      (answer : Except RuntimeError (Option S)) {c : Completion A} :
      MayEnd (rest answer) c → MayEnd (.query stream rest) c

/-- A completion that a handler's run can end with if the answers that it gets are right. -/
inductive Work.EndsOn (right : StreamId → Except RuntimeError (Option S) → Prop) :
    Work A S → Completion A → Prop where
  | finish (c : Completion A) : EndsOn right (.finish c) c
  | sleep {millis : Nat} {rest : Work A S} {c : Completion A} :
      EndsOn right rest c → EndsOn right (.sleep millis rest) c
  | untilCancelled {rest : Work A S} {c : Completion A} :
      EndsOn right rest c → EndsOn right (.untilCancelled rest) c
  | checkCancel {rest : Bool → Work A S} (fired : Bool) {c : Completion A} :
      EndsOn right (rest fired) c → EndsOn right (.checkCancel rest) c
  | fireToken {rest : Work A S} {c : Completion A} :
      EndsOn right rest c → EndsOn right (.fireToken rest) c
  | query {stream : StreamId} {rest : Except RuntimeError (Option S) → Work A S}
      (answer : Except RuntimeError (Option S)) {c : Completion A} : right stream answer →
      EndsOn right (rest answer) c → EndsOn right (.query stream rest) c

/-- What can be left of a run once it has gone on. -/
inductive Work.Rest : Work A S → Work A S → Prop where
  | sleep (millis : Nat) (rest : Work A S) : Rest rest (.sleep millis rest)
  | untilCancelled (rest : Work A S) : Rest rest (.untilCancelled rest)
  | checkCancel (rest : Bool → Work A S) (fired : Bool) : Rest (rest fired) (.checkCancel rest)
  | fireToken (rest : Work A S) : Rest rest (.fireToken rest)
  | query (stream : StreamId) (rest : Except RuntimeError (Option S) → Work A S)
      (answer : Except RuntimeError (Option S)) : Rest (rest answer) (.query stream rest)

theorem Work.Rest.mayEnd {w w' : Work A S} (h : Rest w' w) {c : Completion A}
    (hc : w'.MayEnd c) : w.MayEnd c := by
  cases h with
  | sleep => exact .sleep hc
  | untilCancelled => exact .untilCancelled hc
  | checkCancel _ fired => exact .checkCancel fired hc
  | fireToken => exact .fireToken hc
  | query _ _ answer => exact .query answer hc

/-- A run that has gone on with a right answer can end with nothing else than before. -/
theorem Work.Rest.endsOn {w w' : Work A S} (h : Rest w' w)
    {right : StreamId → Except RuntimeError (Option S) → Prop}
    (hright : ∀ s next, w = .query s next → ∃ answer, right s answer ∧ w' = next answer)
    {c : Completion A} (hc : w'.EndsOn right c) : w.EndsOn right c := by
  cases h with
  | sleep => exact .sleep hc
  | untilCancelled => exact .untilCancelled hc
  | checkCancel _ fired => exact .checkCancel fired hc
  | fireToken => exact .fireToken hc
  | query stream rest _ =>
    obtain ⟨answer, hanswer, heq⟩ := hright stream rest rfl
    rw [heq] at hc
    exact .query answer hanswer hc

theorem Work.rest_wellFounded : WellFounded (Rest : Work A S → Work A S → Prop) := by
  refine ⟨fun w => ?_⟩
  induction w with
  | finish c => exact ⟨_, fun w' h => by cases h⟩
  | sleep millis rest ih => exact ⟨_, fun w' h => by cases h; exact ih⟩
  | untilCancelled rest ih => exact ⟨_, fun w' h => by cases h; exact ih⟩
  | checkCancel rest ih => exact ⟨_, fun w' h => by cases h; exact ih _⟩
  | fireToken rest ih => exact ⟨_, fun w' h => by cases h; exact ih⟩
  | query stream rest ih => exact ⟨_, fun w' h => by cases h; exact ih _⟩

end Work

/-- What is compared first: whether the handler was looked up, and whether it is done. -/
def JobPhase.stage {A S : Type} : JobPhase A S → Nat
  | .received => 2
  | .executing _ => 1
  | _ => 0

def JobPhase.work {A S : Type} : JobPhase A S → Work A S
  | .executing e => e.work
  | _ => .finish (.panicked .unnamed)

/-- The steps that are left, those of the handler's run apart. Every attempt to record the outcome
takes four of them: a search, a write, the beginning of a delay and its end. -/
def JobPhase.left {A S : Type} (p : RetryPolicy) (due : Option Nat) : JobPhase A S → Nat
  | .executing e => (if e.wakeAt.isNone then 1 else 0) + if e.page.isNone then 1 else 0
  | .writing _ => 4 * p.maxRetries + 5
  | .checking _ k => 4 * (p.maxRetries - k) + 5
  | .recording _ k => 4 * (p.maxRetries - k) + 4
  | .backingOff _ k _ => 4 * (p.maxRetries - (k + 1)) + if due.isNone then 7 else 6
  | .announcing _ => 1
  | _ => 0

def Lower {A S : Type} : Nat × Work A S × Nat → Nat × Work A S × Nat → Prop :=
  Prod.Lex (· < ·) (Prod.Lex Work.Rest (· < ·))

theorem lower_wellFounded {A S : Type} :
    WellFounded (Lower : Nat × Work A S × Nat → Nat × Work A S × Nat → Prop) :=
  WellFounded.prod_lex Nat.lt_wfRel.wf (WellFounded.prod_lex Work.rest_wellFounded Nat.lt_wfRel.wf)

namespace Assignment

variable {A S B : Type}

/-- One while the job's own source has not fired. -/
def unfired (a : Assignment A S B) : Nat :=
  match a.token with
  | .own source => if source.fired then 0 else 1
  | _ => 0

def rank (p : RetryPolicy) (a : Assignment A S B) : Nat × Work A S × Nat :=
  (a.job.phase.stage, a.job.phase.work, 2 * a.job.phase.left p a.due + a.unfired)

/-- A job that is to be cancelled has a source that can do it. -/
def Cancellable (a : Assignment A S B) : Prop :=
  a.cancelAt = none ∨ ∃ source, a.token = .own source ∧ source.held = true

/-- What others do to a job: its own source fires, or its token gets ahead of the handler. -/
inductive Nudged (a : Assignment A S B) : Assignment A S B → Prop where
  | none : a.Nudged a
  | fired : a.Nudged (Node.fireOwn a)
  | hastened : a.Nudged { a with tokenFirst := true }

/-- A step has taken a job to a phase. -/
structure Taken (p : RetryPolicy) (a : Assignment A S B) (phase : JobPhase A S)
    (a' : Assignment A S B) : Prop where
  job : a'.job = { a.job with phase }
  cancelAt : a'.cancelAt = a.cancelAt
  token : a'.token = a.token ∨ a'.token = (Node.fireOwn a).token
  lower : a.Cancellable → Lower (a'.rank p) (a.rank p)

end Assignment

section Lower

variable {A S B : Type} {p : RetryPolicy} {a a' : Assignment A S B}

theorem lower_of_stage (h : a'.job.phase.stage < a.job.phase.stage) :
    Lower (a'.rank p) (a.rank p) := .left _ _ h

theorem lower_of_work (hstage : a'.job.phase.stage = a.job.phase.stage)
    (h : Work.Rest a'.job.phase.work a.job.phase.work) : Lower (a'.rank p) (a.rank p) := by
  unfold Assignment.rank
  rw [hstage]
  exact .right _ (.left _ _ h)

theorem lower_of_left (hstage : a'.job.phase.stage = a.job.phase.stage)
    (hwork : a'.job.phase.work = a.job.phase.work) (htoken : a'.token = a.token)
    (h : a'.job.phase.left p a'.due < a.job.phase.left p a.due) :
    Lower (a'.rank p) (a.rank p) := by
  unfold Assignment.rank Assignment.unfired
  rw [hstage, hwork, htoken]
  exact .right _ (.right _ (by omega))

@[simp] theorem job_fireOwn : (Node.fireOwn a).job = a.job := by
  unfold Node.fireOwn
  cases a.token <;> rfl

@[simp] theorem cancelAt_fireOwn : (Node.fireOwn a).cancelAt = a.cancelAt := by
  unfold Node.fireOwn
  cases a.token <;> rfl

@[simp] theorem due_fireOwn : (Node.fireOwn a).due = a.due := by
  unfold Node.fireOwn
  cases a.token <;> rfl

theorem rank_fireOwn : (Node.fireOwn a).rank p = (a.job.phase.stage, a.job.phase.work,
    2 * a.job.phase.left p a.due + (Node.fireOwn a).unfired) := by
  unfold Node.fireOwn
  cases a.token <;> rfl

theorem unfired_fireOwn_le : (Node.fireOwn a).unfired ≤ a.unfired := by
  unfold Node.fireOwn Assignment.unfired
  cases htoken : a.token with
  | never => simp only [htoken, Nat.le_refl]
  | shutdown => simp only [htoken, Nat.le_refl]
  | own source =>
    obtain ⟨fired, held⟩ := source
    cases fired <;> cases held <;> simp [CancelSource.cancel]

theorem lower_of_fireOwn {source : CancelSource} (htoken : a.token = .own source)
    (hheld : source.held = true) (hfired : source.fired = false) :
    Lower ((Node.fireOwn a).rank p) (a.rank p) := by
  rw [rank_fireOwn]
  refine .right _ (.right _ (Nat.add_lt_add_left ?_ _))
  simp [Node.fireOwn, Assignment.unfired, htoken, CancelSource.cancel, hheld, hfired]

theorem rank_fireOwn_cases : (Node.fireOwn a).rank p = a.rank p ∨
    Lower ((Node.fireOwn a).rank p) (a.rank p) := by
  rw [rank_fireOwn]
  rcases Nat.eq_or_lt_of_le (unfired_fireOwn_le (a := a)) with heq | hlt
  · left
    rw [heq]
    rfl
  · exact .inr (.right _ (.right _ (Nat.add_lt_add_left hlt _)))

theorem cancellable_fireOwn (h : a.Cancellable) : (Node.fireOwn a).Cancellable := by
  unfold Node.fireOwn
  cases htoken : a.token with
  | never => exact h
  | shutdown => exact h
  | own source =>
    rcases h with hnone | ⟨source', htoken', hheld⟩
    · exact .inl hnone
    · rw [htoken] at htoken'
      cases htoken'
      exact .inr ⟨_, rfl, hheld⟩

theorem Assignment.Nudged.job (h : a.Nudged a') : a'.job = a.job := by
  cases h with
  | none => rfl
  | fired => exact job_fireOwn
  | hastened => rfl

theorem Assignment.Nudged.due (h : a.Nudged a') : a'.due = a.due := by
  cases h with
  | none => rfl
  | fired => exact due_fireOwn
  | hastened => rfl

theorem Assignment.Nudged.cancellable (h : a.Nudged a') (hc : a.Cancellable) : a'.Cancellable := by
  cases h with
  | none => exact hc
  | fired => exact cancellable_fireOwn hc
  | hastened => exact hc

theorem Assignment.Nudged.rank_cases (h : a.Nudged a') :
    a'.rank p = a.rank p ∨ Lower (a'.rank p) (a.rank p) := by
  cases h with
  | none => exact .inl rfl
  | fired => exact rank_fireOwn_cases
  | hastened => exact .inl rfl

/-- Jobs that were nudged are as many as they were, each in its place. -/
theorem nudged_getElem? {l l' : List (Assignment A S B)}
    (h : List.Forall₂ Assignment.Nudged l l') (i : Nat) :
    (l[i]? = none ∧ l'[i]? = none) ∨
      ∃ a a', l[i]? = some a ∧ l'[i]? = some a' ∧ a.Nudged a' := by
  obtain ⟨hlength, hget⟩ := List.forall₂_iff_get.mp h
  by_cases hi : i < l.length
  · have hi' : i < l'.length := hlength ▸ hi
    exact .inr ⟨_, _, List.getElem?_eq_getElem hi, List.getElem?_eq_getElem hi', hget i hi hi'⟩
  · left
    exact ⟨List.getElem?_eq_none (by omega), List.getElem?_eq_none (by omega)⟩

theorem nudged_refl (l : List (Assignment A S B)) : List.Forall₂ Assignment.Nudged l l :=
  List.forall₂_same.mpr fun _ _ => .none

theorem nudged_set {l : List (Assignment A S B)} {i : Nat} (ha : l[i]? = some a)
    (h : a.Nudged a') : List.Forall₂ Assignment.Nudged l (l.set i a') := by
  refine List.forall₂_iff_get.mpr ⟨(List.length_set ..).symm, fun k hk hk' => ?_⟩
  simp only [List.get_eq_getElem, List.getElem_set]
  split
  · rename_i hik
    subst hik
    rw [List.getElem?_eq_getElem hk] at ha
    cases ha
    exact h
  · exact .none

theorem Assignment.Taken.cancellable {phase : JobPhase A S} (h : a.Taken p phase a')
    (hc : a.Cancellable) : a'.Cancellable := by
  rcases hc with hnone | hsource
  · exact .inl (h.cancelAt.trans hnone)
  · right
    rcases h.token with heq | heq
    · rw [heq]
      exact hsource
    · obtain ⟨source, htoken, hheld⟩ := hsource
      exact ⟨source.cancel, by rw [heq, Node.fireOwn, htoken], hheld⟩

variable {phase : JobPhase A S} {j : Job A S B} {due : Option Nat}

theorem taken_of_stage (hjob : j = { a.job with phase }) (h : phase.stage < a.job.phase.stage) :
    a.Taken p phase { a with job := j, due } :=
  ⟨hjob, rfl, .inl rfl, fun _ => lower_of_stage (by rw [hjob]; exact h)⟩

theorem taken_of_work (hjob : j = { a.job with phase }) (hstage : phase.stage = a.job.phase.stage)
    (h : Work.Rest phase.work a.job.phase.work) : a.Taken p phase { a with job := j, due } :=
  ⟨hjob, rfl, .inl rfl, fun _ => lower_of_work (by rw [hjob]; exact hstage) (by rw [hjob]; exact h)⟩

theorem taken_of_left (hjob : j = { a.job with phase }) (hstage : phase.stage = a.job.phase.stage)
    (hwork : phase.work = a.job.phase.work) (h : phase.left p due < a.job.phase.left p a.due) :
    a.Taken p phase { a with job := j, due } :=
  ⟨hjob, rfl, .inl rfl, fun _ => lower_of_left (by rw [hjob]; exact hstage)
    (by rw [hjob]; exact hwork) rfl (by rw [hjob]; exact h)⟩

end Lower

end Chronicle
