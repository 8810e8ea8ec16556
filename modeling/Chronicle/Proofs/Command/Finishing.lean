import Chronicle.Proofs.Command.Settling
import Mathlib.Logic.Relation
import Mathlib.Data.Nat.Init

/-!
# Chronicle.Proofs.Command.Finishing

Jobs finish. On an infinite course of events a job takes a finite number of steps, since each of them
lowers its rank (`Tracked.still`). If it is given its turn again and again and time goes on, then it
comes to be over, or it waits for a token that never fires (`Tracked.ends`). Where no handler's
construction panics, a job that is over is finished (`Course.finishes`).
-/

namespace Chronicle

inductive Job.Timer {A S B : Type} (j : Job A S B) (due : Option Nat) (time : Nat) : Prop where
  | delay (r : ProcessingResult A) (k : Nat) (delay : Duration) :
      j.phase = .backingOff r k delay → due = some time → Timer j due time
  | sleep (e : Execution A S) (millis : Nat) (rest : Work A S) : j.phase = .executing e →
      e.work = .sleep millis rest → e.wakeAt = some time → Timer j due time

theorem Job.Timer.unique {A S B : Type} {j : Job A S B} {due : Option Nat} {time time' : Nat}
    (h : Timer j due time) (h' : Timer j due time') : time = time' := by
  cases h with
  | delay r k d hphase hdue =>
    cases h' with
    | delay r' k' d' hphase' hdue' => exact Option.some.inj (hdue.symm.trans hdue')
    | sleep e millis rest hphase' _ _ =>
      rw [hphase] at hphase'
      cases hphase'
  | sleep e millis rest hphase _ hwake =>
    cases h' with
    | delay r' k' d' hphase' _ =>
      rw [hphase] at hphase'
      cases hphase'
    | sleep e' millis' rest' hphase' _ hwake' =>
      rw [hphase] at hphase'
      cases hphase'
      exact Option.some.inj (hwake.symm.trans hwake')

theorem Job.Timer.not_untilCancelled {A S B : Type} {j : Job A S B} {due : Option Nat} {time : Nat}
    (h : Timer j due time) {e : Execution A S} {rest : Work A S} (hphase : j.phase = .executing e)
    (hwork : e.work = .untilCancelled rest) : False := by
  cases h with
  | delay r k d hphase' _ =>
    rw [hphase] at hphase'
    cases hphase'
  | sleep e' millis rest' hphase' hwork' _ =>
    rw [hphase] at hphase'
    cases hphase'
    rw [hwork] at hwork'
    cases hwork'

theorem CancelSource.fired_cancel {s : CancelSource} (h : s.fired = true) :
    s.cancel.fired = true := by
  simp [CancelSource.cancel, h]

namespace Node

variable {A S B : Type} [Vocabulary A]

/-- An infinite course of events. At every moment a job takes a step, or something goes on around the
jobs. -/
structure Course (o r : Nat) (n : Node A S B) (nodes : Nat → Node A S B)
    (movers : Nat → Option Nat) : Prop where
  start : nodes 0 = n
  job : ∀ t i, movers t = some i → (nodes t).moveJob i = some (nodes (t + 1))
  around : ∀ t, movers t = none → Around o r (nodes t) (nodes (t + 1))

/-- A job is given its turn again and again: it takes a step, or finds that it has none to take. -/
def Fair (nodes : Nat → Node A S B) (movers : Nat → Option Nat) (i : Nat) : Prop :=
  ∀ t, ∃ t' ≥ t, movers t' = some i ∨ (nodes t').moveJob i = none

def GoesOn (nodes : Nat → Node A S B) : Prop := ∀ time, ∃ t, time ≤ (nodes t).now

def Awaits (n : Node A S B) (a : Assignment A S B) : Prop :=
  ∃ e rest, a.job.phase = .executing e ∧ e.work = .untilCancelled rest ∧ n.fired a = false

variable {n₀ n n' : Node A S B} {i : Nat} {base : List (Event A)} {a a' : Assignment A S B}

/-- Why a job has no step to take. -/
theorem blocked_of_moveJob (ha : n.jobs[i]? = some a) (h : n.moveJob i = none) :
    a.job.isOver = true ∨ (∃ time, n.now < time ∧ a.job.Timer a.due time) ∨ Awaits n a := by
  by_cases hover : a.job.isOver = true
  · exact .inl hover
  right
  by_cases hcancel : n.cancelDue a = true
  · simp [moveJob, ha, hover, hcancel] at h
  simp only [moveJob, ha, hover, hcancel, if_false, Bool.false_eq_true] at h
  cases hphase : a.job.phase with
  | executing e =>
    simp only [hphase, moveExecution] at h
    cases hnext : e.next n.now (n.fired a) a.tokenFirst with
    | wait =>
      rcases Execution.waits_of_wait hnext with ⟨millis, rest, time, hwork, hwake, hlt⟩ |
        ⟨rest, hwork, hfired⟩
      · exact .inl ⟨time, hlt, .sleep e millis rest hphase hwork hwake⟩
      · exact .inr ⟨e, rest, hphase, hwork, hfired⟩
    | _ => simp [hnext] at h
  | backingOff r k delay =>
    simp only [hphase] at h
    cases hdue : a.due with
    | none => simp [hdue] at h
    | some time =>
      by_cases hnow : time ≤ n.now
      · simp [hdue, hnow] at h
      · exact .inl ⟨time, Nat.lt_of_not_le hnow, .delay r k delay hphase rfl⟩
  | received => simp [hphase] at h
  | writing r => simp [hphase] at h
  | checking r k => simp [hphase] at h
  | recording r k => simp [hphase] at h
  | announcing r => simp [hphase] at h
  | finished r => simp [Job.isOver, hphase] at hover
  | crashed => simp [Job.isOver, hphase] at hover

structure Idle (n n' : Node A S B) (a a' : Assignment A S B) : Prop where
  now : n.now ≤ n'.now
  shutdown : n'.shutdown = n.shutdown ∨ n'.shutdown = n.shutdown.cancel
  job : a.Nudged a'

theorem Idle.fired (h : Idle n n' a a') (hfired : n.fired a = true) : n'.fired a' = true := by
  have hshutdown : n.shutdown.fired = true → n'.shutdown.fired = true := by
    intro hs
    rcases h.shutdown with heq | heq
    · rwa [heq]
    · rw [heq]
      exact CancelSource.fired_cancel hs
  unfold Node.fired at hfired ⊢
  cases htoken : a.token with
  | never => simp [htoken] at hfired
  | shutdown =>
    simp only [htoken] at hfired
    have hsame : a'.token = a.token := by
      cases h.job with
      | none => rfl
      | fired => rw [fireOwn, htoken]; exact htoken
      | hastened => rfl
    rw [hsame, htoken]
    exact hshutdown hfired
  | own source =>
    simp only [htoken] at hfired
    cases h.job with
    | none => simpa [htoken] using hfired
    | fired => simpa [fireOwn, htoken] using CancelSource.fired_cancel hfired
    | hastened => simpa [htoken] using hfired

/-! ## One job -/

/-- A job on an infinite course of events. A step of its own lowers its rank, and between two of them
it idles. -/
structure Tracked (p : RetryPolicy) (i : Nat) (nodes : Nat → Node A S B) (moves : Nat → Prop) :
    Prop where
  own : ∀ t a, moves t → (nodes t).jobs[i]? = some a →
    ∃ a', (nodes (t + 1)).jobs[i]? = some a' ∧ Lower (a'.rank p) (a.rank p)
  idle : ∀ t a, ¬ moves t → (nodes t).jobs[i]? = some a →
    ∃ a', (nodes (t + 1)).jobs[i]? = some a' ∧ Idle (nodes t) (nodes (t + 1)) a a'
  now : ∀ t, (nodes t).now ≤ (nodes (t + 1)).now

variable {p : RetryPolicy} {nodes : Nat → Node A S B} {moves : Nat → Prop}

theorem Tracked.now_le (h : Tracked p i nodes moves) {t t' : Nat} (ht : t ≤ t') :
    (nodes t).now ≤ (nodes t').now := by
  induction t', ht using Nat.le_induction with
  | base => exact Nat.le_refl _
  | succ t' _ ih => exact Nat.le_trans ih (h.now t')

theorem Tracked.rank_le (h : Tracked p i nodes moves) {t t' : Nat} (ht : t ≤ t')
    (ha : (nodes t).jobs[i]? = some a) :
    ∃ a', (nodes t').jobs[i]? = some a' ∧ Relation.ReflTransGen Lower (a'.rank p) (a.rank p) := by
  induction t', ht using Nat.le_induction with
  | base => exact ⟨a, ha, .refl⟩
  | succ t' _ ih =>
    obtain ⟨b, hb, hle⟩ := ih
    by_cases hm : moves t'
    · obtain ⟨a', ha', hlower⟩ := h.own t' b hm hb
      exact ⟨a', ha', .head hlower hle⟩
    · obtain ⟨a', ha', hidle⟩ := h.idle t' b hm hb
      refine ⟨a', ha', ?_⟩
      rcases hidle.job.rank_cases with heq | hlower
      · rw [heq]
        exact hle
      · exact .head hlower hle

/-- The job takes a finite number of steps. -/
theorem Tracked.still (h : Tracked p i nodes moves) {t : Nat}
    (ha : (nodes t).jobs[i]? = some a) : ∃ t₁ ≥ t, ∀ t' ≥ t₁, ¬ moves t' := by
  have hwf := (lower_wellFounded (A := A) (S := S)).transGen
  induction hrank : a.rank p using hwf.induction generalizing t a with
  | _ rank ih =>
    by_cases hstill : ∀ t' ≥ t, ¬ moves t'
    · exact ⟨t, Nat.le_refl t, hstill⟩
    -- the rank is lower after the step that is still to come
    simp only [not_forall, not_not] at hstill
    obtain ⟨t', ht, hm⟩ := hstill
    obtain ⟨b, hb, hle⟩ := h.rank_le ht ha
    obtain ⟨a', ha', hlower⟩ := h.own t' b hm hb
    have hless : Relation.TransGen Lower (a'.rank p) rank := by
      rw [← hrank]
      exact .head' hlower hle
    obtain ⟨t₁, ht₁, hstill⟩ := ih _ hless ha' rfl
    exact ⟨t₁, by omega, hstill⟩

theorem Tracked.stays (h : Tracked p i nodes moves) {t t' : Nat} (hstill : ∀ t' ≥ t, ¬ moves t')
    (ht : t ≤ t') (ha : (nodes t).jobs[i]? = some a) :
    ∃ a', (nodes t').jobs[i]? = some a' ∧ a'.job = a.job ∧ a'.due = a.due ∧
      ((nodes t).fired a = true → (nodes t').fired a' = true) := by
  induction t', ht using Nat.le_induction with
  | base => exact ⟨a, ha, rfl, rfl, id⟩
  | succ t' ht ih =>
    obtain ⟨b, hb, hjob, hdue, hfired⟩ := ih
    obtain ⟨a', ha', hidle⟩ := h.idle t' b (hstill t' ht) hb
    exact ⟨a', ha', hidle.job.job.trans hjob, hidle.job.due.trans hdue,
      fun hf => hidle.fired (hfired hf)⟩

/-- A job that is given its turn again and again while time goes on comes to be over, or from some
time on it waits for a token that never fires. -/
theorem Tracked.ends (h : Tracked p i nodes moves) (ha₀ : (nodes 0).jobs[i]? = some a)
    (hfair : ∀ t, ∃ t' ≥ t, moves t' ∨ (nodes t').moveJob i = none) (hgoesOn : GoesOn nodes) :
    (∃ t a, (nodes t).jobs[i]? = some a ∧ a.job.isOver = true) ∨
      ∃ t, ∀ t' ≥ t, ∃ a, (nodes t').jobs[i]? = some a ∧ Awaits (nodes t') a := by
  obtain ⟨t₀, -, hstill⟩ := h.still ha₀
  -- from `t₀` on the job can only be found to have no step to take
  have hblocked : ∀ t, ∃ t' ≥ t, t₀ ≤ t' ∧ (nodes t').moveJob i = none := by
    intro t
    obtain ⟨t', ht', hcases⟩ := hfair (max t t₀)
    have hle : t ≤ t' ∧ t₀ ≤ t' := by omega
    rcases hcases with hm | hnone
    · exact absurd hm (hstill t' hle.2)
    · exact ⟨t', hle.1, hle.2, hnone⟩
  obtain ⟨t, -, ht, hnone⟩ := hblocked t₀
  obtain ⟨b, hb, -⟩ := h.rank_le (Nat.zero_le t) ha₀
  have hstill' : ∀ t' ≥ t, ¬ moves t' := fun t' ht' => hstill t' (by omega)
  rcases blocked_of_moveJob hb hnone with hover | ⟨time, -, htimer⟩ | hawaits
  · exact .inl ⟨t, b, hb, hover⟩
  · -- the timer is over once time has gone on far enough
    left
    obtain ⟨t₁, ht₁⟩ := hgoesOn time
    obtain ⟨t₂, ht₂, -, hnone₂⟩ := hblocked (max t t₁)
    obtain ⟨c, hc, hjob, hdue, -⟩ := h.stays hstill' (by omega : t ≤ t₂) hb
    rcases blocked_of_moveJob hc hnone₂ with hover | ⟨time', hnow, htimer'⟩ | hawaits
    · exact ⟨t₂, c, hc, hover⟩
    · rw [hjob, hdue] at htimer'
      have hlater := h.now_le (by omega : t₁ ≤ t₂)
      have := htimer.unique htimer'
      omega
    · obtain ⟨e, rest, hphase, hwork, -⟩ := hawaits
      rw [hjob] at hphase
      exact (htimer.not_untilCancelled hphase hwork).elim
  · right
    refine ⟨t, fun t' ht' => ?_⟩
    obtain ⟨e, rest, hphase, hwork, -⟩ := hawaits
    obtain ⟨c, hc, hjob, -⟩ := h.stays hstill' ht' hb
    refine ⟨c, hc, e, rest, by rw [hjob, hphase], hwork, ?_⟩
    -- had it fired, then the job would find a step to take
    by_contra hfired
    rw [Bool.not_eq_false] at hfired
    obtain ⟨t₂, ht₂, -, hnone₂⟩ := hblocked t'
    obtain ⟨d, hd, hjob', -, hfired'⟩ := h.stays (fun u hu => hstill' u (by omega)) ht₂ hc
    have hphase' : d.job.phase = .executing e := by rw [hjob', hjob, hphase]
    rcases blocked_of_moveJob hd hnone₂ with hover | ⟨time, -, htimer⟩ | ⟨_, _, -, -, hunfired⟩
    · simp [Job.isOver, hphase'] at hover
    · exact (htimer.not_untilCancelled hphase' hwork).elim
    · rw [hfired' hfired] at hunfired
      cases hunfired

/-! ## All jobs -/

variable {o r : Nat} {movers : Nat → Option Nat}

theorem Course.unfolds (hc : Course o r n₀ nodes movers) (t : Nat) :
    ∃ ws, Unfolds o r n₀ ws (nodes t) := by
  induction t with
  | zero =>
    rw [hc.start]
    exact ⟨[], .start⟩
  | succ t ih =>
    obtain ⟨ws, hu⟩ := ih
    cases hm : movers t with
    | some i => exact ⟨_, hu.job i (hc.job t i hm)⟩
    | none => exact ⟨ws, hu.around (hc.around t hm)⟩

theorem Course.lower (hc : Course o r n₀ nodes movers) (h : n₀.Ready base) {t : Nat}
    (hm : movers t = some i) (ha : (nodes t).jobs[i]? = some a) :
    ∃ a', (nodes (t + 1)).jobs[i]? = some a' ∧
      Lower (a'.rank n₀.policy) (a.rank n₀.policy) := by
  obtain ⟨ws, hu⟩ := hc.unfolds t
  have hb := hu.books h
  obtain ⟨b, _, _, _, hb', -, -, -, -, hturned⟩ := hb.stepped h (hc.job t i hm)
  rw [ha] at hb'
  cases hb'
  obtain ⟨a', htaken, hat⟩ := hturned.jobs_getElem? ha
  refine ⟨a', by rw [hat, if_pos rfl], ?_⟩
  rw [← hb.alike.policy]
  exact htaken.lower (hb.cancellable a (List.mem_of_getElem? ha))

theorem Course.idle (hc : Course o r n₀ nodes movers) (h : n₀.Ready base) {t : Nat}
    (hm : movers t ≠ some i) (ha : (nodes t).jobs[i]? = some a) :
    ∃ a', (nodes (t + 1)).jobs[i]? = some a' ∧ Idle (nodes t) (nodes (t + 1)) a a' := by
  cases hm' : movers t with
  | none =>
    have haround := hc.around t hm'
    rcases nudged_getElem? haround.jobs i with ⟨hnone, -⟩ | ⟨b, a', hb, ha', hcases⟩
    · rw [ha] at hnone
      cases hnone
    · rw [ha] at hb
      cases hb
      exact ⟨a', ha', haround.now, haround.shutdown, hcases⟩
  | some k =>
    have hki : i ≠ k := fun heq => hm (by rw [hm', heq])
    obtain ⟨ws, hu⟩ := hc.unfolds t
    obtain ⟨b, _, _, _, hk, -, -, -, -, hturned⟩ := (hu.books h).stepped h (hc.job t k hm')
    obtain ⟨_, -, hat⟩ := hturned.jobs_getElem? hk
    refine ⟨a, ?_, Nat.le_of_eq hturned.now.symm, .inl hturned.shutdown, .none⟩
    rw [hat, if_neg hki, ha]

theorem Course.now (hc : Course o r n₀ nodes movers) (h : n₀.Ready base) (t : Nat) :
    (nodes t).now ≤ (nodes (t + 1)).now := by
  cases hm : movers t with
  | none => exact (hc.around t hm).now
  | some k =>
    obtain ⟨ws, hu⟩ := hc.unfolds t
    obtain ⟨_, _, _, _, -, -, -, -, -, hturned⟩ := (hu.books h).stepped h (hc.job t k hm)
    exact Nat.le_of_eq hturned.now.symm

theorem Course.tracked (hc : Course o r n₀ nodes movers) (h : n₀.Ready base) :
    Tracked n₀.policy i nodes fun t => movers t = some i where
  own _ _ hm ha := hc.lower h hm ha
  idle _ _ hm ha := hc.idle h hm ha
  now := hc.now h

/-- A job that is over is finished: it cannot have crashed. -/
theorem Books.finished {ws : List (Write A)} (hb : Books n₀ base ws n) (ha : n.jobs[i]? = some a)
    (hover : a.job.isOver = true) : ∃ result, a.job.phase = .finished result := by
  have htally := (hb.jobs i a ha).tally
  unfold Job.isOver at hover
  cases hphase : a.job.phase with
  | finished result => exact ⟨result, rfl⟩
  | crashed =>
    rw [hphase] at htally
    exact htally.elim
  | _ => simp [hphase] at hover

/-- A job finishes, unless from some time on it waits for a token that never fires. -/
theorem Course.finishes (hc : Course o r n₀ nodes movers) (h : n₀.Ready base)
    (hi : i < n₀.jobs.length) (hfair : Fair nodes movers i) (hgoesOn : GoesOn nodes) :
    (∃ t a result, (nodes t).jobs[i]? = some a ∧ a.job.phase = .finished result) ∨
      ∃ t, ∀ t' ≥ t, ∃ a, (nodes t').jobs[i]? = some a ∧ Awaits (nodes t') a := by
  have ha₀ : (nodes 0).jobs[i]? = some n₀.jobs[i] := by
    rw [hc.start]
    exact List.getElem?_eq_getElem hi
  refine ((hc.tracked h).ends ha₀ hfair hgoesOn).imp_left ?_
  rintro ⟨t, a, ha, hover⟩
  obtain ⟨ws, hu⟩ := hc.unfolds t
  obtain ⟨result, hresult⟩ := (hu.books h).finished ha hover
  exact ⟨t, a, result, ha, hresult⟩

end Node
end Chronicle
