import Chronicle.Proofs.Command.Containing
import Chronicle.Proofs.Command.Recording
import Chronicle.Proofs.Command.Telling

/-!
# Chronicle.Proofs.Command.Persisting

What a job of a dispatcher has done by the time it is in a phase, whatever the log keeps, whichever
writes fail and whichever acknowledgements are lost (`Node.Undertakes`). Once it is over, it has
pursued the outcome of its command and has announced its result once, unless the handler cannot be
built (`Node.Undertakes.attends`).
-/

namespace Chronicle

/-- What the attempts of a job were by the time it is in a phase, if anything may fail. -/
def JobPhase.Insists {A S : Type} (max : Nat) (searches : Bool) (tried : List Attempt) :
    JobPhase A S → Prop
  | .received | .executing _ | .writing _ | .crashed => tried = []
  | .recording r k => tried.length = k ∧ k ≤ max ∧ Unheard r tried
  | .checking r k => searches = true ∧ tried ≠ [] ∧ tried.length = k ∧ k ≤ max ∧ Unheard r tried
  | .backingOff r k _ => tried.length = k + 1 ∧ k < max ∧ Unheard r tried
  | .announcing r | .finished r => Pursued max searches r tried

theorem JobPhase.concluded_ne_crashed {A S : Type} {r : ProcessingResult A} :
    (concluded r : JobPhase A S) ≠ .crashed := by
  unfold concluded
  split <;> exact nofun

structure Doings (A : Type) where
  /-- The attempts to record the outcome. -/
  tried : List Attempt := []
  /-- The results that it has announced. -/
  said : List (ProcessingResult A) := []

namespace Node

variable {A S B : Type} [Vocabulary A] {n n' m : Node A S B} {i : Nat} {a a' : Assignment A S B}
  {j : Job A S B} {act : Act A} {phase phase' : JobPhase A S} {tried : List Attempt}
  {c : Command B} {done : Doings A}

def does (n : Node A S B) (i : Nat) (done : Doings A) : Doings A :=
  ⟨done.tried ++ n.attempted (n.nextAct i), done.said ++ n.announces i⟩

/-! ## Attempts -/

/-- An attempt is a write of the outcome. It counts as committed if the log has accepted it, and only
then can it be acknowledged. -/
theorem attempted_moveJob (h : n.moveJob i = some n') : ∀ t ∈ n.attempted (n.nextAct i),
    t.committed = (n.store.write [.outcome t.outcome]).1.isOk ∧
      n'.store = (n.store.write [.outcome t.outcome]).2 ∧
      (t.acknowledged = true → t.committed = true) := by
  obtain ⟨a, ha⟩ := exists_of_moveJob h
  obtain ⟨a', hmoved⟩ := moveJob_moved ha h
  have hstore : n'.store = _ := hmoved.store.trans store_act
  intro t ht
  cases hact : n.nextAct i with
  | record r =>
    rw [hact] at ht hstore
    obtain rfl := List.mem_singleton.mp ht
    exact ⟨rfl, hstore, accepted_of_acknowledged⟩
  | _ =>
    rw [hact] at ht
    cases ht

theorem Advances.insists (h : Advances n j phase act phase') (hpersists : j.persists = true)
    (htried : phase.Insists n.policy.maxRetries n.searches tried) :
    phase'.Insists n.policy.maxRetries n.searches (tried ++ n.attempted act) := by
  have hnothing {act : Act A} (h : n.attempted act = []) :
      tried ++ n.attempted act = tried := by
    rw [h, List.append_nil]
  cases h with
  | rest => rw [hnothing rfl]; exact htried
  | begin e => rw [hnothing rfl]; exact htried
  | collapse => rw [hnothing rfl]; exact htried
  | goOn e e' => rw [hnothing rfl]; exact htried
  | ask e e' s => rw [hnothing rfl]; exact htried
  | keep e e' s page => rw [hnothing rfl]; exact htried
  | decide phase r hundecided =>
    obtain rfl : tried = [] := by
      cases phase <;> first | exact htried | exact hundecided.elim
    rw [Job.phase_conclude hpersists, hnothing rfl]
    unfold JobPhase.concluded
    split
    · exact ⟨rfl, Nat.zero_le _, unheard_nil⟩
    · rfl
  | written r r' hid =>
    obtain rfl : tried = [] := htried
    exact ⟨rfl, Nat.zero_le _, unheard_nil⟩
  | recorded r k hacknowledged =>
    obtain ⟨rfl, hk, hunheard⟩ := htried
    rw [attempted, accepted_of_acknowledged hacknowledged, hacknowledged]
    exact .acknowledged tried hunheard hk
  | unrecorded r k delay hfailed hlt =>
    obtain ⟨rfl, hk, hunheard⟩ := htried
    rw [attempted, hfailed]
    exact ⟨by rw [List.length_append, List.length_singleton], hlt, hunheard.concat _⟩
  | gaveUp r k hfailed hmax =>
    obtain ⟨rfl, hk, hunheard⟩ := htried
    rw [attempted, hfailed]
    refine .exhausted _ (hunheard.concat _) ?_
    rw [List.length_append, List.length_singleton]
    omega
  | retry r k delay =>
    obtain ⟨hlength, hk, hunheard⟩ := htried
    rw [hnothing rfl]
    split
    · rename_i hsearches
      refine ⟨hsearches, ?_, hlength, hk, hunheard⟩
      rintro rfl
      cases hlength
    · exact ⟨hlength, hk, hunheard⟩
  | found r k =>
    obtain ⟨hsearches, hsome, rfl, hk, hunheard⟩ := htried
    rw [hnothing rfl]
    exact .found tried hsearches hsome hunheard hk
  | unfound r k hnone =>
    obtain ⟨-, -, hlength, hk, hunheard⟩ := htried
    rw [hnothing rfl]
    exact ⟨hlength, hk, hunheard⟩
  | announced r => rw [hnothing rfl]; exact htried

/-! ## The step of a job of a dispatcher -/

/-- A job has its result when it announces it. -/
theorem PhaseStep.result?_eq (h : PhaseStep n a act a') (hpersists : a.job.persists = true) :
    a'.job.result?.toList = act.announced := by
  have hconcluded (r : ProcessingResult A) : (a.job.conclude r).result?.toList = [] := by
    unfold Job.result?
    rw [Job.phase_conclude hpersists]
    unfold JobPhase.concluded
    cases r.events.isEmpty <;> rfl
  cases h with
  | refuse r _ _ => exact hconcluded r
  | execute e _ hruns =>
    cases hruns with
    | conclude c _ => exact hconcluded _
    | interrupt _ => exact hconcluded _
    | _ => rfl
  | delay r k delay hphase _ =>
    show a.job.result?.toList = []
    rw [Job.result?, hphase]
    rfl
  | retry r k delay time _ _ _ => cases n.searches <;> rfl
  | _ => rfl

/-- A job crashes only if its handler cannot be built. -/
theorem PhaseStep.breaks_of_crashed (h : PhaseStep n a act a') (hpersists : a.job.persists = true)
    (hcrashed : a'.job.phase = .crashed) : n.handlers.Breaks a.job.command := by
  have hconcluded (r : ProcessingResult A) : (a.job.conclude r).phase ≠ .crashed := by
    rw [Job.phase_conclude hpersists]
    exact JobPhase.concluded_ne_crashed
  cases h with
  | collapse _ hresolve => exact HandlerTable.breaks_of_collapsed hresolve
  | refuse r _ _ => exact absurd hcrashed (hconcluded r)
  | execute e _ hruns =>
    cases hruns with
    | conclude c _ => exact absurd hcrashed (hconcluded _)
    | interrupt _ => exact absurd hcrashed (hconcluded _)
    | _ => cases hcrashed
  | delay r k delay hphase _ => cases hphase.symm.trans hcrashed
  | retry r k delay time _ _ _ =>
    cases hsearches : n.searches <;> rw [hsearches] at hcrashed <;> cases hcrashed
  | _ => cases hcrashed

/-! ## What a job has done -/

/-- A job of a dispatcher carries a command out, and has done what it can have done by then. -/
structure Undertakes (n : Node A S B) (c : Command B) (done : Doings A) (a : Assignment A S B) :
    Prop extends Dispatched a where
  command : a.job.command = c
  insists : a.job.phase.Insists n.policy.maxRetries n.searches done.tried
  said : done.said = a.job.result?.toList
  own : ∀ r, a.job.phase.result? = some r → r.id = c.id
  crashed : a.job.phase = .crashed → n.handlers.Breaks c

namespace Undertakes

theorem start :
    Undertakes n c {} { job := { command := c, persists := true }, token := .shutdown } where
  persists := rfl
  token := rfl
  cancelAt := rfl
  command := rfl
  insists := rfl
  said := rfl
  own := nofun
  crashed := nofun

theorem of_eq (h : Undertakes n c done a) (hhandlers : m.handlers = n.handlers)
    (hpolicy : m.policy = n.policy) (hsearches : m.searches = n.searches) :
    Undertakes m c done a where
  toDispatched := h.toDispatched
  command := h.command
  insists := by
    rw [hpolicy, hsearches]
    exact h.insists
  said := h.said
  own := h.own
  crashed := by
    rw [hhandlers]
    exact h.crashed

theorem nudged (h : Undertakes n c done a) (hnudged : a.Nudged a') : Undertakes n c done a' where
  toDispatched := h.toDispatched.nudged hnudged
  command := hnudged.job ▸ h.command
  insists := hnudged.job ▸ h.insists
  said := hnudged.job ▸ h.said
  own := hnudged.job ▸ h.own
  crashed := hnudged.job ▸ h.crashed

theorem move (h : Undertakes n c done a) (hmoved : Moved n n' i a a') :
    Undertakes n' c (n.does i done) a' := by
  have hgoes := hmoved.step.goes h.toDispatched.cancelDue
  have hadvances := hmoved.step.advances
  have hcommand : a.job.command.id = c.id := by rw [h.command]
  refine ⟨h.toDispatched.step hmoved.step, hmoved.command.trans h.command, ?_, ?_, fun r hr => ?_,
    fun hcrashed => ?_⟩
  · rw [hmoved.untouched.policy, hmoved.untouched.searches]
    exact hadvances.insists h.persists h.insists
  · rw [hgoes.result?_eq h.persists, does, h.said, Job.result?_of_not_over hmoved.running]
    rfl
  · exact hadvances.result_id hcommand h.own hr
  · rw [hmoved.untouched.handlers, ← h.command]
    exact hgoes.breaks_of_crashed h.persists hcrashed

/-- A job that is over has seen to its command, unless the handler could not be built. -/
theorem attends (h : Undertakes n c done a) (hover : a.job.isOver = true)
    (hbuilt : ¬ n.handlers.Breaks c) : ∃ r, a.job.phase = .finished r ∧ r.id = c.id ∧
      done.said = [r] ∧ Pursued n.policy.maxRetries n.searches r done.tried := by
  have hinsists := h.insists
  cases hphase : a.job.phase with
  | finished r =>
    rw [hphase] at hinsists
    refine ⟨r, rfl, h.own r ?_, ?_, hinsists⟩
    · rw [hphase]
      rfl
    · rw [h.said, Job.result?, hphase]
      rfl
  | crashed => exact absurd (h.crashed hphase) hbuilt
  | _ =>
    rw [Job.isOver, hphase] at hover
    cases hover

end Undertakes

end Node
end Chronicle
