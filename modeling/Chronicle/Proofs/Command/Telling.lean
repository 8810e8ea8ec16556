import Chronicle.Proofs.Command.Dealing
import Chronicle.Proofs.Command.Working
import Chronicle.Proofs.Projection.Reading

/-!
# Chronicle.Proofs.Command.Telling

What a command comes to if every question that its handler asks has one answer, its token does not
fire and no write fails. A run is then a function of the answers (`Work.told`), and a job comes to one
result from its first step to its last, while it puts the events of this result and then its outcome
into the log (`Node.moveJob_leads`).
-/

namespace Chronicle

variable {A S B : Type} {answers : StreamId → Except RuntimeError (Option S)}
  {r : ProcessingResult A}

/-- How a run ends that is given these answers and whose token does not fire. A run that waits for its
token does not end. -/
def Work.told (answers : StreamId → Except RuntimeError (Option S)) :
    Work A S → Option (Completion A)
  | .finish c => some c
  | .sleep _ rest => rest.told answers
  | .untilCancelled _ => none
  | .checkCancel rest => (rest false).told answers
  | .fireToken rest => rest.told answers
  | .query stream rest => (rest (answers stream)).told answers

def Work.resultOf (w : Work A S) (answers : StreamId → Except RuntimeError (Option S))
    (id : CommandId) : Option (ProcessingResult A) :=
  (w.told answers).map fun c => (ProcessingResult.classify id false c).1

def HandlerTable.resultOf (t : HandlerTable A S B)
    (answers : StreamId → Except RuntimeError (Option S)) (c : Command B) :
    Option (ProcessingResult A) :=
  match (t.resolve c false).1 with
  | .run e => e.work.resultOf answers c.id
  | .refused r => some r
  | .collapsed => none

/-- What a run does next leads to the same result, if it is told the answer to what it asks. -/
theorem Execution.next_resultOf {e : Execution A S} {id : CommandId} (now : Nat) (tokenFirst : Bool)
    (h : e.work.resultOf answers id = some r) :
    match e.next now false tokenFirst with
    | .conclude c => (ProcessingResult.classify id false c).1 = r
    | .goOn e' | .fire e' => e'.work.resultOf answers id = some r
    | .ask s resume | .keep s _ resume => (resume (answers s)).work.resultOf answers id = some r
    | .interrupt | .wait => True := by
  obtain ⟨work, wakeAt, page⟩ := e
  cases work with
  | finish c => exact Option.some.inj h
  | sleep millis rest =>
    cases wakeAt with
    | none => exact h
    | some time =>
      by_cases hdue : time ≤ now
      · simp only [next, hdue, if_true]
        exact h
      · simp only [next, hdue, if_false, Bool.false_and, Bool.false_eq_true]
  | untilCancelled rest => trivial
  | checkCancel rest => exact h
  | fireToken rest => exact h
  | query s rest => cases page <;> exact h

namespace JobPhase

/-- The result that a job comes to. There is none for a job that a write has failed. -/
def comesTo (answers : StreamId → Except RuntimeError (Option S)) (t : HandlerTable A S B)
    (c : Command B) : JobPhase A S → Option (ProcessingResult A)
  | .received => t.resultOf answers c
  | .executing e => e.work.resultOf answers c.id
  | .writing r | .recording r _ | .announcing r | .finished r => some r
  | .checking .. | .backingOff .. | .crashed => none

/-- What a job has put into the log, if no write has failed. -/
def written : JobPhase A S → List (Payload A)
  | .received | .executing _ | .writing _ | .crashed => []
  | .checking r _ | .recording r _ | .backingOff r _ _ => r.events
  | .announcing r | .finished r => r.events ++ [.outcome r.outcome]

variable {t : HandlerTable A S B} {c : Command B} {phase : JobPhase A S}

/-- What is written is a part of what there is to be written. -/
theorem written_prefix (h : phase.comesTo answers t c = some r) :
    phase.written <+: r.events ++ [.outcome r.outcome] := by
  cases phase with
  | received => exact List.nil_prefix
  | executing e => exact List.nil_prefix
  | writing r' => exact List.nil_prefix
  | recording r' k =>
    cases h
    exact List.prefix_append _ _
  | announcing r' =>
    cases h
    exact List.prefix_rfl
  | finished r' =>
    cases h
    exact List.prefix_rfl
  | checking r' k => cases h
  | backingOff r' k delay => cases h
  | crashed => cases h

theorem comesTo_concluded : (JobPhase.concluded r : JobPhase A S).comesTo answers t c = some r := by
  unfold JobPhase.concluded
  split <;> rfl

theorem written_concluded : (JobPhase.concluded r : JobPhase A S).written = [] := by
  unfold JobPhase.concluded
  split
  · rename_i hempty
    exact List.isEmpty_iff.mp hempty
  · rfl

end JobPhase

namespace Node

variable [Vocabulary A] {n n' : Node A S B} {i : Nat} {a a' : Assignment A S B} {act : Act A}
  {e : Execution A S}

structure Dispatched (a : Assignment A S B) : Prop where
  persists : a.job.persists = true
  token : a.token = .shutdown
  cancelAt : a.cancelAt = none

omit [Vocabulary A] in
theorem fireOwn_dispatched (h : Dispatched a) : fireOwn a = a := by
  unfold fireOwn
  rw [h.token]

omit [Vocabulary A] in
theorem Dispatched.nudged (h : Dispatched a) (hnudged : a.Nudged a') : Dispatched a' := by
  cases hnudged with
  | none => exact h
  | fired => rwa [fireOwn_dispatched h]
  | hastened => exact ⟨h.persists, h.token, h.cancelAt⟩

/-- A job of a dispatcher stays one. -/
theorem Dispatched.step (hjob : Dispatched a) (h : JobStep n a act a') : Dispatched a' where
  persists := by
    rw [h.taken.job]
    exact hjob.persists
  token := by
    rcases h.taken.token with hsame | hfired
    · rw [hsame, hjob.token]
    · rw [hfired, fireOwn_dispatched hjob, hjob.token]
  cancelAt := h.taken.cancelAt.trans hjob.cancelAt

theorem Dispatched.cancelDue (hjob : Dispatched a) : n.cancelDue a = false := by
  unfold Node.cancelDue
  rw [hjob.cancelAt]
  cases a.job.phase <;> rfl

/-- A step of a handler's run brings it nearer to the same result. -/
theorem Runs.leads (h : Runs n a e act a') {t : HandlerTable A S B}
    (hpersists : a.job.persists = true) (hfired : n.fired a = false)
    (hanswers : ∀ s x, n.reply act = some (s, x) → x = answers s)
    (hcomes : e.work.resultOf answers a.job.command.id = some r) :
    a'.job.phase.comesTo answers t a.job.command = some r ∧
      a'.job.phase.written = [] ∧ act.batch = [] := by
  have hnext := Execution.next_resultOf n.now a.tokenFirst hcomes
  cases h with
  | conclude c h =>
    rw [hfired] at h ⊢
    rw [h] at hnext
    obtain rfl : (ProcessingResult.classify a.job.command.id false c).1 = r := hnext
    simp only [Job.complete, Job.phase_conclude hpersists]
    exact ⟨JobPhase.comesTo_concluded, JobPhase.written_concluded, rfl⟩
  | goOn e' h =>
    rw [hfired] at h
    rw [h] at hnext
    exact ⟨hnext, rfl, rfl⟩
  | fire e' h =>
    rw [hfired] at h
    rw [h] at hnext
    exact ⟨hnext, rfl, rfl⟩
  | answered s resume state h hknown =>
    rw [hfired] at h
    rw [h] at hnext
    dsimp only at hnext
    rw [← hanswers s (.ok state) (by rw [reply, hknown]; rfl)] at hnext
    exact ⟨hnext, rfl, rfl⟩
  | read s resume h _ => exact ⟨hcomes, rfl, rfl⟩
  | keep s page resume h =>
    rw [hfired] at h
    rw [h] at hnext
    dsimp only at hnext
    rw [← hanswers s _ rfl] at hnext
    exact ⟨hnext, rfl, rfl⟩
  | interrupt h =>
    rw [(Execution.awaits_of_interrupt h).1] at hfired
    cases hfired

/-- A step of a job brings it nearer to the same result, if its write is accepted, and it is told
the answer to what it asks. -/
theorem PhaseStep.leads (h : PhaseStep n a act a') (hpersists : a.job.persists = true)
    (hacks : n.lostAcks = []) (hfired : n.fired a = false)
    (haccepts : (n.store.write act.batch).1.isOk = true)
    (hanswers : ∀ s x, n.reply act = some (s, x) → x = answers s)
    (hcomes : a.job.phase.comesTo answers n.handlers a.job.command = some r) :
    a'.job.phase.comesTo answers n.handlers a.job.command = some r ∧
      a'.job.phase.written = a.job.phase.written ++ act.batch := by
  cases h with
  | run e hphase hresolve =>
    rw [hphase] at hcomes
    rw [hfired] at hresolve
    simp only [JobPhase.comesTo, HandlerTable.resultOf, hresolve] at hcomes
    exact ⟨hcomes, by rw [hphase]; rfl⟩
  | refuse r' hphase hresolve =>
    rw [hphase] at hcomes
    rw [hfired] at hresolve
    simp only [JobPhase.comesTo, HandlerTable.resultOf, hresolve] at hcomes
    cases hcomes
    simp only [Job.phase_conclude hpersists, hphase]
    exact ⟨JobPhase.comesTo_concluded, JobPhase.written_concluded⟩
  | collapse hphase hresolve =>
    rw [hphase] at hcomes
    rw [hfired] at hresolve
    simp only [JobPhase.comesTo, HandlerTable.resultOf, hresolve] at hcomes
    cases hcomes
  | execute e hphase hruns =>
    rw [hphase] at hcomes ⊢
    obtain ⟨hcomes', hnothing, hbatch⟩ := hruns.leads hpersists hfired hanswers hcomes
    exact ⟨hcomes', by rw [hnothing, hbatch]; rfl⟩
  | written r' hphase _ =>
    rw [hphase] at hcomes ⊢
    exact ⟨hcomes, rfl⟩
  | unwritten r' error hphase hfailed =>
    rw [isOk_writeForJob hacks, show (n.store.write r'.events).1.isOk = true from haccepts]
      at hfailed
    cases hfailed
  | recorded r' k hphase _ =>
    rw [hphase] at hcomes ⊢
    exact ⟨hcomes, rfl⟩
  | unrecorded r' k _ hfailed _ | gaveUp r' k _ hfailed _ =>
    rw [isOk_writeForJob hacks,
      show (n.store.write [.outcome r'.outcome]).1.isOk = true from haccepts] at hfailed
    cases hfailed
  | announced r' hphase =>
    rw [hphase] at hcomes ⊢
    exact ⟨hcomes, (List.append_nil _).symm⟩
  | found _ _ _ _ hphase _ | unfound _ _ hphase _ =>
    rw [hphase] at hcomes
    cases hcomes
  | delay _ _ _ hphase _ | retry _ _ _ _ hphase _ _ =>
    rw [hphase] at hcomes
    cases hcomes

theorem writeFaults_act (hwrites : n.store.writeFaults = 0) :
    (n.act act).store.writeFaults = 0 := by
  rw [store_act]
  cases act with
  | nothing => exact hwrites
  | announce r => exact hwrites
  | ask s => exact ReadModel.writeFaults_get.trans hwrites
  | keep s page => exact hwrites
  | write events => exact Store.writeFaults_write hwrites
  | record r => exact Store.writeFaults_write hwrites
  | search r => exact (Store.writeFaults_readStream _ _).trans hwrites

/-- With what its next step writes, a job has written a part of what there is to be written. -/
theorem written_nextAct_prefix {t : HandlerTable A S B} {c : Command B} (ha : n.jobs[i]? = some a)
    (hcomes : a.job.phase.comesTo answers t c = some r) :
    a.job.phase.written ++ (n.nextAct i).batch <+: r.events ++ [.outcome r.outcome] := by
  have hread (hbatch : (n.nextAct i).batch = []) :
      a.job.phase.written ++ (n.nextAct i).batch <+: r.events ++ [.outcome r.outcome] := by
    rw [hbatch, List.append_nil]
    exact JobPhase.written_prefix hcomes
  have hact := nextAct.eq_def n i
  simp only [ha] at hact
  split at hact
  · exact hread (by rw [hact]; rfl)
  · cases hphase : a.job.phase with
    | writing r' =>
      rw [hphase] at hcomes hact
      cases hcomes
      rw [hact]
      exact List.prefix_append _ _
    | recording r' k =>
      rw [hphase] at hcomes hact
      cases hcomes
      rw [hact]
      exact List.prefix_rfl
    | executing e =>
      rw [hphase] at hread hact
      refine hread ?_
      rw [hact]
      dsimp only
      split <;> rfl
    | _ =>
      rw [hphase] at hread hact
      exact hread (by rw [hact]; rfl)

/-- The job has got on towards the same result. -/
structure Leads (answers : StreamId → Except RuntimeError (Option S)) (r : ProcessingResult A)
    (n n' : Node A S B) (i : Nat) (a a' : Assignment A S B) : Prop extends Moved n n' i a a' where
  acks : n'.lostAcks = []
  writes : n'.store.writeFaults = 0
  dispatched : Dispatched a'
  comes : a'.job.phase.comesTo answers n.handlers a.job.command = some r
  written : a'.job.phase.written = a.job.phase.written ++ (n.nextAct i).batch

theorem moveJob_leads (ha : n.jobs[i]? = some a) (hjob : Dispatched a) (hacks : n.lostAcks = [])
    (hwrites : n.store.writeFaults = 0) (hshutdown : n.shutdown.fired = false)
    (haccepts : (n.store.write (n.nextAct i).batch).1.isOk = true)
    (hanswers : ∀ s x, n.reply (n.nextAct i) = some (s, x) → x = answers s)
    (hcomes : a.job.phase.comesTo answers n.handlers a.job.command = some r)
    (hmove : n.moveJob i = some n') : ∃ a', Leads answers r n n' i a a' := by
  obtain ⟨a', hmoved⟩ := moveJob_moved ha hmove
  have hfired : n.fired a = false := by
    rw [fired, hjob.token]
    exact hshutdown
  have hgoes : PhaseStep n a (n.nextAct i) a' := hmoved.step.goes hjob.cancelDue
  obtain ⟨hcomes', hwritten⟩ := hgoes.leads hjob.persists hacks hfired haccepts hanswers hcomes
  exact ⟨a', { hmoved with
    acks := hmoved.lostAcks.trans (lostAcks_act hacks)
    writes := by
      rw [hmoved.store]
      exact writeFaults_act hwrites
    dispatched := hjob.step hmoved.step
    comes := hcomes'
    written := hwritten }⟩

end Node
end Chronicle
