import Chronicle.Proofs.Command.Accounting

/-!
# Chronicle.Proofs.Command.Working

What a step of a job does to the log and to the read model, whatever the log keeps and whichever
acknowledgements are lost (`Touched`), and where that takes the job by what comes back (`Advances`).
-/

namespace Chronicle

/-- What an act puts into the log, if its write is accepted. -/
def Act.batch {A : Type} : Act A → List (Payload A)
  | .nothing | .ask _ | .keep .. | .search _ | .announce _ => []
  | .write events => events
  | .record r => [.outcome r.outcome]

def JobPhase.Undecided {A S : Type} : JobPhase A S → Prop
  | .received | .executing _ => True
  | _ => False

namespace Node

variable {A S B : Type} [Vocabulary A] {n m n' : Node A S B} {i : Nat} {a a' : Assignment A S B}
  {act : Act A} {e : Execution A S}

/-- What an act does to the log and the read model, in terms of both. -/
def Touched (n m : Node A S B) : Act A → Prop
  | .nothing | .ask _ | .search _ | .announce _ => n.store.After m.store ∧ m.model = n.model
  | .keep s page => m.store = n.store ∧ m.model = (n.model.digest s page).2.1
  | .write events => m.store = (n.store.write events).2 ∧ m.model = n.model
  | .record r => m.store = (n.store.write [.outcome r.outcome]).2 ∧ m.model = n.model

def appended (n : Node A S B) (act : Act A) : List (Payload A) :=
  if (n.store.write act.batch).1.isOk then act.batch else []

/-- How a step takes a job from a phase to a phase, and what it does for that. -/
inductive Advances (n : Node A S B) (j : Job A S B) : JobPhase A S → Act A → JobPhase A S → Prop
  where
  /-- A token is fired, or a timer is set. -/
  | rest (phase : JobPhase A S) : Advances n j phase .nothing phase
  | begin (e : Execution A S) : Advances n j .received .nothing (.executing e)
  | collapse : Advances n j .received .nothing .crashed
  | goOn (e e' : Execution A S) : Advances n j (.executing e) .nothing (.executing e')
  | ask (e e' : Execution A S) (s : StreamId) : Advances n j (.executing e) (.ask s) (.executing e')
  | keep (e e' : Execution A S) (s : StreamId) (page : Page A) :
      Advances n j (.executing e) (.keep s page) (.executing e')
  | decide (phase : JobPhase A S) (r : ProcessingResult A) : phase.Undecided →
      r.id = j.command.id → Advances n j phase .nothing (j.conclude r).phase
  /-- The write of the events is answered. If that is a failure, the command counts as faulted. -/
  | written (r r' : ProcessingResult A) : r'.id = r.id →
      Advances n j (.writing r) (.write r.events) (.recording r' 0)
  | recorded (r : ProcessingResult A) (k : Nat) :
      (n.writeForJob [.outcome r.outcome]).1.isOk = true →
      Advances n j (.recording r k) (.record r) (.announcing r)
  | unrecorded (r : ProcessingResult A) (k : Nat) (delay : Duration) :
      (n.writeForJob [.outcome r.outcome]).1.isOk = false → k < n.policy.maxRetries →
      Advances n j (.recording r k) (.record r) (.backingOff r k delay)
  | gaveUp (r : ProcessingResult A) (k : Nat) :
      (n.writeForJob [.outcome r.outcome]).1.isOk = false → n.policy.maxRetries ≤ k →
      Advances n j (.recording r k) (.record r) (.announcing r)
  | retry (r : ProcessingResult A) (k : Nat) (delay : Duration) :
      Advances n j (.backingOff r k delay) .nothing
        (if n.searches then .checking r (k + 1) else .recording r (k + 1))
  | found (r : ProcessingResult A) (k : Nat) :
      Advances n j (.checking r k) (.search r) (.announcing r)
  | unfound (r : ProcessingResult A) (k : Nat) :
      (∀ e rest, (n.store.readStream r.outcome.stream Position.last).page ≠ .ok (e :: rest)) →
      Advances n j (.checking r k) (.search r) (.recording r k)
  | announced (r : ProcessingResult A) : Advances n j (.announcing r) (.announce r) (.finished r)

theorem appended_eq_nil (h : act.batch = []) : n.appended act = [] := by
  rw [appended, h, ite_self]

theorem touched_act : Touched n (n.act act) act := by
  cases act with
  | nothing => exact ⟨.refl _, rfl⟩
  | announce r => exact ⟨.refl _, rfl⟩
  | search r =>
    refine ⟨?_, model_act⟩
    rw [store_act]
    exact Store.after_readStream
  | ask s =>
    refine ⟨?_, model_act⟩
    rw [store_act]
    exact ReadModel.after_get
  | keep s page => exact ⟨store_act, model_act⟩
  | write events => exact ⟨store_act, model_act⟩
  | record r => exact ⟨store_act, model_act⟩

/-- The log of payloads after a step, and what the step has put there. -/
theorem Touched.holds (h : Touched n m act) {log : List (Event A)} (hlog : n.store.Holds log)
    (hroom : m.store.length < 0x10000000000000000) :
    ∃ more, m.store.Holds (log ++ more) ∧ more.map Event.payload = n.appended act ∧
      (n.store.Quiet → m.store.Quiet) := by
  have hread (hafter : n.store.After m.store) (hbatch : act.batch = []) :
      ∃ more, m.store.Holds (log ++ more) ∧ more.map Event.payload = n.appended act ∧
        (n.store.Quiet → m.store.Quiet) := by
    refine ⟨[], ?_, ?_, hafter.quiet⟩
    · rw [List.append_nil]
      exact hlog.after hafter
    · rw [appended_eq_nil hbatch]
      rfl
  have hwrite (hstore : m.store = (n.store.write act.batch).2) :
      ∃ more, m.store.Holds (log ++ more) ∧ more.map Event.payload = n.appended act ∧
        (n.store.Quiet → m.store.Quiet) := by
    rw [hstore] at hroom ⊢
    obtain ⟨more, hholds, hmore⟩ := hlog.written hroom
    obtain ⟨-, hreads, hstreams⟩ := Store.write_reads (s := n.store) act.batch
    exact ⟨more, hholds, hmore, fun hq => ⟨hreads.trans hq.1, hstreams.trans hq.2⟩⟩
  cases act with
  | nothing => exact hread h.1 rfl
  | search r => exact hread h.1 rfl
  | announce r => exact hread h.1 rfl
  | ask s => exact hread h.1 rfl
  | keep s page => exact hread (h.1 ▸ .refl _) rfl
  | write events => exact hwrite h.1
  | record r => exact hwrite h.1

/-- The log does not get shorter. -/
theorem Touched.length_le (h : Touched n m act) : n.store.length ≤ m.store.length := by
  have hsame (hcontents : m.store.contents = n.store.contents) :
      n.store.length ≤ m.store.length := Nat.le_of_eq (congrArg Contents.length hcontents).symm
  cases act with
  | nothing => exact hsame h.1.contents
  | search r => exact hsame h.1.contents
  | announce r => exact hsame h.1.contents
  | ask s => exact hsame h.1.contents
  | keep s page => exact hsame (h.1 ▸ rfl)
  | write events => exact h.1 ▸ Store.length_le_write _
  | record r => exact h.1 ▸ Store.length_le_write _

theorem Touched.projector (h : Touched n m act) : m.model.projector = n.model.projector := by
  cases act with
  | keep s page => exact (congrArg _ h.2).trans ReadModel.projector_digest
  | _ => exact congrArg _ h.2

theorem Runs.advances (h : Runs n a e act a') :
    Advances n a.job (.executing e) act a'.job.phase := by
  cases h with
  | conclude c _ => exact .decide _ _ trivial (ProcessingResult.id_classify _ _ _)
  | goOn e' _ => exact .goOn e e'
  | fire e' _ => exact .goOn e e'
  | answered stream resume state _ _ => exact .ask e _ stream
  | read stream resume _ _ => exact .ask e _ stream
  | keep stream page resume _ => exact .keep e _ stream page
  | interrupt _ => exact .decide _ (.interrupted _) trivial rfl

theorem PhaseStep.advances (h : PhaseStep n a act a') :
    Advances n a.job a.job.phase act a'.job.phase := by
  cases h with
  | run e hphase _ => rw [hphase]; exact .begin e
  | refuse r hphase hresolve =>
    rw [hphase]
    exact .decide _ r trivial (HandlerTable.resolve_refused hresolve).1
  | collapse hphase _ => rw [hphase]; exact .collapse
  | execute e hphase hruns => rw [hphase]; exact hruns.advances
  | written r hphase _ => rw [hphase]; exact .written r r rfl
  | unwritten r error hphase _ => rw [hphase]; exact .written r _ rfl
  | found r k e rest hphase _ => rw [hphase]; exact .found r k
  | unfound r k hphase hnone => rw [hphase]; exact .unfound r k hnone
  | recorded r k hphase hok => rw [hphase]; exact .recorded r k hok
  | unrecorded r k hphase hfailed hlt => rw [hphase]; exact .unrecorded r k _ hfailed hlt
  | gaveUp r k hphase hfailed hmax => rw [hphase]; exact .gaveUp r k hfailed hmax
  | delay r k delay _ _ => exact .rest _
  | retry r k delay time hphase _ _ => rw [hphase]; exact .retry r k delay
  | announced r hphase => rw [hphase]; exact .announced r

theorem JobStep.advances (h : JobStep n a act a') :
    Advances n a.job a.job.phase act a'.job.phase := by
  cases h with
  | expire _ => rw [job_fireOwn]; exact .rest _
  | go _ hgoes => exact hgoes.advances

/-- The command of a job stays its command. -/
theorem Moved.command (h : Moved n n' i a a') : a'.job.command = a.job.command := by
  rw [h.step.taken.job]

theorem Moved.touched (h : Moved n n' i a a') : Touched n n' (n.nextAct i) := by
  have htouched : Touched n (n.act (n.nextAct i)) (n.nextAct i) := touched_act
  obtain ⟨built, notes, turns, rfl⟩ := h.node
  generalize n.nextAct i = act at htouched ⊢
  cases act <;> exact htouched

end Node
end Chronicle
