import Chronicle.Proofs.Command.Stepping
import Chronicle.Proofs.Projection.Reading

/-!
# Chronicle.Proofs.Command.Turning

What a step of a job can do if the log holds payloads as they are and no acknowledgement of a write
is lost (`Turn`, `moveJob_turn`): how its phase changes, what it writes, and what it announces. A
write then appends its whole batch or fails and appends nothing.
-/

namespace Chronicle

/-- What an act comes to. -/
inductive Effect (A : Type) where
  | nothing
  | write (batch : List (Payload A)) (accepted : Bool)
  | announce (r : ProcessingResult A)

def Effect.appended {A : Type} : Effect A → List (Payload A)
  | .write batch true => batch
  | _ => []

def Effect.announced {A : Type} : Effect A → List (ProcessingResult A)
  | .announce r => [r]
  | _ => []

def Act.effect {A : Type} (accepted : Bool) : Act A → Effect A
  | .nothing | .ask _ | .keep .. | .search _ => .nothing
  | .write events => .write events accepted
  | .record r => .write [.outcome r.outcome] accepted
  | .announce r => .announce r

/-- A write that a job has tried. -/
structure Write (A : Type) where
  job : Nat
  batch : List (Payload A)
  accepted : Bool
  deriving DecidableEq

def Effect.writes {A : Type} (job : Nat) : Effect A → List (Write A)
  | .write batch accepted => [⟨job, batch, accepted⟩]
  | _ => []

/-- Where a job that persists goes with a result. -/
def JobPhase.concluded {A S : Type} (r : ProcessingResult A) : JobPhase A S :=
  if r.events.isEmpty then .recording r 0 else .writing r

namespace Node

variable {A S B : Type} [Vocabulary A]

def nextEffect (n : Node A S B) (i : Nat) : Effect A :=
  (n.nextAct i).effect (n.store.writeFaults == 0)

def attempt (n : Node A S B) (i : Nat) : List (Write A) := (n.nextEffect i).writes i

/-- How a step takes the job of a command from a phase to a phase. -/
inductive Turn (n : Node A S B) (log : List (Event A)) (c : Command B) :
    JobPhase A S → Effect A → JobPhase A S → Prop where
  /-- A token is fired, or a timer is set. -/
  | rest (phase : JobPhase A S) : Turn n log c phase .nothing phase
  | run (fired : Bool) (e : Execution A S) : (n.handlers.resolve c fired).1 = .run e →
      Turn n log c .received .nothing (.executing e)
  | refuse (fired : Bool) (r : ProcessingResult A) : (n.handlers.resolve c fired).1 = .refused r →
      Turn n log c .received .nothing (.concluded r)
  | collapse (fired : Bool) : (n.handlers.resolve c fired).1 = .collapsed →
      Turn n log c .received .nothing .crashed
  | goOn (e e' : Execution A S) : e'.work = e.work ∨ Work.Rest e'.work e.work →
      Turn n log c (.executing e) .nothing (.executing e')
  | complete (e : Execution A S) (o : Completion A) (fired : Bool) : e.work.MayEnd o →
      Turn n log c (.executing e) .nothing
        (.concluded (ProcessingResult.classify c.id fired o).1)
  | interrupt (e : Execution A S) :
      Turn n log c (.executing e) .nothing (.concluded (.interrupted c.id))
  | written (r : ProcessingResult A) :
      Turn n log c (.writing r) (.write r.events true) (.recording r 0)
  | unwritten (r : ProcessingResult A) (error : String) :
      Turn n log c (.writing r) (.write r.events false) (.recording (.faulted r.id error) 0)
  | unfound (r : ProcessingResult A) (k : Nat) :
      Turn n log c (.checking r k) .nothing (.recording r k)
  | found (r : ProcessingResult A) (k : Nat) : (∃ e ∈ log, e.stream = r.outcome.stream) →
      Turn n log c (.checking r k) .nothing (.announcing r)
  | recorded (r : ProcessingResult A) (k : Nat) :
      Turn n log c (.recording r k) (.write [.outcome r.outcome] true) (.announcing r)
  | unrecorded (r : ProcessingResult A) (k : Nat) (delay : Duration) : k < n.policy.maxRetries →
      Turn n log c (.recording r k) (.write [.outcome r.outcome] false) (.backingOff r k delay)
  | gaveUp (r : ProcessingResult A) (k : Nat) : n.policy.maxRetries ≤ k →
      Turn n log c (.recording r k) (.write [.outcome r.outcome] false) (.announcing r)
  | retry (r : ProcessingResult A) (k : Nat) (delay : Duration) :
      Turn n log c (.backingOff r k delay) .nothing
        (if n.searches then .checking r (k + 1) else .recording r (k + 1))
  | announced (r : ProcessingResult A) :
      Turn n log c (.announcing r) (.announce r) (.finished r)

/-- The surroundings that do not change are the same in both nodes. -/
structure Alike (n n' : Node A S B) : Prop where
  handlers : n'.handlers = n.handlers
  policy : n'.policy = n.policy
  searches : n'.searches = n.searches
  acks : n'.lostAcks = n.lostAcks

variable {n n' m : Node A S B} {i : Nat} {a a' : Assignment A S B} {log : List (Event A)}
  {act : Act A} {e : Execution A S}

theorem Alike.refl (n : Node A S B) : Alike n n := ⟨rfl, rfl, rfl, rfl⟩

theorem Alike.trans (h : Alike n n') (h' : Alike n' m) : Alike n m :=
  ⟨h'.1.trans h.1, h'.2.trans h.2, h'.3.trans h.3, h'.4.trans h.4⟩

/-- A step of a job: what jobs share is the same afterwards but for the effect, and the job is in its
new phase. -/
structure Turned (n n' : Node A S B) (i : Nat) (a : Assignment A S B) (log : List (Event A))
    (phase : JobPhase A S) (effect : Effect A) : Prop extends Alike n n' where
  now : n'.now = n.now
  shutdown : n'.shutdown = n.shutdown
  jobs : ∃ a', n'.jobs = n.jobs.set i a' ∧ a.Taken n.policy phase a'
  contents : ∃ more, n'.store.contents = .payloads (log ++ more) ∧
    more.map Event.payload = effect.appended
  results : n'.results = effect.announced.foldl (fun b r => (b.publish r).1) n.results
  outcomes : n'.outcomes = effect.announced.foldl (fun b r => (b.publish r.outcome).1) n.outcomes

/-- A step of a job has had an effect and has taken it to a phase. -/
def Stepped (n n' : Node A S B) (i : Nat) (a : Assignment A S B) (log : List (Event A)) : Prop :=
  ∃ effect phase, Turn n log a.job.command a.job.phase effect phase ∧
    n.attempt i = effect.writes i ∧ Turned n n' i a log phase effect

end Node

theorem Act.announced_effect {A : Type} {act : Act A} {accepted : Bool} :
    (act.effect accepted).announced = act.announced := by
  cases act <;> rfl

theorem Job.conclude_eq {A S B : Type} {j : Job A S B} (h : j.persists = true)
    (r : ProcessingResult A) : j.conclude r = { j with phase := .concluded r } := by
  unfold Job.conclude JobPhase.concluded
  rw [h]
  rfl

theorem Job.phase_conclude {A S B : Type} {j : Job A S B} {r : ProcessingResult A}
    (h : j.persists = true) : (j.conclude r).phase = .concluded r := by
  rw [Job.conclude_eq h]

/-! ## The step -/

namespace Node

variable {A S B : Type} [Vocabulary A] {n n' m : Node A S B} {i : Nat} {a a' : Assignment A S B}
  {log : List (Event A)} {act : Act A} {e : Execution A S}

theorem Runs.turn (h : Runs n a e act a') (hpersists : a.job.persists = true) (accepted : Bool) :
    Turn n log a.job.command (.executing e) (act.effect accepted) a'.job.phase := by
  cases h with
  | conclude c hnext =>
    dsimp only [Job.complete]
    rw [Job.phase_conclude hpersists]
    exact .complete e c (n.fired a) (Execution.work_of_conclude hnext ▸ .finish c)
  | goOn e' hnext =>
    refine .goOn e e' ((Execution.rest_of_goOn hnext).2.imp (fun hsame => ?_) And.right)
    rw [hsame.1]
  | fire e' hnext =>
    obtain ⟨rest, hwork, rfl⟩ := Execution.work_of_fire hnext
    exact .goOn e _ (.inr (hwork ▸ .fireToken rest))
  | answered stream resume state hnext _ =>
    obtain ⟨-, rest, hwork, rfl⟩ := Execution.work_of_ask hnext
    exact .goOn e _ (.inr (hwork ▸ .query stream rest _))
  | read stream resume _ _ => exact .goOn e _ (.inl rfl)
  | keep stream page resume hnext =>
    obtain ⟨-, rest, hwork, rfl⟩ := Execution.work_of_keep hnext
    exact .goOn e _ (.inr (hwork ▸ .query stream rest _))
  | interrupt hnext =>
    dsimp only [Job.interrupt]
    rw [Job.phase_conclude hpersists]
    exact .interrupt e

theorem PhaseStep.turn (h : PhaseStep n a act a') (hlog : n.store.contents = .payloads log)
    (hacks : n.lostAcks = []) (hpersists : a.job.persists = true) :
    Turn n log a.job.command a.job.phase (act.effect (n.store.writeFaults == 0))
      a'.job.phase := by
  have hanswer (batch : List (Payload A)) :
      (n.writeForJob batch).1.isOk = (n.store.writeFaults == 0) :=
    (isOk_writeForJob hacks batch).trans (Store.contents_write hlog batch).1
  cases h with
  | run e hphase hresolve => rw [hphase]; exact .run _ e hresolve
  | refuse r hphase hresolve =>
    rw [hphase]
    dsimp only
    rw [Job.phase_conclude hpersists]
    exact .refuse _ r hresolve
  | collapse hphase hresolve => rw [hphase]; exact .collapse _ hresolve
  | execute e hphase hruns => rw [hphase]; exact hruns.turn hpersists _
  | written r hphase hok =>
    rw [hphase, ← hanswer r.events, hok]
    exact .written r
  | unwritten r error hphase hfailed =>
    rw [hphase, ← hanswer r.events, hfailed]
    exact .unwritten r error
  | found r k e rest hphase hpage =>
    rw [hphase]
    exact .found r k ⟨e, Store.mem_of_readStream hlog hpage List.mem_cons_self⟩
  | unfound r k hphase _ => rw [hphase]; exact .unfound r k
  | recorded r k hphase hok =>
    rw [hphase, ← hanswer [.outcome r.outcome], hok]
    exact .recorded r k
  | unrecorded r k hphase hfailed hlt =>
    rw [hphase, ← hanswer [.outcome r.outcome], hfailed]
    exact .unrecorded r k _ hlt
  | gaveUp r k hphase hfailed hmax =>
    rw [hphase, ← hanswer [.outcome r.outcome], hfailed]
    exact .gaveUp r k hmax
  | delay r k delay hphase _ => exact .rest _
  | retry r k delay time hphase _ _ => rw [hphase]; exact .retry r k delay
  | announced r hphase => rw [hphase]; exact .announced r

theorem contents_act (hlog : n.store.contents = .payloads log) :
    ∃ more, (n.act act).store.contents = .payloads (log ++ more) ∧
      more.map Event.payload = (act.effect (n.store.writeFaults == 0)).appended := by
  have hkept (hsame : (n.act act).store.contents = n.store.contents) :
      ∃ more, (n.act act).store.contents = .payloads (log ++ more) ∧ more.map Event.payload = [] :=
    ⟨[], by rw [List.append_nil, hsame, hlog], rfl⟩
  have hwritten (batch : List (Payload A)) (hstore : (n.act act).store = (n.store.write batch).2) :
      ∃ more, (n.act act).store.contents = .payloads (log ++ more) ∧
        more.map Event.payload = (Effect.write batch (n.store.writeFaults == 0)).appended := by
    obtain ⟨-, more, hmore, hpayloads⟩ := Store.contents_write hlog batch
    refine ⟨more, by rw [hstore, hmore], ?_⟩
    rw [hpayloads]
    cases n.store.writeFaults == 0 <;> rfl
  cases act with
  | nothing => exact hkept rfl
  | ask stream =>
    refine hkept ?_
    rw [store_act]
    exact ReadModel.contents_get
  | keep stream page => exact hkept rfl
  | announce r => exact hkept rfl
  | write events => exact hwritten events store_act
  | record r => exact hwritten [.outcome r.outcome] store_act
  | search r =>
    refine hkept ?_
    rw [store_act]
    exact Store.after_readStream.contents

theorem Moved.turned (h : Moved n n' i a a') (hlog : n.store.contents = .payloads log)
    (hacks : n.lostAcks = []) : Turned n n' i a log a'.job.phase (n.nextEffect i) where
  handlers := h.untouched.handlers
  policy := h.untouched.policy
  searches := h.untouched.searches
  acks := by rw [h.lostAcks, lostAcks_act hacks, hacks]
  now := h.untouched.now
  shutdown := h.untouched.shutdown
  jobs := ⟨a', h.jobs, h.step.taken⟩
  contents := by
    rw [h.store]
    exact contents_act hlog
  results := by
    rw [h.results, nextEffect, Act.announced_effect]
    exact feeds_act.1
  outcomes := by
    rw [h.outcomes, nextEffect, Act.announced_effect]
    exact feeds_act.2

theorem JobStep.turn (h : JobStep n a act a') (hlog : n.store.contents = .payloads log)
    (hacks : n.lostAcks = []) (hpersists : a.job.persists = true) :
    Turn n log a.job.command a.job.phase (act.effect (n.store.writeFaults == 0))
      a'.job.phase := by
  cases h with
  | expire _ => rw [job_fireOwn]; exact .rest _
  | go _ hgoes => exact hgoes.turn hlog hacks hpersists

theorem announces_eq : n.announces i = (n.nextEffect i).announced :=
  Act.announced_effect.symm

theorem moveJob_turn (hlog : n.store.contents = .payloads log) (hacks : n.lostAcks = [])
    (ha : n.jobs[i]? = some a) (hpersists : a.job.persists = true) (h : n.moveJob i = some n') :
    a.job.isOver = false ∧ Stepped n n' i a log := by
  obtain ⟨a', hmoved⟩ := moveJob_moved ha h
  exact ⟨hmoved.running, n.nextEffect i, a'.job.phase, hmoved.step.turn hlog hacks hpersists, rfl,
    hmoved.turned hlog hacks⟩

end Node
end Chronicle
