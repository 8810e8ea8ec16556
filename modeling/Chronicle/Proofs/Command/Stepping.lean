import Chronicle.Proofs.Command.Descent
import Chronicle.Proofs.Feed.Delivery

/-!
# Chronicle.Proofs.Command.Stepping

What a step of a job can do, said once (`JobStep`, `moveJob_steps`): what it does to what is shared
(`Act`), and where it leaves the job. Everything else about the steps of jobs follows from that. What
no act touches is said once too (`Untouched`).
-/

namespace Chronicle

/-- What a step of a job does to what is shared. -/
inductive Act (A : Type) where
  | nothing
  /-- The read model is asked for a stream, which is read if the cache does not know it. -/
  | ask (stream : StreamId)
  /-- The read model is to keep what was read. -/
  | keep (stream : StreamId) (page : Page A)
  | write (events : List (Payload A))
  | record (r : ProcessingResult A)
  /-- The log is searched for the outcome. -/
  | search (r : ProcessingResult A)
  | announce (r : ProcessingResult A)

/-- It is done for an answer to a handler. -/
def Act.asks {A : Type} : Act A → Bool
  | .ask _ | .keep .. => true
  | _ => false

def Act.announced {A : Type} : Act A → List (ProcessingResult A)
  | .announce r => [r]
  | _ => []

theorem map_set_of_eq {α β : Type} {l : List α} {f : α → β} {i : Nat} {a b : α} (ha : l[i]? = some a)
    (hsame : f b = f a) : (l.set i b).map f = l.map f := by
  obtain ⟨hi, rfl⟩ := List.getElem?_eq_some_iff.mp ha
  rw [List.map_set, hsame, ← List.getElem_map f (h := by rwa [List.length_map]),
    List.set_getElem_self]

theorem Job.outcomeAnswered_error {A S B : Type} {j : Job A S B} {p : RetryPolicy}
    {r : ProcessingResult A} {k : Nat} {failure : WriteFailure} (h : j.phase = .recording r k) :
    (j.outcomeAnswered p (.error failure)).1 = { j with
      phase := if p.maxRetries ≤ k then .announcing r else .backingOff r k (p.delay k) } := by
  simp only [Job.outcomeAnswered, h, Retry.afterFailure, Bool.not_true, Bool.false_eq_true, if_false]
  by_cases hmax : p.maxRetries ≤ k
  · simp only [hmax, if_true]
  · simp only [hmax, if_false]

/-! ## A handler's run -/

namespace Execution

variable {A S : Type} {e e' : Execution A S} {now : Nat} {fired tokenFirst : Bool}

theorem next_finish {c : Completion A} (h : e.work = .finish c) (now : Nat)
    (fired tokenFirst : Bool) :
    e.next now fired tokenFirst = .conclude c := by
  simp [next, awaits, h]

theorem work_of_conclude {c : Completion A} (h : e.next now fired tokenFirst = .conclude c) :
    e.work = .finish c := by
  unfold next at h
  repeat' split at h
  all_goals cases h
  assumption

theorem work_of_fire (h : e.next now fired tokenFirst = .fire e') :
    ∃ rest, e.work = .fireToken rest ∧ e' = { work := rest } := by
  unfold next at h
  repeat' split at h
  all_goals cases h
  exact ⟨_, ‹_›, rfl⟩

theorem work_of_ask {stream : StreamId} {resume : Except RuntimeError (Option S) → Execution A S}
    (h : e.next now fired tokenFirst = .ask stream resume) :
    e.page = none ∧ ∃ rest, e.work = .query stream rest ∧
      resume = fun answer => { work := rest answer } := by
  unfold next at h
  repeat' split at h
  all_goals cases h
  exact ⟨‹_›, _, ‹_›, rfl⟩

theorem work_of_keep {stream : StreamId} {page : Page A}
    {resume : Except RuntimeError (Option S) → Execution A S}
    (h : e.next now fired tokenFirst = .keep stream page resume) :
    e.page = some page ∧ ∃ rest, e.work = .query stream rest ∧
      resume = fun answer => { work := rest answer } := by
  unfold next at h
  repeat' split at h
  all_goals cases h
  exact ⟨‹_›, _, ‹_›, rfl⟩

theorem awaits_of_interrupt (h : e.next now fired tokenFirst = .interrupt) :
    fired = true ∧ e.awaits = true := by
  unfold next at h
  split at h
  · rename_i hstops
    simp only [Bool.and_eq_true] at hstops
    exact ⟨hstops.1.1, hstops.2⟩
  · repeat' split at h
    all_goals cases h
    rename_i hwork _ _ _ _ hfired
    exact ⟨hfired, by rw [awaits, hwork]⟩

/-- Why a run waits. -/
theorem waits_of_wait (h : e.next now fired tokenFirst = .wait) :
    (∃ millis rest time, e.work = .sleep millis rest ∧ e.wakeAt = some time ∧ now < time) ∨
      ∃ rest, e.work = .untilCancelled rest ∧ fired = false := by
  unfold next at h
  split at h
  · cases h
  · cases hwork : e.work <;> simp only [hwork] at h
    all_goals repeat' split at h
    all_goals cases h
    · rename_i millis rest _ time hwake hlate _
      exact .inl ⟨millis, rest, time, rfl, hwake, Nat.lt_of_not_le hlate⟩
    · rename_i rest hfired
      exact .inr ⟨rest, rfl, Bool.eq_false_iff.mpr hfired⟩

/-- A run that goes on by itself sets a timer, or does the rest of what it has to do. -/
theorem rest_of_goOn (h : e.next now fired tokenFirst = .goOn e') :
    (∀ stream rest, e.work ≠ .query stream rest) ∧
      (e' = { e with wakeAt := e'.wakeAt } ∧ e.wakeAt = none ∧ e'.wakeAt.isSome = true ∨
        e'.page = none ∧ Work.Rest e'.work e.work) := by
  unfold next at h
  split at h
  · cases h
  · cases hwork : e.work <;> simp only [hwork] at h
    all_goals repeat' split at h
    all_goals cases h
    all_goals refine ⟨by rintro _ _ ⟨⟩, ?_⟩
    · exact .inl ⟨rfl, ‹_›, rfl⟩
    · exact .inr ⟨rfl, .sleep _ _⟩
    · exact .inr ⟨rfl, .untilCancelled _⟩
    · exact .inr ⟨rfl, .checkCancel _ _⟩

end Execution

theorem HandlerTable.page_of_run {A S B : Type} {t : HandlerTable A S B} {c : Command B}
    {fired : Bool} {e : Execution A S} (h : (t.resolve c fired).1 = .run e) : e.page = none := by
  unfold resolve at h
  repeat' split at h
  all_goals cases h
  all_goals rfl

theorem Job.stage_conclude {A S B : Type} (j : Job A S B) (r : ProcessingResult A) :
    (j.conclude r).phase.stage = 0 := by
  unfold Job.conclude
  dsimp only
  (repeat' split) <;> rfl

/-- What a job has read for a question that is not answered yet, with the stream. -/
def JobPhase.asked? {A S : Type} : JobPhase A S → Option (StreamId × Page A)
  | .executing ⟨.query stream _, _, page⟩ => page.map (stream, ·)
  | _ => none

theorem JobPhase.asked?_executing {A S : Type} {e : Execution A S} {s : StreamId} {page : Page A} :
    (JobPhase.executing e).asked? = some (s, page) ↔
      e.page = some page ∧ ∃ rest, e.work = .query s rest := by
  obtain ⟨work, wakeAt, held⟩ := e
  cases work <;> simp [JobPhase.asked?, and_comm]

theorem Job.asked?_conclude {A S B : Type} (j : Job A S B) (r : ProcessingResult A) :
    (j.conclude r).phase.asked? = none := by
  unfold Job.conclude
  dsimp only
  (repeat' split) <;> rfl

/-- The job is in a phase that no timer belongs to. -/
def Assignment.goTo {A S B : Type} (a : Assignment A S B) (phase : JobPhase A S) :
    Assignment A S B :=
  { a with job := { a.job with phase }, due := none }

namespace Node

variable {A S B : Type} [Vocabulary A]

def act (n : Node A S B) : Act A → Node A S B
  | .nothing => n
  | .ask stream =>
    match n.model.known? stream with
    | some _ => n
    | none =>
      let reading := n.store.readStream stream Position.last
      { n with store := reading.store }.note reading.notes
  | .keep stream page =>
    let (_, model, notes) := n.model.digest stream page
    { n with model }.note notes
  | .write events =>
    let (answer, n) := n.writeForJob events
    if answer.isOk then n.signalWritten else n
  | .record r =>
    let (answer, n) := n.writeForJob [.outcome r.outcome]
    if answer.isOk then n.signalWritten else n
  | .search r =>
    let reading := n.store.readStream r.outcome.stream Position.last
    let n := { n with store := reading.store }.note reading.notes
    let found := match reading.page with
      | .ok (_ :: _) => true
      | _ => false
    if found then n.signalWritten else n
  | .announce r => { n with
      outcomes := (n.outcomes.publish r.outcome).1
      results := (n.results.publish r).1 }

/-- What the next step of a job does to what is shared. -/
def nextAct (n : Node A S B) (i : Nat) : Act A :=
  match n.jobs[i]? with
  | none => .nothing
  | some a =>
    if n.cancelDue a then .nothing
    else
      match a.job.phase with
      | .executing e =>
        match e.next n.now (n.fired a) a.tokenFirst with
        | .ask stream _ => .ask stream
        | .keep stream page _ => .keep stream page
        | _ => .nothing
      | .writing r => .write r.events
      | .recording r _ => .record r
      | .checking r _ => .search r
      | .announcing r => .announce r
      | _ => .nothing

def announces (n : Node A S B) (i : Nat) : List (ProcessingResult A) := (n.nextAct i).announced

/-- What the read model answers to an act, if it does. -/
def reply (n : Node A S B) : Act A → Option (StreamId × Except RuntimeError (Option S))
  | .ask stream => (n.model.known? stream).map fun state => (stream, .ok state)
  | .keep stream page => some (stream, (n.model.digest stream page).1)
  | _ => none

/-- How a step takes a job on whose handler runs. -/
inductive Runs (n : Node A S B) (a : Assignment A S B) (e : Execution A S) :
    Act A → Assignment A S B → Prop where
  | conclude (c : Completion A) : e.next n.now (n.fired a) a.tokenFirst = .conclude c →
      Runs n a e .nothing { a with job := (a.job.complete (n.fired a) c).1 }
  | goOn (e' : Execution A S) : e.next n.now (n.fired a) a.tokenFirst = .goOn e' →
      Runs n a e .nothing { a with job := { a.job with phase := .executing e' } }
  | fire (e' : Execution A S) : e.next n.now (n.fired a) a.tokenFirst = .fire e' →
      Runs n a e .nothing
        { fireOwn a with job := { (fireOwn a).job with phase := .executing e' } }
  | answered (stream : StreamId) (resume : Except RuntimeError (Option S) → Execution A S)
      (state : Option S) : e.next n.now (n.fired a) a.tokenFirst = .ask stream resume →
      n.model.known? stream = some state →
      Runs n a e (.ask stream)
        { a with job := { a.job with phase := .executing (resume (.ok state)) } }
  | read (stream : StreamId) (resume : Except RuntimeError (Option S) → Execution A S) :
      e.next n.now (n.fired a) a.tokenFirst = .ask stream resume → n.model.known? stream = none →
      Runs n a e (.ask stream) { a with job := { a.job with
        phase := .executing { e with page := some (n.store.readStream stream Position.last).page } } }
  | keep (stream : StreamId) (page : Page A)
      (resume : Except RuntimeError (Option S) → Execution A S) :
      e.next n.now (n.fired a) a.tokenFirst = .keep stream page resume →
      Runs n a e (.keep stream page) { a with job := { a.job with
        phase := .executing (resume (n.model.digest stream page).1) } }
  | interrupt : e.next n.now (n.fired a) a.tokenFirst = .interrupt →
      Runs n a e .nothing { a with job := a.job.interrupt }

/-- How a step takes a job on whose own source does not fire. -/
inductive PhaseStep (n : Node A S B) (a : Assignment A S B) : Act A → Assignment A S B → Prop where
  | run (e : Execution A S) : a.job.phase = .received →
      (n.handlers.resolve a.job.command (n.fired a)).1 = .run e →
      PhaseStep n a .nothing (a.goTo (.executing e))
  | refuse (r : ProcessingResult A) : a.job.phase = .received →
      (n.handlers.resolve a.job.command (n.fired a)).1 = .refused r →
      PhaseStep n a .nothing { a with job := a.job.conclude r, due := none }
  | collapse : a.job.phase = .received →
      (n.handlers.resolve a.job.command (n.fired a)).1 = .collapsed →
      PhaseStep n a .nothing (a.goTo .crashed)
  | execute (e : Execution A S) {act : Act A} {a' : Assignment A S B} :
      a.job.phase = .executing e → Runs n a e act a' → PhaseStep n a act a'
  | written (r : ProcessingResult A) : a.job.phase = .writing r →
      (n.writeForJob r.events).1.isOk = true →
      PhaseStep n a (.write r.events) (a.goTo (.recording r 0))
  | unwritten (r : ProcessingResult A) (error : String) : a.job.phase = .writing r →
      (n.writeForJob r.events).1.isOk = false →
      PhaseStep n a (.write r.events) (a.goTo (.recording (.faulted r.id error) 0))
  | found (r : ProcessingResult A) (k : Nat) (e : Event A) (rest : List (Event A)) :
      a.job.phase = .checking r k →
      (n.store.readStream r.outcome.stream Position.last).page = .ok (e :: rest) →
      PhaseStep n a (.search r) (a.goTo (.announcing r))
  | unfound (r : ProcessingResult A) (k : Nat) : a.job.phase = .checking r k →
      (∀ e rest, (n.store.readStream r.outcome.stream Position.last).page ≠ .ok (e :: rest)) →
      PhaseStep n a (.search r) (a.goTo (.recording r k))
  | recorded (r : ProcessingResult A) (k : Nat) : a.job.phase = .recording r k →
      (n.writeForJob [.outcome r.outcome]).1.isOk = true →
      PhaseStep n a (.record r) (a.goTo (.announcing r))
  | unrecorded (r : ProcessingResult A) (k : Nat) : a.job.phase = .recording r k →
      (n.writeForJob [.outcome r.outcome]).1.isOk = false → k < n.policy.maxRetries →
      PhaseStep n a (.record r) (a.goTo (.backingOff r k (n.policy.delay k)))
  | gaveUp (r : ProcessingResult A) (k : Nat) : a.job.phase = .recording r k →
      (n.writeForJob [.outcome r.outcome]).1.isOk = false → n.policy.maxRetries ≤ k →
      PhaseStep n a (.record r) (a.goTo (.announcing r))
  | delay (r : ProcessingResult A) (k : Nat) (delay : Duration) :
      a.job.phase = .backingOff r k delay → a.due = none →
      PhaseStep n a .nothing { a with due := some (n.now + delay.millis) }
  | retry (r : ProcessingResult A) (k : Nat) (delay : Duration) (time : Nat) :
      a.job.phase = .backingOff r k delay → a.due = some time → time ≤ n.now →
      PhaseStep n a .nothing
        (a.goTo (if n.searches then .checking r (k + 1) else .recording r (k + 1)))
  | announced (r : ProcessingResult A) : a.job.phase = .announcing r →
      PhaseStep n a (.announce r) (a.goTo (.finished r))

inductive JobStep (n : Node A S B) (a : Assignment A S B) : Act A → Assignment A S B → Prop where
  /-- A job whose own source fires does nothing else in that step. -/
  | expire : n.cancelDue a = true → JobStep n a .nothing (fireOwn a)
  | go {act : Act A} {a' : Assignment A S B} : n.cancelDue a = false → PhaseStep n a act a' →
      JobStep n a act a'

/-- A step has taken a job from `a` to `a'`. What is counted and noted, and whose turn is next, is of
no account here. -/
structure Moved (n n' : Node A S B) (i : Nat) (a a' : Assignment A S B) : Prop where
  before : n.jobs[i]? = some a
  running : a.job.isOver = false
  step : JobStep n a (n.nextAct i) a'
  node : ∃ built notes turns,
    n' = { n.act (n.nextAct i) with jobs := n.jobs.set i a', built, notes, turns }

/-- The streams are as they were, or one of them was signalled. -/
def Signalled (n n' : Node A S B) : Prop :=
  n'.streams = n.streams ∨ ∃ j, n'.streams = (n.signal j).streams

/-- What no step of a job changes is the same in both nodes. -/
structure Untouched (n n' : Node A S B) : Prop where
  now : n'.now = n.now
  handlers : n'.handlers = n.handlers
  policy : n'.policy = n.policy
  searches : n'.searches = n.searches
  shutdown : n'.shutdown = n.shutdown
  commands : n'.commands = n.commands
  dispatchers : n'.dispatchers = n.dispatchers
  lock : n'.lock = n.lock
  consumer : n'.consumer = n.consumer
  lookups : n'.lookups = n.lookups

/-- What goes on beside these jobs leaves them where they are. -/
structure Spares (own : Nat → Prop) (n n' : Node A S B) : Prop where
  spared : ∀ i a, own i → n.jobs[i]? = some a → ∃ a', n'.jobs[i]? = some a' ∧ a'.job = a.job

/-- What goes on beside these jobs does no more to them than to nudge them, and does not change how
jobs are carried out. -/
structure Beside (own : Nat → Prop) (n n' : Node A S B) : Prop where
  handlers : n'.handlers = n.handlers
  policy : n'.policy = n.policy
  searches : n'.searches = n.searches
  jobs : ∀ i a, own i → n.jobs[i]? = some a → ∃ a', n'.jobs[i]? = some a' ∧ a.Nudged a'

/-- What goes on beside all jobs leaves the log alone. Jobs that come in have done nothing yet. -/
structure Apart (n n' : Node A S B) : Prop extends Spares (fun _ => True) n n' where
  handlers : n'.handlers = n.handlers
  contents : n'.store.contents = n.store.contents
  projector : n'.model.projector = n.model.projector
  received : ∀ (i : Nat) (a : Assignment A S B), n.jobs[i]? = none → n'.jobs[i]? = some a →
    a.job.phase = .received

/-- The job has not read anything for an answer that it does not have yet. -/
def Unread (n : Node A S B) (i : Nat) : Prop :=
  ∀ a : Assignment A S B, n.jobs[i]? = some a → a.job.phase.asked? = none

/-- All jobs stay where they are, and such come in as have not read anything. -/
structure Admits (n n' : Node A S B) : Prop extends Spares (fun _ => True) n n' where
  unread : ∀ i, n.jobs[i]? = none → n'.Unread i

/-- What each job has read for an answer that it does not have yet is as `right` says. -/
def Held (n : Node A S B) (right : Nat → StreamId → Page A → Prop) : Prop :=
  ∀ (i : Nat) (a : Assignment A S B) (s : StreamId) (page : Page A), n.jobs[i]? = some a →
    a.job.phase.asked? = some (s, page) → right i s page

variable {n n' m : Node A S B} {i k : Nat} {a a' : Assignment A S B} {e : Execution A S} {act : Act A}
  {own : Nat → Prop} {right right' : Nat → StreamId → Page A → Prop}

theorem Beside.spares (h : Beside own n n') : Spares own n n' := by
  refine ⟨fun i a hi ha => ?_⟩
  obtain ⟨a', ha', hnudged⟩ := h.jobs i a hi ha
  exact ⟨a', ha', hnudged.job⟩

theorem Beside.of_nudged (hjobs : List.Forall₂ Assignment.Nudged n.jobs n'.jobs)
    (hhandlers : n'.handlers = n.handlers) (hpolicy : n'.policy = n.policy)
    (hsearches : n'.searches = n.searches) : Beside own n n' := by
  refine ⟨hhandlers, hpolicy, hsearches, fun i a _ ha => ?_⟩
  rcases nudged_getElem? hjobs i with ⟨hnone, -⟩ | ⟨b, a', hb, ha', hnudged⟩
  · rw [ha] at hnone
    cases hnone
  · obtain rfl : a = b := Option.some.inj (ha.symm.trans hb)
    exact ⟨a', ha', hnudged⟩

theorem Spares.of_jobs (h : n'.jobs = n.jobs) : Spares own n n' :=
  ⟨fun _ a _ ha => ⟨a, h ▸ ha, rfl⟩⟩

theorem Apart.of_jobs (hjobs : n'.jobs = n.jobs) (hhandlers : n'.handlers = n.handlers)
    (hcontents : n'.store.contents = n.store.contents)
    (hprojector : n'.model.projector = n.model.projector) : Apart n n' := by
  refine ⟨.of_jobs hjobs, hhandlers, hcontents, hprojector, fun i a hi ha => ?_⟩
  rw [hjobs, hi] at ha
  cases ha

theorem Admits.of_nudged (h : List.Forall₂ Assignment.Nudged n.jobs n'.jobs) : Admits n n' := by
  refine ⟨⟨fun i a _ ha => ?_⟩, fun i hi a ha => ?_⟩
  all_goals rcases nudged_getElem? h i with ⟨hnone, hnone'⟩ | ⟨b, b', hb, hb', hnudged⟩
  · rw [ha] at hnone
    cases hnone
  · obtain rfl : a = b := Option.some.inj (ha.symm.trans hb)
    exact ⟨b', hb', hnudged.job⟩
  · rw [ha] at hnone'
    cases hnone'
  · rw [hi] at hb
    cases hb

theorem Admits.of_jobs (h : n'.jobs = n.jobs) : Admits n n' := .of_nudged (h ▸ nudged_refl n.jobs)

theorem Apart.admits (h : Apart n n') : Admits n n' := by
  refine ⟨h.toSpares, fun i hi a ha => ?_⟩
  rw [h.received i a hi ha]
  rfl

/-- A job is one that was there, or has come in. -/
theorem Apart.job_cases (h : Apart n n') (ha : n'.jobs[i]? = some a) :
    (∃ b, n.jobs[i]? = some b ∧ a.job = b.job) ∨ n.jobs[i]? = none ∧ a.job.phase = .received := by
  cases hb : n.jobs[i]? with
  | none => exact .inr ⟨rfl, h.received i a hb ha⟩
  | some b =>
    obtain ⟨a', ha', hsame⟩ := h.spared i b trivial hb
    obtain rfl : a = a' := Option.some.inj (ha.symm.trans ha')
    exact .inl ⟨b, rfl, hsame⟩

theorem Untouched.refl (n : Node A S B) : Untouched n n :=
  ⟨rfl, rfl, rfl, rfl, rfl, rfl, rfl, rfl, rfl, rfl⟩

theorem Untouched.trans (h : Untouched n m) (h' : Untouched m n') : Untouched n n' :=
  ⟨h'.now.trans h.now, h'.handlers.trans h.handlers, h'.policy.trans h.policy,
    h'.searches.trans h.searches, h'.shutdown.trans h.shutdown, h'.commands.trans h.commands,
    h'.dispatchers.trans h.dispatchers, h'.lock.trans h.lock, h'.consumer.trans h.consumer,
    h'.lookups.trans h.lookups⟩

/-! ## Acts -/

/-- A write of a job is a write to the log, whatever the job is told of it. -/
theorem writeForJob_eq (n : Node A S B) (events : List (Payload A)) :
    (n.writeForJob events).2 = { n with
      store := (n.store.write events).2, lostAcks := (n.writeForJob events).2.lostAcks } := by
  rcases h : n.store.write events with ⟨answer, s⟩
  unfold writeForJob write
  rw [h]
  cases answer <;> rfl

/-- A signal reaches a stream and nothing else. -/
theorem signalWritten_eq (n : Node A S B) :
    n.signalWritten = { n with streams := n.signalWritten.streams } := by
  unfold signalWritten signal
  (repeat' split) <;> rfl

theorem signalled_eq (n : Node A S B) (answered : Bool) :
    (if answered then n.signalWritten else n) = { n with
      streams := (if answered then n.signalWritten else n).streams } := by
  cases answered with
  | true => exact signalWritten_eq n
  | false => rfl

theorem act_ask_of_known {stream : StreamId} {state : Option S}
    (h : n.model.known? stream = some state) : n.act (.ask stream) = n := by
  simp only [Node.act, h]

theorem act_ask_of_unknown {stream : StreamId} (h : n.model.known? stream = none) :
    n.act (.ask stream) = { n with store := (n.store.readStream stream Position.last).store }.note
      (n.store.readStream stream Position.last).notes := by
  simp only [Node.act, h]

/-- To ask for a stream reaches the log, where it is read, and nothing else. -/
theorem act_ask_eq (n : Node A S B) (stream : StreamId) : n.act (.ask stream) = { n with
    store := (n.model.get n.store stream).store
    notes := (n.act (.ask stream)).notes } := by
  dsimp only [Node.act, ReadModel.get]
  cases n.model.known? stream <;> rfl

/-- An act reaches the log, the read model, the streams that are signalled and the feeds. -/
theorem act_eq (n : Node A S B) (act : Act A) : n.act act = { n with
    store := (n.act act).store
    model := (n.act act).model
    streams := (n.act act).streams
    lostAcks := (n.act act).lostAcks
    results := (n.act act).results
    outcomes := (n.act act).outcomes
    notes := (n.act act).notes } := by
  cases act with
  | nothing => rfl
  | ask stream => rw [act_ask_eq]
  | keep stream page => rfl
  | announce r => rfl
  | write events | record r =>
    dsimp only [Node.act]
    rw [signalled_eq, writeForJob_eq]
  | search r =>
    dsimp only [Node.act]
    rw [signalled_eq]
    rfl

theorem untouched_act : Untouched n (n.act act) := by
  rw [act_eq]
  exact ⟨rfl, rfl, rfl, rfl, rfl, rfl, rfl, rfl, rfl, rfl⟩

@[simp] theorem jobs_act : (n.act act).jobs = n.jobs := by
  rw [act_eq]

theorem store_act : (n.act act).store =
    match act with
    | .nothing | .keep .. | .announce _ => n.store
    | .ask stream => (n.model.get n.store stream).store
    | .write events => (n.store.write events).2
    | .record r => (n.store.write [.outcome r.outcome]).2
    | .search r => (n.store.readStream r.outcome.stream Position.last).store := by
  cases act with
  | nothing => rfl
  | ask stream => rw [act_ask_eq]
  | keep stream page => rfl
  | announce r => rfl
  | write events | record r =>
    dsimp only [Node.act]
    rw [signalled_eq, writeForJob_eq]
  | search r =>
    dsimp only [Node.act]
    rw [signalled_eq]
    rfl

theorem model_act : (n.act act).model =
    match act with
    | .keep stream page => (n.model.digest stream page).2.1
    | _ => n.model := by
  cases act with
  | nothing => rfl
  | ask stream => rw [act_ask_eq]
  | keep stream page => rfl
  | announce r => rfl
  | write events | record r =>
    dsimp only [Node.act]
    rw [signalled_eq, writeForJob_eq]
  | search r =>
    dsimp only [Node.act]
    rw [signalled_eq]
    rfl

theorem feeds_act :
    (n.act act).results = act.announced.foldl (fun feed r => (feed.publish r).1) n.results ∧
      (n.act act).outcomes
        = act.announced.foldl (fun feed r => (feed.publish r.outcome).1) n.outcomes := by
  cases act with
  | nothing => exact ⟨rfl, rfl⟩
  | ask stream =>
    rw [act_ask_eq]
    exact ⟨rfl, rfl⟩
  | keep stream page => exact ⟨rfl, rfl⟩
  | announce r => exact ⟨rfl, rfl⟩
  | write events | record r =>
    dsimp only [Node.act, Act.announced, List.foldl_nil]
    rw [signalled_eq, writeForJob_eq]
    exact ⟨rfl, rfl⟩
  | search r =>
    dsimp only [Node.act, Act.announced, List.foldl_nil]
    rw [signalled_eq]
    exact ⟨rfl, rfl⟩

/-- A write that is acknowledged was accepted. -/
theorem accepted_of_acknowledged {events : List (Payload A)}
    (h : (n.writeForJob events).1.isOk = true) : (n.store.write events).1.isOk = true := by
  rcases hwrite : n.store.write events with ⟨answer, s⟩
  unfold writeForJob write at h
  rw [hwrite] at h
  cases answer with
  | ok written => rfl
  | error failure => exact h

/-- A job is told what becomes of its write, if no acknowledgement is lost. -/
theorem isOk_writeForJob (hacks : n.lostAcks = []) (events : List (Payload A)) :
    (n.writeForJob events).1.isOk = (n.store.write events).1.isOk := by
  rcases hwrite : n.store.write events with ⟨answer, s⟩
  unfold writeForJob write
  rw [hwrite]
  cases answer with
  | ok written =>
    dsimp only
    rw [hacks]
    rfl
  | error failure => rfl

theorem lostAcks_writeForJob (hacks : n.lostAcks = []) (events : List (Payload A)) :
    (n.writeForJob events).2.lostAcks = [] := by
  rcases h : n.store.write events with ⟨answer, s⟩
  unfold writeForJob write
  rw [h]
  cases answer with
  | ok written =>
    dsimp only
    rw [hacks, List.tail_nil]
  | error failure => exact hacks

/-- Without an acknowledgement to lose, none is lost by an act. -/
theorem lostAcks_act (hacks : n.lostAcks = []) : (n.act act).lostAcks = [] := by
  cases act with
  | nothing => exact hacks
  | ask stream =>
    rw [act_ask_eq]
    exact hacks
  | keep stream page => exact hacks
  | announce r => exact hacks
  | write events | record r =>
    dsimp only [Node.act]
    rw [signalled_eq]
    exact lostAcks_writeForJob hacks _
  | search r =>
    dsimp only [Node.act]
    rw [signalled_eq]
    exact hacks

theorem signalled_act : Signalled n (n.act act) := by
  have hsignal {m : Node A S B} (hm : m.streams = n.streams) (j : Nat) :
      (m.signal j).streams = (n.signal j).streams := by
    unfold signal putStream
    rw [hm]
    (repeat' split) <;> first | rfl | exact hm
  have hsignalled {m : Node A S B} (hm : m.streams = n.streams) (answered : Bool) :
      Signalled n (if answered then m.signalWritten else m) := by
    cases answered with
    | false => exact .inl hm
    | true =>
      simp only [if_true]
      unfold signalWritten
      split
      · exact .inr ⟨_, hsignal hm _⟩
      · exact .inl hm
  have hwritten (events : List (Payload A)) : (n.writeForJob events).2.streams = n.streams := by
    rw [writeForJob_eq]
  cases act with
  | nothing => exact .inl rfl
  | ask stream =>
    rw [act_ask_eq]
    exact .inl rfl
  | keep stream page => exact .inl rfl
  | announce r => exact .inl rfl
  | write events => exact hsignalled (hwritten _) _
  | record r => exact hsignalled (hwritten _) _
  | search r =>
    refine hsignalled ?_ _
    rfl

theorem Signalled.outlet (h : Signalled n n') (j : Nat) : n'.outlet j = n.outlet j := by
  have hof {m : Node A S B} (hm : n'.streams = m.streams) : n'.outlet j = m.outlet j := by
    unfold Node.outlet
    rw [hm]
  rcases h with hsame | ⟨i, hsignal⟩
  · exact hof hsame
  · exact (hof hsignal).trans (outlet_signal n i j)

/-! ## The step -/

theorem putJob_eq (n : Node A S B) (i : Nat) (a : Assignment A S B) :
    ∃ turns, n.putJob i a = { n with jobs := n.jobs.set i a, turns } := by
  unfold putJob
  by_cases h : a.job.isOver = true
  · simp only [h, if_true]
    exact ⟨_, rfl⟩
  · simp only [h, if_false, Bool.false_eq_true]
    exact ⟨_, rfl⟩

/-- The job is put back after the act. -/
theorem exists_putJob_act (n : Node A S B) (i : Nat) (act : Act A) (a' : Assignment A S B)
    (built : Nat) (notes : List Note) :
    ∃ built' notes' turns, ({ n.act act with built, notes }).putJob i a'
      = { n.act act with jobs := n.jobs.set i a', built := built', notes := notes', turns } := by
  obtain ⟨turns, hput⟩ := putJob_eq { n.act act with built, notes } i a'
  refine ⟨built, notes, turns, ?_⟩
  rw [hput]
  dsimp only
  rw [jobs_act]

theorem moveExecution_runs (h : n.moveExecution i a e = some n') :
    ∃ act a', Runs n a e act a' ∧ ∃ built notes turns,
      n' = { n.act act with jobs := n.jobs.set i a', built, notes, turns } := by
  unfold moveExecution at h
  cases hnext : e.next n.now (n.fired a) a.tokenFirst with
  | conclude c =>
    simp only [hnext] at h
    cases h
    exact ⟨_, _, .conclude c hnext, exists_putJob_act n i .nothing _ _ _⟩
  | goOn e' =>
    simp only [hnext] at h
    cases h
    exact ⟨_, _, .goOn e' hnext, exists_putJob_act n i .nothing _ _ _⟩
  | fire e' =>
    simp only [hnext] at h
    cases h
    exact ⟨_, _, .fire e' hnext, exists_putJob_act n i .nothing _ n.built n.notes⟩
  | ask stream resume =>
    simp only [hnext] at h
    cases hknown : n.model.known? stream with
    | some state =>
      simp only [hknown] at h
      cases h
      have hput := exists_putJob_act n i (.ask stream)
        { a with job := { a.job with phase := .executing (resume (.ok state)) } } n.built n.notes
      rw [act_ask_of_known hknown] at hput
      refine ⟨_, _, .answered stream resume state hnext hknown, ?_⟩
      rw [act_ask_of_known hknown]
      exact hput
    | none =>
      simp only [hknown] at h
      cases h
      have hput := exists_putJob_act n i (.ask stream) { a with job := { a.job with
        phase := .executing { e with page := some (n.store.readStream stream Position.last).page } } }
        n.built (n.act (.ask stream)).notes
      rw [act_ask_of_unknown hknown] at hput
      refine ⟨_, _, .read stream resume hnext hknown, ?_⟩
      rw [act_ask_of_unknown hknown]
      exact hput
  | keep stream page resume =>
    simp only [hnext] at h
    cases h
    exact ⟨_, _, .keep stream page resume hnext, exists_putJob_act n i (.keep stream page) _ _ _⟩
  | interrupt =>
    simp only [hnext] at h
    cases h
    exact ⟨_, _, .interrupt hnext, exists_putJob_act n i .nothing _ _ _⟩
  | wait =>
    simp only [hnext] at h
    cases h

theorem PhaseStep.runs (h : PhaseStep n a act a') (hphase : a.job.phase = .executing e) :
    Runs n a e act a' := by
  cases h with
  | execute e' hphase' hruns =>
    cases hphase.symm.trans hphase'
    exact hruns
  | collapse h _ | run _ h _ | refuse _ h _ | written _ h _ | announced _ h =>
    cases hphase.symm.trans h
  | unwritten _ _ h _ | found _ _ _ _ h _ | unfound _ _ h _ => cases hphase.symm.trans h
  | recorded _ _ h _ | unrecorded _ _ h _ _ | gaveUp _ _ h _ _ => cases hphase.symm.trans h
  | delay _ _ _ h _ | retry _ _ _ _ h _ _ => cases hphase.symm.trans h

theorem JobStep.goes (h : JobStep n a act a') (hcancel : n.cancelDue a = false) :
    PhaseStep n a act a' := by
  cases h with
  | expire h =>
    rw [hcancel] at h
    cases h
  | go _ hgoes => exact hgoes

theorem exists_of_moveJob (h : n.moveJob i = some n') : ∃ a, n.jobs[i]? = some a := by
  unfold moveJob at h
  cases ha : n.jobs[i]? with
  | none =>
    rw [ha] at h
    cases h
  | some a => exact ⟨a, rfl⟩

theorem nextAct_of_step (ha : n.jobs[i]? = some a) (h : JobStep n a act a') :
    n.nextAct i = act := by
  simp only [nextAct, ha]
  cases h with
  | expire hcancel => rw [if_pos hcancel]
  | go hcancel hgoes =>
    rw [hcancel, if_neg Bool.false_ne_true]
    cases hgoes with
    | execute e hphase hruns => cases hruns <;> simp only [*]
    | _ => simp only [*]

/-- An answer is what the cache knows of the stream, or what is made of what was read. -/
theorem reply_cases {s : StreamId} {answer : Except RuntimeError (Option S)}
    (h : n.reply act = some (s, answer)) :
    (∃ state, act = .ask s ∧ n.model.known? s = some state ∧ answer = .ok state) ∨
      ∃ page, act = .keep s page ∧ answer = (n.model.digest s page).1 := by
  cases act with
  | ask stream =>
    obtain ⟨state, hknown, heq⟩ := Option.map_eq_some_iff.mp h
    cases heq
    exact .inl ⟨state, rfl, hknown, rfl⟩
  | keep stream page =>
    cases h
    exact .inr ⟨page, rfl, rfl⟩
  | _ => cases h

theorem asks_of_reply {s : StreamId} {answer : Except RuntimeError (Option S)}
    (h : n.reply act = some (s, answer)) : act.asks = true := by
  obtain ⟨state, rfl, -⟩ | ⟨page, rfl, -⟩ := reply_cases h <;> rfl

theorem executing_of_asks (ha : n.jobs[i]? = some a) (h : (n.nextAct i).asks = true) :
    ∃ e, a.job.phase = .executing e := by
  have hact := nextAct.eq_def n i
  simp only [ha] at hact
  split at hact
  · rw [hact] at h
    cases h
  · cases hphase : a.job.phase with
    | executing e => exact ⟨e, rfl⟩
    | _ =>
      rw [hphase] at hact
      rw [hact] at h
      cases h

/-- What is kept was read before. -/
theorem asked_of_keep {s : StreamId} {page : Page A} (ha : n.jobs[i]? = some a)
    (h : n.nextAct i = .keep s page) : a.job.phase.asked? = some (s, page) := by
  rw [nextAct] at h
  simp only [ha] at h
  split at h
  · cases h
  · cases hphase : a.job.phase with
    | executing e =>
      simp only [hphase] at h
      split at h
      · cases h
      · rename_i stream page' resume hnext
        cases h
        obtain ⟨hpage, rest, hwork, -⟩ := Execution.work_of_keep hnext
        exact JobPhase.asked?_executing.mpr ⟨hpage, rest, hwork⟩
      · cases h
    | _ => simp [hphase] at h

/-- What a step of a job does, and where it leaves the job. -/
theorem moveJob_moved (ha : n.jobs[i]? = some a) (h : n.moveJob i = some n') :
    ∃ a', Moved n n' i a a' := by
  have hmoved {act : Act A} {a' : Assignment A S B} (hrunning : a.job.isOver = false)
      (hstep : JobStep n a act a') (hnode : ∃ built notes turns,
        n' = { n.act act with jobs := n.jobs.set i a', built, notes, turns }) :
      ∃ a', Moved n n' i a a' := by
    obtain rfl := nextAct_of_step ha hstep
    exact ⟨a', ha, hrunning, hstep, hnode⟩
  have hrunning : a.job.isOver = false := by
    cases hover : a.job.isOver with
    | true => simp [moveJob, ha, hover] at h
    | false => rfl
  simp only [moveJob, ha, hrunning, if_false, Bool.false_eq_true] at h
  cases hcancel : n.cancelDue a with
  | true =>
    simp only [hcancel, if_true] at h
    cases h
    exact hmoved hrunning (.expire hcancel) (exists_putJob_act n i .nothing _ n.built n.notes)
  | false =>
    have hmoved {act : Act A} {a' : Assignment A S B} (hgoes : PhaseStep n a act a')
        (hnode : ∃ built notes turns,
          n' = { n.act act with jobs := n.jobs.set i a', built, notes, turns }) :
        ∃ a', Moved n n' i a a' := hmoved hrunning (.go hcancel hgoes) hnode
    simp only [hcancel, if_false, Bool.false_eq_true] at h
    cases hphase : a.job.phase with
    | received =>
      simp only [hphase, Job.begin] at h
      cases hresolve : (n.handlers.resolve a.job.command (n.fired a)).1 with
      | run e =>
        simp only [hresolve] at h
        cases h
        exact hmoved (.run e hphase hresolve) (exists_putJob_act n i .nothing _ _ _)
      | refused r =>
        simp only [hresolve] at h
        cases h
        exact hmoved (.refuse r hphase hresolve) (exists_putJob_act n i .nothing _ _ _)
      | collapsed =>
        simp only [hresolve] at h
        cases h
        exact hmoved (.collapse hphase hresolve) (exists_putJob_act n i .nothing _ _ _)
    | executing e =>
      simp only [hphase] at h
      obtain ⟨act, a', hruns, hnode⟩ := moveExecution_runs h
      exact hmoved (.execute e hphase hruns) hnode
    | writing r =>
      simp only [hphase] at h
      cases h
      refine hmoved ?_ (exists_putJob_act n i (.write r.events) _ _ _)
      simp only [Job.eventsAnswered, hphase]
      cases hanswer : (n.writeForJob r.events).1 with
      | ok written => exact .written r hphase (by rw [hanswer]; rfl)
      | error failure => exact .unwritten r _ hphase (by rw [hanswer]; rfl)
    | checking r k =>
      simp only [hphase] at h
      cases h
      refine hmoved ?_ (exists_putJob_act n i (.search r) _ _ _)
      simp only [Job.searchAnswered, hphase]
      cases hpage : (n.store.readStream r.outcome.stream Position.last).page with
      | error failure => exact .unfound r k hphase (by rw [hpage]; nofun)
      | ok events =>
        cases events with
        | nil => exact .unfound r k hphase (by rw [hpage]; nofun)
        | cons e rest => exact .found r k e rest hphase hpage
    | recording r k =>
      simp only [hphase] at h
      cases h
      refine hmoved ?_ (exists_putJob_act n i (.record r) _ _ _)
      have huntouched : Untouched n (n.act (.record r)) := untouched_act
      have hpolicy := huntouched.policy
      simp only [Node.act] at hpolicy
      rw [hpolicy]
      cases hanswer : (n.writeForJob [.outcome r.outcome]).1 with
      | ok written =>
        simp only [Job.outcomeAnswered, hphase]
        exact .recorded r k hphase (by rw [hanswer]; rfl)
      | error failure =>
        have hfailed : (n.writeForJob [.outcome r.outcome]).1.isOk = false := by
          rw [hanswer]
          rfl
        rw [Job.outcomeAnswered_error hphase]
        by_cases hmax : n.policy.maxRetries ≤ k
        · simp only [hmax, if_true]
          exact .gaveUp r k hphase hfailed hmax
        · simp only [hmax, if_false]
          exact .unrecorded r k hphase hfailed (Nat.lt_of_not_le hmax)
    | backingOff r k delay =>
      simp only [hphase] at h
      cases hdue : a.due with
      | none =>
        simp only [hdue] at h
        cases h
        exact hmoved (.delay r k delay hphase hdue) (exists_putJob_act n i .nothing _ n.built n.notes)
      | some time =>
        simp only [hdue] at h
        split at h
        · rename_i hnow
          cases h
          refine hmoved ?_ (exists_putJob_act n i .nothing _ n.built _)
          simp only [Job.resume, hphase]
          exact .retry r k delay time hphase hdue hnow
        · cases h
    | announcing r =>
      simp only [hphase] at h
      cases h
      refine hmoved ?_ (exists_putJob_act n i (.announce r) _ _ _)
      simp only [Job.announced, hphase]
      exact .announced r hphase
    | finished r => simp [Job.isOver, hphase] at hrunning
    | crashed => simp [Job.isOver, hphase] at hrunning

namespace Moved

variable (h : Moved n n' i a a')
include h

theorem untouched : Untouched n n' := by
  obtain ⟨built, notes, turns, rfl⟩ := h.node
  exact untouched_act.trans ⟨rfl, rfl, rfl, rfl, rfl, rfl, rfl, rfl, rfl, rfl⟩

theorem signalled : Signalled n n' := by
  obtain ⟨built, notes, turns, rfl⟩ := h.node
  exact signalled_act

theorem jobs : n'.jobs = n.jobs.set i a' := by
  obtain ⟨built, notes, turns, rfl⟩ := h.node
  rfl

theorem after : n'.jobs[i]? = some a' := by
  rw [h.jobs, List.getElem?_set_self (List.getElem?_eq_some_iff.mp h.before).1]

theorem store : n'.store = (n.act (n.nextAct i)).store := by
  obtain ⟨built, notes, turns, rfl⟩ := h.node
  rfl

theorem model : n'.model = (n.act (n.nextAct i)).model := by
  obtain ⟨built, notes, turns, rfl⟩ := h.node
  rfl

theorem lostAcks : n'.lostAcks = (n.act (n.nextAct i)).lostAcks := by
  obtain ⟨built, notes, turns, rfl⟩ := h.node
  rfl

theorem results : n'.results = (n.act (n.nextAct i)).results := by
  obtain ⟨built, notes, turns, rfl⟩ := h.node
  rfl

theorem outcomes : n'.outcomes = (n.act (n.nextAct i)).outcomes := by
  obtain ⟨built, notes, turns, rfl⟩ := h.node
  rfl

end Moved

/-- The steps of another job are among what goes on beside a job. -/
theorem Moved.beside (h : Moved n n' k a a') (hki : k ≠ i) : Beside (· = i) n n' where
  handlers := h.untouched.handlers
  policy := h.untouched.policy
  searches := h.untouched.searches
  jobs := by
    rintro _ b rfl hb
    refine ⟨b, ?_, .none⟩
    rw [h.jobs, List.getElem?_set_ne hki, hb]

theorem untouched_moveJob (h : n.moveJob i = some n') : Untouched n n' := by
  obtain ⟨a, ha⟩ := exists_of_moveJob h
  obtain ⟨a', hmoved⟩ := moveJob_moved ha h
  exact hmoved.untouched

/-- What a job announces goes to both feeds, whatever fails. -/
theorem published_moveJob (h : n.moveJob i = some n') :
    n'.results = (n.announces i).foldl (fun feed r => (feed.publish r).1) n.results ∧
      n'.outcomes = (n.announces i).foldl (fun feed r => (feed.publish r.outcome).1) n.outcomes := by
  obtain ⟨a, ha⟩ := exists_of_moveJob h
  obtain ⟨a', hmoved⟩ := moveJob_moved ha h
  rw [announces, hmoved.results, hmoved.outcomes]
  exact feeds_act

/-! ## The job -/

/-- A source that is due to fire has not fired yet. -/
theorem taken_of_cancelDue (h : n.cancelDue a = true) :
    a.Taken n.policy a.job.phase (fireOwn a) := by
  refine ⟨job_fireOwn, cancelAt_fireOwn, .inr rfl, ?_⟩
  rintro (hnone | ⟨source, htoken, hheld⟩)
  · simp only [cancelDue, hnone] at h
    split at h <;> simp_all
  · refine lower_of_fireOwn htoken hheld ?_
    unfold cancelDue at h
    split at h
    · cases h
    · simpa [fired, htoken] using (Bool.and_eq_true_iff.mp h).2
    · cases h

/-- A step of a handler's run leaves less of it, or sets its timer. -/
theorem Runs.taken (h : Runs n a e act a') (hphase : a.job.phase = .executing e) :
    a.Taken n.policy a'.job.phase a' := by
  have hover {r : ProcessingResult A} : (a.job.conclude r).phase.stage < a.job.phase.stage := by
    rw [Job.stage_conclude, hphase]
    exact Nat.zero_lt_one
  have hwork {w : Work A S} (hrest : Work.Rest w e.work) :
      Work.Rest w a.job.phase.work := by
    rw [hphase]
    exact hrest
  have hstage {e' : Execution A S} :
      (JobPhase.executing e').stage = a.job.phase.stage := by
    rw [hphase]
    rfl
  cases h with
  | conclude c _ => exact taken_of_stage rfl hover
  | interrupt _ => exact taken_of_stage rfl hover
  | goOn e' hnext =>
    rcases (Execution.rest_of_goOn hnext).2 with ⟨hsame, hnone, hsome⟩ | ⟨-, hrest⟩
    · rw [hsame]
      refine taken_of_left rfl hstage (by rw [hphase]; rfl) ?_
      rw [hphase]
      simp only [JobPhase.left, hnone, Option.isNone_none, if_true]
      rw [← Option.not_isSome, hsome]
      exact Nat.add_lt_add_right Nat.zero_lt_one _
    · exact taken_of_work rfl hstage (hwork hrest)
  | fire e' hnext =>
    obtain ⟨rest, hfire, rfl⟩ := Execution.work_of_fire hnext
    refine ⟨by rw [job_fireOwn], cancelAt_fireOwn, .inr rfl, fun _ => lower_of_work hstage ?_⟩
    exact hwork (hfire ▸ .fireToken rest)
  | answered stream resume state hnext _ =>
    obtain ⟨-, rest, hask, rfl⟩ := Execution.work_of_ask hnext
    exact taken_of_work rfl hstage (hwork (hask ▸ .query stream rest _))
  | read stream resume hnext _ =>
    refine taken_of_left rfl hstage (by rw [hphase]; rfl) ?_
    rw [hphase]
    simp only [JobPhase.left, (Execution.work_of_ask hnext).1, Option.isNone_none,
      Option.isNone_some, if_true, Bool.false_eq_true, if_false]
    exact Nat.lt_succ_self _
  | keep stream page resume hnext =>
    obtain ⟨-, rest, hask, rfl⟩ := Execution.work_of_keep hnext
    exact taken_of_work rfl hstage (hwork (hask ▸ .query stream rest _))

/-- A step leaves less to do. -/
theorem PhaseStep.taken (h : PhaseStep n a act a') : a.Taken n.policy a'.job.phase a' := by
  have hleft {phase phase' : JobPhase A S} (hphase : a.job.phase = phase)
      (hstage : phase'.stage = phase.stage) (hwork : phase'.work = phase.work)
      (hlt : phase'.left n.policy none < phase.left n.policy a.due) :
      a.Taken n.policy (a.goTo phase').job.phase (a.goTo phase') := by
    subst hphase
    exact taken_of_left rfl hstage hwork hlt
  cases h with
  | run e hphase _ => exact taken_of_stage rfl (by rw [hphase]; exact Nat.one_lt_two)
  | refuse r hphase _ =>
    refine taken_of_stage rfl ?_
    rw [Job.stage_conclude, hphase]
    exact Nat.zero_lt_two
  | collapse hphase _ => exact taken_of_stage rfl (by rw [hphase]; exact Nat.zero_lt_two)
  | execute e hphase hruns => exact hruns.taken hphase
  | written r hphase _ => exact hleft hphase rfl rfl (by simp only [JobPhase.left]; omega)
  | unwritten r _ hphase _ => exact hleft hphase rfl rfl (by simp only [JobPhase.left]; omega)
  | found r k _ _ hphase _ => exact hleft hphase rfl rfl (by simp only [JobPhase.left]; omega)
  | unfound r k hphase _ => exact hleft hphase rfl rfl (by simp only [JobPhase.left]; omega)
  | recorded r k hphase _ => exact hleft hphase rfl rfl (by simp only [JobPhase.left]; omega)
  | unrecorded r k hphase _ hlt =>
    refine hleft hphase rfl rfl ?_
    simp only [JobPhase.left, Option.isNone_none, if_true]
    omega
  | gaveUp r k hphase _ _ => exact hleft hphase rfl rfl (by simp only [JobPhase.left]; omega)
  | delay r k delay hphase hdue =>
    refine taken_of_left rfl rfl rfl ?_
    rw [hphase, hdue]
    simp [JobPhase.left]
  | retry r k delay time hphase hdue _ =>
    refine hleft hphase (by split <;> rfl) (by split <;> rfl) ?_
    rw [hdue]
    split <;> simp [JobPhase.left]
  | announced r hphase => exact hleft hphase rfl rfl Nat.zero_lt_one

/-- What a job holds for an answer it held before the step, or has read in it. -/
theorem JobStep.asked (h : JobStep n a act a') {s : StreamId} {page : Page A}
    (hasked : a'.job.phase.asked? = some (s, page)) : a.job.phase.asked? = some (s, page) ∨
      act = .ask s ∧ n.model.known? s = none ∧
        page = (n.store.readStream s Position.last).page := by
  cases h with
  | expire _ => exact .inl (by rwa [job_fireOwn] at hasked)
  | go _ hgoes =>
    cases hgoes with
    | run e _ hresolve =>
      have hpage := (JobPhase.asked?_executing.mp hasked).1
      rw [HandlerTable.page_of_run hresolve] at hpage
      cases hpage
    | refuse r _ _ => cases (Job.asked?_conclude a.job r).symm.trans hasked
    | execute e hphase hruns =>
      rw [hphase]
      cases hruns with
      | goOn e' hnext =>
        obtain ⟨hpage, rest, hwork⟩ := JobPhase.asked?_executing.mp hasked
        rcases (Execution.rest_of_goOn hnext).2 with ⟨hsame, -⟩ | ⟨hnone, -⟩
        · rw [hsame] at hpage hwork
          exact .inl (JobPhase.asked?_executing.mpr ⟨hpage, rest, hwork⟩)
        · rw [hnone] at hpage
          cases hpage
      | fire e' hnext =>
        obtain ⟨rest, -, rfl⟩ := Execution.work_of_fire hnext
        cases (JobPhase.asked?_executing.mp hasked).1
      | answered stream resume state hnext _ =>
        obtain ⟨-, rest, -, rfl⟩ := Execution.work_of_ask hnext
        cases (JobPhase.asked?_executing.mp hasked).1
      | read stream resume hnext hknown =>
        obtain ⟨-, rest, hquery, -⟩ := Execution.work_of_ask hnext
        obtain ⟨hpage, rest', hwork⟩ := JobPhase.asked?_executing.mp hasked
        cases hquery.symm.trans hwork
        exact .inr ⟨rfl, hknown, (Option.some.inj hpage).symm⟩
      | keep stream page' resume hnext =>
        obtain ⟨-, rest, -, rfl⟩ := Execution.work_of_keep hnext
        cases (JobPhase.asked?_executing.mp hasked).1
      | conclude c _ => cases (Job.asked?_conclude a.job _).symm.trans hasked
      | interrupt _ => cases (Job.asked?_conclude a.job _).symm.trans hasked
    | delay r k delay hphase _ =>
      rw [hphase] at hasked ⊢
      exact .inl hasked
    | retry r k delay time _ _ _ =>
      split at hasked <;> cases hasked
    | _ => cases hasked

theorem held_of_nil (hnil : n.jobs = []) : n.Held right := by
  intro i a s page ha
  rw [hnil] at ha
  cases ha

theorem Held.mono (h : n.Held right) (hright : ∀ i s page, right i s page → right' i s page) :
    n.Held right' :=
  fun i a s page ha hasked => hright i s page (h i a s page ha hasked)

theorem Held.of_jobs (h : n.Held right) (hjobs : n'.jobs = n.jobs) : n'.Held right :=
  fun i a s page ha hasked => h i a s page (hjobs ▸ ha) hasked

theorem Held.admits (h : n.Held right) (hadmits : Admits n n') : n'.Held right := by
  intro i a s page ha hasked
  cases hb : n.jobs[i]? with
  | none =>
    rw [hadmits.unread i hb a ha] at hasked
    cases hasked
  | some b =>
    obtain ⟨a', ha', hsame⟩ := hadmits.spared i b trivial hb
    obtain rfl : a = a' := Option.some.inj (ha.symm.trans ha')
    exact h i b s page hb (hsame ▸ hasked)

theorem Held.apart (h : n.Held right) (hapart : Apart n n') : n'.Held right :=
  h.admits hapart.admits

/-- What is kept was held. -/
theorem Held.kept (h : n.Held right) {s : StreamId} {page : Page A}
    (hact : n.nextAct i = .keep s page) : right i s page := by
  cases ha : n.jobs[i]? with
  | none =>
    simp only [nextAct, ha] at hact
    cases hact
  | some a => exact h i a s page ha (asked_of_keep ha hact)

/-- What jobs hold stays right, if what a step reads is. -/
theorem Held.moved (h : n.Held right) (hmoved : Moved n n' i a a')
    (hread : ∀ s, n.nextAct i = .ask s → n.model.known? s = none →
      right i s (n.store.readStream s Position.last).page) :
    n'.Held right := by
  intro k b s page hb hasked
  rw [hmoved.jobs, List.getElem?_set] at hb
  split at hb
  · rename_i hik
    subst hik
    split at hb
    · cases hb
      rcases hmoved.step.asked hasked with hheld | ⟨hask, hunknown, rfl⟩
      · exact h i a s page hmoved.before hheld
      · exact hread s hask hunknown
    · cases hb
  · exact h k b s page hb hasked

theorem JobStep.taken (h : JobStep n a act a') : a.Taken n.policy a'.job.phase a' := by
  cases h with
  | expire hcancel =>
    rw [job_fireOwn]
    exact taken_of_cancelDue hcancel
  | go _ hgoes => exact hgoes.taken

end Node
end Chronicle
