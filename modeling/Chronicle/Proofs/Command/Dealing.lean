import Chronicle.Node.Schedule
import Chronicle.Proofs.Command.Books
import Chronicle.Proofs.Command.Working
import Chronicle.Proofs.Projection.Applying
import Chronicle.Proofs.Running

/-!
# Chronicle.Proofs.Command.Dealing

What jobs are told by the read model and what they write, in the order in which it happens (`Deed`).
A history goes with every course of a node, in which jobs take steps in any order with everything
else (`Dealings`). Everything else is all that the other tasks of a node do (`meanwhile_of_move`).
-/

namespace Chronicle

/-! ## What jobs are told and what they write -/

/-- What others can contradict, or cannot ignore, of the doings of a job. -/
inductive Deed (A : Type) where
  /-- A job finds that a stream has no projection: the cache knows that, or else the log was read. -/
  | told (job : Nat) (stream : StreamId) (known : Bool)
  /-- A batch is accepted. -/
  | wrote (job : Nat) (batch : List (Payload A))

def Deed.batch {A : Type} : Deed A → List (Payload A)
  | .told .. => []
  | .wrote _ batch => batch

def writtenBy {A : Type} (history : List (Deed A)) : List (Payload A) := history.flatMap Deed.batch

def Orderly {A : Type} (right : List (Deed A) → Deed A → Prop) (history : List (Deed A)) : Prop :=
  ∀ earlier d later, history = earlier ++ d :: later → right earlier d

section History

variable {A : Type} {right : List (Deed A) → Deed A → Prop} {history more : List (Deed A)}
  {d : Deed A} {effect : Effect A}

theorem writtenBy_append : writtenBy (history ++ more) = writtenBy history ++ writtenBy more :=
  List.flatMap_append

theorem orderly_nil : Orderly right [] := by
  intro earlier d later h
  simp at h

theorem Orderly.concat (h : Orderly right history) (hd : right history d) :
    Orderly right (history ++ [d]) := by
  intro earlier d' later heq
  rcases split_concat heq with ⟨rfl, rfl⟩ | ⟨init, hinit⟩
  · exact hd
  · exact h earlier d' init hinit

theorem Orderly.of_append (h : Orderly right (history ++ more)) : Orderly right history := by
  rintro earlier d later rfl
  exact h earlier d (later ++ more) (by simp)

/-- What a step with an effect has put into the log. -/
def Effect.deeds (i : Nat) : Effect A → List (Deed A)
  | .write batch true => [.wrote i batch]
  | _ => []

theorem writtenBy_deeds (i : Nat) : writtenBy (effect.deeds i) = effect.appended := by
  cases effect with
  | write batch accepted =>
    cases accepted with
    | true => exact List.flatMap_singleton Deed.batch (.wrote i batch)
    | false => rfl
  | nothing => rfl
  | announce r => rfl

end History

namespace Node

variable {A S B : Type} [Vocabulary A] {n n' : Node A S B} {i : Nat} {a a' : Assignment A S B}
  {e : Execution A S} {effect : Effect A} {act : Act A} {log : List (Event A)}

/-- What a job finds in its next step, if that is that there is nothing. Of what it has read it finds
that at once; the cache may know better, and tell it so, when that is to be kept. -/
def hearsay (n : Node A S B) (i : Nat) : List (Deed A) :=
  match n.nextAct i with
  | .ask s =>
    match n.model.known? s with
    | some state => if state.isNone then [.told i s true] else []
    | none =>
      if n.model.projector.findsNothing (n.store.readStream s Position.last).page then
        [.told i s false]
      else []
  | .keep s page =>
    match (n.model.digest s page).1 with
    | .ok none => if n.model.projector.findsNothing page then [] else [.told i s true]
    | _ => []
  | _ => []

def deeds (n : Node A S B) (i : Nat) : List (Deed A) :=
  n.hearsay i ++ ((n.attempt i).filter (·.accepted)).map fun w => .wrote i w.batch

/-- What goes on besides the steps of jobs: time passes, tokens fire, reads and writes are made to
fail, the read model changes in any way, further commands come in. -/
structure Meanwhile (n n' : Node A S B) : Prop extends Apart n n' where
  acks : n'.lostAcks = n.lostAcks
  persists : ∀ (i : Nat) (a : Assignment A S B), n.jobs[i]? = none → n'.jobs[i]? = some a →
    a.job.persists = true

/-- What a node comes to, in any order of steps, with their history. -/
inductive Dealings (n : Node A S B) : List (Deed A) → Node A S B → Prop where
  | start : Dealings n [] n
  | job {history : List (Deed A)} {m m' : Node A S B} (i : Nat) : Dealings n history m →
      m.moveJob i = some m' → m'.store.length < 0x10000000000000000 →
      Dealings n (history ++ m.deeds i) m'
  | meanwhile {history : List (Deed A)} {m m' : Node A S B} : Dealings n history m →
      Meanwhile m m' → Dealings n history m'

theorem deeds_eq (h : n.attempt i = effect.writes i) :
    n.deeds i = n.hearsay i ++ effect.deeds i := by
  rw [deeds, h]
  cases effect with
  | write batch accepted => cases accepted <;> rfl
  | nothing => rfl
  | announce r => rfl

/-- If a job finds nothing, then the cache has told it so, or the log that it has just read. -/
theorem hearsay_cases (n : Node A S B) (i : Nat) : n.hearsay i = [] ∨
    ∃ s known, n.hearsay i = [.told i s known] ∧ (known = false →
      n.model.projector.findsNothing (n.store.readStream s Position.last).page = true) := by
  unfold hearsay
  cases n.nextAct i with
  | ask s =>
    dsimp only
    cases n.model.known? s with
    | some state =>
      dsimp only
      split
      · exact .inr ⟨s, true, rfl, nofun⟩
      · exact .inl rfl
    | none =>
      dsimp only
      split
      · exact .inr ⟨s, false, rfl, fun _ => ‹_›⟩
      · exact .inl rfl
  | keep s page =>
    dsimp only
    split
    · split
      · exact .inl rfl
      · exact .inr ⟨s, true, rfl, nofun⟩
    · exact .inl rfl
  | _ => exact .inl rfl

/-- A job that is answered that there is nothing finds it now, or has found it when it read. -/
theorem hearsay_of_reply {s : StreamId} (ha : n.jobs[i]? = some a)
    (hreply : n.reply (n.nextAct i) = some (s, .ok none)) :
    (∃ known, n.hearsay i = [.told i s known]) ∨ ∃ page, a.job.phase.asked? = some (s, page) ∧
      n.model.projector.findsNothing page = true := by
  rcases reply_cases hreply with ⟨state, hact, hknown, heq⟩ | ⟨page, hact, hanswer⟩
  · cases heq
    exact .inl ⟨true, by simp [hearsay, hact, hknown]⟩
  · by_cases hfinds : n.model.projector.findsNothing page = true
    · exact .inr ⟨page, asked_of_keep ha hact, hfinds⟩
    · exact .inl ⟨true, by simp [hearsay, hact, ← hanswer, hfinds]⟩

theorem writtenBy_hearsay : writtenBy (n.hearsay i) = [] := by
  rcases hearsay_cases n i with h | ⟨s, known, h, -⟩ <;> rw [h] <;> rfl

/-- A handler that asks is answered or has read its stream, unless its source is due to fire or its
token stops it. -/
theorem JobStep.query (h : JobStep n a act a') (hphase : a.job.phase = .executing e)
    {s : StreamId} {next : Except RuntimeError (Option S) → Work A S}
    (hwork : e.work = .query s next) : a'.job = a.job ∨ a'.job = a.job.interrupt ∨
      (act = .ask s ∧ n.model.known? s = none ∧ a'.job = { a.job with
        phase := .executing { e with page := some (n.store.readStream s Position.last).page } }) ∨
      ∃ answer, n.reply act = some (s, answer) ∧ a'.job = { a.job with
        phase := .executing { work := next answer } } := by
  cases h with
  | expire _ => exact .inl job_fireOwn
  | go _ hgoes =>
    have hruns := hgoes.runs hphase
    right
    cases hruns with
    | interrupt _ => exact .inl rfl
    | answered stream resume state hnext hknown =>
      obtain ⟨-, rest, hquery, rfl⟩ := Execution.work_of_ask hnext
      cases hwork.symm.trans hquery
      exact .inr (.inr ⟨.ok state, by rw [reply, hknown]; rfl, rfl⟩)
    | read stream resume hnext hknown =>
      obtain ⟨-, rest, hquery, rfl⟩ := Execution.work_of_ask hnext
      cases hwork.symm.trans hquery
      exact .inr (.inl ⟨rfl, hknown, rfl⟩)
    | keep stream page resume hnext =>
      obtain ⟨-, rest, hquery, rfl⟩ := Execution.work_of_keep hnext
      cases hwork.symm.trans hquery
      exact .inr (.inr ⟨_, rfl, rfl⟩)
    | conclude c hnext =>
      cases hwork.symm.trans (Execution.work_of_conclude hnext)
    | goOn e' hnext => exact absurd hwork ((Execution.rest_of_goOn hnext).1 s next)
    | fire e' hnext =>
      obtain ⟨rest, hfire, -⟩ := Execution.work_of_fire hnext
      cases hwork.symm.trans hfire

/-- How a step takes a job on whose handler's run is not over, to a phase. -/
inductive Proceeds (n : Node A S B) (a : Assignment A S B) (act : Act A) : JobPhase A S → Prop where
  /-- A token is fired. -/
  | rest : Proceeds n a act a.job.phase
  | run (fired : Bool) (e : Execution A S) :
      (n.handlers.resolve a.job.command fired).1 = .run e → Proceeds n a act (.executing e)
  | collapse : Proceeds n a act .crashed
  /-- It stays where it is, to set a timer or to read. -/
  | stay (e e' : Execution A S) : a.job.phase = .executing e → e'.work = e.work →
      Proceeds n a act (.executing e')
  | goOn (e e' : Execution A S) : a.job.phase = .executing e → Work.Rest e'.work e.work →
      (∀ s next, e.work = .query s next →
        ∃ answer, n.reply act = some (s, answer) ∧ e'.work = next answer) →
      Proceeds n a act (.executing e')
  /-- There is a result. It has the events that the handler returned, or none. -/
  | decide (r : ProcessingResult A) : r.events = [] ∨ (∃ e h, a.job.phase = .executing e ∧
      e.work = .finish (.handled h) ∧ r.events = h.events) → Proceeds n a act (a.job.conclude r).phase

theorem Runs.proceeds (h : Runs n a e act a') (hphase : a.job.phase = .executing e) :
    Proceeds n a act a'.job.phase := by
  cases h with
  | conclude c hnext =>
    refine .decide _ ?_
    rcases ProcessingResult.events_classify a.job.command.id (n.fired a) c with
      ⟨handled, rfl, hevents⟩ | hevents
    · exact .inr ⟨e, handled, hphase, Execution.work_of_conclude hnext, hevents⟩
    · exact .inl hevents
  | goOn e' hnext =>
    obtain ⟨hasks, ⟨hsame, -⟩ | ⟨-, hrest⟩⟩ := Execution.rest_of_goOn hnext
    · exact .stay e e' hphase (by rw [hsame])
    · exact .goOn e e' hphase hrest fun s next hwork => absurd hwork (hasks s next)
  | fire e' hnext =>
    obtain ⟨rest, hwork, rfl⟩ := Execution.work_of_fire hnext
    exact .goOn e _ hphase (hwork ▸ .fireToken rest) (by rw [hwork]; nofun)
  | answered stream resume state hnext hknown =>
    obtain ⟨-, rest, hwork, rfl⟩ := Execution.work_of_ask hnext
    refine .goOn e _ hphase (hwork ▸ .query stream rest _) fun s next hasks => ?_
    cases hwork.symm.trans hasks
    exact ⟨.ok state, by rw [reply, hknown]; rfl, rfl⟩
  | read stream resume hnext _ => exact .stay e _ hphase rfl
  | keep stream page resume hnext =>
    obtain ⟨-, rest, hwork, rfl⟩ := Execution.work_of_keep hnext
    refine .goOn e _ hphase (hwork ▸ .query stream rest _) fun s next hasks => ?_
    cases hwork.symm.trans hasks
    exact ⟨_, rfl, rfl⟩
  | interrupt _ => exact .decide (.interrupted a.job.command.id) (.inl rfl)

/-- A job whose handler's run is not over proceeds, whatever is lost or fails. -/
theorem JobStep.proceeds (h : JobStep n a act a') (hundecided : a.job.phase.Undecided) :
    Proceeds n a act a'.job.phase := by
  cases h with
  | expire _ => rw [job_fireOwn]; exact .rest
  | go _ hgoes =>
    cases hgoes with
    | run e _ hresolve => exact .run _ e hresolve
    | refuse r _ hresolve => exact .decide r (.inl (HandlerTable.resolve_refused hresolve).2)
    | collapse _ _ => exact .collapse
    | execute e hphase hruns => exact hruns.proceeds hphase
    | _ => simp_all [JobPhase.Undecided]

/-! ## The other tasks -/

/-- What pulls, lookups and the consumer leave alone is the same in both nodes. -/
structure Cleared (n n' : Node A S B) : Prop where
  jobs : n'.jobs = n.jobs
  handlers : n'.handlers = n.handlers
  policy : n'.policy = n.policy
  searches : n'.searches = n.searches
  acks : n'.lostAcks = n.lostAcks
  shutdown : n'.shutdown = n.shutdown
  commands : n'.commands = n.commands
  dispatchers : n'.dispatchers = n.dispatchers
  contents : n'.store.contents = n.store.contents
  writes : n'.store.writeFaults = n.store.writeFaults
  projector : n'.model.projector = n.model.projector

theorem cleared_stop (i : Nat) : Cleared n (n.stop i) := by
  unfold stop
  (repeat' split) <;> exact ⟨rfl, rfl, rfl, rfl, rfl, rfl, rfl, rfl, rfl, rfl, rfl⟩

theorem cleared_movePull (h : n.movePull i = some n') : Cleared n n' := by
  simp only [movePull, movePolling, movePushed, moveReplaying] at h
  (repeat' split at h) <;> cases h <;>
    first
    | exact cleared_stop i
    | exact ⟨rfl, rfl, rfl, rfl, rfl, rfl, rfl, rfl, Store.after_readFrom.contents,
        Store.writeFaults_readFrom _, rfl⟩
    | exact ⟨rfl, rfl, rfl, rfl, rfl, rfl, rfl, rfl, rfl, rfl, rfl⟩

theorem cleared_moveLookup (h : n.moveLookup i = some n') : Cleared n n' := by
  simp only [moveLookup, acquire] at h
  (repeat' split at h) <;> cases h <;>
    first
    | exact ⟨rfl, rfl, rfl, rfl, rfl, rfl, rfl, rfl, Store.after_readStream.contents,
        Store.writeFaults_readStream _ _, rfl⟩
    | exact ⟨rfl, rfl, rfl, rfl, rfl, rfl, rfl, rfl, rfl, rfl, rfl⟩

theorem cleared_moveConsumer [DecidableEq S] (h : n.moveConsumer = some n') : Cleared n n' := by
  have hfinish (c : Consumer A) (e : Event A) (earlier : Page A) :
      Cleared n (n.finishApply c e earlier) :=
    ⟨rfl, rfl, rfl, rfl, rfl, rfl, rfl, rfl, rfl, rfl,
      ReadModel.projector_apply (m := n.model) (e := e) earlier⟩
  simp only [moveConsumer, acquire] at h
  (repeat' split at h) <;> cases h <;>
    first
    | exact hfinish _ _ _
    | exact ⟨rfl, rfl, rfl, rfl, rfl, rfl, rfl, rfl, Store.after_readStream.contents,
        Store.writeFaults_readStream _ _, rfl⟩
    | exact ⟨rfl, rfl, rfl, rfl, rfl, rfl, rfl, rfl, rfl, rfl, rfl⟩

theorem Meanwhile.of_jobs (hjobs : n'.jobs = n.jobs) (hhandlers : n'.handlers = n.handlers)
    (hcontents : n'.store.contents = n.store.contents)
    (hprojector : n'.model.projector = n.model.projector) (hacks : n'.lostAcks = n.lostAcks) :
    Meanwhile n n' := by
  refine ⟨.of_jobs hjobs hhandlers hcontents hprojector, hacks, fun i a hi ha => ?_⟩
  rw [hjobs, hi] at ha
  cases ha

theorem Cleared.meanwhile (h : Cleared n n') : Meanwhile n n' :=
  .of_jobs h.jobs h.handlers h.contents h.projector h.acks

/-- A dispatcher begins jobs and does nothing else that concerns them. -/
theorem meanwhile_moveDispatcher (h : n.moveDispatcher i = some n') : Meanwhile n n' := by
  have hbegun {m : Node A S B} {c : Command B}
      (hjobs : m.jobs = n.jobs ++ [{ job := { command := c, persists := true }, token := .shutdown }])
      (hhandlers : m.handlers = n.handlers) (hacks : m.lostAcks = n.lostAcks)
      (hstore : m.store = n.store) (hmodel : m.model = n.model) : Meanwhile n m := by
    have hnew (k : Nat) (a : Assignment A S B) (hk : n.jobs[k]? = none) (ha : m.jobs[k]? = some a) :
        a.job.persists = true ∧ a.job.phase = .received := by
      rw [hjobs, List.getElem?_append_right (List.getElem?_eq_none_iff.mp hk)] at ha
      obtain rfl := List.mem_singleton.mp (List.mem_of_getElem? ha)
      exact ⟨rfl, rfl⟩
    refine ⟨⟨⟨fun k a _ ha => ⟨a, ?_, rfl⟩⟩, hhandlers, by rw [hstore], by rw [hmodel],
      fun k a hk ha => (hnew k a hk ha).2⟩, hacks, fun k a hk ha => (hnew k a hk ha).1⟩
    rw [hjobs, List.getElem?_append_left (List.getElem?_eq_some_iff.mp ha).1, ha]
  simp only [moveDispatcher, assign, enlist] at h
  (repeat' split at h) <;> cases h <;>
    first
    | exact .of_jobs rfl rfl rfl rfl rfl
    | exact hbegun rfl rfl rfl rfl rfl

/-- Whether the token of a job comes first is of no account as long as the job takes no step. -/
theorem nudged_moveToken (h : n.moveToken i = some n') :
    ∃ jobs, List.Forall₂ Assignment.Nudged n.jobs jobs ∧ n' = { n with jobs } := by
  unfold moveToken at h
  cases ha : n.jobs[i]? with
  | none =>
    rw [ha] at h
    cases h
  | some a =>
    simp only [ha] at h
    split at h
    · cases h
    · cases h
      exact ⟨_, nudged_set ha .hastened, rfl⟩

theorem meanwhile_moveToken (h : n.moveToken i = some n') : Meanwhile n n' := by
  obtain ⟨jobs, hjobs, rfl⟩ := nudged_moveToken h
  have hnone (k : Nat) (b : Assignment A S B) (hk : n.jobs[k]? = none) (hb : jobs[k]? = some b) :
      False := by
    rcases nudged_getElem? hjobs k with ⟨-, hnone⟩ | ⟨a, a', ha, -, -⟩
    · rw [hnone] at hb
      cases hb
    · rw [hk] at ha
      cases ha
  have hbeside : Beside (fun _ => True) n { n with jobs } := .of_nudged hjobs rfl rfl rfl
  exact ⟨⟨hbeside.spares, rfl, rfl, rfl, fun k b hk hb => (hnone k b hk hb).elim⟩, rfl,
    fun k b hk hb => (hnone k b hk hb).elim⟩

variable [DecidableEq S]

/-- Whatever task takes a step, it is a job's, or goes on besides. -/
theorem meanwhile_of_move {t : TaskId} (h : n.move t = some n') :
    (∃ i, t = .job i ∧ n.moveJob i = some n') ∨ Meanwhile n n' := by
  cases t with
  | job i => exact .inl ⟨i, rfl, h⟩
  | pull i => exact .inr (cleared_movePull h).meanwhile
  | consumer => exact .inr (cleared_moveConsumer h).meanwhile
  | lookup i => exact .inr (cleared_moveLookup h).meanwhile
  | token i => exact .inr (meanwhile_moveToken h)
  | dispatcher i => exact .inr (meanwhile_moveDispatcher h)

omit [DecidableEq S] in
theorem length_le_moveJob (h : n.moveJob i = some n') : n.store.length ≤ n'.store.length := by
  obtain ⟨a, ha⟩ := exists_of_moveJob h
  obtain ⟨a', hmoved⟩ := moveJob_moved ha h
  exact hmoved.touched.length_le

/-- The tasks of a node take steps in any order. -/
theorem Dealings.of_moves {ts : List TaskId} (h : runMoves move n ts = some n')
    (hroom : n'.store.length < 0x10000000000000000) : ∃ history, n.Dealings history n' := by
  induction ts using List.reverseRecOn generalizing n' with
  | nil =>
    rw [runMoves_nil] at h
    subst h
    exact ⟨[], .start⟩
  | append_singleton ts t ih =>
    obtain ⟨m, hm, hmove⟩ := runMoves_concat.mp h
    rcases meanwhile_of_move hmove with ⟨i, -, hjob⟩ | hmeanwhile
    · obtain ⟨history, hd⟩ := ih hm (Nat.lt_of_le_of_lt (length_le_moveJob hjob) hroom)
      exact ⟨_, hd.job i hjob hroom⟩
    · have hsame : m.store.length = n'.store.length :=
        (congrArg Contents.length hmeanwhile.contents).symm
      obtain ⟨history, hd⟩ := ih hm (hsame ▸ hroom)
      exact ⟨history, hd.meanwhile hmeanwhile⟩

end Node
end Chronicle
