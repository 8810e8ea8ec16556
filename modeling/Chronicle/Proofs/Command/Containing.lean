import Chronicle.Proofs.Command.Dealing
import Chronicle.Proofs.Command.Recording

/-!
# Chronicle.Proofs.Command.Containing

Handlers that panic. A panic in a handler's run ends that run like any other completion: the command
is faulted, the outcome is recorded and announced, and the job finishes (`panics_contained`). A panic
while the handler is built is not contained. It crashes the job, which then neither records nor
announces anything (`panics_uncontained`).

One job is watched at a time (`Watched`). What goes on beside it can be anything that leaves the job
where it is: other jobs may crash, and others may append to the log.
-/

namespace Chronicle

/-! ## Phases -/

namespace HandlerTable

variable {A S B : Type} {t : HandlerTable A S B} {c : Command B} {fired : Bool}

def Breaks (t : HandlerTable A S B) (c : Command B) : Prop :=
  ∃ p, t.find? c.type = some (.fresh (.error p))

theorem resolve_of_breaks (h : t.Breaks c) (fired : Bool) :
    (t.resolve c fired).1 = .collapsed ∨
      (t.resolve c fired).1 = .refused (.cancelled c.id "cancelled before execution") := by
  obtain ⟨p, hp⟩ := h
  unfold resolve
  cases fired with
  | true =>
    right
    simp only [hp, if_true]
  | false =>
    left
    simp only [hp, if_false, Bool.false_eq_true]

theorem breaks_of_collapsed (h : (t.resolve c fired).1 = .collapsed) : t.Breaks c := by
  unfold resolve at h
  cases hf : t.find? c.type with
  | none =>
    simp only [hf] at h
    cases h
  | some provider =>
    simp only [hf] at h
    split at h
    · cases h
    · split at h
      · cases h
      · cases h
      · rename_i p
        exact ⟨p, hf⟩

end HandlerTable

/-- What a command comes to whose handler has panicked. -/
def ProcessingResult.ofPanic {A : Type} (id : CommandId) (p : Panic) : ProcessingResult A :=
  .faulted id ("handler panicked: " ++ p.message)

/-- An attempt of a job as a write, if no acknowledgement is lost. -/
def Attempt.write {A : Type} (i : Nat) (t : Attempt) : Write A :=
  ⟨i, [.outcome t.outcome], t.acknowledged⟩

/-- The job of a result has pursued the outcome. Its search meets what is in the outcome's place. -/
def Attended {A : Type} [Vocabulary A] (policy : RetryPolicy) (log : List (Event A)) (i : Nat)
    (r : ProcessingResult A) (tried : List (Write A)) : Prop :=
  ∃ attempts, Pursued policy.maxRetries (∃ e ∈ log, e.stream = r.outcome.stream) r attempts ∧
    tried = attempts.map (Attempt.write i)

/-- Attempts that were refused. -/
theorem exists_unheard {A : Type} (i : Nat) (r : ProcessingResult A) (k : Nat) :
    ∃ failed, Unheard r failed ∧ failed.length = k ∧ failed.map (Attempt.write i) = refusals i r k := by
  refine ⟨List.replicate k ⟨r.outcome, false, false⟩, fun t ht => ?_, List.length_replicate,
    List.map_replicate⟩
  rw [List.eq_of_mem_replicate ht]
  exact ⟨rfl, rfl⟩

section Attended

variable {A : Type} [Vocabulary A] {policy : RetryPolicy} {log : List (Event A)} {i k : Nat}
  {r : ProcessingResult A} {tried : List (Write A)}

theorem attended_recorded (hk : k ≤ policy.maxRetries) :
    Attended policy log i r (refusals i r k ++ [⟨i, [.outcome r.outcome], true⟩]) := by
  obtain ⟨failed, hunheard, rfl, hwrites⟩ := exists_unheard i r k
  refine ⟨_, .acknowledged failed hunheard hk, ?_⟩
  rw [List.map_append, hwrites]
  rfl

theorem attended_refused : Attended policy log i r (refusals i r (policy.maxRetries + 1)) := by
  obtain ⟨failed, hunheard, hlength, hwrites⟩ := exists_unheard i r (policy.maxRetries + 1)
  exact ⟨failed, .exhausted failed hunheard hlength, hwrites.symm⟩

theorem attended_found (hfound : ∃ e ∈ log, e.stream = r.outcome.stream) (hsome : 0 < k)
    (hk : k ≤ policy.maxRetries) : Attended policy log i r (refusals i r k) := by
  obtain ⟨failed, hunheard, rfl, hwrites⟩ := exists_unheard i r k
  exact ⟨failed, .found failed hfound (List.length_pos_iff.mp hsome) hunheard hk, hwrites.symm⟩

theorem Attended.append {more : List (Event A)} (h : Attended policy log i r tried) :
    Attended policy (log ++ more) i r tried := by
  obtain ⟨attempts, hpursued, htried⟩ := h
  refine ⟨attempts, ?_, htried⟩
  cases hpursued with
  | acknowledged failed hunheard hk => exact .acknowledged failed hunheard hk
  | exhausted _ hunheard hlength => exact .exhausted _ hunheard hlength
  | found _ hfound hsome hunheard hk =>
    obtain ⟨e, he, hstream⟩ := hfound
    exact .found _ ⟨e, List.mem_append_left _ he, hstream⟩ hsome hunheard hk

end Attended

namespace JobPhase

variable {A S B : Type}

def Panicked (p : Panic) : JobPhase A S → Prop
  | .executing e => e.work = .finish (.panicked p)
  | _ => False

/-- Where a job can be, by whether its handler can be built. Before there is a result it has not
tried to write, and only a handler that breaks makes it crash. -/
def Upright (t : HandlerTable A S B) (c : Command B) (tried : List (Write A))
    (said : List (ProcessingResult A)) : JobPhase A S → Prop
  | .received => tried = [] ∧ said = []
  | .executing _ => tried = [] ∧ said = [] ∧ ¬ t.Breaks c
  | .crashed => tried = [] ∧ said = [] ∧ t.Breaks c
  | .writing _ => ¬ t.Breaks c
  | phase => t.Breaks c → phase.result? = some (.cancelled c.id "cancelled before execution")

/-- Where a job is whose handler has panicked, by what it has tried to write and has announced. -/
def Contained [Vocabulary A] (policy : RetryPolicy) (log : List (Event A)) (i : Nat)
    (r : ProcessingResult A) (p : Panic) (tried : List (Write A))
    (said : List (ProcessingResult A)) : JobPhase A S → Prop
  | .executing e => e.work = .finish (.panicked p) ∧ tried = [] ∧ said = []
  | .recording r' k => r' = r ∧ said = [] ∧ k ≤ policy.maxRetries ∧ tried = refusals i r k
  | .checking r' k => r' = r ∧ said = [] ∧ 0 < k ∧ k ≤ policy.maxRetries ∧ tried = refusals i r k
  | .backingOff r' k _ => r' = r ∧ said = [] ∧ k < policy.maxRetries ∧ tried = refusals i r (k + 1)
  | .announcing r' => r' = r ∧ said = [] ∧ Attended policy log i r tried
  | .finished r' => r' = r ∧ said = [r] ∧ Attended policy log i r tried
  | .received | .writing _ | .crashed => False

end JobPhase

namespace Node

variable {A S B : Type} [Vocabulary A] {n n' m m' : Node A S B} {i : Nat} {a a' : Assignment A S B}
  {log : List (Event A)} {tried : List (Write A)} {said : List (ProcessingResult A)} {p : Panic}
  {phase phase' : JobPhase A S} {effect : Effect A} {act : Act A} {e : Execution A S}

/-! ## Steps -/

/-- What goes on beside a job while time goes on. Others append to the log, and may crash. -/
structure Leaves (i : Nat) (n n' : Node A S B) : Prop extends Beside (· = i) n n' where
  acks : n'.lostAcks = n.lostAcks
  now : n.now ≤ n'.now
  shutdown : n'.shutdown = n.shutdown ∨ n'.shutdown = n.shutdown.cancel
  contents : ∀ log, n.store.contents = .payloads log →
    ∃ more, n'.store.contents = .payloads (log ++ more)

/-- What a node comes to while a job takes steps, in any order of these with what goes on beside
them: the writes that the job has tried, and what it has announced. -/
inductive Watched (i : Nat) (n : Node A S B) :
    List (Write A) → List (ProcessingResult A) → Node A S B → Prop where
  | start : Watched i n [] [] n
  | own {tried : List (Write A)} {said : List (ProcessingResult A)} {m m' : Node A S B} :
      Watched i n tried said m → m.moveJob i = some m' →
      Watched i n (tried ++ m.attempt i) (said ++ m.announces i) m'
  | beside {tried : List (Write A)} {said : List (ProcessingResult A)} {m m' : Node A S B} :
      Watched i n tried said m → Leaves i m m' → Watched i n tried said m'

theorem Leaves.alike (h : Leaves i n n') : Alike n n' :=
  ⟨h.handlers, h.policy, h.searches, h.acks⟩

/-- The step after the panic: the token is fired, or the run ends. -/
theorem JobStep.panicked (h : JobStep n a act a') (hphase : a.job.phase = .executing e)
    (hwork : e.work = .finish (.panicked p)) :
    a'.job = a.job ∨ a'.job = a.job.conclude (.ofPanic a.job.command.id p) := by
  cases h with
  | expire _ => exact .inl job_fireOwn
  | go _ hgoes =>
    have hends := Execution.next_finish hwork n.now (n.fired a) a.tokenFirst
    cases hgoes.runs hphase with
    | conclude c h =>
      cases hends.symm.trans h
      exact .inr rfl
    | interrupt h | goOn _ h | fire _ h | answered _ _ _ h _ | read _ _ h _ | keep _ _ _ h =>
      cases hends.symm.trans h

/-- A handler's run neither writes nor announces. -/
theorem effect_of_executing {c : Command B} (h : Turn n log c (.executing e) effect phase) :
    effect = .nothing := by
  cases h <;> rfl

/-! ## What holds along the way -/

variable {c : Command B} {r : ProcessingResult A}

/-- A job stays upright in every step. -/
theorem upright_turn (halike : Alike n m)
    (h : phase.Upright n.handlers c tried said) (hturn : Turn m log c phase effect phase') :
    phase'.Upright n.handlers c (tried ++ effect.writes i) (said ++ effect.announced) := by
  rw [← halike.handlers] at h ⊢
  have hquiet (hphase : phase.Upright m.handlers c tried said) : phase.Upright m.handlers c
      (tried ++ (Effect.nothing : Effect A).writes i)
      (said ++ (Effect.nothing : Effect A).announced) := by
    show phase.Upright m.handlers c (tried ++ []) (said ++ [])
    rwa [List.append_nil, List.append_nil]
  have hconcluded (r : ProcessingResult A) (hnot : ¬ m.handlers.Breaks c) :
      (JobPhase.concluded r : JobPhase A S).Upright m.handlers c
        (tried ++ (Effect.nothing : Effect A).writes i)
        (said ++ (Effect.nothing : Effect A).announced) := by
    unfold JobPhase.concluded
    split
    · exact fun hbreaks => absurd hbreaks hnot
    · exact hnot
  cases hturn with
  | rest => exact hquiet h
  | run fired e hresolve =>
    obtain ⟨rfl, rfl⟩ := h
    refine ⟨rfl, rfl, fun hbreaks => ?_⟩
    rcases HandlerTable.resolve_of_breaks hbreaks fired with heq | heq <;>
      rw [heq] at hresolve <;> cases hresolve
  | refuse fired r hresolve =>
    by_cases hbreaks : m.handlers.Breaks c
    · rcases HandlerTable.resolve_of_breaks hbreaks fired with heq | heq <;>
        rw [heq] at hresolve <;> cases hresolve
      exact fun _ => rfl
    · exact hconcluded r hbreaks
  | collapse fired hresolve =>
    obtain ⟨rfl, rfl⟩ := h
    exact ⟨rfl, rfl, HandlerTable.breaks_of_collapsed hresolve⟩
  | goOn e e' _ =>
    obtain ⟨rfl, rfl, hnot⟩ := h
    exact ⟨rfl, rfl, hnot⟩
  | complete e o fired _ => exact hconcluded _ h.2.2
  | interrupt e => exact hconcluded _ h.2.2
  | written r => exact fun hbreaks => absurd hbreaks h
  | unwritten r error => exact fun hbreaks => absurd hbreaks h
  | retry r k delay => split <;> exact h
  | _ => exact h

/-- A job whose handler has panicked goes on to record that the command is faulted. -/
theorem contained_turn (halike : Alike n m)
    (h : phase.Contained n.policy log i r p tried said) (hrun : ∀ e, phase ≠ .executing e)
    (hturn : Turn m log c phase effect phase') :
    phase'.Contained n.policy log i r p (tried ++ effect.writes i) (said ++ effect.announced) := by
  have hsame {phase : JobPhase A S} (h : phase.Contained n.policy log i r p tried said) :
      phase.Contained n.policy log i r p (tried ++ (Effect.nothing : Effect A).writes i)
        (said ++ (Effect.nothing : Effect A).announced) := by
    show phase.Contained n.policy log i r p (tried ++ []) (said ++ [])
    rwa [List.append_nil, List.append_nil]
  cases hturn with
  | rest => exact hsame h
  | run => exact h.elim
  | refuse => exact h.elim
  | collapse => exact h.elim
  | goOn e => exact absurd rfl (hrun e)
  | complete e => exact absurd rfl (hrun e)
  | interrupt e => exact absurd rfl (hrun e)
  | written => exact h.elim
  | unwritten => exact h.elim
  | unfound r' k => exact hsame ⟨h.1, h.2.1, h.2.2.2⟩
  | found r' k hfound =>
    obtain ⟨rfl, hsaid, hsome, hk, rfl⟩ := h
    exact hsame ⟨rfl, hsaid, attended_found hfound hsome hk⟩
  | recorded r' k =>
    obtain ⟨rfl, rfl, hk, rfl⟩ := h
    exact ⟨rfl, rfl, attended_recorded hk⟩
  | unrecorded r' k delay hlt =>
    obtain ⟨rfl, rfl, -, rfl⟩ := h
    rw [halike.policy] at hlt
    exact ⟨rfl, rfl, hlt, refusals_succ i r' k⟩
  | gaveUp r' k hmax =>
    obtain ⟨rfl, rfl, hk, rfl⟩ := h
    rw [halike.policy] at hmax
    obtain rfl : k = n.policy.maxRetries := Nat.le_antisymm hk hmax
    refine ⟨rfl, rfl, ?_⟩
    rw [show refusals i r' n.policy.maxRetries ++
      (Effect.write [.outcome r'.outcome] false).writes i = _ from refusals_succ i r' _]
    exact attended_refused
  | retry r' k delay =>
    obtain ⟨rfl, rfl, hlt, rfl⟩ := h
    split
    · exact ⟨rfl, rfl, Nat.succ_pos k, hlt, List.append_nil _⟩
    · exact ⟨rfl, rfl, hlt, List.append_nil _⟩
  | announced r' =>
    obtain ⟨rfl, rfl, hattended⟩ := h
    refine ⟨rfl, rfl, ?_⟩
    rwa [show tried ++ (Effect.announce r').writes i = tried from List.append_nil _]

theorem contained_append {more : List (Event A)} (h : phase.Contained n.policy log i r p tried said) :
    phase.Contained n.policy (log ++ more) i r p tried said := by
  cases phase with
  | announcing r' => exact ⟨h.1, h.2.1, h.2.2.append⟩
  | finished r' => exact ⟨h.1, h.2.1, h.2.2.append⟩
  | _ => exact h

/-- What every step of a job keeps holds along the way, and what was accepted of the job's writes is
in the log. -/
theorem Watched.keeps (hwatched : Watched i n tried said m)
    {P : List (Event A) → List (Write A) → List (ProcessingResult A) → JobPhase A S → Prop}
    (hlog : n.store.contents = .payloads log) (hacks : n.lostAcks = []) (ha : n.jobs[i]? = some a)
    (hpersists : a.job.persists = true) (hstart : P log [] [] a.job.phase)
    (hmore : ∀ {log more tried said phase}, P log tried said phase →
      P (log ++ more) tried said phase)
    (hstep : ∀ {m b b' act accepted log tried said}, Alike n m →
      b.job.command = a.job.command → b.job.persists = true → JobStep m b act b' →
      Turn m log b.job.command b.job.phase (act.effect accepted) b'.job.phase →
      P log tried said b.job.phase →
      P log (tried ++ (act.effect accepted).writes i) (said ++ (act.effect accepted).announced)
        b'.job.phase) :
    Alike n m ∧ ∃ rest b, m.store.contents = .payloads (log ++ rest) ∧
      (acceptedPayloads tried).Sublist (rest.map Event.payload) ∧ m.jobs[i]? = some b ∧
      b.job.command = a.job.command ∧ b.job.persists = true ∧ (a.Cancellable → b.Cancellable) ∧
      P (log ++ rest) tried said b.job.phase := by
  induction hwatched with
  | start =>
    refine ⟨.refl n, [], a, by rw [List.append_nil, hlog], .slnil, ha, rfl, hpersists, id, ?_⟩
    rw [List.append_nil]
    exact hstart
  | own _ hmove ih =>
    obtain ⟨halike, rest, b, hcontents, hsub, hb, hcommand, hpersists, hcancellable, hP⟩ := ih
    have hacks' := halike.acks.trans hacks
    obtain ⟨b', hmoved⟩ := moveJob_moved hb hmove
    have htaken := hmoved.step.taken
    have hturned := hmoved.turned hcontents hacks'
    obtain ⟨more, hcontents', happended⟩ := hturned.contents
    rw [announces_eq]
    refine ⟨halike.trans hturned.toAlike, rest ++ more, b', ?_, ?_, hmoved.after, ?_, ?_,
      fun h => htaken.cancellable (hcancellable h), ?_⟩
    · rw [hcontents', List.append_assoc]
    · rw [acceptedPayloads_append, attempt, acceptedPayloads_writes, List.map_append, happended]
      exact hsub.append (.refl _)
    · rw [htaken.job]
      exact hcommand
    · rw [htaken.job]
      exact hpersists
    · rw [← List.append_assoc]
      exact hmore (hstep halike hcommand hpersists hmoved.step
        (hmoved.step.turn hcontents hacks' hpersists) hP)
  | beside _ hleaves ih =>
    obtain ⟨halike, rest, b, hcontents, hsub, hb, hcommand, hpersists, hcancellable, hP⟩ := ih
    obtain ⟨more, hmore'⟩ := hleaves.contents _ hcontents
    obtain ⟨b', hb', hnudged⟩ := hleaves.jobs i b rfl hb
    have hjob := hnudged.job
    refine ⟨halike.trans hleaves.alike, rest ++ more, b', by rw [hmore', List.append_assoc], ?_,
      hb', ?_, ?_, fun h => hnudged.cancellable (hcancellable h), ?_⟩
    · rw [List.map_append]
      exact hsub.trans (List.sublist_append_left _ _)
    · rw [hjob, hcommand]
    · rw [hjob, hpersists]
    · rw [hjob, ← List.append_assoc]
      exact hmore hP

theorem Watched.upright (hwatched : Watched i n tried said m)
    (hlog : n.store.contents = .payloads log) (hacks : n.lostAcks = []) (ha : n.jobs[i]? = some a)
    (hpersists : a.job.persists = true) (hphase : a.job.phase = .received) :
    Alike n m ∧ ∃ rest b, m.store.contents = .payloads (log ++ rest) ∧
      (acceptedPayloads tried).Sublist (rest.map Event.payload) ∧ m.jobs[i]? = some b ∧
      b.job.command = a.job.command ∧ b.job.persists = true ∧ (a.Cancellable → b.Cancellable) ∧
      b.job.phase.Upright n.handlers a.job.command tried said := by
  refine hwatched.keeps (P := fun _ tried said phase =>
    phase.Upright n.handlers a.job.command tried said) hlog hacks ha hpersists ?_ id ?_
  · rw [hphase]
    exact ⟨rfl, rfl⟩
  · intro _ b _ _ _ _ _ _ halike hcommand _ _ hturn hupright
    rw [hcommand] at hturn
    exact upright_turn halike hupright hturn

/-- From the panic on, the command is faulted. -/
theorem Watched.contained (hwatched : Watched i n tried said m)
    (hlog : n.store.contents = .payloads log) (hacks : n.lostAcks = []) (ha : n.jobs[i]? = some a)
    (hpersists : a.job.persists = true) (hpanicked : a.job.phase.Panicked p) :
    Alike n m ∧ ∃ rest b, m.store.contents = .payloads (log ++ rest) ∧
      (acceptedPayloads tried).Sublist (rest.map Event.payload) ∧ m.jobs[i]? = some b ∧
      b.job.command = a.job.command ∧ b.job.persists = true ∧ (a.Cancellable → b.Cancellable) ∧
      b.job.phase.Contained n.policy (log ++ rest) i (.ofPanic a.job.command.id p) p tried said := by
  refine hwatched.keeps (P := fun log tried said phase =>
    phase.Contained n.policy log i (.ofPanic a.job.command.id p) p tried said)
      hlog hacks ha hpersists ?_ contained_append ?_
  · cases hphase : a.job.phase with
    | executing e =>
      rw [hphase] at hpanicked
      exact ⟨hpanicked, rfl, rfl⟩
    | _ =>
      rw [hphase] at hpanicked
      exact hpanicked.elim
  · intro m b b' act accepted log tried said halike hcommand hpersists' hstep hturn hcontained
    by_cases hrun : ∃ e, b.job.phase = .executing e
    · obtain ⟨e, hphase⟩ := hrun
      rw [hphase] at hcontained hturn
      obtain ⟨hwork, rfl, rfl⟩ := hcontained
      rw [effect_of_executing hturn]
      rcases hstep.panicked hphase hwork with hsame | hconcluded
      · rw [hsame, hphase]
        exact ⟨hwork, rfl, rfl⟩
      · rw [hconcluded, Job.conclude_eq hpersists', hcommand]
        exact ⟨rfl, rfl, Nat.zero_le _, rfl⟩
    · exact contained_turn halike hcontained (fun e hphase => hrun ⟨e, hphase⟩) hturn

/-! ## Finishing -/

/-- An infinite course of events, at every moment of which the job takes a step or something goes on
beside it. -/
structure Attends (i : Nat) (n : Node A S B) (nodes : Nat → Node A S B) (moves : Nat → Prop) :
    Prop where
  start : nodes 0 = n
  own : ∀ t, moves t → (nodes t).moveJob i = some (nodes (t + 1))
  beside : ∀ t, ¬ moves t → Leaves i (nodes t) (nodes (t + 1))

variable {nodes : Nat → Node A S B} {moves : Nat → Prop}

theorem Attends.watched (h : Attends i n nodes moves) (t : Nat) :
    ∃ tried said, Watched i n tried said (nodes t) := by
  induction t with
  | zero =>
    rw [h.start]
    exact ⟨[], [], .start⟩
  | succ t ih =>
    obtain ⟨tried, said, hwatched⟩ := ih
    by_cases hm : moves t
    · exact ⟨_, _, hwatched.own (h.own t hm)⟩
    · exact ⟨_, _, hwatched.beside (h.beside t hm)⟩

theorem Attends.tracked (h : Attends i n nodes moves) (hlog : n.store.contents = .payloads log)
    (hacks : n.lostAcks = []) (ha : n.jobs[i]? = some a) (hpersists : a.job.persists = true)
    (hcancellable : a.Cancellable) : Tracked n.policy i nodes moves := by
  have hstep (t : Nat) (hm : moves t) : ∃ b b', (nodes t).jobs[i]? = some b ∧
      (nodes (t + 1)).jobs[i]? = some b' ∧ Lower (b'.rank n.policy) (b.rank n.policy) ∧
      (nodes (t + 1)).now = (nodes t).now := by
    obtain ⟨tried, said, hwatched⟩ := h.watched t
    obtain ⟨halike, rest, b, hcontents, -, hb, -, hpersists', hcancellable', -⟩ :=
      hwatched.keeps (P := fun _ _ _ _ => True) hlog hacks ha hpersists trivial id
        fun _ _ _ _ _ _ => trivial
    obtain ⟨b', hmoved⟩ := moveJob_moved hb (h.own t hm)
    refine ⟨b, b', hb, hmoved.after, ?_, hmoved.untouched.now⟩
    rw [← halike.policy]
    exact hmoved.step.taken.lower (hcancellable' hcancellable)
  refine ⟨fun t b hm hb => ?_, fun t b hm hb => ?_, fun t => ?_⟩
  · obtain ⟨_, b', hb₀, hb', hlower, -⟩ := hstep t hm
    rw [hb] at hb₀
    cases hb₀
    exact ⟨b', hb', hlower⟩
  · have hleaves := h.beside t hm
    obtain ⟨b', hb', hnudged⟩ := hleaves.jobs i b rfl hb
    exact ⟨b', hb', hleaves.now, hleaves.shutdown, hnudged⟩
  · by_cases hm : moves t
    · obtain ⟨_, _, -, -, -, hnow⟩ := hstep t hm
      exact Nat.le_of_eq hnow.symm
    · exact (h.beside t hm).now

/-- A job whose handler has panicked finishes. -/
theorem Attends.finishes (h : Attends i n nodes moves) (hlog : n.store.contents = .payloads log)
    (hacks : n.lostAcks = []) (ha : n.jobs[i]? = some a) (hpersists : a.job.persists = true)
    (hcancellable : a.Cancellable) (hpanicked : a.job.phase.Panicked p) (hgoesOn : GoesOn nodes)
    (hfair : ∀ t, ∃ t' ≥ t, moves t' ∨ (nodes t').moveJob i = none) :
    ∃ t b, (nodes t).jobs[i]? = some b ∧
      b.job.phase = .finished (.ofPanic a.job.command.id p) := by
  have hcontained (t : Nat) (b : Assignment A S B) (hb : (nodes t).jobs[i]? = some b) :
      ∃ log tried said,
        b.job.phase.Contained n.policy log i (.ofPanic a.job.command.id p) p tried said := by
    obtain ⟨tried, said, hwatched⟩ := h.watched t
    obtain ⟨-, rest, b', -, -, hb', -, -, -, hcontained⟩ :=
      hwatched.contained hlog hacks ha hpersists hpanicked
    rw [hb] at hb'
    cases hb'
    exact ⟨_, _, _, hcontained⟩
  have ha₀ : (nodes 0).jobs[i]? = some a := by rw [h.start, ha]
  rcases (h.tracked hlog hacks ha hpersists hcancellable).ends ha₀ hfair hgoesOn with
    ⟨t, b, hb, hover⟩ | ⟨t, hwaits⟩
  · obtain ⟨log, tried, said, hcontained⟩ := hcontained t b hb
    refine ⟨t, b, hb, ?_⟩
    cases hphase : b.job.phase with
    | finished r =>
      rw [hphase] at hcontained
      rw [hcontained.1]
    | crashed =>
      rw [hphase] at hcontained
      exact hcontained.elim
    | _ => simp [Job.isOver, hphase] at hover
  · -- The run has ended, so it does not wait for anything.
    obtain ⟨b, hb, e, rest, hphase, hwork, -⟩ := hwaits t (Nat.le_refl t)
    obtain ⟨log, tried, said, hcontained⟩ := hcontained t b hb
    rw [hphase] at hcontained
    rw [hcontained.1] at hwork
    cases hwork

/-! ## Dispatchers -/

theorem untouched_of_run {is : List Nat} (h : runMoves moveJob n is = some m) : Untouched n m :=
  runMoves_induction (P := fun m => Untouched n m) (.refl n)
    (fun _ _ hmove hu => hu.trans (untouched_moveJob hmove)) h

/-- Whatever the jobs do, a dispatcher that has received a command begins a job for it. -/
theorem dispatch_goes_on {is : List Nat} {d : Nat} {dispatcher : Dispatcher} {c : Command B}
    {rest : List (Command B)} (hrun : runMoves moveJob n is = some m)
    (hd : n.dispatchers[d]? = some dispatcher) (hphase : dispatcher.phase = .receiving)
    (hshutdown : n.shutdown.fired = false)
    (hqueue : (n.commands.mailbox dispatcher.subscription).queue = c :: rest) :
    ∃ m', m.moveDispatcher d = some m' ∧
      m'.jobs = m.jobs ++ [{ job := { command := c, persists := true }, token := .shutdown }] ∧
      m'.dispatchers[d]? = some { dispatcher with begun := dispatcher.begun ++ [m.jobs.length] } ∧
      (m'.commands.mailbox dispatcher.subscription).queue = rest := by
  have huntouched := untouched_of_run hrun
  rw [← huntouched.dispatchers] at hd
  rw [← huntouched.commands] at hqueue
  have hlt := (List.getElem?_eq_some_iff.mp hd).1
  obtain ⟨hitem, hrest⟩ := Broadcaster.receive_of_cons hqueue
  rcases hreceive : m.commands.receive dispatcher.subscription with ⟨commands, receipt⟩
  rw [hreceive] at hitem hrest
  obtain rfl : receipt = .item c := hitem
  simp only [moveDispatcher, hd, hphase, huntouched.shutdown, hshutdown, hreceive, if_false,
    Bool.false_eq_true]
  refine ⟨_, rfl, ?_, ?_, ?_⟩
  · unfold putDispatcher assign enlist
    dsimp only
    split <;> rfl
  · unfold putDispatcher assign enlist
    dsimp only
    split <;> exact List.getElem?_set_self hlt
  · have hcommands : commands.mailbox dispatcher.subscription
        = { m.commands.mailbox dispatcher.subscription with queue := rest } := hrest
    unfold putDispatcher assign enlist
    dsimp only
    split <;> rw [hcommands]

/-- The steps of another job are among what goes on beside a job. -/
theorem leaves_of_moveJob {k : Nat} (hki : k ≠ i) (hlog : n.store.contents = .payloads log)
    (hacks : n.lostAcks = []) (ha : n.jobs[k]? = some a) (hmove : n.moveJob k = some n') :
    Leaves i n n' := by
  obtain ⟨a', hmoved⟩ := moveJob_moved ha hmove
  have hturned := hmoved.turned hlog hacks
  obtain ⟨more, hcontents, -⟩ := hturned.contents
  refine ⟨hmoved.beside hki, hturned.acks, Nat.le_of_eq hturned.now.symm, .inl hturned.shutdown,
    fun log' hlog' => ⟨more, ?_⟩⟩
  rw [hlog] at hlog'
  cases hlog'
  exact hcontents

/-- What follows once the handler of a job has panicked, whatever goes on beside the job: it is on its
way to record and to announce that the command is faulted, and gets there if it is given its turn
again and again while time goes on. -/
structure Survives (i : Nat) (id : CommandId) (p : Panic) (log : List (Event A))
    (n : Node A S B) : Prop where
  contained : ∀ {tried said m}, Watched i n tried said m → ∃ rest b,
    m.store.contents = .payloads (log ++ rest) ∧ m.jobs[i]? = some b ∧
      (acceptedPayloads tried).Sublist (rest.map Event.payload) ∧
      b.job.phase.Contained n.policy (log ++ rest) i (.ofPanic id p) p tried said
  finishes : ∀ {nodes moves}, Attends i n nodes moves → GoesOn nodes →
    (∀ t, ∃ t' ≥ t, moves t' ∨ (nodes t').moveJob i = none) →
    ∃ t b, (nodes t).jobs[i]? = some b ∧ b.job.phase = .finished (.ofPanic id p)

/-- A job crashes only if its handler cannot be built. A panic in the handler's run, however late, is
survived. What a job announces goes to both feeds, and whatever becomes of jobs, dispatchers begin
jobs for the commands that they receive. -/
theorem panics_contained (hlog : n.store.contents = .payloads log) (hacks : n.lostAcks = [])
    (ha : n.jobs[i]? = some a) (hpersists : a.job.persists = true)
    (hphase : a.job.phase = .received) (hcancellable : a.Cancellable) :
    (∀ tried said m, Watched i n tried said m → ∃ rest b,
      m.store.contents = .payloads (log ++ rest) ∧ m.jobs[i]? = some b ∧
      b.job.command = a.job.command ∧
      b.job.phase.Upright n.handlers a.job.command tried said ∧
      (∀ p, b.job.phase.Panicked p → Survives i a.job.command.id p (log ++ rest) m) ∧
      ∀ m', m.moveJob i = some m' →
        m'.results = (m.announces i).foldl (fun feed r => (feed.publish r).1) m.results ∧
        m'.outcomes = (m.announces i).foldl (fun feed r => (feed.publish r.outcome).1) m.outcomes) ∧
    ∀ is m d dispatcher c rest, runMoves moveJob n is = some m →
      n.dispatchers[d]? = some dispatcher → dispatcher.phase = .receiving →
      n.shutdown.fired = false →
      (n.commands.mailbox dispatcher.subscription).queue = c :: rest →
      ∃ m', m.moveDispatcher d = some m' ∧
        m'.jobs = m.jobs ++ [{ job := { command := c, persists := true }, token := .shutdown }] ∧
        m'.dispatchers[d]? = some { dispatcher with begun := dispatcher.begun ++ [m.jobs.length] } ∧
        (m'.commands.mailbox dispatcher.subscription).queue = rest := by
  refine ⟨fun tried said m hwatched => ?_, fun is m d dispatcher c rest =>
    dispatch_goes_on⟩
  obtain ⟨halike, rest, b, hcontents, -, hb, hcommand, hpersists', hcancellable', hupright⟩ :=
    hwatched.upright hlog hacks ha hpersists hphase
  have hacks' : m.lostAcks = [] := halike.acks.trans hacks
  refine ⟨rest, b, hcontents, hb, hcommand, hupright, fun p hpanicked => ?_, fun m' =>
    published_moveJob⟩
  rw [← hcommand]
  refine ⟨fun hwatched' => ?_, fun hattends hgoesOn hfair =>
    hattends.finishes hcontents hacks' hb hpersists' (hcancellable' hcancellable) hpanicked
      hgoesOn hfair⟩
  obtain ⟨-, rest', b', hcontents', hsub, hb', -, -, -, hcontained⟩ :=
    hwatched'.contained hcontents hacks' hb hpersists' hpanicked
  exact ⟨rest', b', hcontents', hb', hsub, hcontained⟩

def quaking : Node Notes.Fact Int64 Unit :=
  listening
    ⟨[("Break", .fresh (.error (.text "early"))),
      ("Note", .fresh (.ok fun _ => .checkCancel fun _ => .finish (.panicked (.text "late"))))]⟩
    [⟨.ofNat 1, "Break", ()⟩, ⟨.ofNat 2, "Note", ()⟩]

/-- The job beside it crashes, and the second command is faulted and recorded. -/
theorem late_panic_contained : ∃ m m' tried said, Watched 1 quaking [] [] m ∧
    Watched 1 m tried said m' ∧
    m'.jobs.map (·.job.isOver) = [true, true] ∧
    m'.jobs.map (·.job.result?) = [none, some (.faulted (.ofNat 2) "handler panicked: late")] ∧
    tried = [⟨1, [.outcome ⟨.ofNat 2, .error (.internal "Faulted: handler panicked: late")⟩], true⟩] ∧
    said = [.faulted (.ofNat 2) "handler panicked: late"] ∧
    ∃ before rest, m'.store.contents = .payloads (before ++ rest) ∧
      (acceptedPayloads tried).Sublist (rest.map Event.payload) := by
  have hstart : Watched 1 quaking [] [] quaking := .start
  have hrunning := (hstart.own rfl).own rfl
  have hpanicked := hrunning.beside (leaves_of_moveJob (by decide : 0 ≠ 1) rfl rfl rfl rfl)
  obtain ⟨hcontained, -⟩ := panics_contained (show quaking.store.contents = .payloads [] from rfl)
    rfl (i := 1) rfl rfl rfl (.inl rfl)
  obtain ⟨rest, b, -, hb, -, -, hsurvives, -⟩ := hcontained _ _ _ hpanicked
  cases hb
  have hagain {m : Node Notes.Fact Int64 Unit} (_ : Watched 1 quaking [] [] m) :
      Watched 1 m [] [] m := .start
  have hrecorded := (((hagain hpanicked).own rfl).own rfl).own rfl
  obtain ⟨rest', b', hcontents, -, hsub, -⟩ := (hsurvives (.text "late") rfl).contained hrecorded
  exact ⟨_, _, _, _, hpanicked, hrecorded, rfl, rfl, rfl, rfl, _, _, hcontents, hsub⟩

def crumbling : Node Notes.Fact Int64 Unit :=
  listening
    ⟨[("Break", .fresh (.error (.text "boom"))),
      ("Note", .shared fun _ => .finish (.handled (.ok [] "noted")))]⟩
    [⟨.ofNat 1, "Break", ()⟩, ⟨.ofNat 2, "Note", ()⟩]

/-- A command whose handler panics. A record of another type is kept where its outcome belongs, and
the first write fails. -/
def occupied : Node Notes.Fact Int64 Unit :=
  { listening ⟨[("Note", .shared fun _ => .finish (.panicked (.text "boom")))]⟩
      [⟨.ofNat 1, "Note", ()⟩] with
    store := {
      contents := .records
        ⟨[(Outcome.tag, ⟨.outcome, Outcome.tag⟩), ("Noted.v1", ⟨.fact .noted, "Noted"⟩)]⟩
        [⟨.ofNat 0, 0, Outcome.streamOf (.ofNat 1), true, "Noted.v1",
          [1, 0, 0, 0, 0, 0, 0, 0, 99, 5, 0, 0, 0, 0, 0, 0, 0]⟩]
      clock := 0
      writeFaults := 1 }
    policy := { maxRetries := 3 }
    searches := true }

/-- A panic while the handler is built leaves the command without an outcome. So does a panic in the
handler's run, if the search takes another event for the outcome. -/
theorem panics_uncontained :
    (∃ m log, runMoves moveJob crumbling [0, 1, 1, 1, 1] = some m ∧
      m.jobs.map (·.job.isOver) = [true, true] ∧
      m.jobs.map (·.job.result?) = [none, some (.processed (.ofNat 2) [] (.ok "noted"))] ∧
      m.store.contents = .payloads log ∧
      log.map Event.payload = [.outcome ⟨.ofNat 2, .ok "noted"⟩] ∧
      (m.results.mailbox 0).queue = [.processed (.ofNat 2) [] (.ok "noted")] ∧
      (m.outcomes.mailbox 0).queue = [⟨.ofNat 2, .ok "noted"⟩]) ∧
    ((runMoves moveJob occupied [0, 0, 0, 0]).bind fun m =>
        runMoves moveJob { m with now := 1000 } [0, 0, 0]).map
        (fun m => (m.jobs.map (·.job.result?), m.store.writeFaults,
          m.store.events.map Event.payload)) =
      some ([some (.faulted (.ofNat 1) "handler panicked: boom")], 0, [.fact (.noted "c" 5)]) := by
  refine ⟨⟨_, _, rfl, rfl, rfl, rfl, by decide, by decide, by decide⟩, ?_⟩
  decide +kernel

end Node
end Chronicle
