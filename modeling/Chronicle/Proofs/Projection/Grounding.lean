import Chronicle.Node.Schedule
import Chronicle.Proofs.Command.Dealing
import Chronicle.Proofs.Feed.Sourcing
import Chronicle.Proofs.Projection.Founding
import Chronicle.Proofs.Projection.Serving

/-!
# Chronicle.Proofs.Projection.Grounding

A node whose projections were founded, with all that is under way (`Grounded`). Its tasks take steps
in any order while reads and writes fail, entries are dropped and streams come and go (`Happens`), and
it stays grounded (`Grounded.happens`): what the read model says is there has been created in the
log by then.
-/

namespace Chronicle

section Phases

variable {A S : Type} [Vocabulary A] {p : Projector A S} {log more : List (Event A)} {s : StreamId}

/-- The event that a consumer has and what it has read for it are of the log. -/
def ConsumerPhase.From (log : List (Event A)) : ConsumerPhase A → Prop
  | .idle => True
  | .locking e | .applying e => e ∈ log
  | .holding e earlier => e ∈ log ∧ ReadsFrom log e.stream earlier

theorem ConsumerPhase.From.append {phase : ConsumerPhase A} (h : phase.From log) :
    phase.From (log ++ more) := by
  cases phase with
  | idle => trivial
  | locking e => exact List.mem_append_left _ h
  | applying e => exact List.mem_append_left _ h
  | holding e earlier => exact ⟨List.mem_append_left _ h.1, ReadsFrom.append h.2⟩

/-- What a lookup has read, made of it and answered was founded. -/
def LookupPhase.From (p : Projector A S) (log : List (Event A)) (s : StreamId) :
    LookupPhase A S → Prop
  | .asked => True
  | .holding page => ReadsFrom log s page
  | .locking x => p.Founds log s x.state
  | .answered answer => ∀ state, answer = .ok state → p.Founds log s state

theorem LookupPhase.From.append {phase : LookupPhase A S} (h : phase.From p log s) :
    phase.From p (log ++ more) s := by
  cases phase with
  | asked => trivial
  | holding page => exact ReadsFrom.append h
  | locking x => exact Projector.Founds.append h
  | answered answer => exact fun state hanswer => (h state hanswer).append

end Phases

namespace Node

variable {A S B : Type} [Vocabulary A] {n n' : Node A S B} {log more : List (Event A)} {i : Nat}

/-- Every projection in a node, and everything that projections are made of there, is of the log. -/
structure Grounded (log : List (Event A)) (n : Node A S B) : Prop where
  streams : n.StreamsFrom log
  consumer : ∀ c, n.consumer = some c → c.phase.From log
  lookups : ∀ l ∈ n.lookups, l.phase.From n.model.projector log l.stream
  jobs : n.Held fun _ => ReadsFrom log
  cache : n.model.cache.Grounded n.model.projector log

theorem Grounded.append (h : n.Grounded log) : n.Grounded (log ++ more) where
  streams := h.streams.append
  consumer c hc := (h.consumer c hc).append
  lookups l hl := (h.lookups l hl).append
  jobs := h.jobs.mono fun _ _ _ => .append
  cache := h.cache.append

/-- A step that leaves the consumer and the lookups alone. -/
theorem Grounded.frame (h : n.Grounded log) (hstreams : n'.StreamsFrom log)
    (hconsumer : n'.consumer = n.consumer) (hlookups : n'.lookups = n.lookups)
    (hprojector : n'.model.projector = n.model.projector) (hjobs : n'.Held fun _ => ReadsFrom log)
    (hcache : n'.model.cache.Grounded n.model.projector log) : n'.Grounded log := by
  refine ⟨hstreams, ?_, ?_, hjobs, ?_⟩
  · rw [hconsumer]
    exact h.consumer
  · rw [hlookups, hprojector]
    exact h.lookups
  · rw [hprojector]
    exact hcache

/-! ## Pulls, dispatchers and lookups -/

theorem aside_stop (i : Nat) : (n.stop i).consumer = n.consumer ∧ (n.stop i).lookups = n.lookups ∧
    (n.stop i).model = n.model := by
  unfold stop
  (repeat' split) <;> exact ⟨rfl, rfl, rfl⟩

theorem aside_movePull (h : n.movePull i = some n') : n'.consumer = n.consumer ∧
    n'.lookups = n.lookups ∧ n'.model = n.model := by
  simp only [movePull, movePolling, movePushed, moveReplaying] at h
  (repeat' split at h) <;> cases h <;>
    first
    | exact aside_stop i
    | exact ⟨rfl, rfl, rfl⟩

theorem Grounded.movePull (h : n.Grounded log) (hstore : n.store.Holds log)
    (hmove : n.movePull i = some n') : n'.Grounded log := by
  obtain ⟨hconsumer, hlookups, hmodel⟩ := aside_movePull hmove
  have hjobs := h.jobs.of_jobs (cleared_movePull hmove).jobs
  refine h.frame (streamsFrom_movePull h.streams hstore hmove) hconsumer hlookups ?_ hjobs ?_ <;>
    rw [hmodel]
  exact h.cache

theorem Grounded.moveDispatcher (h : n.Grounded log) (hmove : n.moveDispatcher i = some n') :
    n'.Grounded log := by
  have hjobs : n'.Held fun _ => ReadsFrom log := h.jobs.apart (meanwhile_moveDispatcher hmove).toApart
  have hsame (hstreams : n'.streams = n.streams) (hconsumer : n'.consumer = n.consumer)
      (hlookups : n'.lookups = n.lookups) (hmodel : n'.model = n.model) : n'.Grounded log :=
    h.frame (h.streams.of_eq hstreams) hconsumer hlookups (by rw [hmodel]) hjobs
      (by rw [hmodel]; exact h.cache)
  simp only [Node.moveDispatcher, assign, enlist] at hmove
  (repeat' split at hmove) <;> cases hmove <;> exact hsame rfl rfl rfl rfl

/-- How a step of a lookup takes it on, from what was founded to what was founded. -/
theorem Grounded.moveLookup (h : n.Grounded log) (hstore : n.store.Holds log)
    (hmove : n.moveLookup i = some n') : n'.Grounded log := by
  unfold Node.moveLookup at hmove
  cases hi : n.lookups[i]? with
  | none =>
    simp only [hi] at hmove
    cases hmove
  | some l =>
    have hl := h.lookups l (List.mem_of_getElem? hi)
    -- The lookup is put in its new phase, and the cache may have changed.
    have hput {m : Node A S B} {phase : LookupPhase A S} (hstreams : m.streams = n.streams)
        (hconsumer : m.consumer = n.consumer)
        (hlookups : m.lookups = n.lookups.set i { l with phase }) (hjobs : m.jobs = n.jobs)
        (hprojector : m.model.projector = n.model.projector)
        (hcache : m.model.cache.Grounded n.model.projector log)
        (hphase : phase.From n.model.projector log l.stream) : m.Grounded log := by
      refine ⟨h.streams.of_eq hstreams, hconsumer ▸ h.consumer, ?_, h.jobs.of_jobs hjobs,
        by rwa [hprojector]⟩
      intro l' hl'
      rw [hlookups] at hl'
      rw [hprojector]
      rcases List.mem_or_eq_of_mem_set hl' with hold | rfl
      · exact h.lookups l' hold
      · exact hphase
    simp only [hi] at hmove
    cases hphase : l.phase with
    | asked =>
      simp only [hphase] at hmove
      split at hmove
      · rename_i state hknown
        cases hmove
        refine hput rfl rfl rfl rfl rfl h.cache fun state' hanswer => ?_
        cases hanswer
        exact h.cache.known hknown
      · cases hmove
        exact hput rfl rfl rfl rfl rfl h.cache (readsFrom_readStream hstore)
    | holding page =>
      rw [hphase] at hl
      simp only [hphase] at hmove
      split at hmove
      · cases hmove
      · cases page with
        | error failure =>
          simp only [ReadModel.backfilled] at hmove
          cases hmove
          refine hput rfl rfl rfl rfl rfl h.cache fun state hanswer => ?_
          cases hanswer
        | ok events =>
          simp only [ReadModel.backfilled] at hmove
          cases hx : n.model.projector.entry? events with
          | none =>
            simp only [hx] at hmove
            cases hmove
            refine hput rfl rfl rfl rfl rfl h.cache fun state hanswer => ?_
            cases hanswer
            exact Projector.founds_none
          | some x =>
            simp only [hx] at hmove
            cases hmove
            exact hput rfl rfl rfl rfl rfl h.cache (Projector.founds_entry? hx (hl events rfl))
    | locking x =>
      rw [hphase] at hl
      simp only [hphase] at hmove
      rcases acquire_cases hmove with ⟨-, rfl⟩ | rfl
      · refine hput rfl rfl rfl rfl rfl (h.cache.keep hl) fun state hanswer => ?_
        cases hanswer
        exact (h.cache.keep hl).answer hl
      · exact h.frame (h.streams.of_eq rfl) rfl rfl rfl (h.jobs.of_jobs rfl) h.cache
    | answered answer =>
      simp only [hphase] at hmove
      cases hmove

/-! ## The consumer -/

theorem Grounded.moveConsumer [DecidableEq S] (h : n.Grounded log) (hstore : n.store.Holds log)
    (hmove : n.moveConsumer = some n') : n'.Grounded log := by
  have hput {m : Node A S B} {c : Consumer A} (hstreams : m.StreamsFrom log)
      (hconsumer : m.consumer = some c) (hc : c.phase.From log) (hlookups : m.lookups = n.lookups)
      (hjobs : m.jobs = n.jobs) (hprojector : m.model.projector = n.model.projector)
      (hcache : m.model.cache.Grounded n.model.projector log) : m.Grounded log := by
    refine ⟨hstreams, fun c' hc' => ?_, by rw [hlookups, hprojector]; exact h.lookups,
      h.jobs.of_jobs hjobs, by rwa [hprojector]⟩
    rw [hconsumer] at hc'
    cases hc'
    exact hc
  have hsame : ∀ {m : Node A S B}, m.streams = n.streams → m.StreamsFrom log :=
    fun hm => h.streams.of_eq hm
  unfold Node.moveConsumer at hmove
  cases hc : n.consumer with
  | none =>
    simp only [hc] at hmove
    cases hmove
  | some c =>
    have hphased := h.consumer c hc
    simp only [hc] at hmove
    cases hphase : c.phase with
    | idle =>
      simp only [hphase] at hmove
      split at hmove
      · rename_i left e hreceive
        cases hmove
        obtain ⟨he, hleft⟩ := Broadcaster.carries_receive hreceive
        exact hput (h.streams.taken hleft) rfl (h.streams.outlet he) rfl rfl rfl h.cache
      · cases hmove
        exact ⟨h.streams, nofun, h.lookups, h.jobs, h.cache⟩
      · cases hmove
    | locking e =>
      rw [hphase] at hphased
      simp only [hphase] at hmove
      rcases acquire_cases hmove with ⟨-, rfl⟩ | rfl
      · exact hput (hsame rfl) rfl hphased rfl rfl rfl h.cache
      · exact hput (hsame rfl) hc (by rw [hphase]; exact hphased) rfl rfl rfl h.cache
    | applying e =>
      rw [hphase] at hphased
      simp only [hphase] at hmove
      split at hmove
      · cases hmove
        exact hput (hsame rfl) rfl ⟨hphased, readsFrom_readStream hstore⟩ rfl rfl rfl h.cache
      · cases hmove
        have hnothing : ReadsFrom log e.stream (.ok []) := by
          rintro events ⟨⟩ e' he'
          cases he'
        exact hput (hsame rfl) rfl trivial rfl rfl
          (ReadModel.projector_apply (m := n.model) (e := e) (.ok []))
          (ReadModel.grounded_apply h.cache hphased hnothing)
    | holding e earlier =>
      rw [hphase] at hphased
      simp only [hphase] at hmove
      split at hmove
      · cases hmove
      · cases hmove
        exact hput (hsame rfl) rfl trivial rfl rfl
          (ReadModel.projector_apply (m := n.model) (e := e) earlier)
          (ReadModel.grounded_apply h.cache hphased.1 hphased.2)

/-! ## Jobs -/

theorem Signalled.streamsFrom (h : Signalled n n') (hstreams : n.StreamsFrom log) :
    n'.StreamsFrom log := by
  rcases h with hsame | ⟨j, hsignal⟩
  · exact hstreams.of_eq hsame
  · exact hstreams.signal.of_eq hsignal

/-- A job may put something behind the log. -/
theorem Grounded.moveJob (h : n.Grounded log) (hstore : n.store.Holds log)
    (hmove : n.moveJob i = some n') : n'.Grounded log := by
  obtain ⟨a, ha⟩ := exists_of_moveJob hmove
  obtain ⟨a', hmoved⟩ := moveJob_moved ha hmove
  have huntouched := hmoved.untouched
  have htouched := hmoved.touched
  have hjobs : n'.Held fun _ => ReadsFrom log :=
    h.jobs.moved hmoved fun _ _ _ => readsFrom_readStream hstore
  refine h.frame (hmoved.signalled.streamsFrom h.streams) huntouched.consumer huntouched.lookups
    htouched.projector hjobs ?_
  cases hact : n.nextAct i with
  | keep s page =>
    rw [hact] at htouched
    rw [htouched.2]
    exact (ReadModel.grounded_digest h.cache (h.jobs.kept hact)).1
  | _ =>
    rw [hact] at htouched
    rw [htouched.2]
    exact h.cache

/-- What a handler is answered was founded. -/
theorem Grounded.reply (h : n.Grounded log) {s : StreamId} {state : Option S}
    (hreply : n.reply (n.nextAct i) = some (s, .ok state)) :
    n.model.projector.Founds log s state := by
  rcases reply_cases hreply with ⟨known, -, hknown, heq⟩ | ⟨page, hact, hanswer⟩
  · cases heq
    exact h.cache.known hknown
  · exact (ReadModel.grounded_digest h.cache (h.jobs.kept hact)).2 state hanswer.symm

theorem Grounded.moveToken (h : n.Grounded log) (hmove : n.moveToken i = some n') :
    n'.Grounded log := by
  have hjobs := h.jobs.apart (meanwhile_moveToken hmove).toApart
  obtain ⟨jobs, -, rfl⟩ := nudged_moveToken hmove
  exact h.frame (h.streams.of_eq rfl) rfl rfl rfl hjobs h.cache

/-! ## Runs -/

variable [DecidableEq S] {m : Node A S B} {t : TaskId}

/-- A step of a node: of one of its tasks, or of what goes on besides. -/
inductive Happens (n : Node A S B) : Node A S B → Prop where
  | task {n' : Node A S B} (t : TaskId) (hmove : n.move t = some n')
      (hroom : n'.store.length < 0x10000000000000000) : Happens n n'
  /-- Time passes, tokens fire, reads and writes are made to fail and acknowledgements to get lost.
  Commands, jobs, lookups and consumers come in. Streams start and stop, and are pushed events of
  the log or listened to. -/
  | aside {n' : Node A S B} (hapart : Apart n n') (hcache : n'.model.cache = n.model.cache)
      (hstreams : n.StreamsFrom n.store.events → n'.StreamsFrom n.store.events)
      (hconsumer : ∀ c, n'.consumer = some c → n.consumer = some c ∨ c.phase = .idle)
      (hlookups : ∀ l ∈ n'.lookups, l ∈ n.lookups ∨ l.phase = .asked) : Happens n n'
  | get (s : StreamId) : Happens n (n.serve fun m store => m.get store s).2
  | getUpTo (s : StreamId) (bound : Position) :
      Happens n (n.serve fun m store => m.getUpTo store s bound).2
  | getAll {arrange : List (StreamId × Entry S) → List (StreamId × Entry S)}
      (harrange : Loading.Arranges arrange) : Happens n (n.serve (ReadModel.getAllIn arrange)).2
  | invalidate : Happens n { n with model := n.model.invalidate }

theorem Grounded.move (h : n.Grounded log) (hstore : n.store.Holds log)
    (hmove : n.move t = some n') : n'.Grounded log := by
  cases t with
  | pull i => exact h.movePull hstore hmove
  | consumer => exact h.moveConsumer hstore hmove
  | lookup i => exact h.moveLookup hstore hmove
  | job i => exact h.moveJob hstore hmove
  | token i => exact h.moveToken hmove
  | dispatcher i => exact h.moveDispatcher hmove

theorem Grounded.happens (h : n.Grounded log) (hstore : n.store.Holds log) (hstep : Happens n n') :
    n'.Grounded log := by
  cases hstep with
  | task t hmove hroom => exact h.move hstore hmove
  | aside hapart hcache hstreams hconsumer hlookups =>
    rw [hstore.events_eq] at hstreams
    refine ⟨hstreams h.streams, fun c hc => ?_, fun l hl => ?_, h.jobs.apart hapart, by
      rw [hapart.projector, hcache]; exact h.cache⟩
    · rcases hconsumer c hc with hold | hidle
      · exact h.consumer c hold
      · rw [hidle]
        trivial
    · rw [hapart.projector]
      rcases hlookups l hl with hold | hasked
      · exact h.lookups l hold
      · rw [hasked]
        trivial
  | get s =>
    exact h.frame h.streams rfl rfl ReadModel.projector_get h.jobs
      (ReadModel.grounded_get h.cache hstore).1
  | getUpTo s bound =>
    exact h.frame h.streams rfl rfl ReadModel.projector_getUpTo h.jobs
      (ReadModel.grounded_getUpTo h.cache hstore)
  | getAll harrange =>
    exact h.frame h.streams rfl rfl ReadModel.projector_getAllIn h.jobs
      (ReadModel.grounded_getAllIn h.cache hstore harrange)
  | invalidate => exact h.frame h.streams rfl rfl rfl h.jobs Cache.grounded_invalidate

/-- A step leaves the log as it was, or appends to it. -/
theorem Happens.holds (hstep : Happens n n') (hstore : n.store.Holds log) :
    ∃ more, n'.store.Holds (log ++ more) := by
  have hsame (hcontents : n'.store.contents = n.store.contents) :
      ∃ more, n'.store.Holds (log ++ more) := by
    refine ⟨[], hcontents.trans ?_, ?_, ?_⟩ <;> rw [List.append_nil]
    · exact hstore.contents
    · exact hstore.numbered
    · exact hstore.hinted
  cases hstep with
  | task t hmove hroom =>
    rcases meanwhile_of_move hmove with ⟨i, -, hjob⟩ | hmeanwhile
    · obtain ⟨a, ha⟩ := exists_of_moveJob hjob
      obtain ⟨a', hmoved⟩ := moveJob_moved ha hjob
      obtain ⟨more, hholds, -⟩ := hmoved.touched.holds hstore hroom
      exact ⟨more, hholds⟩
    · exact hsame hmeanwhile.contents
  | aside hapart _ _ _ _ => exact hsame hapart.contents
  | get s => exact hsame ReadModel.contents_get
  | getUpTo s bound => exact hsame ReadModel.after_getUpTo.contents
  | getAll _ => exact hsame ReadModel.after_getAllIn.contents
  | invalidate => exact hsame rfl

theorem Grounded.run (h : n.Grounded log) (hstore : n.store.Holds log)
    (hrun : Relation.ReflTransGen Happens n m) :
    ∃ more, m.store.Holds (log ++ more) ∧ m.Grounded (log ++ more) := by
  induction hrun with
  | refl => exact ⟨[], by rwa [List.append_nil], h.append⟩
  | tail _ hstep ih =>
    obtain ⟨more, hholds, hgrounded⟩ := ih
    obtain ⟨more', hholds'⟩ := hstep.holds hholds
    refine ⟨more ++ more', ?_, ?_⟩ <;> rw [← List.append_assoc]
    · exact hholds'
    · exact (hgrounded.happens hholds hstep).append

/-- A command comes in. -/
theorem happens_submit (n : Node A S B) (c : Command B) : n.Happens (n.submit c) :=
  .aside (.of_jobs rfl rfl rfl rfl) rfl id (fun _ => .inl) (fun _ => .inl)

/-- The tasks of a node take steps in any order. -/
theorem happens_of_moves {ts : List TaskId} (h : runMoves move n ts = some m)
    (hroom : m.store.length < 0x10000000000000000) : Relation.ReflTransGen Happens n m := by
  induction ts using List.reverseRecOn generalizing m with
  | nil =>
    rw [runMoves_nil] at h
    rw [h]
  | append_singleton ts t ih =>
    obtain ⟨k, hk, hmove⟩ := runMoves_concat.mp h
    have hlength : k.store.length ≤ m.store.length := by
      rcases meanwhile_of_move hmove with ⟨i, -, hjob⟩ | hmeanwhile
      · exact length_le_moveJob hjob
      · exact Nat.le_of_eq (congrArg Contents.length hmeanwhile.contents).symm
    exact (ih hk (Nat.lt_of_le_of_lt hlength hroom)).tail (.task t hmove hroom)

/-- In whatever order things happen, what the read model of a node knows without reading is nothing,
or was created in the log. -/
theorem founded_of_known {store : Store A} {p : Projector A S} {entries : Collection S}
    (hentries : entries.entries = []) (hstore : store.Holds log)
    (hrun : Relation.ReflTransGen Happens (new store p entries : Node A S B) m) {s : StreamId} {v : S}
    (hknown : m.model.known? s = some (some v)) :
    m.model.projector.Founded m.store.events s := by
  have hnew : (new store p entries : Node A S B).Grounded log := by
    refine ⟨nofun, nofun, nofun, held_of_nil rfl, fun s x hx => ?_⟩
    have hnone : (s, x) ∈ entries.entries := hx
    rw [hentries] at hnone
    cases hnone
  obtain ⟨more, hholds, hgrounded⟩ := hnew.run hstore hrun
  rw [hholds.events_eq]
  exact hgrounded.cache.known hknown rfl

end Node
end Chronicle
