import Chronicle.Proofs.Feed.Resuming
import Chronicle.Proofs.Log.Recalling
import Chronicle.Proofs.Projection.Evicting
import Chronicle.Proofs.Projection.Grounding
import Chronicle.Proofs.Projection.Publishing

/-!
# Chronicle.Proofs.Projection.Piping

A node whose consumer follows the one stream there is, from the start of the log on. What was applied
and what is still under way are together what the stream has passed on (`Node.Piped`), so events are
applied one after another in the order of the log, whoever reads the model or writes to the log
meanwhile, and wherever a task is interrupted. Of a read model that has applied everything, lookups
and loads get the projections of the whole log.
-/

namespace Chronicle

variable {A S B : Type} [Vocabulary A] {p : Projector A S} {log more : List (Event A)}
  {applied : Nat}

/-! ## What collections hold -/

namespace ReadModel

variable {m m' : ReadModel A S}

theorem Got.capacity {fault : Option ReadFailure} {s : StreamId}
    {answer : Except RuntimeError (Option S)} (h : m.Got log fault s answer m') :
    m'.cache.entries.capacity = m.cache.entries.capacity := by
  cases h with
  | known _ _ => rfl
  | failed _ _ => rfl
  | read _ hdigested =>
    obtain ⟨cache, rfl, -, hcapacity⟩ := hdigested.entries
    exact hcapacity

theorem LoadedAll.capacity {faults : List (Position × ReadFailure)}
    {arrange : List (StreamId × Entry S) → List (StreamId × Entry S)}
    {answer : Except RuntimeError (List (StreamId × S))}
    (h : m.LoadedAll log faults arrange answer m') :
    m'.cache.entries.capacity = m.cache.entries.capacity := by
  cases h with
  | known _ => rfl
  | failed _ _ _ => rfl
  | kept _ => exact Cache.capacity_keepLoaded

end ReadModel

/-! ## Read models that have applied everything -/

/-- What is known of a stream when a whole log was applied. -/
def Projector.answerOf (p : Projector A S) (log : List (Event A)) (s : StreamId) :
    Except RuntimeError (Option S) :=
  .ok (if p.concerns s then p.projection log s else none)

namespace Session.Current

variable {t : Session A S}

theorem eq_answerOf (hall : t.applied = log.length) {s : StreamId} {state : Option S}
    (hs : p.concerns s = true) (h : p.FoldsTo log t.applied s state) :
    .ok state = p.answerOf log s := by
  obtain ⟨k, hk, -, rfl⟩ := h
  rw [Projector.answerOf, if_pos hs, Log.early_of_length_le (by omega)]
  rfl

/-- Keeping the whole of a stream gets its projection. -/
theorem answer_digest (ht : Current p log t) (hall : t.applied = log.length) {s : StreamId}
    (hs : p.concerns s = true) :
    (t.model.digest s (.ok (Log.early log s log.length))).1 = p.answerOf log s := by
  have hdigested := t.model.digested_digest s (.ok (Log.early log s log.length))
  generalize (t.model.digest s _).1 = answer, (t.model.digest s _).2.1 = model at hdigested ⊢
  cases answer with
  | ok state => exact eq_answerOf hall hs (ht.foldsTo_digested hs hdigested)
  | error error =>
    cases hdigested with
    | failed failure hpage => cases hpage

/-- A lookup gets the projection of the whole log. -/
theorem answer_get (ht : Current p log t) (hquiet : t.store.Quiet) (hall : t.applied = log.length)
    (s : StreamId) : (t.model.get t.store s).answer = p.answerOf log s := by
  by_cases hs : p.concerns s = true
  · have hgot := ReadModel.got_get (m := t.model) ht.keeps s
    cases hanswer : (t.model.get t.store s).answer with
    | error error =>
      rw [hanswer] at hgot
      obtain ⟨-, failure, hfault, -⟩ := hgot.of_error
      rw [hquiet.2] at hfault
      cases hfault
    | ok state =>
      rw [hanswer] at hgot
      exact eq_answerOf hall hs (ht.foldsTo_got hs hgot)
  · rw [Projector.answerOf, if_neg hs]
    have hnone : t.model.cache.entries.find? s = none := by
      cases hf : t.model.cache.entries.find? s with
      | none => rfl
      | some x => exact absurd (ht.abreast.concerned s x (Collection.mem_of_find? hf)) hs
    have hknown : t.model.known? s = some none := by
      simp [ReadModel.known?, Cache.known?, hnone, ht.projector, hs]
    rw [ReadModel.get, hknown]

/-- When everything was loaded, the states that are held are the projections of the whole log. -/
theorem mem_states (ht : Current p log t) (hall : t.applied = log.length)
    (hloaded : t.model.cache.allLoaded = true) {s : StreamId} {v : S} :
    (s, v) ∈ t.model.cache.states ↔ p.concerns s = true ∧ p.projection log s = some v := by
  have habreast := ht.abreast
  have hcovers := ht.whole hloaded
  rw [hall] at habreast hcovers
  have hstate : ∀ x, (s, x) ∈ t.model.cache.entries.entries → x.state = p.projection log s :=
    fun x hx => (ht.exact s x hx).eq_projection ht.keeps.numbered (habreast.beyond s x hx)
  rw [Cache.mem_states]
  constructor
  · rintro ⟨x, hx, hv⟩
    exact ⟨habreast.concerned s x hx, (hstate x hx).symm.trans hv⟩
  · rintro ⟨hs, hv⟩
    obtain ⟨e, he, rfl⟩ := Projector.exists_event hv
    obtain ⟨x, hx, -⟩ := hcovers.covered e he (ht.keeps.numbered.position_lt he) hs
    have hmem := Collection.mem_of_find? hx
    exact ⟨x, hmem, (hstate x hmem).trans hv⟩

/-- A load gets the projections of the whole log, each of them once. -/
theorem answer_getAll (ht : Current p log t) (hquiet : t.store.Quiet)
    (hunbounded : t.model.cache.entries.capacity = none) (hall : t.applied = log.length) :
    ∃ states, (t.model.getAll t.store).answer = .ok states ∧
      (states.Pairwise fun a b => a.1 ≠ b.1) ∧
      ∀ s v, (s, v) ∈ states ↔ p.concerns s = true ∧ p.projection log s = some v := by
  unfold ReadModel.getAll
  have hloaded := ReadModel.loadedAll_getAllIn (m := t.model) id ht.keeps ht.sized ht.faults
  have ht' := ht.loadedAll Loading.arranges_id hloaded
  generalize (t.model.getAllIn id t.store).answer = answer,
    (t.model.getAllIn id t.store).model = model at hloaded ht'
  cases hloaded with
  | known hknown =>
    exact ⟨_, rfl, Cache.distinct_states ht'.abreast.distinct, fun s v => ht'.mem_states hall hknown⟩
  | failed q failure hfault =>
    rw [hquiet.1] at hfault
    cases hfault
  | kept _ =>
    have hretains : (t.model.cache.keepLoaded
        (id (Loading.entriesOf t.model.projector log))).entries.retainsAll = true := by
      rw [Collection.retainsAll, Cache.capacity_keepLoaded, hunbounded]
      rfl
    exact ⟨_, rfl, Cache.distinct_states ht'.abreast.distinct,
      fun s v => ht'.mem_states hall hretains⟩

end Session.Current

/-! ## The pipe -/

/-- What the consumer has taken is the next event, and what it has read for it is what comes before
it in its stream. -/
def ConsumerPhase.Due (log : List (Event A)) (applied : Nat) : ConsumerPhase A → Prop
  | .idle => True
  | .locking e | .applying e => log[applied]? = some e
  | .holding e earlier => log[applied]? = some e ∧
    ∀ events, earlier = .ok events → events = Log.early log e.stream applied

theorem ConsumerPhase.Due.bounded {phase : ConsumerPhase A} (h : phase.Due log applied)
    (hbounded : applied ≤ log.length) : applied + (Node.pending phase).length ≤ log.length := by
  have hnext {e : Event A} (he : log[applied]? = some e) : applied + 1 ≤ log.length :=
    (List.getElem?_eq_some_iff.mp he).1
  cases phase with
  | idle => exact hbounded
  | locking e => exact hnext h
  | applying e => exact hnext h
  | holding e earlier => exact hnext h.1

theorem ConsumerPhase.Due.append {phase : ConsumerPhase A} (h : phase.Due log applied) :
    phase.Due (log ++ more) applied := by
  have hnext {e : Event A} (he : log[applied]? = some e) : (log ++ more)[applied]? = some e := by
    rw [List.getElem?_append_left (List.getElem?_eq_some_iff.mp he).1]
    exact he
  cases phase with
  | idle => trivial
  | locking e => exact hnext h
  | applying e => exact hnext h
  | holding e earlier =>
    obtain ⟨he, hearlier⟩ := h
    refine ⟨hnext he, fun events hevents => ?_⟩
    rw [Log.early_append (Nat.le_of_lt (List.getElem?_eq_some_iff.mp he).1)]
    exact hearlier events hevents

omit [Vocabulary A] in
theorem Log.next_of_sent {queue : List (Event A)} {e : Event A} {next : Nat}
    (hbounded : applied ≤ log.length) (hsent : log.take applied ++ e :: queue = log.take next) :
    log[applied]? = some e := by
  have hlength : (log.take applied).length = applied := List.length_take_of_le hbounded
  have hat : (log.take next)[applied]? = some e := by
    rw [← hsent, List.getElem?_append_right (Nat.le_of_eq hlength), hlength, Nat.sub_self]
    rfl
  rw [List.getElem?_take] at hat
  split at hat
  · exact hat
  · cases hat

namespace Node

variable {n n' : Node A S B} {i : Nat}

theorem length_streams_stop : (n.stop i).streams.length = n.streams.length := by
  unfold Node.stop
  (repeat' split) <;> simp [putStream, dismiss, modifyOutlet]

theorem length_streams_movePull (h : n.movePull i = some n') :
    n'.streams.length = n.streams.length := by
  simp only [Node.movePull, Node.movePolling, Node.movePushed, Node.moveReplaying] at h
  (repeat' split at h) <;> cases h <;>
    first
    | exact length_streams_stop
    | simp [putStream, note, modifyOutlet]

/-- The read model has applied the first events of the log, and those that its consumer has taken,
has in its mailbox or will be sent by the pull of the stream are the ones behind them. Nobody else
has begun to look anything up. -/
structure Piped (p : Projector A S) (log : List (Event A)) (applied : Nat) (n : Node A S B) :
    Prop where
  current : Session.Current p log ⟨n.store, n.model, applied⟩
  quiet : n.store.Quiet
  unbounded : n.model.cache.entries.capacity = none
  lookups : n.lookups = []
  pipe : ∃ s phase next, n.streams = [s] ∧ n.consumer = some ⟨0, 0, phase⟩ ∧
    phase.Due log applied ∧
    s.Resumes Position.zero 0 log (log.take (applied + (pending phase).length)) next

namespace Piped

theorem bounded (h : Piped p log applied n) : applied ≤ log.length := h.current.bounded

/-- A step that leaves the stream and the consumer alone, but for a signal. -/
theorem frame (h : Piped p log applied n)
    (hcurrent : Session.Current p (log ++ more) ⟨n'.store, n'.model, applied⟩)
    (hquiet : n'.store.Quiet) (hunbounded : n'.model.cache.entries.capacity = none)
    (hlookups : n'.lookups = n.lookups) (hconsumer : n'.consumer = n.consumer)
    (hstreams : Signalled n n') :
    Piped p (log ++ more) applied n' := by
  obtain ⟨s, phase, next, hs, hc, hdue, hresumes⟩ := h.pipe
  have htaken : log.take (applied + (pending phase).length)
      = (log ++ more).take (applied + (pending phase).length) :=
    (List.take_append_of_le_length (hdue.bounded h.bounded)).symm
  have hresumes : s.Resumes .zero 0 (log ++ more) _ next := hresumes.append
  rw [htaken] at hresumes
  refine ⟨hcurrent, hquiet, hunbounded, hlookups.trans h.lookups, ?_⟩
  rcases hstreams with hsame | ⟨j, hsignal⟩
  · exact ⟨s, phase, next, hsame.trans hs, hconsumer.trans hc, hdue.append, hresumes⟩
  · obtain ⟨wakeUp, budget, hsource⟩ := hresumes.source
    cases j with
    | zero =>
      refine ⟨{ s with source := .polling wakeUp.signal next budget }, phase, next, ?_,
        hconsumer.trans hc, hdue.append, hresumes.turn rfl rfl hresumes.pull⟩
      rw [hsignal, signal_of_polling (by rw [hs]; rfl) hsource]
      show n.streams.set 0 _ = _
      rw [hs]
      rfl
    | succ j =>
      have hsame : (n.signal (j + 1)).streams = n.streams := by
        simp only [Node.signal, hs, List.getElem?_cons_succ, List.getElem?_nil]
      exact ⟨s, phase, next, hsignal.trans (hsame.trans hs), hconsumer.trans hc, hdue.append, hresumes⟩

/-- A step that leaves the log and the read model alone as well. -/
theorem aside (h : Piped p log applied n) (hstore : n'.store = n.store) (hmodel : n'.model = n.model)
    (hlookups : n'.lookups = n.lookups) (hconsumer : n'.consumer = n.consumer)
    (hstreams : n'.streams = n.streams) : Piped p log applied n' := by
  have hcurrent : Session.Current p (log ++ []) ⟨n'.store, n'.model, applied⟩ := by
    rw [hstore, hmodel, List.append_nil]
    exact h.current
  have hframed := h.frame hcurrent (hstore ▸ h.quiet) (hmodel ▸ h.unbounded) hlookups hconsumer
    (.inl hstreams)
  rwa [List.append_nil] at hframed

/-! ### The log and the read model -/

/-- The log is read, and a lookup or a load leaves a read model. -/
theorem read (h : Piped p log applied n) (hafter : n.store.After n'.store)
    (hcurrent : Session.Current p log ⟨n.store, n'.model, applied⟩)
    (hcapacity : n'.model.cache.entries.capacity = n.model.cache.entries.capacity)
    (hlookups : n'.lookups = n.lookups) (hconsumer : n'.consumer = n.consumer)
    (hstreams : Signalled n n') :
    Piped p log applied n' := by
  have hcurrent : Session.Current p (log ++ []) ⟨n'.store, n'.model, applied⟩ := by
    rw [List.append_nil]
    exact hcurrent.reading hafter
  have hframed := h.frame hcurrent (hafter.quiet h.quiet) (hcapacity.trans h.unbounded) hlookups
    hconsumer hstreams
  rwa [List.append_nil] at hframed

theorem get (h : Piped p log applied n) (s : StreamId) :
    Piped p log applied (n.serve fun m store => m.get store s).2 := by
  have hgot := ReadModel.got_get (m := n.model) h.current.keeps s
  exact h.read ReadModel.after_get (h.current.got hgot) hgot.capacity rfl rfl (.inl rfl)

theorem getAll (h : Piped p log applied n) :
    Piped p log applied (n.serve fun m store => m.getAll store).2 := by
  have hloaded := ReadModel.loadedAll_getAllIn (m := n.model) id h.current.keeps h.current.sized
    h.current.faults
  have hcurrent := h.current.loadedAll Loading.arranges_id hloaded
  exact h.read ReadModel.after_getAllIn hcurrent hloaded.capacity rfl rfl (.inl rfl)

/-- A batch is written behind the log. -/
theorem write (h : Piped p log applied n) {batch : List (Payload A)}
    (hstore : n'.store = (n.store.write batch).2) (hkeeps : n'.store.Keeps (log ++ more))
    (hmodel : n'.model = n.model) (hlookups : n'.lookups = n.lookups)
    (hconsumer : n'.consumer = n.consumer)
    (hstreams : Signalled n n') :
    Piped p (log ++ more) applied n' := by
  obtain ⟨hsize, hfaults, hstreamFaults⟩ := Store.write_reads (s := n.store) batch
  rw [← hstore] at hsize hfaults hstreamFaults
  have hcurrent := h.current.growing hkeeps hsize hfaults
  rw [← hmodel] at hcurrent
  exact h.frame hcurrent ⟨hfaults.trans h.quiet.1, hstreamFaults.trans h.quiet.2⟩
    (hmodel ▸ h.unbounded) hlookups hconsumer hstreams

/-- Others subscribe to what the read model tells, or leave. -/
theorem feeds (h : Piped p log applied n) (outcomes : Broadcaster Outcome) :
    Piped p log applied { n with model := { n.model with outcomes } } := by
  refine h.read (.refl _) ?_ rfl rfl rfl (.inl rfl)
  exact h.current.writing h.current.projector rfl rfl h.current.exact h.current.abreast h.current.whole

/-! ### The pull and the consumer -/

theorem pull (h : Piped p log applied n) (hmove : n.movePull i = some n') :
    Piped p log applied n' := by
  obtain ⟨hconsumer, hlookups, hmodel⟩ := aside_movePull hmove
  have hafter := after_movePull hmove
  obtain ⟨s, phase, next, hs, hc, hdue, hresumes⟩ := h.pipe
  have hput {s' : EventStream A} {next' : Position} (hs' : n'.streams = [s'])
      (hresumes' : s'.Resumes .zero 0 log (log.take (applied + (pending phase).length)) next') :
      Piped p log applied n' := by
    refine ⟨?_, hafter.quiet h.quiet, hmodel ▸ h.unbounded, hlookups.trans h.lookups, s', phase, next',
      hs', hconsumer.trans hc, hdue, hresumes'⟩
    rw [hmodel]
    exact h.current.reading hafter
  cases i with
  | succ i =>
    simp only [Node.movePull, hs, List.getElem?_cons_succ, List.getElem?_nil] at hmove
    cases hmove
  | zero =>
    have hat : n.streams[0]? = some s := by rw [hs]; rfl
    obtain ⟨wakeUp, budget, hsource⟩ := hresumes.source
    cases hpull : s.pull with
    | none =>
      simp only [Node.movePull, hat, hpull] at hmove
      cases hmove
    | some pull =>
      obtain ⟨loop, timer, rfl, hloop⟩ := hresumes.pull pull hpull
      have hnumbered := h.current.keeps.numbered
      cases polled_of_movePull hat hsource hpull hmove with
      | turn hturns _ _ hstream =>
        have hlength : n'.streams.length = 1 := by rw [length_streams_movePull hmove, hs]; rfl
        obtain ⟨s', hs'⟩ := List.length_eq_one_iff.mp hlength
        rw [hs'] at hstream
        cases hstream
        have htemporary : ∀ fault ∈ n.store.readFaults, fault.2.isTemporary = true :=
          fun fault => h.current.faults fault.1 fault.2
        have hstep := hturns.inStep h.current.keeps.files.decodes hnumbered htemporary hloop
        refine hput hs' (hresumes.turn rfl rfl fun pull hpull => ?_)
        exact ⟨_, _, (Option.some.inj hpull).symm, hstep⟩
      | passOn hemit =>
        obtain ⟨he, hnext, hloop'⟩ := hloop.emit hnumbered hemit
        exact hput (by rw [putStream, hs]; rfl) (hresumes.passOn he hnext hloop')
      | stop =>
        have hstopped : (n.stop 0).streams = [{ s with pull := none }] := by
          rw [stop_of_polling hat hsource]
          show n.streams.set 0 _ = _
          rw [hs]
          rfl
        refine hput hstopped (hresumes.turn rfl hsource fun pull hpull => ?_)
        cases hpull

/-- The consumer does something, but applies nothing. -/
theorem consume (h : Piped p log applied n) (hafter : n.store.After n'.store)
    (hmodel : n'.model = n.model) (hlookups : n'.lookups = n.lookups)
    (hpipe : ∃ s phase next, n'.streams = [s] ∧ n'.consumer = some ⟨0, 0, phase⟩ ∧
      phase.Due log applied ∧
      s.Resumes Position.zero 0 log (log.take (applied + (pending phase).length)) next) :
    Piped p log applied n' where
  current := by
    rw [hmodel]
    exact h.current.reading hafter
  quiet := hafter.quiet h.quiet
  unbounded := hmodel ▸ h.unbounded
  lookups := hlookups.trans h.lookups
  pipe := hpipe

variable [DecidableEq S]

/-- The event that the consumer has taken is applied. -/
theorem finishApply (h : Piped p log applied n) (hq : ∀ o : Outcome, p.concerns o.stream = false)
    {s : EventStream A} {next : Position} {phase : ConsumerPhase A} {e : Event A} {earlier : Page A}
    (hs : n.streams = [s]) (hpending : pending phase = [e])
    (hresumes : s.Resumes .zero 0 log (log.take (applied + (pending phase).length)) next)
    (he : log[applied]? = some e)
    (hread : n.model.cache.examine p e = .backfill → ∀ events, earlier = .ok events →
      events = Log.early log e.stream applied) :
    Piped p log (applied + 1) (n.finishApply ⟨0, 0, phase⟩ e earlier) ∧
      (n.finishApply ⟨0, 0, phase⟩ e earlier).model.outcomes = match e.payload.outcome? with
        | some o => (n.model.outcomes.publish o).1
        | none => n.model.outcomes := by
  have hconcerns : ∀ o, e.payload.outcome? = some o → p.concerns e.stream = false := by
    intro o ho
    cases hp : e.payload with
    | outcome o' =>
      rw [Event.stream, hp]
      exact hq o'
    | fact a =>
      rw [hp] at ho
      cases ho
  have hunreached := h.current.unreached he
  refine ⟨?_, ReadModel.outcomes_apply hunreached earlier⟩
  rw [hpending] at hresumes
  have hcapacity : (n.model.apply e earlier).1.cache.entries.capacity = none := by
    rw [ReadModel.cache_apply, Cache.capacity_apply, h.unbounded]
  exact ⟨h.current.applying he hconcerns hread, h.quiet, hcapacity, h.lookups, s, .idle, next, hs, rfl,
    trivial, hresumes⟩

/-- A step of the consumer leaves the read model alone, or applies the next event. -/
theorem consumer (h : Piped p log applied n) (hq : ∀ o : Outcome, p.concerns o.stream = false)
    (hmove : n.moveConsumer = some n') :
    Piped p log applied n' ∧ n'.model = n.model ∨
      ∃ e, log[applied]? = some e ∧ Piped p log (applied + 1) n' ∧
        n'.model.outcomes = match e.payload.outcome? with
          | some o => (n.model.outcomes.publish o).1
          | none => n.model.outcomes := by
  obtain ⟨s, phase, next, hs, hc, hdue, hresumes⟩ := h.pipe
  have hat : n.streams[0]? = some s := by rw [hs]; rfl
  simp only [moveConsumer, hc] at hmove
  cases phase with
  | idle =>
    simp only [outlet_of_getElem? hat] at hmove
    split at hmove
    · rename_i outlet e hreceive
      cases hmove
      obtain ⟨rest, hqueue, -⟩ := Broadcaster.receive_item hreceive
      have hsent := hresumes.sent
      rw [hqueue] at hsent
      have he : log[applied]? = some e := Log.next_of_sent h.bounded hsent
      have htaken := hresumes.take hreceive
      refine .inl ⟨h.consume (.refl _) rfl rfl
        ⟨{ s with outlet }, .locking e, next, ?_, rfl, he, ?_⟩, rfl⟩
      · show n.streams.modify 0 _ = _
        rw [hs]
        rfl
      · show EventStream.Resumes _ _ _ (log.take (applied + 1)) _ _
        rw [List.take_add_one, he]
        exact htaken
    · rename_i hreceive
      exact absurd hresumes.mailbox.linked (by
        rw [Broadcaster.unlinked_of_ended hreceive]
        exact Bool.false_ne_true)
    · cases hmove
  | locking e =>
    rcases acquire_cases hmove with ⟨-, rfl⟩ | rfl
    · exact .inl ⟨h.consume (.refl _) rfl rfl ⟨s, .applying e, next, hs, rfl, hdue, hresumes⟩, rfl⟩
    · exact .inl ⟨h.consume (.refl _) rfl rfl ⟨s, .locking e, next, hs, hc, hdue, hresumes⟩, rfl⟩
  | applying e =>
    simp only at hmove
    split at hmove
    · cases hmove
      refine .inl ⟨h.consume Store.after_readStream rfl rfl
        ⟨s, .holding e _, next, hs, rfl, ⟨hdue, fun events hpage => ?_⟩, hresumes⟩, rfl⟩
      rw [h.current.keeps.page_readStream, h.quiet.2] at hpage
      cases hpage
      rw [Log.below_eq_early h.current.keeps.numbered, h.current.keeps.numbered.position hdue]
    · rename_i hneeds
      cases hmove
      obtain ⟨hpiped, houtcomes⟩ := h.finishApply hq hs rfl hresumes hdue fun hx =>
        absurd (ReadModel.needsRead_iff.mpr (h.current.projector ▸ hx)) hneeds
      exact .inr ⟨e, hdue, hpiped, houtcomes⟩
  | holding e earlier =>
    simp only at hmove
    split at hmove
    · cases hmove
    · cases hmove
      obtain ⟨he, hearlier⟩ := hdue
      obtain ⟨hpiped, houtcomes⟩ := h.finishApply hq hs rfl hresumes he fun _ => hearlier
      exact .inr ⟨e, he, hpiped, houtcomes⟩

end Piped
end Node
end Chronicle
