import Chronicle.Proofs.Command.Persisting
import Chronicle.Proofs.Command.Submitting
import Chronicle.Proofs.Command.Tending

/-!
# Chronicle.Proofs.Command.Dispatching

A dispatcher from its subscription on, while commands are submitted, jobs take steps, the commands
are closed and the token fires in any order (`Node.OnShift`). The dispatcher begins one job for each
command that it receives, in the order in which the commands were submitted. It stops only when its
jobs are over, and unless the token fires it begins a job for every command that was submitted
before the commands were closed (`Node.served_in_order`).
-/

namespace Chronicle

/-- What became of the commands that were submitted since a dispatcher began. -/
structure Shift (A B : Type) where
  submitted : List (Command B) := []
  /-- What became of the dispatcher's subscription. -/
  reader : Reader (Command B) := { since := 0 }
  /-- What the jobs have done. -/
  doings : Nat → Doings A := fun _ => {}

theorem Reader.endAt_of_ended {T : Type} {r : Reader T} (h : r.upTo.isSome = true) (n : Nat) :
    r.endAt n = r := by
  obtain ⟨since, upTo, received, lost⟩ := r
  cases upTo with
  | none => cases h
  | some k => rfl

namespace Node

variable {A S B : Type} [Vocabulary A] {n n' m m' : Node A S B} {i k : Nat} {d e : Dispatcher}
  {s : Shift A B} {a : Assignment A S B} {c : Command B}

/-! ## Steps -/

def errand (c : Command B) : Assignment A S B :=
  { job := { command := c, persists := true }, token := .shutdown }

def receives (n : Node A S B) (i : Nat) : List (Command B) :=
  match n.dispatchers[i]? with
  | some ⟨subscription, .receiving, _⟩ =>
    if n.shutdown.fired then [] else (n.commands.mailbox subscription).queue.take 1
  | _ => []

/-- What the next step of a dispatcher makes of its subscription, behind so many submissions. -/
def heeds (n : Node A S B) (i count : Nat) (r : Reader (Command B)) : Reader (Command B) :=
  match n.dispatchers[i]? with
  | some ⟨subscription, .draining, _⟩ => r.drop (n.commands.mailbox subscription).queue count
  | _ => (n.receives i).foldl Reader.receive r

section Receives

variable {count : Nat} {r : Reader (Command B)}

theorem receives_of_fired (hfired : n.shutdown.fired = true) : n.receives i = [] := by
  unfold receives
  split
  · rw [if_pos hfired]
  · rfl

theorem receives_of_receiving (hd : n.dispatchers[i]? = some d) (hphase : d.phase = .receiving)
    (hfired : n.shutdown.fired = false) :
    n.receives i = (n.commands.mailbox d.subscription).queue.take 1 := by
  obtain ⟨subscription, phase, begun⟩ := d
  cases hphase
  simp only [receives, hd, hfired, if_false, Bool.false_eq_true]

theorem receives_of_draining (hd : n.dispatchers[i]? = some d) (hphase : d.phase = .draining) :
    n.receives i = [] := by
  obtain ⟨subscription, phase, begun⟩ := d
  cases hphase
  simp only [receives, hd]

theorem heeds_of_receiving (hd : n.dispatchers[i]? = some d) (hphase : d.phase = .receiving) :
    n.heeds i count r = (n.receives i).foldl Reader.receive r := by
  obtain ⟨subscription, phase, begun⟩ := d
  cases hphase
  simp only [heeds, hd]

theorem heeds_of_draining (hd : n.dispatchers[i]? = some d) (hphase : d.phase = .draining) :
    n.heeds i count r = r.drop (n.commands.mailbox d.subscription).queue count := by
  obtain ⟨subscription, phase, begun⟩ := d
  cases hphase
  simp only [heeds, hd]

end Receives

inductive Dispatching (n : Node A S B) (i : Nat) (d : Dispatcher) : Node A S B → Prop where
  | quit : d.phase = .receiving → n.shutdown.fired = true →
      Dispatching n i d (n.putDispatcher i { d with phase := .draining })
  | begin (c : Command B) (rest : List (Command B)) (turns : List TaskId) :
      d.phase = .receiving → n.shutdown.fired = false →
      (n.commands.mailbox d.subscription).queue = c :: rest →
      Dispatching n i d { n with
        commands := (n.commands.receive d.subscription).1
        jobs := n.jobs ++ [errand c]
        dispatchers := n.dispatchers.set i { d with begun := d.begun ++ [n.jobs.length] }
        turns }
  | finish : d.phase = .receiving → n.shutdown.fired = false →
      (n.commands.mailbox d.subscription).queue = [] →
      (n.commands.mailbox d.subscription).linked = false →
      Dispatching n i d (n.putDispatcher i { d with phase := .draining })
  | stop (turns : List TaskId) : d.phase = .draining → n.drained d = true →
      Dispatching n i d { n with
        commands := n.commands.drop d.subscription
        dispatchers := n.dispatchers.set i { d with phase := .stopped }
        turns }

theorem moveDispatcher_cases (hd : n.dispatchers[i]? = some d)
    (h : n.moveDispatcher i = some n') : Dispatching n i d n' := by
  obtain ⟨subscription, phase, begun⟩ := d
  simp only [moveDispatcher, hd] at h
  cases phase with
  | receiving =>
    cases hfired : n.shutdown.fired with
    | true =>
      simp only [hfired, if_true] at h
      cases h
      exact .quit rfl hfired
    | false =>
      simp only [hfired, if_false, Bool.false_eq_true] at h
      split at h
      · rename_i commands c hreceive
        obtain ⟨rest, hqueue, -⟩ := Broadcaster.receive_item hreceive
        obtain rfl : (n.commands.receive subscription).1 = commands := by rw [hreceive]
        obtain ⟨turns, hassigned⟩ := assign_eq (n := { n with
          commands := (n.commands.receive subscription).1 }) c
        simp only [hassigned] at h
        cases h
        exact .begin c rest turns rfl hfired hqueue
      · rename_i hended
        cases h
        exact .finish rfl hfired (Broadcaster.queue_of_ended hended)
          (Broadcaster.unlinked_of_ended hended)
      · cases h
  | draining =>
    simp only at h
    split at h
    · rename_i hdrained
      cases h
      exact .stop _ rfl hdrained
    · cases h
  | stopped => cases h

theorem exists_of_moveDispatcher (h : n.moveDispatcher i = some n') :
    ∃ d, n.dispatchers[i]? = some d := by
  cases hd : n.dispatchers[i]? with
  | none => simp [moveDispatcher, hd] at h
  | some d => exact ⟨d, rfl⟩

/-- When a dispatcher waits. -/
theorem waits_cases (hd : n.dispatchers[i]? = some d) (h : n.moveDispatcher i = none) :
    d.phase = .stopped ∨ (d.phase = .draining ∧ n.drained d = false) ∨
      (d.phase = .receiving ∧ n.shutdown.fired = false ∧
        (n.commands.mailbox d.subscription).queue = [] ∧
        (n.commands.mailbox d.subscription).linked = true) := by
  simp only [moveDispatcher, hd] at h
  cases hphase : d.phase with
  | receiving =>
    simp only [hphase] at h
    cases hfired : n.shutdown.fired with
    | true =>
      simp only [hfired, if_true] at h
      cases h
    | false =>
      simp only [hfired, if_false, Bool.false_eq_true] at h
      cases hqueue : (n.commands.mailbox d.subscription).queue with
      | nil =>
        rw [Broadcaster.receive_of_nil hqueue] at h
        cases hlinked : (n.commands.mailbox d.subscription).linked with
        | true => exact .inr (.inr ⟨rfl, rfl, rfl, rfl⟩)
        | false =>
          simp only [hlinked, if_false, Bool.false_eq_true] at h
          cases h
      | cons c rest =>
        rw [Broadcaster.receive_eq hqueue] at h
        cases h
  | draining =>
    simp only [hphase] at h
    cases hdrained : n.drained d with
    | true =>
      simp only [hdrained, if_true] at h
      cases h
    | false => exact .inr (.inl ⟨rfl, rfl⟩)
  | stopped => exact .inl rfl

/-! ## What goes on -/

/-- What goes on beside a dispatcher: its subscription may be counted, others may begin jobs, and
whatever does not concern the dispatcher and its jobs may change. -/
structure Aside (i : Nat) (n n' : Node A S B) : Prop extends Beside (fun _ => True) n n' where
  dispatcher : n'.dispatchers[i]? = n.dispatchers[i]?
  mailbox : ∀ d, n.dispatchers[i]? = some d →
    n'.commands.mailbox d.subscription = n.commands.mailbox d.subscription ∨
      n'.commands.mailbox d.subscription = (n.commands.mailbox d.subscription).prune
  shutdown : n'.shutdown = n.shutdown

/-- What a node comes to that has got a further dispatcher, in any order of the steps of the
dispatcher and of jobs with submissions and what else goes on, and what becomes of the commands. -/
inductive OnShift (n : Node A S B) : Shift A B → Node A S B → Prop where
  | start : OnShift n {} n.dispatch
  | own {s : Shift A B} {m m' : Node A S B} : OnShift n s m →
      m.moveDispatcher n.dispatchers.length = some m' →
      OnShift n { s with reader := m.heeds n.dispatchers.length s.submitted.length s.reader } m'
  | job {s : Shift A B} {m m' : Node A S B} (i : Nat) : OnShift n s m → m.moveJob i = some m' →
      OnShift n { s with doings := Function.update s.doings i (m.does i (s.doings i)) } m'
  | submit {s : Shift A B} {m : Node A S B} (c : Command B) : OnShift n s m →
      OnShift n { s with submitted := s.submitted ++ [c] } (m.submit c)
  | close {s : Shift A B} {m : Node A S B} : OnShift n s m →
      OnShift n { s with reader := s.reader.endAt s.submitted.length } m.closeCommands
  | shutDown {s : Shift A B} {m : Node A S B} : OnShift n s m → OnShift n s m.shutDown
  | aside {s : Shift A B} {m m' : Node A S B} : OnShift n s m →
      Aside n.dispatchers.length m m' → OnShift n s m'

/-- Where a dispatcher is with the commands that were submitted since it began. -/
structure Served (n : Node A S B) (s : Shift A B) (m : Node A S B) (d : Dispatcher) : Prop where
  dispatcher : m.dispatchers[n.dispatchers.length]? = some d
  handlers : m.handlers = n.handlers
  policy : m.policy = n.policy
  searches : m.searches = n.searches
  since : s.reader.since = 0
  follows : Reader.Follows s.submitted (m.commands.mailbox d.subscription) s.reader
  held : d.phase ≠ .stopped → (m.commands.mailbox d.subscription).held = true
  /-- There is a job for each command that was received. It is over if the dispatcher has stopped. -/
  begun : List.Forall₂ (fun i c => ∃ a, m.jobs[i]? = some a ∧ Undertakes n c (s.doings i) a ∧
    (d.phase = .stopped → a.job.isOver = true)) d.begun s.reader.received
  distinct : d.begun.Pairwise (· < ·)
  idle : ∀ i, m.jobs.length ≤ i → s.doings i = {}
  /-- Only the token makes the dispatcher give up what was submitted. -/
  complete : d.phase ≠ .receiving → m.shutdown.fired = false →
    s.reader.upTo.isSome = true ∧ s.reader.received = stretch s.submitted 0 s.reader.upTo

namespace Served

theorem start : Served n {} n.dispatch ⟨n.commands.subscribe.2, .receiving, []⟩ := by
  have hdispatch : ∃ turns, n.dispatch = { n with
      commands := n.commands.subscribe.1
      dispatchers := n.dispatchers ++ [⟨n.commands.subscribe.2, .receiving, []⟩]
      turns } := by
    unfold dispatch enlist
    dsimp only
    split <;> exact ⟨_, rfl⟩
  obtain ⟨turns, hdispatch⟩ := hdispatch
  rw [hdispatch]
  have hmailbox := Broadcaster.mailbox_subscribe (b := n.commands)
  refine ⟨List.getElem?_concat_length, rfl, rfl, rfl, rfl, ?_, fun _ => ?_, .nil, .nil,
    fun _ _ => rfl, fun h => absurd rfl h⟩
  · rw [hmailbox]
    exact Reader.follows_new
  · rw [hmailbox]
    rfl

theorem submit (h : Served n s m d) (c : Command B) :
    Served n { s with submitted := s.submitted ++ [c] } (m.submit c) d := by
  have hmailbox : (m.submit c).commands.mailbox d.subscription
      = (m.commands.mailbox d.subscription).deliver c := Broadcaster.mailbox_publish c
  refine { h with follows := ?_, held := fun hphase => ?_, complete := fun hphase hfired => ?_ }
  · rw [hmailbox]
    exact h.follows.publish c
  · rw [hmailbox, Mailbox.held_deliver]
    exact h.held hphase
  · obtain ⟨hended, hreceived⟩ := h.complete hphase hfired
    obtain ⟨k, hk⟩ := Option.isSome_iff_exists.mp hended
    refine ⟨hended, ?_⟩
    rw [hk] at hreceived ⊢
    rw [stretch_concat_ended (h.follows.upTo_le k hk)]
    exact hreceived

theorem close (h : Served n s m d) :
    Served n { s with reader := s.reader.endAt s.submitted.length } m.closeCommands d := by
  have hmailbox : m.closeCommands.commands.mailbox d.subscription
      = (m.commands.mailbox d.subscription).unlink := Broadcaster.mailbox_close
  refine { h with follows := ?_, held := fun hphase => ?_, complete := fun hphase hfired => ?_ }
  · rw [hmailbox]
    exact h.follows.close
  · rw [hmailbox]
    exact h.held hphase
  · obtain ⟨hended, hreceived⟩ := h.complete hphase hfired
    rw [Reader.endAt_of_ended hended]
    exact ⟨hended, hreceived⟩

theorem shutDown (h : Served n s m d) : Served n s m.shutDown d := by
  refine { h with complete := fun hphase hfired => h.complete hphase ?_ }
  exact (Bool.or_eq_false_iff.mp hfired).1

theorem aside (h : Served n s m d) (haside : Aside n.dispatchers.length m m') :
    Served n s m' d := by
  have hmailbox := haside.mailbox d h.dispatcher
  refine ⟨haside.dispatcher.trans h.dispatcher, haside.handlers.trans h.handlers,
    haside.policy.trans h.policy, haside.searches.trans h.searches, h.since, ?_, fun hphase => ?_,
    h.begun.imp ?_, h.distinct, fun i hi => h.idle i ?_, ?_⟩
  · rcases hmailbox with heq | heq
    · rw [heq]
      exact h.follows
    · rw [heq]
      exact h.follows.prune
  · rcases hmailbox with heq | heq
    · rw [heq]
      exact h.held hphase
    · rw [heq]
      exact h.held hphase
  · rintro i c ⟨a, ha, hjob, hover⟩
    obtain ⟨a', ha', hnudged⟩ := haside.jobs i a trivial ha
    exact ⟨a', ha', hjob.nudged hnudged, hnudged.job ▸ hover⟩
  · by_contra hlt
    obtain ⟨a', ha', -⟩ := haside.jobs i _ trivial (List.getElem?_eq_getElem (Nat.lt_of_not_le hlt))
    rw [List.getElem?_eq_none hi] at ha'
    cases ha'
  · rw [haside.shutdown]
    exact h.complete

theorem job (h : Served n s m d) (hmove : m.moveJob i = some m') :
    Served n { s with doings := Function.update s.doings i (m.does i (s.doings i)) } m' d := by
  obtain ⟨a, ha⟩ := exists_of_moveJob hmove
  obtain ⟨a', hmoved⟩ := moveJob_moved ha hmove
  have huntouched := hmoved.untouched
  have hhandlers := huntouched.handlers.trans h.handlers
  have hpolicy := huntouched.policy.trans h.policy
  have hsearches := huntouched.searches.trans h.searches
  refine ⟨?_, hhandlers, hpolicy, hsearches, h.since, ?_, ?_, h.begun.imp ?_, h.distinct,
    fun k hk => ?_, ?_⟩
  · rw [huntouched.dispatchers]
    exact h.dispatcher
  · rw [huntouched.commands]
    exact h.follows
  · rw [huntouched.commands]
    exact h.held
  · rintro k c ⟨b, hb, hjob, hover⟩
    by_cases hki : k = i
    · subst hki
      obtain rfl : a = b := Option.some.inj (ha.symm.trans hb)
      have hjob' : Undertakes m c (s.doings k) a := hjob.of_eq h.handlers h.policy h.searches
      refine ⟨a', hmoved.after, ?_, fun hstopped => ?_⟩
      · show Undertakes n c (Function.update s.doings k _ k) a'
        rw [Function.update_self]
        exact (hjob'.move hmoved).of_eq hhandlers.symm hpolicy.symm hsearches.symm
      · have hrunning := hmoved.running
        rw [hover hstopped] at hrunning
        cases hrunning
    · refine ⟨b, ?_, ?_, hover⟩
      · rw [hmoved.jobs, List.getElem?_set_ne (Ne.symm hki), hb]
      · show Undertakes n c (Function.update s.doings i _ k) b
        rw [Function.update_of_ne hki]
        exact hjob
  · have hi := (List.getElem?_eq_some_iff.mp ha).1
    rw [hmoved.jobs, List.length_set] at hk
    have hki : k ≠ i := by omega
    exact (Function.update_of_ne hki _ _).trans (h.idle k hk)
  · rw [huntouched.shutdown]
    exact h.complete

theorem begun_lt (h : Served n s m d) : ∀ i ∈ d.begun, i < m.jobs.length := by
  have hjobs : List.Forall₂ (fun i (_ : Command B) => i < m.jobs.length ∧ True) d.begun
      s.reader.received := by
    refine h.begun.imp ?_
    rintro i c ⟨a, ha, -⟩
    exact ⟨(List.getElem?_eq_some_iff.mp ha).1, trivial⟩
  exact ((List.forall₂_and_left _ _).mp hjobs).1

/-- A dispatcher goes on to wait for its jobs, because the token has fired, or because nothing is left
of the commands. -/
theorem drain (h : Served n s m d) (hphase : d.phase = .receiving)
    (hended : m.shutdown.fired = false →
      (m.commands.mailbox d.subscription).queue = [] ∧
        (m.commands.mailbox d.subscription).linked = false) :
    Served n s (m.putDispatcher n.dispatchers.length { d with phase := .draining })
      { d with phase := .draining } := by
  have hheld : (m.commands.mailbox d.subscription).held = true := by
    refine h.held ?_
    rw [hphase]
    exact nofun
  have hlt := (List.getElem?_eq_some_iff.mp h.dispatcher).1
  refine { h with
    dispatcher := List.getElem?_set_self hlt
    held := fun _ => hheld
    begun := h.begun.imp fun i c => ?_
    complete := fun _ hfired => ?_ }
  · rintro ⟨a, ha, hjob, -⟩
    exact ⟨a, ha, hjob, nofun⟩
  · obtain ⟨hqueue, hlinked⟩ := hended hfired
    have hlive := h.follows.live
    have hseen := h.follows.seen
    rw [hlinked, Bool.false_and] at hlive
    rw [hqueue, h.follows.held hheld, List.append_nil, List.append_nil, h.since] at hseen
    refine ⟨?_, hseen⟩
    rw [← Option.not_isNone, ← hlive]
    rfl

theorem begin {rest : List (Command B)} (h : Served n s m d) (hphase : d.phase = .receiving)
    (hqueue : (m.commands.mailbox d.subscription).queue = c :: rest) (turns : List TaskId) :
    Served n { s with reader := s.reader.receive c }
      { m with
        commands := (m.commands.receive d.subscription).1
        jobs := m.jobs ++ [errand c]
        dispatchers := m.dispatchers.set n.dispatchers.length
          { d with begun := d.begun ++ [m.jobs.length] }
        turns }
      { d with begun := d.begun ++ [m.jobs.length] } := by
  have hlt := (List.getElem?_eq_some_iff.mp h.dispatcher).1
  have hmailbox := (Broadcaster.receive_of_cons hqueue).2
  refine { h with
    dispatcher := List.getElem?_set_self hlt
    follows := ?_
    held := fun hrunning => ?_
    begun := List.rel_append (h.begun.imp fun i c' => ?_) (.cons ⟨errand c, ?_, ?_, ?_⟩ .nil)
    distinct := ?_
    idle := fun i hi => ?_
    complete := fun hrunning => absurd hphase hrunning }
  · rw [hmailbox]
    exact h.follows.receive hqueue
  · rw [hmailbox]
    exact h.held hrunning
  · rintro ⟨a, ha, hjob, hover⟩
    refine ⟨a, ?_, hjob, hover⟩
    rw [List.getElem?_append_left (List.getElem?_eq_some_iff.mp ha).1, ha]
  · exact List.getElem?_concat_length
  · show Undertakes n c (s.doings m.jobs.length) (errand c)
    rw [h.idle _ (Nat.le_refl _)]
    exact .start
  · rw [hphase]
    exact nofun
  · refine List.pairwise_append.mpr ⟨h.distinct, List.pairwise_singleton _ _, fun i hi k hk => ?_⟩
    rw [List.mem_singleton.mp hk]
    exact h.begun_lt i hi
  · refine h.idle i ?_
    have hlength : (m.jobs ++ [errand c]).length ≤ i := hi
    rw [List.length_append] at hlength
    omega

theorem stop (h : Served n s m d) (hphase : d.phase = .draining) (hdrained : m.drained d = true)
    (turns : List TaskId) :
    Served n
      { s with
        reader := s.reader.drop (m.commands.mailbox d.subscription).queue s.submitted.length }
      { m with
        commands := m.commands.drop d.subscription
        dispatchers := m.dispatchers.set n.dispatchers.length { d with phase := .stopped }
        turns }
      { d with phase := .stopped } := by
  have hlt := (List.getElem?_eq_some_iff.mp h.dispatcher).1
  have hover : ∀ i ∈ d.begun, ∀ a, m.jobs[i]? = some a → a.job.isOver = true := by
    intro i hi a ha
    have hi' := List.all_eq_true.mp hdrained i hi
    rw [ha] at hi'
    exact hi'
  refine { h with
    dispatcher := List.getElem?_set_self hlt
    follows := ?_
    held := fun hrunning => absurd rfl hrunning
    begun := ((List.forall₂_and_left _ _).mpr ⟨hover, h.begun⟩).imp fun i c => ?_
    complete := fun _ hfired => ?_ }
  · rw [Broadcaster.mailbox_drop]
    exact h.follows.drop
  · rintro ⟨hover, a, ha, hjob, -⟩
    exact ⟨a, ha, hjob, fun _ => hover a ha⟩
  · have hrunning : d.phase ≠ .receiving := by
      rw [hphase]
      exact nofun
    obtain ⟨hended, hreceived⟩ := h.complete hrunning hfired
    rw [Reader.drop, Reader.endAt_of_ended hended]
    exact ⟨hended, hreceived⟩

theorem own (h : Served n s m d) (hmove : m.moveDispatcher n.dispatchers.length = some m') :
    ∃ d', Served n { s with
      reader := m.heeds n.dispatchers.length s.submitted.length s.reader } m' d' := by
  cases moveDispatcher_cases h.dispatcher hmove with
  | quit hphase hfired =>
    rw [heeds_of_receiving h.dispatcher hphase, receives_of_fired hfired]
    refine ⟨_, h.drain hphase fun hnot => ?_⟩
    rw [hfired] at hnot
    cases hnot
  | begin c rest turns hphase hfired hqueue =>
    rw [heeds_of_receiving h.dispatcher hphase, receives_of_receiving h.dispatcher hphase hfired,
      hqueue]
    exact ⟨_, h.begin hphase hqueue turns⟩
  | finish hphase hfired hqueue hlinked =>
    rw [heeds_of_receiving h.dispatcher hphase, receives_of_receiving h.dispatcher hphase hfired,
      hqueue]
    exact ⟨_, h.drain hphase fun _ => ⟨hqueue, hlinked⟩⟩
  | stop turns hphase hdrained =>
    rw [heeds_of_draining h.dispatcher hphase]
    exact ⟨_, h.stop hphase hdrained turns⟩

end Served

theorem OnShift.served (h : OnShift n s m) : ∃ d, Served n s m d := by
  induction h with
  | start => exact ⟨_, .start⟩
  | own _ hmove ih =>
    obtain ⟨d, hd⟩ := ih
    exact hd.own hmove
  | job i _ hmove ih =>
    obtain ⟨d, hd⟩ := ih
    exact ⟨d, hd.job hmove⟩
  | submit c _ ih =>
    obtain ⟨d, hd⟩ := ih
    exact ⟨d, hd.submit c⟩
  | close _ ih =>
    obtain ⟨d, hd⟩ := ih
    exact ⟨d, hd.close⟩
  | shutDown _ ih =>
    obtain ⟨d, hd⟩ := ih
    exact ⟨d, hd.shutDown⟩
  | aside _ haside ih =>
    obtain ⟨d, hd⟩ := ih
    exact ⟨d, hd.aside haside⟩

/-! ## The other tasks -/

theorem Cleared.aside (h : Cleared n n') (i : Nat) : Aside i n n' where
  toBeside := .of_nudged (h.jobs ▸ nudged_refl n.jobs) h.handlers h.policy h.searches
  dispatcher := by rw [h.dispatchers]
  mailbox d _ := .inl (by rw [h.commands])
  shutdown := h.shutdown

theorem aside_moveToken (h : n.moveToken k = some n') : Aside i n n' := by
  obtain ⟨jobs, hjobs, rfl⟩ := nudged_moveToken h
  exact ⟨.of_nudged hjobs rfl rfl rfl, rfl, fun _ _ => .inl rfl, rfl⟩

/-- A dispatcher with another subscription is among what goes on beside a dispatcher. -/
theorem Dispatching.aside (h : Dispatching n k e n') (hki : k ≠ i) (hd : n.dispatchers[i]? = some d)
    (hapart : e.subscription ≠ d.subscription) : Aside i n n' := by
  have hset (e' : Dispatcher) : (n.dispatchers.set k e')[i]? = n.dispatchers[i]? :=
    List.getElem?_set_ne hki
  have hbeside {m : Node A S B} (hjobs : m.jobs = n.jobs) (hhandlers : m.handlers = n.handlers)
      (hpolicy : m.policy = n.policy) (hsearches : m.searches = n.searches) :
      Beside (fun _ => True) n m :=
    .of_nudged (hjobs ▸ nudged_refl n.jobs) hhandlers hpolicy hsearches
  cases h with
  | quit _ _ => exact ⟨hbeside rfl rfl rfl rfl, hset _, fun _ _ => .inl rfl, rfl⟩
  | begin c rest turns _ _ _ =>
    refine ⟨⟨rfl, rfl, rfl, fun k a _ ha => ⟨a, ?_, .none⟩⟩, hset _, fun d' hd' => .inl ?_, rfl⟩
    · rw [← ha]
      exact List.getElem?_append_left (List.getElem?_eq_some_iff.mp ha).1
    · cases hd.symm.trans hd'
      exact Broadcaster.mailbox_receive_of_ne hapart
  | finish _ _ _ _ => exact ⟨hbeside rfl rfl rfl rfl, hset _, fun _ _ => .inl rfl, rfl⟩
  | stop turns _ _ =>
    refine ⟨hbeside rfl rfl rfl rfl, hset _, fun d' hd' => .inl ?_, rfl⟩
    cases hd.symm.trans hd'
    exact Broadcaster.mailbox_drop_of_ne hapart

theorem Dispatching.subscriptions (h : Dispatching n k e n') (he : n.dispatchers[k]? = some e) :
    n'.dispatchers.map (·.subscription) = n.dispatchers.map (·.subscription) := by
  cases h <;> exact map_set_of_eq he rfl

/-- In whatever order the tasks of a node take steps, they are such a course of events. -/
theorem OnShift.of_moves [DecidableEq S] {ts : List TaskId} (h : OnShift n s m)
    (hnodup : (m.dispatchers.map (·.subscription)).Nodup) (hrun : runMoves move m ts = some m') :
    ∃ s', OnShift n s' m' := by
  have hshift : (∃ s', OnShift n s' m') ∧ (m'.dispatchers.map (·.subscription)).Nodup := by
    refine runMoves_induction
      (P := fun m' => (∃ s', OnShift n s' m') ∧ (m'.dispatchers.map (·.subscription)).Nodup)
      ⟨⟨s, h⟩, hnodup⟩ ?_ hrun
    intro _ t u v _ _ hmove hu
    obtain ⟨⟨s', hs'⟩, hnodup⟩ := hu
    have hcleared (hv : Cleared u v) :
        (∃ s', OnShift n s' v) ∧ (v.dispatchers.map (·.subscription)).Nodup :=
      ⟨⟨s', hs'.aside (hv.aside _)⟩, by rw [hv.dispatchers]; exact hnodup⟩
    cases t with
    | pull i => exact hcleared (cleared_movePull hmove)
    | consumer => exact hcleared (cleared_moveConsumer hmove)
    | lookup i => exact hcleared (cleared_moveLookup hmove)
    | job i =>
      refine ⟨⟨_, hs'.job i hmove⟩, ?_⟩
      rw [(untouched_moveJob hmove).dispatchers]
      exact hnodup
    | token k =>
      refine ⟨⟨s', hs'.aside (aside_moveToken hmove)⟩, ?_⟩
      obtain ⟨jobs, -, rfl⟩ := nudged_moveToken hmove
      exact hnodup
    | dispatcher k =>
      obtain ⟨e, he⟩ := exists_of_moveDispatcher hmove
      have hdispatching := moveDispatcher_cases he hmove
      refine ⟨?_, by rw [hdispatching.subscriptions he]; exact hnodup⟩
      by_cases hk : k = n.dispatchers.length
      · subst hk
        exact ⟨_, hs'.own hmove⟩
      · obtain ⟨d, hd⟩ := hs'.served
        refine ⟨s', hs'.aside (hdispatching.aside hk hd.dispatcher fun hsame => hk ?_)⟩
        refine (List.getElem?_inj ?_ hnodup).mp ?_
        · rw [List.length_map]
          exact (List.getElem?_eq_some_iff.mp he).1
        · rw [List.getElem?_map, List.getElem?_map, he, hd.dispatcher, Option.map_some,
            Option.map_some, hsame]
  exact hshift.1

/-! ## A dispatcher's shift -/

/-- Every step of a dispatcher begins one job for what it receives, and no other. -/
theorem Dispatching.jobs_eq (h : Dispatching n i d n') (hd : n.dispatchers[i]? = some d) :
    n'.jobs = n.jobs ++ (n.receives i).map errand := by
  cases h with
  | quit hphase hfired =>
    rw [receives_of_fired hfired]
    exact (List.append_nil _).symm
  | begin c rest turns hphase hfired hqueue =>
    rw [receives_of_receiving hd hphase hfired, hqueue]
    rfl
  | finish hphase hfired hqueue hlinked =>
    rw [receives_of_receiving hd hphase hfired, hqueue]
    exact (List.append_nil _).symm
  | stop turns hphase hdrained =>
    rw [receives_of_draining hd hphase]
    exact (List.append_nil _).symm

/-- A dispatcher waits for commands only when it has received all of them and more may come. -/
theorem Served.waits (h : Served n s m d) (hwaits : m.moveDispatcher n.dispatchers.length = none) :
    d.phase = .stopped ∨
      (d.phase = .draining ∧ ∃ i ∈ d.begun, ∃ a, m.jobs[i]? = some a ∧ a.job.isOver = false) ∨
      (d.phase = .receiving ∧ m.shutdown.fired = false ∧ s.reader.upTo = none ∧
        s.reader.received = s.submitted) := by
  rcases waits_cases h.dispatcher hwaits with hstopped | ⟨hphase, hdrained⟩ |
    ⟨hphase, hfired, hqueue, hlinked⟩
  · exact .inl hstopped
  · refine .inr (.inl ⟨hphase, ?_⟩)
    obtain ⟨i, hi, hrunning⟩ := List.all_eq_false.mp hdrained
    obtain ⟨a, ha⟩ : ∃ a, m.jobs[i]? = some a :=
      ⟨_, List.getElem?_eq_getElem (h.begun_lt i hi)⟩
    rw [ha] at hrunning
    exact ⟨i, hi, a, ha, Bool.eq_false_iff.mpr hrunning⟩
  · have hheld : (m.commands.mailbox d.subscription).held = true := by
      refine h.held ?_
      rw [hphase]
      exact nofun
    have hopen : s.reader.upTo = none := by
      have hlive := h.follows.live
      rw [hlinked, hheld] at hlive
      exact Option.isNone_iff_eq_none.mp hlive.symm
    have hseen := h.follows.seen
    rw [hqueue, h.follows.held hheld, List.append_nil, List.append_nil, hopen, h.since,
      stretch_open, List.drop_zero] at hseen
    exact .inr (.inr ⟨hphase, hfired, hopen, hseen⟩)

/-- A dispatcher that has begun on a node receives the commands in the order in which they are
submitted, without leaving one out, and begins a job of its own for each. It stops only when all of
them are over. A job that is over has a result for its command, which it has announced once on both
feeds after it has pursued the outcome, unless the handler of the command could not be built. As
long as the token does not fire, the dispatcher goes on until the commands are closed, and until it
has received all that were submitted before that. -/
theorem served_in_order (h : OnShift n s m) :
    ∃ d, m.dispatchers[n.dispatchers.length]? = some d ∧
      s.reader.received ++ (m.commands.mailbox d.subscription).queue ++ s.reader.lost
        = stretch s.submitted 0 s.reader.upTo ∧
      d.begun.Pairwise (· < ·) ∧
      List.Forall₂ (fun i c => ∃ a, m.jobs[i]? = some a ∧ a.job.command = c ∧ Dispatched a ∧
        (d.phase = .stopped → a.job.isOver = true) ∧
        (a.job.isOver = true → ¬ n.handlers.Breaks c →
          ∃ r, a.job.phase = .finished r ∧ r.id = c.id ∧ (s.doings i).said = [r] ∧
            Pursued n.policy.maxRetries n.searches r (s.doings i).tried))
        d.begun s.reader.received ∧
      (m.shutdown.fired = false → d.phase ≠ .receiving →
        ∃ k, s.reader.upTo = some k ∧ s.reader.received = s.submitted.take k) ∧
      (m.moveDispatcher n.dispatchers.length = none → d.phase = .stopped ∨
        (d.phase = .draining ∧ ∃ i ∈ d.begun, ∃ a, m.jobs[i]? = some a ∧ a.job.isOver = false) ∨
        (d.phase = .receiving ∧ m.shutdown.fired = false ∧ s.reader.upTo = none ∧
          s.reader.received = s.submitted)) ∧
      (∀ m', m.moveDispatcher n.dispatchers.length = some m' →
        m'.jobs = m.jobs ++ (m.receives n.dispatchers.length).map errand) ∧
      ∀ i m', m.moveJob i = some m' →
        m'.results = (m.announces i).foldl (fun feed r => (feed.publish r).1) m.results ∧
        m'.outcomes = (m.announces i).foldl (fun feed r => (feed.publish r.outcome).1) m.outcomes ∧
        ∀ t ∈ m.attempted (m.nextAct i),
          t.committed = (m.store.write [.outcome t.outcome]).1.isOk ∧
          m'.store = (m.store.write [.outcome t.outcome]).2 ∧
          (t.acknowledged = true → t.committed = true) := by
  obtain ⟨d, hserved⟩ := h.served
  refine ⟨d, hserved.dispatcher, ?_, hserved.distinct, hserved.begun.imp ?_,
    fun hfired hphase => ?_, hserved.waits, fun m' hmove => ?_,
    fun i m' hmove => ⟨(published_moveJob hmove).1, (published_moveJob hmove).2,
      attempted_moveJob hmove⟩⟩
  · rw [← hserved.since]
    exact hserved.follows.seen
  · rintro i c ⟨a, ha, hjob, hover⟩
    exact ⟨a, ha, hjob.command, hjob.toDispatched, hover, hjob.attends⟩
  · obtain ⟨hended, hreceived⟩ := hserved.complete hphase hfired
    obtain ⟨k, hk⟩ := Option.isSome_iff_exists.mp hended
    rw [hk] at hreceived
    exact ⟨k, hk, hreceived⟩
  · exact (moveDispatcher_cases hserved.dispatcher hmove).jobs_eq hserved.dispatcher

def staffed : Node Notes.Fact Int64 Unit :=
  listening
    ⟨[("Note", .shared fun _ => .finish (.handled (.ok [] "noted"))),
      ("Slip", .shared fun _ => .finish (.panicked (.text "boom")))]⟩ []

def requests : List (Command Unit) :=
  [⟨.ofNat 1, "Note", ()⟩, ⟨.ofNat 2, "Slip", ()⟩, ⟨.ofNat 3, "Forget", ()⟩, ⟨.ofNat 4, "Note", ()⟩]

/-- The commands are closed before the last of them. If the token fires instead when one is begun,
the next is given up, and that one still has its outcome. -/
theorem staffed_served_in_order :
    (∃ s m, OnShift staffed s m ∧ s.submitted = requests ∧
      m.dispatchers = [⟨0, .stopped, [0, 1, 2]⟩] ∧
      m.jobs.map (·.job.result?) =
        [some (.processed (.ofNat 1) [] (.ok "noted")),
          some (.faulted (.ofNat 2) "handler panicked: boom"),
          some (.unhandled (.ofNat 3) "no handler registered for Forget")] ∧
      s.reader.received = requests.take 3 ∧
      List.Forall₂ (fun i c => ∃ a, m.jobs[i]? = some a ∧ a.job.command = c) [0, 1, 2]
        s.reader.received) ∧
    ∃ s m, OnShift staffed s m ∧ s.submitted = requests.take 2 ∧ m.shutdown.fired = true ∧
      m.dispatchers = [⟨0, .stopped, [0]⟩] ∧ s.reader.received = requests.take 1 ∧
      s.reader.received ++ s.reader.lost = requests.take 2 ∧
      ∃ a r, m.jobs[0]? = some a ∧ a.job.phase = .finished r ∧ (s.doings 0).said = [r] := by
  have hstart : OnShift staffed {} staffed.dispatch := .start
  have hbegun := (hstart.submit ⟨.ofNat 1, "Note", ()⟩).own rfl
  constructor
  · have hpanicking := ((hbegun.submit ⟨.ofNat 2, "Slip", ()⟩).job 0 rfl).own rfl
    have hclosed := ((hpanicking.submit ⟨.ofNat 3, "Forget", ()⟩).close).submit
      ⟨.ofNat 4, "Note", ()⟩
    have hdraining := ((hclosed.job 1 rfl).own rfl).own rfl
    have hrecording := ((hdraining.job 0 rfl).job 2 rfl).job 1 rfl
    have hannouncing := ((hrecording.job 1 rfl).job 0 rfl).job 2 rfl
    have hstopped := (((hannouncing.job 2 rfl).job 1 rfl).job 0 rfl).own rfl
    obtain ⟨d, hd, -, -, hjobs, hcomplete, -⟩ := served_in_order hstopped
    cases hd
    obtain ⟨k, hk, hreceived⟩ := hcomplete rfl nofun
    cases hk
    refine ⟨_, _, hstopped, rfl, rfl, rfl, hreceived, hjobs.imp ?_⟩
    rintro i c ⟨a, ha, hcommand, -⟩
    exact ⟨a, ha, hcommand⟩
  · have hfired := (hbegun.submit ⟨.ofNat 2, "Slip", ()⟩).shutDown
    have hstopped := ((((hfired.job 0 rfl).own rfl).job 0 rfl).job 0 rfl).own rfl
    obtain ⟨d, hd, horder, -, hjobs, -⟩ := served_in_order hstopped
    cases hd
    obtain ⟨⟨a, ha, -, -, hover, hfinished⟩, -⟩ := List.forall₂_cons.mp hjobs
    have hbuilt : ¬ staffed.handlers.Breaks ⟨.ofNat 1, "Note", ()⟩ := by
      rintro ⟨p, hp⟩
      cases hp
    obtain ⟨r, hphase, -, hsaid, -⟩ := hfinished (hover rfl) hbuilt
    exact ⟨_, _, hstopped, rfl, rfl, rfl, rfl, horder, a, r, ha, hphase, hsaid⟩

end Node
end Chronicle
