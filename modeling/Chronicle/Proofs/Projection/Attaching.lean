import Chronicle.Proofs.Projection.Serving

/-!
# Chronicle.Proofs.Projection.Attaching

A read model that follows a stream, and is told again and again to follow it. Every time a new
consumer takes the place of the one before: it finds in its mailbox what the stream publishes from
then on, and what the one before had queued or in hand is not applied any more.

Every event that the stream has published since the first time was applied, is waiting for the
consumer, or was waiting for an earlier one when that was replaced (`Attached.Accounted`). So none
is lost exactly if no consumer was replaced that had anything left to do
(`Attached.lost_with_consumers`).
-/

namespace Chronicle

variable {A S B : Type} [Vocabulary A]

/-! ## Attaching and consuming -/

namespace Node

variable {n n' : Node A S B} {i : Nat} {s : EventStream A} {c : Consumer A}

/-- What the consumer has in hand and in its mailbox. -/
def inFlight (n : Node A S B) : List (Event A) :=
  match n.consumer with
  | some c => pending c.phase ++ n.mail c
  | none => []

theorem inFlight_of_consumer (hc : n.consumer = some c) :
    n.inFlight = pending c.phase ++ n.mail c := by
  simp only [inFlight, hc]

/-- What a step of the consumer has brought to its end. -/
def settledBy (n n' : Node A S B) : List (Event A) :=
  match n.consumer, n'.consumer with
  | some c, some c' => if (pending c'.phase).isEmpty then pending c.phase else []
  | _, _ => []

/-- The consumer follows stream `i` and is sent what the stream publishes. -/
structure Follows (i : Nat) (n : Node A S B) (c : Consumer A) : Prop where
  consumer : n.consumer = some c
  stream : c.stream = i
  live : ((n.outlet i).mailbox c.subscription).Live

theorem Follows.mail_eq (h : Follows i n c) :
    n.mail c = ((n.outlet i).mailbox c.subscription).queue := by
  rw [mail, h.stream]

/-- A stream that somebody is sent something by exists. -/
theorem Follows.stream_ne_none (h : Follows i n c) : n.streams[i]? ≠ none := by
  intro hnone
  have hheld := h.live.held
  rw [outlet, hnone] at hheld
  cases hheld

theorem consumer_enlist (t : TaskId) : (n.enlist t).consumer = n.consumer := by
  unfold enlist
  split <;> rfl

theorem consumer_attach : (n.attach i).consumer =
    some { stream := i, subscription := (n.outlet i).subscribe.2 } := by
  unfold attach
  rw [consumer_enlist]
  rfl

/-- The new subscription is there before the one of the consumer before is given up. -/
theorem streams_attach (hs : n.streams[i]? = some s) (hprevious : ∀ c, n.consumer = some c →
    c.stream = i) : ∃ s', (n.attach i).streams[i]? = some s' ∧ s'.outlet =
      match n.consumer with
      | some c => (n.outlet i).subscribe.1.drop c.subscription
      | none => (n.outlet i).subscribe.1 := by
  cases hc : n.consumer with
  | none =>
    refine ⟨{ s with outlet := (n.outlet i).subscribe.1 }, ?_, rfl⟩
    unfold attach
    rw [streams_enlist]
    simp [subscribe, modifyOutlet, hc, putConsumer, dismiss, hs]
  | some c =>
    refine ⟨{ s with outlet := (n.outlet i).subscribe.1.drop c.subscription }, ?_, rfl⟩
    have hstream := hprevious c hc
    unfold attach
    rw [streams_enlist]
    simp [subscribe, modifyOutlet, hc, hstream, putConsumer, dismiss, hs]

/-- After attaching, whoever followed the stream before, a new consumer does, with nothing to do. -/
theorem follows_attach (hs : n.streams[i]? = some s)
    (hprevious : ∀ c, n.consumer = some c → Follows i n c) :
    ∃ c, Follows i (n.attach i) c ∧ (n.attach i).inFlight = [] := by
  obtain ⟨s', hs', houtlet⟩ := streams_attach hs fun c hc => (hprevious c hc).stream
  have hmailbox : ((n.attach i).outlet i).mailbox (n.outlet i).subscribe.2 = Mailbox.new := by
    rw [outlet_of_getElem? hs', houtlet]
    split
    · rename_i c hc
      -- the earlier subscription is one of those that were there before
      have hne : c.subscription ≠ (n.outlet i).subscribe.2 :=
        Nat.ne_of_lt (Broadcaster.lt_of_held (hprevious c hc).live.held)
      rw [Broadcaster.mailbox_drop_of_ne hne, Broadcaster.mailbox_subscribe]
    · exact Broadcaster.mailbox_subscribe
  have hfollows : Follows i (n.attach i)
      { stream := i, subscription := (n.outlet i).subscribe.2 } :=
    ⟨consumer_attach, rfl, by rw [hmailbox]; exact Mailbox.live_new⟩
  refine ⟨_, hfollows, ?_⟩
  rw [inFlight_of_consumer hfollows.consumer, hfollows.mail_eq, hmailbox]
  rfl

/-- The consumer is put in another phase, and finds the same in its mailbox. -/
theorem Follows.put (h : Follows i n c) {m : Node A S B} (hstreams : m.streams = n.streams)
    {phase : ConsumerPhase A} (hconsumer : m.consumer = some { c with phase }) :
    Follows i m { c with phase } ∧ m.inFlight = pending phase ++ n.mail c := by
  have houtlet : ∀ j, m.outlet j = n.outlet j := fun j => by rw [outlet, outlet, hstreams]
  refine ⟨⟨hconsumer, h.stream, by rw [houtlet]; exact h.live⟩, ?_⟩
  rw [inFlight_of_consumer hconsumer, mail, mail, houtlet]

/-- A step of the consumer brings what it has in hand to its end, or keeps it. -/
theorem Follows.move [DecidableEq S] (h : Follows i n c) (hmove : n.moveConsumer = some n') :
    (∃ c', Follows i n' c') ∧ n.settledBy n' ++ n'.inFlight = n.inFlight := by
  have hc := h.consumer
  have hin := inFlight_of_consumer hc
  -- the event stays in hand, or is applied
  have hkept {m : Node A S B} (phase : ConsumerPhase A) (hstreams : m.streams = n.streams)
      (hconsumer : m.consumer = some { c with phase }) (hsame : pending phase = pending c.phase)
      (hbusy : pending c.phase ≠ []) :
      (∃ c', Follows i m c') ∧ n.settledBy m ++ m.inFlight = n.inFlight := by
    obtain ⟨hfollows, hflight⟩ := h.put hstreams hconsumer
    refine ⟨⟨_, hfollows⟩, ?_⟩
    simp only [settledBy, hc, hconsumer, hsame, List.isEmpty_eq_false_iff.mpr hbusy,
      Bool.false_eq_true, if_false, List.nil_append]
    rw [hflight, hin, hsame]
  have hdone {m : Node A S B} (hstreams : m.streams = n.streams)
      (hconsumer : m.consumer = some { c with phase := .idle }) :
      (∃ c', Follows i m c') ∧ n.settledBy m ++ m.inFlight = n.inFlight := by
    obtain ⟨hfollows, hflight⟩ := h.put hstreams hconsumer
    refine ⟨⟨_, hfollows⟩, ?_⟩
    rw [hflight, hin]
    simp only [settledBy, hc, hconsumer, pending, List.isEmpty_nil, if_true, List.nil_append]
  cases hphase : c.phase with
  | idle =>
    rcases moveConsumer_idle_cases hc hphase hmove with
      ⟨hended, -⟩ | ⟨e, rest, left, hmail, rfl, hleft⟩
    · rw [h.stream, h.live.linked] at hended
      cases hended
    · refine ⟨⟨_, rfl, h.stream, ?_⟩, ?_⟩
      · rw [← h.stream, hleft, h.stream]
        exact ⟨h.live.linked, h.live.held⟩
      · have hnothing : n.settledBy ((n.modifyOutlet c.stream fun _ => left).putConsumer
            { c with phase := .locking e }) = [] := by
          simp only [settledBy, hc]
          rfl
        have hrest : ((n.modifyOutlet c.stream fun _ => left).putConsumer
            { c with phase := .locking e }).mail c = rest := by rw [mail, hleft]
        rw [hnothing, hin, hmail, hphase, ← hrest]
        rfl
  | locking e =>
    simp only [moveConsumer, hc, hphase] at hmove
    rcases acquire_cases hmove with ⟨-, rfl⟩ | rfl
    · exact hkept _ rfl rfl (by rw [hphase]; rfl) (by rw [hphase]; exact List.cons_ne_nil _ _)
    · exact hkept c.phase rfl hc rfl (by rw [hphase]; exact List.cons_ne_nil _ _)
  | applying e =>
    simp only [moveConsumer, hc, hphase] at hmove
    split at hmove
    · cases hmove
      exact hkept _ rfl rfl (by rw [hphase]; rfl) (by rw [hphase]; exact List.cons_ne_nil _ _)
    · cases hmove
      exact hdone rfl rfl
  | holding e earlier =>
    simp only [moveConsumer, hc, hphase] at hmove
    split at hmove
    · cases hmove
    · cases hmove
      exact hdone rfl rfl

/-- What the stream publishes is sent to the consumer. -/
theorem Follows.publish (h : Follows i n c) (hs : n.streams[i]? = some s) (e : Event A) :
    Follows i (n.modifyOutlet i fun outlet => (outlet.publish e).1) c ∧
      (n.modifyOutlet i fun outlet => (outlet.publish e).1).inFlight = n.inFlight ++ [e] := by
  have hmailbox : ((n.modifyOutlet i fun outlet => (outlet.publish e).1).outlet i).mailbox
      c.subscription = { (n.outlet i).mailbox c.subscription with
        queue := ((n.outlet i).mailbox c.subscription).queue ++ [e] } := by
    rw [outlet_modifyOutlet_self hs, Broadcaster.mailbox_publish, h.live.deliver]
  have hfollows : Follows i (n.modifyOutlet i fun outlet => (outlet.publish e).1) c :=
    ⟨h.consumer, h.stream, by rw [hmailbox]; exact ⟨h.live.linked, h.live.held⟩⟩
  refine ⟨hfollows, ?_⟩
  rw [inFlight_of_consumer hfollows.consumer, hfollows.mail_eq, hmailbox,
    inFlight_of_consumer h.consumer, h.mail_eq, List.append_assoc]

end Node

/-! ## Publications and what becomes of them -/

/-- A node with what a stream has published since its read model was first attached to it. -/
structure Attached (A S B : Type) [Vocabulary A] where
  node : Node A S B
  published : List (Event A) := []
  /-- What was applied, in that order. -/
  completed : List (Event A) := []
  /-- What consumers had queued or in hand when they were replaced. -/
  dropped : List (Event A) := []

namespace Attached

variable {t t' : Attached A S B} {i : Nat}

inductive Move (A : Type) where
  | attach
  | publish (e : Event A)
  /-- The consumer goes on. -/
  | consume

variable [DecidableEq S]

def step (i : Nat) (t : Attached A S B) : Move A → Option (Attached A S B)
  | .attach => some { t with
      node := t.node.attach i
      dropped := t.dropped ++ t.node.inFlight }
  | .publish e => some { t with
      node := t.node.modifyOutlet i fun outlet => (outlet.publish e).1
      published := if t.node.consumer.isSome then t.published ++ [e] else t.published }
  | .consume => t.node.moveConsumer.map fun node => { t with
      node
      completed := t.completed ++ t.node.settledBy node }

abbrev run (i : Nat) (t : Attached A S B) (ms : List (Move A)) : Option (Attached A S B) :=
  runMoves (step i) t ms

/-- A step around stream `i` and its consumer, or of anybody else. -/
inductive Goes (i : Nat) : Attached A S B → Attached A S B → Prop where
  | move {t t' : Attached A S B} (m : Move A) (hstep : t.step i m = some t') : Goes i t t'
  | elsewhere {t : Attached A S B} {node : Node A S B}
      (hconsumer : node.consumer = t.node.consumer)
      (hstream : t.node.streams[i]? ≠ none → node.streams[i]? ≠ none)
      (hmail : ∀ c, t.node.consumer = some c →
        (node.outlet i).mailbox c.subscription = (t.node.outlet i).mailbox c.subscription) :
      Goes i t { t with node }

/-- Every event that was published was applied, is in flight, or was dropped, and those that were
not dropped are in the order in which they were published. -/
structure Accounted (i : Nat) (t : Attached A S B) : Prop where
  stream : t.node.streams[i]? ≠ none
  consumer : ∀ c, t.node.consumer = some c → t.node.Follows i c
  all : t.published.Perm (t.completed ++ t.dropped ++ t.node.inFlight)
  ordered : (t.completed ++ t.node.inFlight).Sublist t.published

namespace Accounted

omit [DecidableEq S] in
theorem attach (h : Accounted i t) : Accounted i { t with
    node := t.node.attach i, dropped := t.dropped ++ t.node.inFlight } := by
  obtain ⟨s, hs⟩ := Option.ne_none_iff_exists'.mp h.stream
  obtain ⟨c, hfollows, hnothing⟩ := Node.follows_attach hs h.consumer
  obtain ⟨s', hs', -⟩ := Node.streams_attach hs fun c hc => (h.consumer c hc).stream
  refine ⟨by rw [hs']; exact Option.some_ne_none s', fun c' hc' => ?_, ?_, ?_⟩
  · cases hfollows.consumer.symm.trans hc'
    exact hfollows
  · rw [hnothing, List.append_nil, ← List.append_assoc]
    exact h.all
  · rw [hnothing, List.append_nil]
    exact (List.sublist_append_left _ _).trans h.ordered

omit [DecidableEq S] in
theorem publish (h : Accounted i t) (e : Event A) : Accounted i { t with
    node := t.node.modifyOutlet i fun outlet => (outlet.publish e).1
    published := if t.node.consumer.isSome then t.published ++ [e] else t.published } := by
  obtain ⟨s, hs⟩ := Option.ne_none_iff_exists'.mp h.stream
  have hstream : (t.node.modifyOutlet i fun outlet => (outlet.publish e).1).streams[i]? ≠ none := by
    simp [Node.modifyOutlet, hs]
  cases hc : t.node.consumer with
  | none =>
    have hempty : t.node.inFlight = [] := by simp only [Node.inFlight, hc]
    have hall := h.all
    have hordered := h.ordered
    have hflight : (t.node.modifyOutlet i fun outlet => (outlet.publish e).1).inFlight = [] := by
      simp only [Node.inFlight, Node.modifyOutlet, hc]
    refine ⟨hstream, fun c hc' => ?_, ?_, ?_⟩
    · cases hc.symm.trans hc'
    · rw [hflight]
      rw [hempty] at hall
      exact hall
    · rw [hflight]
      rw [hempty] at hordered
      exact hordered
  | some c =>
    obtain ⟨hfollows, hflight⟩ := (h.consumer c hc).publish hs e
    refine ⟨hstream, fun c' hc' => ?_, ?_, ?_⟩
    · cases hfollows.consumer.symm.trans hc'
      exact hfollows
    · rw [hflight, ← List.append_assoc]
      exact h.all.append_right [e]
    · rw [hflight, ← List.append_assoc]
      exact h.ordered.append_right [e]

theorem consume (h : Accounted i t) {node : Node A S B}
    (hmove : t.node.moveConsumer = some node) : Accounted i { t with
      node, completed := t.completed ++ t.node.settledBy node } := by
  cases hc : t.node.consumer with
  | none =>
    simp only [Node.moveConsumer, hc] at hmove
    cases hmove
  | some c =>
    obtain ⟨⟨c', hfollows⟩, hsettled⟩ := (h.consumer c hc).move hmove
    refine ⟨hfollows.stream_ne_none, fun d hd => ?_, ?_, ?_⟩
    · cases hfollows.consumer.symm.trans hd
      exact hfollows
    · -- what was brought to its end goes from the end of the line to the front of what was dropped
      have hswap : (t.completed ++ (t.dropped ++ t.node.settledBy node ++ node.inFlight)).Perm
          (t.completed ++ (t.node.settledBy node ++ t.dropped ++ node.inFlight)) :=
        (List.perm_append_comm.append_right _).append_left _
      have hall := h.all
      rw [← hsettled] at hall
      refine hall.trans ?_
      simpa only [List.append_assoc] using hswap
    · rw [List.append_assoc, hsettled]
      exact h.ordered

theorem goes (h : Accounted i t) (hgoes : Goes i t t') : Accounted i t' := by
  cases hgoes with
  | move m hstep =>
    cases m with
    | attach =>
      cases hstep
      exact h.attach
    | publish e =>
      cases hstep
      exact h.publish e
    | consume =>
      obtain ⟨node, hmove, rfl⟩ := Option.map_eq_some_iff.mp hstep
      exact h.consume hmove
  | @elsewhere node hconsumer hstream hmail =>
    have hfollows : ∀ c, node.consumer = some c → node.Follows i c := by
      intro c hc
      rw [hconsumer] at hc
      have hold := h.consumer c hc
      exact ⟨hconsumer.trans hc, hold.stream, by rw [hmail c hc]; exact hold.live⟩
    have hflight : node.inFlight = t.node.inFlight := by
      cases hc : t.node.consumer with
      | none => simp only [Node.inFlight, hconsumer, hc]
      | some c =>
        have hnew := hfollows c (hconsumer.trans hc)
        rw [Node.inFlight_of_consumer hnew.consumer, hnew.mail_eq, hmail c hc,
          Node.inFlight_of_consumer hc, (h.consumer c hc).mail_eq]
    exact ⟨hstream h.stream, hfollows, by rw [hflight]; exact h.all,
      by rw [hflight]; exact h.ordered⟩

end Accounted

/-- A read model is attached to a stream, again and again, at any moment, while the stream publishes
and the consumers apply. Every event that was published since the first time was applied, is queued
for or in hand of the consumer, or was so with an earlier one when that was replaced. Those that
were applied or still will be are in the order of publication, and they are all that were published
exactly if no consumer was replaced that had anything queued or in hand. -/
theorem lost_with_consumers {n : Node A S B} (hs : n.streams[i]? ≠ none) (hnone : n.consumer = none)
    (hgoes : Relation.ReflTransGen (Goes i) { node := n } t) :
    t.published.Perm (t.completed ++ t.dropped ++ t.node.inFlight) ∧
    (t.completed ++ t.node.inFlight).Sublist t.published ∧
    (t.published = t.completed ++ t.node.inFlight ↔ t.dropped = []) := by
  have hflight : n.inFlight = [] := by simp only [Node.inFlight, hnone]
  have hnobody : ∀ c, n.consumer = some c → n.Follows i c := by
    intro c hc
    rw [hnone] at hc
    cases hc
  have hstart : Accounted i ({ node := n } : Attached A S B) :=
    ⟨hs, hnobody, by rw [hflight]; exact .refl _, by rw [hflight]; exact .refl _⟩
  have h : Accounted i t := by
    induction hgoes with
    | refl => exact hstart
    | tail _ hstep ih => exact ih.goes hstep
  have hlength := h.all.length_eq
  simp only [List.length_append] at hlength
  refine ⟨h.all, h.ordered, fun hall => ?_, fun hdropped => ?_⟩
  · have hsame := congrArg List.length hall
    rw [List.length_append] at hsame
    exact List.length_eq_zero_iff.mp (by omega)
  · rw [hdropped, List.length_nil] at hlength
    refine (h.ordered.eq_of_length ?_).symm
    rw [List.length_append]
    omega

def oneTopic : Node Notes.Fact Int64 Unit :=
  let events := [Notes.noted 2 0, Notes.noted 3 1, Notes.noted 4 2]
  ((Node.new { contents := .payloads events, clock := 0 } Notes.projector .unbounded).addStream
    .pushed).1

/-- The first event is applied, and the read model is attached again before the second one is
published. -/
def idleSwap : List (Move Notes.Fact) :=
  [.attach, .publish (Notes.noted 2 0), .consume, .consume, .consume, .consume, .attach,
    .publish (Notes.noted 3 1), .consume]

/-- Nothing is lost with a consumer that has nothing to do. -/
theorem idle_swap_loses_nothing :
    ∃ t, run 0 { node := oneTopic } idleSwap = some t ∧
      t.published = [Notes.noted 2 0, Notes.noted 3 1] ∧
      t.published = t.completed ++ t.node.inFlight := by
  have hrun : run 0 { node := oneTopic } idleSwap = some _ := rfl
  obtain ⟨-, -, hiff⟩ := lost_with_consumers (by decide) rfl (reflTransGen_of_run (.move _) hrun)
  exact ⟨_, hrun, rfl, hiff.mpr rfl⟩

/-- The first event is applied, and the read model is attached again when the second one is queued.
The third one is applied. -/
def busySwap : List (Move Notes.Fact) :=
  [.attach, .publish (Notes.noted 2 0), .consume, .consume, .consume, .consume,
    .publish (Notes.noted 3 1), .attach, .publish (Notes.noted 4 2), .consume, .consume, .consume]

/-- The second event is neither applied nor queued nor in hand any more. The third one is folded
onto a state without it, and no later event makes up for it: the high water is beyond it. -/
theorem busy_swap_loses_event :
    ∃ t, run 0 { node := oneTopic } busySwap = some t ∧
      t.published = [Notes.noted 2 0, Notes.noted 3 1, Notes.noted 4 2] ∧
      t.completed ++ t.node.inFlight = [Notes.noted 2 0, Notes.noted 4 2] ∧
      t.published ≠ t.completed ++ t.node.inFlight ∧
      t.node.model.cache.highWater = some (.ofNat 2) ∧
      (t.node.model.get t.node.store ⟨"Topic", "a"⟩).answer = .ok (some 6) ∧
      Notes.projector.foldAll none t.published = some 9 :=
  ⟨_, rfl, rfl, rfl, by decide, rfl, rfl, by decide⟩

end Attached
end Chronicle
