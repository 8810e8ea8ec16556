import Chronicle.Node.Pulls
import Chronicle.Proofs.Feed.Handover
import Chronicle.Proofs.Log.Storing
import Mathlib.Logic.Relation

/-!
# Chronicle.Proofs.Feed.Replaying

The pull of a node's replaying stream is a `Handover`: each of its steps is a move, and what it
passes on reaches every subscriber of the stream.
-/

namespace Chronicle
namespace Node

variable {A S B : Type} [Vocabulary A] {n n' : Node A S B} {i live : Nat} {g g' : Handover A}

structure Replays (n : Node A S B) (i live : Nat) (g : Handover A) : Prop where
  apart : live ≠ i
  store : n.store.Holds g.log
  pages : 0 < n.store.pageSize
  /-- Reads fail for a time only. -/
  temporary : ∀ fault ∈ n.store.readFaults, fault.2.isTemporary = true
  mailbox : (n.outlet live).mailbox g.subscription = g.live.mailbox g.subscription
  pull : ∃ s first policy timer, n.streams[i]? = some s ∧ s.source = .replaying first policy live ∧
    s.pull = some (.replaying g.replay g.subscription timer)

/-- The node after a step of the pull of stream `i` that passed these events on. -/
def Passes (n n' : Node A S B) (i live : Nat) (g : Handover A) : Prop :=
  ∃ g' events, (g' = g ∨ ∃ m, g.step m = some g' ∧ m.ReadsAll) ∧ Replays n' i live g' ∧
    g'.published = g.published ∧ g'.emitted = g.emitted ++ events ∧
    n'.outlet i = events.foldl (fun outlet e => (outlet.publish e).1) (n.outlet i)

def Over (n : Node A S B) (i : Nat) : Prop := ∃ s, n.streams[i]? = some s ∧ s.pull = none

theorem stop_of_replaying {s : EventStream A} {first : Position} {policy : RetryPolicy}
    {replay : Replay A} {subscription : Nat} {timer : Option Timer} (hs : n.streams[i]? = some s)
    (hsource : s.source = .replaying first policy live)
    (hpull : s.pull = some (.replaying replay subscription timer)) :
    n.stop i = ((n.putStream i { s with pull := none }).dismiss (.pull i)).modifyOutlet live
      fun outlet => outlet.drop subscription := by
  simp only [Node.stop, hs, hpull, hsource]

theorem getElem?_stop_of_replaying {s : EventStream A} {first : Position} {policy : RetryPolicy}
    {replay : Replay A} {subscription : Nat} {timer : Option Timer} (hs : n.streams[i]? = some s)
    (hapart : live ≠ i) (hsource : s.source = .replaying first policy live)
    (hpull : s.pull = some (.replaying replay subscription timer)) :
    (n.stop i).streams[i]? = some { s with pull := none } := by
  rw [stop_of_replaying hs hsource hpull, getElem?_modifyOutlet_of_ne hapart]
  exact getElem?_putStream_self hs

theorem over_stop {s : EventStream A} {first : Position} {policy : RetryPolicy} {replay : Replay A}
    {subscription : Nat} {timer : Option Timer} (hs : n.streams[i]? = some s) (hapart : live ≠ i)
    (hsource : s.source = .replaying first policy live)
    (hpull : s.pull = some (.replaying replay subscription timer)) :
    Over (n.stop i) i ∧ (n.stop i).outlet i = n.outlet i ∧ (n.stop i).store = n.store := by
  have hput := getElem?_stop_of_replaying hs hapart hsource hpull
  refine ⟨⟨{ s with pull := none }, hput, rfl⟩, ?_, ?_⟩
  · rw [outlet_of_getElem? hput, outlet_of_getElem? hs]
  · rw [stop_of_replaying hs hsource hpull]
    rfl

theorem Replays.passes (h : Replays n i live g)
    (hmove : g' = g ∨ ∃ m, g.step m = some g' ∧ m.ReadsAll) {s s' : EventStream A} {n₁ : Node A S B}
    (hs : n.streams[i]? = some s) (hs₁ : n₁.streams[i]? = some s) (hstore : n.store.After n₁.store)
    {first : Position} {policy : RetryPolicy} {timer : Option Timer}
    (hsource : s'.source = .replaying first policy live)
    (hpull : s'.pull = some (.replaying g'.replay g'.subscription timer)) (hlog : g'.log = g.log)
    (hmailbox : (n₁.outlet live).mailbox g'.subscription = g'.live.mailbox g'.subscription)
    (hpublished : g'.published = g.published) {events : List (Event A)}
    (hemitted : g'.emitted = g.emitted ++ events)
    (houtlet : s'.outlet = events.foldl (fun outlet e => (outlet.publish e).1) s.outlet) :
    Passes n (n₁.putStream i s') i live g := by
  have hput : (n₁.putStream i s').streams[i]? = some s' := getElem?_putStream_self hs₁
  refine ⟨g', events, hmove, ?_, hpublished, hemitted, ?_⟩
  · exact {
      apart := h.apart
      store := hlog ▸ h.store.after hstore
      pages := hstore.pageSize ▸ h.pages
      temporary := fun fault hfault => h.temporary fault (hstore.faults hfault)
      mailbox := by
        rw [outlet_putStream_of_ne h.apart.symm]
        exact hmailbox
      pull := ⟨s', first, policy, timer, hput, hsource, hpull⟩ }
  · rw [outlet_of_getElem? hput, outlet_of_getElem? hs, houtlet]

theorem Replays.readsAll (h : Replays n i live g) {cursor : Position} {limit : Nat} :
    (Handover.Move.read limit ((Store.takeFault cursor n.store.readFaults).map Prod.fst) :
      Handover.Move A).ReadsAll := by
  cases hfault : Store.takeFault cursor n.store.readFaults with
  | none => trivial
  | some found =>
    obtain ⟨failure, others⟩ := found
    have hmem := (Store.takeFault_perm hfault).mem_iff.mpr List.mem_cons_self
    cases failure with
    | temporary reason => trivial
    | permanent reason => exact absurd (h.temporary _ hmem) nofun

theorem Replays.follow (h : Replays n i live g) {s : EventStream A} {first : Position}
    {policy : RetryPolicy} (hs : n.streams[i]? = some s)
    (hsource : s.source = .replaying first policy live) (hphase : g.replay.phase = .following)
    {left : Broadcaster (Event A)} {e : Event A}
    (hreceive : (n.outlet live).receive g.subscription = (left, .item e)) :
    let s' := match (g.replay.follow e).1 with
      | some e => s.passOn e
      | none => s
    Passes n ((n.modifyOutlet live fun _ => left).putStream i
      { s' with pull := some (.replaying (g.replay.follow e).2 g.subscription none) }) i live g := by
  obtain ⟨rest, hqueue, hleft⟩ := Broadcaster.receive_item hreceive
  have hlive : n.streams[live]? ≠ none := by
    intro hnone
    rw [outlet, hnone] at hqueue
    cases hqueue
  rw [h.mailbox] at hqueue hleft
  obtain ⟨hitem, hmailbox⟩ := Broadcaster.receive_of_cons hqueue
  have hstep : g.step .receive = some { g with
      live := (g.live.receive g.subscription).1
      replay := (g.replay.follow e).2
      emitted := g.emitted ++ (g.replay.follow e).1.toList } := by
    have hreceived : g.live.receive g.subscription =
        ((g.live.receive g.subscription).1, .item e) := Prod.ext rfl hitem
    simp only [Handover.step, hphase]
    rw [hreceived]
  have hs₁ : (n.modifyOutlet live fun _ => left).streams[i]? = some s := by
    rw [getElem?_modifyOutlet_of_ne h.apart, hs]
  have hboth : ((n.modifyOutlet live fun _ => left).outlet live).mailbox g.subscription
      = (g.live.receive g.subscription).1.mailbox g.subscription := by
    obtain ⟨ls, hls⟩ := Option.ne_none_iff_exists'.mp hlive
    rw [outlet_modifyOutlet_self hls, hleft, hmailbox]
  cases hpassed : (g.replay.follow e).1 with
  | none =>
    rw [hpassed] at hstep
    exact h.passes (.inr ⟨_, hstep, trivial⟩) hs hs₁ (.refl _) hsource rfl rfl hboth rfl rfl rfl
  | some e' =>
    rw [hpassed] at hstep
    have hsource' : (s.passOn e').source = .replaying first policy live := by
      simp only [EventStream.passOn, hsource]
    exact h.passes (.inr ⟨_, hstep, trivial⟩) hs hs₁ (.refl _) hsource' rfl rfl hboth rfl rfl rfl

inductive ReplayTurns (store : Store A) (replay : Replay A) : Replay A → Prop where
  | answer {cursor : Position} {attempt : Nat} (hphase : replay.phase = .draining cursor attempt) :
      ReplayTurns store replay (replay.answer (store.readFrom cursor).page).1
  | wait : ReplayTurns store replay replay
  | resume {cursor : Position} {attempt : Nat} {delay : Duration}
      (hphase : replay.phase = .backingOff cursor attempt delay) :
      ReplayTurns store replay replay.resume
  | finishPage {cursor : Position} {events : List (Event A)}
      (hphase : replay.phase = .emitting cursor events) (hemit : replay.emit? = none) :
      ReplayTurns store replay replay.finishPage

/-- The node after a step of the pull of stream `i`, which replays and then follows stream `live`. -/
inductive Replayed (n : Node A S B) (i : Nat) (s : EventStream A) (live : Nat) (replay : Replay A)
    (own : Nat) : Node A S B → Prop where
  | turn {n₁ : Node A S B} {replay' : Replay A} {timer : Option Timer}
      (hturn : ReplayTurns n.store replay replay') (hstore : n.store.After n₁.store)
      (hstreams : n₁.streams = n.streams) : Replayed n i s live replay own
        (n₁.putStream i { s with pull := some (.replaying replay' own timer) })
  | passOn {e : Event A} {replay' : Replay A} (hemit : replay.emit? = some (e, replay')) :
      Replayed n i s live replay own
        (n.putStream i { s.passOn e with pull := some (.replaying replay' own none) })
  | follow {left : Broadcaster (Event A)} {e : Event A} (hphase : replay.phase = .following)
      (hreceive : (n.outlet live).receive own = (left, .item e)) :
      Replayed n i s live replay own ((n.modifyOutlet live fun _ => left).putStream i
        { (match (replay.follow e).1 with
          | some e => s.passOn e
          | none => s) with pull := some (.replaying (replay.follow e).2 own none) })
  | stop (hphase : replay.phase = .following ∨ replay.phase = .ended) :
      Replayed n i s live replay own (n.stop i)

theorem replayed_of_movePull {s : EventStream A} {first : Position} {policy : RetryPolicy}
    {replay : Replay A} {own : Nat} {timer : Option Timer} (hs : n.streams[i]? = some s)
    (hsource : s.source = .replaying first policy live)
    (hpull : s.pull = some (.replaying replay own timer)) (hmove : n.movePull i = some n') :
    Replayed n i s live replay own n' := by
  obtain ⟨source, outlet, pull⟩ := s
  obtain rfl : source = .replaying first policy live := hsource
  obtain rfl : pull = some (.replaying replay own timer) := hpull
  simp only [Node.movePull, hs, moveReplaying] at hmove
  cases hphase : replay.phase with
  | draining cursor attempt =>
    simp only [hphase] at hmove
    split at hmove
    · cases hmove
    · cases hmove
      exact .turn (.answer hphase) Store.after_readFrom rfl
  | backingOff cursor attempt delay =>
    simp only [hphase] at hmove
    split at hmove
    · cases hmove
      exact .turn .wait (.refl _) rfl
    · split at hmove
      · cases hmove
        exact .turn (.resume hphase) (.refl _) rfl
      · cases hmove
  | emitting cursor events =>
    simp only [hphase] at hmove
    split at hmove
    · rename_i e replay' hemit
      cases hmove
      exact .passOn hemit
    · rename_i hemit
      cases hmove
      exact .turn (.finishPage hphase hemit) (.refl _) rfl
  | following =>
    simp only [hphase] at hmove
    split at hmove
    · rename_i left e hreceive
      cases hmove
      exact .follow hphase hreceive
    · cases hmove
      exact .stop (.inl hphase)
    · cases hmove
  | ended =>
    simp only [hphase] at hmove
    cases hmove
    exact .stop (.inr hphase)

/-- Between two events a replay makes a move of the handover, or none. -/
theorem Replays.turned (h : Replays n i live g) {replay' : Replay A}
    (hturn : ReplayTurns n.store g.replay replay') :
    { g with replay := replay' } = g ∨
      ∃ m, g.step m = some { g with replay := replay' } ∧ m.ReadsAll := by
  cases hturn with
  | @answer cursor attempt hphase =>
    refine .inr ⟨.read n.store.pageSize
      ((Store.takeFault cursor n.store.readFaults).map Prod.fst), ?_, h.readsAll⟩
    simp only [Handover.step, hphase, h.pages, if_true, h.store.page_readFrom]
  | wait => exact .inl rfl
  | resume hphase =>
    refine .inr ⟨.resume, ?_, trivial⟩
    simp only [Handover.step, hphase]
  | finishPage hphase hemit =>
    refine .inr ⟨.pass, ?_, trivial⟩
    simp only [Handover.step, hphase, hemit]

theorem Replays.passOn (h : Replays n i live g) {s : EventStream A} {first : Position}
    {policy : RetryPolicy} {e : Event A} {replay' : Replay A} (hs : n.streams[i]? = some s)
    (hsource : s.source = .replaying first policy live)
    (hemit : g.replay.emit? = some (e, replay')) :
    Passes n (n.putStream i { s.passOn e with
      pull := some (.replaying replay' g.subscription none) }) i live g := by
  have hstep : g.step .pass = some { g with replay := replay', emitted := g.emitted ++ [e] } := by
    unfold Replay.emit? at hemit
    split at hemit
    · rename_i cursor x rest hphase
      cases hemit
      simp only [Handover.step, Replay.emit?, hphase]
    · cases hemit
  have hsource' : (s.passOn e).source = .replaying first policy live := by
    simp only [EventStream.passOn, hsource]
  exact h.passes (.inr ⟨_, hstep, trivial⟩) hs hs (.refl _) hsource' rfl rfl h.mailbox rfl rfl rfl

/-- A step of the pull is a move of the handover, if the pull goes on. -/
theorem Replays.movePull (h : Replays n i live g) (hmove : n.movePull i = some n') :
    Passes n n' i live g ∨ Over n' i ∧ n'.outlet i = n.outlet i ∧ n'.store = n.store := by
  obtain ⟨s, first, policy, timer, hs, hsource, hpull⟩ := h.pull
  cases replayed_of_movePull hs hsource hpull hmove with
  | @turn n₁ replay' timer' hturn hstore hstreams =>
    have hs₁ : n₁.streams[i]? = some s := by rw [hstreams, hs]
    have hlive : n₁.outlet live = n.outlet live := by rw [outlet, outlet, hstreams]
    exact .inl (h.passes (h.turned hturn) hs hs₁ hstore hsource rfl rfl (hlive ▸ h.mailbox) rfl
      (List.append_nil _).symm rfl)
  | passOn hemit => exact .inl (h.passOn hs hsource hemit)
  | follow hphase hreceive => exact .inl (h.follow hs hsource hphase hreceive)
  | stop => exact .inr (over_stop hs h.apart hsource hpull)

/-! ## Runs -/

/-- A step of the pull of stream `i`, which follows stream `live`, or of what goes on around it, with
the number of events that the live stream has published. -/
inductive Replaying (i live : Nat) : Node A S B × Nat → Node A S B × Nat → Prop where
  | pull {n n' : Node A S B} {k : Nat} (hmove : n.movePull i = some n') :
      Replaying i live (n, k) (n', k)
  | write {n : Node A S B} {k : Nat} (batch : List (Payload A))
      (hroom : n.store.length + batch.length < 0x10000000000000000) :
      Replaying i live (n, k) ((n.write batch).2, k)
  /-- The live stream publishes its next event, or once more an earlier one. -/
  | publish {n : Node A S B} {j k : Nat} {e : Event A} (he : n.store.events[j]? = some e)
      (hj : j ≤ k) : Replaying i live (n, k)
        (n.modifyOutlet live fun outlet => (outlet.publish e).1, max k (j + 1))
  /-- Anything may happen elsewhere. -/
  | aside {n n' : Node A S B} {k : Nat} (hstore : n.store.After n'.store)
      (hstream : n'.streams[i]? = n.streams[i]?)
      (hmailbox : ∀ s replay subscription timer, n.streams[i]? = some s →
        s.pull = some (.replaying replay subscription timer) →
        (n'.outlet live).mailbox subscription = (n.outlet live).mailbox subscription) :
      Replaying i live (n, k) (n', k)

/-- What the pull has passed on so far is a first part of the log, and every subscriber got it. -/
structure PassesOn (i live : Nat) (first : Position) (subscribers : Broadcaster (Event A))
    (state : Node A S B × Nat) (g : Handover A) : Prop where
  apart : live ≠ i
  pull : Replays state.1 i live g ∨ Over state.1 i
  sound : g.Sound first
  store : state.1.store.Holds g.log
  published : g.published = state.2
  outlet : state.1.outlet i = g.emitted.foldl (fun outlet e => (outlet.publish e).1) subscribers

theorem movePull_over (h : Over n i) : n.movePull i = none := by
  obtain ⟨s, hs, hpull⟩ := h
  unfold Node.movePull
  simp only [hs, hpull]

theorem Over.of_eq (h : Over n i) (hstream : n'.streams[i]? = n.streams[i]?) : Over n' i := by
  obtain ⟨s, hs, hpull⟩ := h
  exact ⟨s, hstream.trans hs, hpull⟩

namespace PassesOn

variable {first : Position} {subscribers : Broadcaster (Event A)} {k : Nat}

theorem pull_step (h : PassesOn i live first subscribers (n, k) g) (hmove : n.movePull i = some n') :
    ∃ g', PassesOn i live first subscribers (n', k) g' := by
  rcases h.pull with hreplays | hover
  · rcases hreplays.movePull hmove with
      ⟨g', events, hg', hreplays', hpublished, hemitted, houtlet⟩ | ⟨hover, houtlet, hstore⟩
    · have hsound : g'.Sound first := by
        rcases hg' with rfl | ⟨m, hstep, hm⟩
        · exact h.sound
        · exact h.sound.step hm hstep
      refine ⟨g', h.apart, .inl hreplays', hsound, hreplays'.store, hpublished.trans h.published, ?_⟩
      have hbefore : n.outlet i = _ := h.outlet
      show n'.outlet i = _
      rw [houtlet, hbefore, hemitted, List.foldl_append]
    · have hheld : n.store.Holds g.log := h.store
      exact ⟨g, h.apart, .inr hover, h.sound, hstore ▸ hheld, h.published, houtlet.trans h.outlet⟩
  · rw [movePull_over hover] at hmove
    cases hmove

theorem step {a b : Node A S B × Nat} (h : PassesOn i live first subscribers a g)
    (hstep : Replaying i live a b) : ∃ g', PassesOn i live first subscribers b g' := by
  cases hstep with
  | pull hmove => exact h.pull_step hmove
  | @write n k batch hroom =>
    have hheld : n.store.Holds g.log := h.store
    rw [hheld.length_eq] at hroom
    obtain ⟨more, hholds, _⟩ := hheld.write hroom
    obtain ⟨hpages, hreads, _⟩ := Store.write_reads (s := n.store) batch
    refine ⟨{ g with log := g.log ++ more }, h.apart, ?_, h.sound.append hholds.numbered, hholds,
      h.published, h.outlet⟩
    rcases h.pull with hreplays | hover
    · exact .inl { hreplays with
        store := hholds
        pages := Nat.lt_of_lt_of_eq hreplays.pages hpages.symm
        temporary := fun fault hfault => hreplays.temporary fault (hreads ▸ hfault) }
    · exact .inr hover
  | @publish n j k e he hj =>
    have hheld : n.store.Holds g.log := h.store
    have hpublished : g.published = k := h.published
    rw [hheld.events_eq] at he
    have houtlet : (n.modifyOutlet live fun outlet => (outlet.publish e).1).outlet i = n.outlet i :=
      outlet_modifyOutlet_of_ne h.apart
    have hstream : (n.modifyOutlet live fun outlet => (outlet.publish e).1).streams[i]?
        = n.streams[i]? := getElem?_modifyOutlet_of_ne h.apart
    refine ⟨{ g with live := (g.live.publish e).1, published := max g.published (j + 1) }, h.apart,
      ?_, h.sound.publish he (hpublished ▸ hj), hheld, by rw [hpublished], houtlet.trans h.outlet⟩
    rcases h.pull with hreplays | hover
    · obtain ⟨s, first, policy, timer, hs, hsource, hpull⟩ := hreplays.pull
      obtain ⟨ls, hlive⟩ : ∃ ls, n.streams[live]? = some ls := by
        refine Option.ne_none_iff_exists'.mp fun hnone => ?_
        have hlinked := h.sound.mailbox.linked
        rw [← hreplays.mailbox, Node.outlet, hnone] at hlinked
        cases hlinked
      exact .inl { hreplays with
        mailbox := by
          show ((n.modifyOutlet live fun outlet => (outlet.publish e).1).outlet live).mailbox
            g.subscription = _
          rw [outlet_modifyOutlet_self hlive, Broadcaster.mailbox_publish, hreplays.mailbox,
            Broadcaster.mailbox_publish]
        pull := ⟨s, first, policy, timer, hstream.trans hs, hsource, hpull⟩ }
    · exact .inr (hover.of_eq hstream)
  | @aside n n' k hstore hstream hmailbox =>
    have hheld : n.store.Holds g.log := h.store
    have houtlet : n'.outlet i = n.outlet i := by rw [Node.outlet, Node.outlet, hstream]
    refine ⟨g, h.apart, ?_, h.sound, hheld.after hstore, h.published, houtlet.trans h.outlet⟩
    rcases h.pull with hreplays | hover
    · obtain ⟨s, first, policy, timer, hs, hsource, hpull⟩ := hreplays.pull
      exact .inl {
        apart := h.apart
        store := hheld.after hstore
        pages := hstore.pageSize ▸ hreplays.pages
        temporary := fun fault hfault => hreplays.temporary fault (hstore.faults hfault)
        mailbox := (hmailbox s _ _ _ hs hpull).trans hreplays.mailbox
        pull := ⟨s, first, policy, timer, hstream.trans hs, hsource, hpull⟩ }
    · exact .inr (hover.of_eq hstream)

theorem run {a b : Node A S B × Nat} (h : PassesOn i live first subscribers a g)
    (hrun : Relation.ReflTransGen (Replaying i live) a b) :
    ∃ g', PassesOn i live first subscribers b g' := by
  induction hrun with
  | refl => exact ⟨g, h⟩
  | tail _ hstep ih =>
    obtain ⟨g', hg'⟩ := ih
    exact hg'.step hstep

end PassesOn

theorem start_of_replaying {s : EventStream A} {first : Position} {policy : RetryPolicy}
    (hs : n.streams[i]? = some s) (hsource : s.source = .replaying first policy live)
    (hpull : s.pull = none) :
    n.start i = ((n.enlist (.pull i)).modifyOutlet live fun _ =>
      (n.outlet live).subscribe.1).putStream i
        { s with pull := some (.replaying (.new first policy) (n.outlet live).subscribe.2 none) } := by
  have hlive : (n.enlist (.pull i)).outlet live = n.outlet live := by
    rw [outlet, outlet, streams_enlist]
  unfold Node.start
  simp only [hs, EventStream.isRunning, hpull, hsource, Node.subscribe, hlive, Option.isSome_none,
    Bool.false_eq_true, if_false]

/-- A pull begins: it subscribes to the live stream before it reads. -/
theorem passesOn_start {s ls : EventStream A} {first : Position} {policy : RetryPolicy}
    {log : List (Event A)} {k : Nat} (hapart : live ≠ i) (hs : n.streams[i]? = some s)
    (hsource : s.source = .replaying first policy live) (hpull : s.pull = none)
    (hlive : n.streams[live]? = some ls) (hstore : n.store.Holds log)
    (hpages : 0 < n.store.pageSize)
    (htemporary : ∀ fault ∈ n.store.readFaults, fault.2.isTemporary = true)
    (hk : k ≤ log.length) :
    PassesOn i live first (n.outlet i) (n.start i, k)
      (.opened first policy log (n.outlet live) k) := by
  let n₁ := (n.enlist (.pull i)).modifyOutlet live fun _ => (n.outlet live).subscribe.1
  let s' := { s with
    pull := some (.replaying (.new first policy) (n.outlet live).subscribe.2 none) }
  have hs₁ : n₁.streams[i]? = some s := by
    rw [getElem?_modifyOutlet_of_ne hapart, streams_enlist, hs]
  have hput : (n₁.putStream i s').streams[i]? = some s' := getElem?_putStream_self hs₁
  have hstore' : (n₁.putStream i s').store = n.store := store_enlist _
  rw [start_of_replaying hs hsource hpull]
  refine ⟨hapart, .inl ?_, Handover.sound_opened hstore.numbered hk, hstore'.symm ▸ hstore, rfl, ?_⟩
  · exact {
      apart := hapart
      store := hstore'.symm ▸ hstore
      pages := hstore'.symm ▸ hpages
      temporary := hstore'.symm ▸ htemporary
      mailbox := by
        show ((n₁.putStream i s').outlet live).mailbox (n.outlet live).subscribe.2
          = (n.outlet live).subscribe.1.mailbox (n.outlet live).subscribe.2
        rw [outlet_putStream_of_ne hapart.symm,
          outlet_modifyOutlet_self ((congrArg (·[live]?) (streams_enlist _)).trans hlive)]
      pull := ⟨s', first, policy, none, hput, hsource, rfl⟩ }
  · show (n₁.putStream i s').outlet i = n.outlet i
    rw [outlet_of_getElem? hput, outlet_of_getElem? hs]

/-- What a replaying stream passes on to its subscribers is at every moment a first part of the log
from its start on. -/
theorem replayed_prefix {s ls : EventStream A} {first : Position} {policy : RetryPolicy}
    {log : List (Event A)} {k k' : Nat} (hapart : live ≠ i) (hs : n.streams[i]? = some s)
    (hsource : s.source = .replaying first policy live) (hpull : s.pull = none)
    (hlive : n.streams[live]? = some ls) (hstore : n.store.Holds log)
    (hpages : 0 < n.store.pageSize)
    (htemporary : ∀ fault ∈ n.store.readFaults, fault.2.isTemporary = true)
    (hk : k ≤ log.length)
    (hrun : Relation.ReflTransGen (Replaying i live) (n.start i, k) (n', k')) :
    ∃ passed, passed <+: n'.store.events.drop first.val ∧ ∀ subscription,
      ((n.outlet i).mailbox subscription).Live → (n'.outlet i).mailbox subscription
        = { (n.outlet i).mailbox subscription with
          queue := ((n.outlet i).mailbox subscription).queue ++ passed } := by
  have hstart := passesOn_start hapart hs hsource hpull hlive hstore hpages htemporary hk
  obtain ⟨g, hg⟩ := hstart.run hrun
  have hheld : n'.store.Holds g.log := hg.store
  refine ⟨g.emitted, hheld.events_eq ▸ hg.sound.emitted_drop, fun subscription hmailbox => ?_⟩
  have houtlet : n'.outlet i = _ := hg.outlet
  have hpublished := Broadcaster.mailbox_foldl_publish id hmailbox g.emitted
  rw [List.map_id] at hpublished
  rw [houtlet]
  exact hpublished

end Node
end Chronicle
