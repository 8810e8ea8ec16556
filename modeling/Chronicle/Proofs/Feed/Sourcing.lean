import Chronicle.Node.Commands
import Chronicle.Node.Pulls
import Chronicle.Proofs.Log.Storing

/-!
# Chronicle.Proofs.Feed.Sourcing

Event streams make nothing up. What a stream has read and not yet passed on, what it was pushed, and
what its subscribers have not taken yet is all of the log (`EventStream.From`), and stays so in every
step of a pull, whether it polls, takes what was pushed, or replays (`streamsFrom_movePull`).
-/

namespace Chronicle

/-! ## Subscriptions -/

namespace Broadcaster

variable {T : Type} {b b' : Broadcaster T} {i : Nat} {x y : T}

/-- A subscription has an item and has not taken it. -/
def Carries (b : Broadcaster T) (x : T) : Prop := ∃ m ∈ b.mailboxes, x ∈ m.queue

theorem carries_publish (h : (b.publish x).1.Carries y) : b.Carries y ∨ y = x := by
  obtain ⟨m', hm', hy⟩ := h
  obtain ⟨m, hm, rfl⟩ := List.mem_map.mp hm'
  unfold Mailbox.deliver at hy
  split at hy
  · rcases List.mem_append.mp hy with hold | hnew
    · exact .inl ⟨m, hm, hold⟩
    · exact .inr (List.mem_singleton.mp hnew)
  · exact .inl ⟨m, hm, hy⟩

theorem carries_modify {f : Mailbox T → Mailbox T} (hf : ∀ m, (f m).queue ⊆ m.queue)
    (h : Carries ⟨b.mailboxes.modify i f⟩ y) : b.Carries y := by
  obtain ⟨m', hm', hy⟩ := h
  obtain ⟨j, hj⟩ := List.getElem?_of_mem hm'
  rw [List.getElem?_modify] at hj
  obtain ⟨m, hm, rfl⟩ := Option.map_eq_some_iff.mp hj
  refine ⟨m, List.mem_of_getElem? hm, ?_⟩
  split at hy
  · exact hf m hy
  · exact hy

theorem carries_drop (h : (b.drop i).Carries y) : b.Carries y :=
  carries_modify (fun _ => List.nil_subset _) h

/-- What is taken was there, and nothing comes instead. -/
theorem carries_receive (h : b.receive i = (b', .item x)) :
    b.Carries x ∧ ∀ y, b'.Carries y → b.Carries y := by
  unfold receive at h
  cases hqueue : (b.mailbox i).queue with
  | nil =>
    simp only [hqueue] at h
    split at h <;> cases h
  | cons x' rest =>
    simp only [hqueue] at h
    cases h
    obtain ⟨m, hm⟩ : ∃ m, b.mailboxes[i]? = some m := by
      cases hm : b.mailboxes[i]? with
      | some m => exact ⟨m, rfl⟩
      | none =>
        rw [mailbox, hm] at hqueue
        cases hqueue
    have hsame : b.mailbox i = m := by rw [mailbox, hm]; rfl
    rw [hsame] at hqueue
    refine ⟨⟨m, List.mem_of_getElem? hm, by rw [hqueue]; exact List.mem_cons_self⟩, ?_⟩
    rintro y ⟨m', hm', hy⟩
    obtain ⟨j, hj⟩ := List.getElem?_of_mem hm'
    rw [List.getElem?_modify] at hj
    obtain ⟨m₀, hm₀, rfl⟩ := Option.map_eq_some_iff.mp hj
    refine ⟨m₀, List.mem_of_getElem? hm₀, ?_⟩
    split at hy
    · rename_i hij
      rw [← hij, hm] at hm₀
      cases hm₀
      rw [hqueue]
      exact List.mem_cons_of_mem _ hy
    · exact hy

end Broadcaster

/-! ## Streams -/

section Streams

variable {A : Type} {log more : List (Event A)} {s : EventStream A} {e : Event A}

/-- What a poll loop is handing out is of the log. -/
def PollLoop.From (log : List (Event A)) (l : PollLoop Position (Event A)) : Prop :=
  ∀ cursor items next, l.phase = .emitting cursor items next → items ⊆ log

/-- What a replay is passing on is of the log. -/
def Replay.From (log : List (Event A)) (r : Replay A) : Prop :=
  ∀ cursor events, r.phase = .emitting cursor events → events ⊆ log

def Pull.From (log : List (Event A)) : Pull A → Prop
  | .polling loop _ => loop.From log
  | .pushed _ => True
  | .replaying replay _ _ => replay.From log

/-- All events that a stream has in hand are of the log. -/
structure EventStream.From (log : List (Event A)) (s : EventStream A) : Prop where
  outlet : ∀ e, s.outlet.Carries e → e ∈ log
  inlet : ∀ inlet, s.source = .pushed inlet → ∀ e, inlet.Carries e → e ∈ log
  pull : ∀ pull, s.pull = some pull → pull.From log

namespace EventStream.From

theorem append (h : s.From log) : s.From (log ++ more) where
  outlet e he := List.mem_append_left _ (h.outlet e he)
  inlet inlet hsource e he := List.mem_append_left _ (h.inlet inlet hsource e he)
  pull pull hpull := by
    have hfrom := h.pull pull hpull
    cases pull with
    | polling loop timer =>
      exact fun cursor items next hphase =>
        List.Subset.trans (hfrom cursor items next hphase) (List.subset_append_left _ _)
    | pushed subscription => trivial
    | replaying replay subscription timer =>
      exact fun cursor events hphase =>
        List.Subset.trans (hfrom cursor events hphase) (List.subset_append_left _ _)

theorem signal (h : s.From log) : s.signal.From log := by
  unfold EventStream.signal
  split
  · exact ⟨h.outlet, nofun, h.pull⟩
  · exact h

theorem putPull (h : s.From log) {pull : Option (Pull A)}
    (hpull : ∀ p, pull = some p → p.From log) : ({ s with pull } : EventStream A).From log :=
  ⟨h.outlet, h.inlet, hpull⟩

theorem modifyOutlet (h : s.From log) {f : Broadcaster (Event A) → Broadcaster (Event A)}
    (hf : ∀ e, (f s.outlet).Carries e → s.outlet.Carries e ∨ e ∈ log) :
    ({ s with outlet := f s.outlet } : EventStream A).From log :=
  ⟨fun e he => (hf e he).elim (h.outlet e) id, h.inlet, h.pull⟩

theorem passOn (h : s.From log) (he : e ∈ log) : (s.passOn e).From log where
  outlet e' he' := by
    rcases Broadcaster.carries_publish he' with hold | rfl
    · exact h.outlet e' hold
    · exact he
  inlet inlet hsource := by
    unfold EventStream.passOn at hsource
    dsimp only at hsource
    split at hsource
    · cases hsource
    · exact h.inlet inlet hsource
  pull := h.pull

end EventStream.From

namespace PollLoop

variable {l l' : PollLoop Position (Event A)}

theorem from_conclude (cursor : Position) (outcome : PollOutcome Position) :
    (l.conclude cursor outcome).1.From log := nofun

theorem From.answer (h : l.From log) {page : Page A}
    (hpage : ∀ events, page = .ok events → events ⊆ log) : (l.answer page).1.From log := by
  unfold PollLoop.answer
  split
  · dsimp only
    split
    · rename_i items
      split
      · exact from_conclude _ _
      · rintro cursor items' next ⟨⟩
        exact hpage items rfl
    · exact from_conclude _ _
  · exact h

theorem From.emit (h : l.From log) (hemit : l.emit? = some (e, l')) : e ∈ log ∧ l'.From log := by
  unfold emit? at hemit
  split at hemit
  · rename_i cursor x rest next hphase
    cases hemit
    obtain ⟨he, hrest⟩ := List.cons_subset.mp (h _ _ _ hphase)
    refine ⟨he, ?_⟩
    rintro cursor' items next' ⟨⟩
    exact hrest
  · cases hemit

theorem From.finishBatch (h : l.From log) : l.finishBatch.1.From log := by
  unfold PollLoop.finishBatch
  split
  · exact from_conclude _ _
  · exact h

theorem From.begin (h : l.From log) (w : WakeUp) (cursor : Position) :
    (l.begin w cursor).1.From log := by
  unfold PollLoop.begin
  split
  · nofun
  · exact h

theorem From.woken (h : l.From log) (w : WakeUp) (rested : Duration) (reason : WakeReason) :
    (l.woken w rested reason).1.From log := by
  unfold PollLoop.woken
  split
  · nofun
  · exact h

end PollLoop

namespace Replay

variable {r r' : Replay A}

theorem From.answer (h : r.From log) {page : Page A}
    (hpage : ∀ events, page = .ok events → events ⊆ log) : (r.answer page).1.From log := by
  unfold Replay.answer
  split
  · dsimp only
    split
    · nofun
    · rename_i events _
      rintro cursor events' ⟨⟩
      exact hpage events rfl
    · split <;> nofun
  · exact h

theorem From.emit (h : r.From log) (hemit : r.emit? = some (e, r')) : e ∈ log ∧ r'.From log := by
  unfold emit? at hemit
  split at hemit
  · rename_i cursor x rest hphase
    cases hemit
    obtain ⟨he, hrest⟩ := List.cons_subset.mp (h _ _ hphase)
    refine ⟨he, ?_⟩
    rintro cursor' events ⟨⟩
    exact hrest
  · cases hemit

theorem From.finishPage (h : r.From log) : r.finishPage.From log := by
  unfold Replay.finishPage
  split
  · nofun
  · exact h

theorem From.resume (h : r.From log) : r.resume.From log := by
  unfold Replay.resume
  split
  · nofun
  · exact h

theorem From.follow (h : r.From log) : (r.follow e).2.From log ∧
    ∀ e', (r.follow e).1 = some e' → e' = e := by
  unfold Replay.follow
  split
  · split
    · exact ⟨h, nofun⟩
    · rename_i hphase _
      refine ⟨?_, fun e' he => (Option.some.inj he).symm⟩
      intro cursor events hemitting
      rw [hphase] at hemitting
      cases hemitting
  · exact ⟨h, nofun⟩

end Replay

end Streams

/-! ## Pulls -/

namespace Node

variable {A S B : Type} [Vocabulary A] {n n' : Node A S B} {log more : List (Event A)} {i : Nat}
  {s : EventStream A}

def StreamsFrom (log : List (Event A)) (n : Node A S B) : Prop := ∀ s ∈ n.streams, s.From log

theorem StreamsFrom.append (h : n.StreamsFrom log) : n.StreamsFrom (log ++ more) :=
  fun s hs => (h s hs).append

theorem StreamsFrom.of_eq (h : n.StreamsFrom log) (hsame : n'.streams = n.streams) :
    n'.StreamsFrom log := by
  rw [StreamsFrom, hsame]
  exact h

theorem StreamsFrom.putStream (h : n.StreamsFrom log) (hs : s.From log) :
    (n.putStream i s).StreamsFrom log := by
  intro s' hs'
  rcases List.mem_or_eq_of_mem_set hs' with hold | rfl
  · exact h s' hold
  · exact hs

theorem StreamsFrom.modify (h : n.StreamsFrom log) {f : EventStream A → EventStream A}
    (hf : ∀ s, s.From log → (f s).From log) :
    ({ n with streams := n.streams.modify i f } : Node A S B).StreamsFrom log := by
  intro s' hs'
  obtain ⟨j, hj⟩ := List.getElem?_of_mem hs'
  rw [List.getElem?_modify] at hj
  obtain ⟨s, hs, rfl⟩ := Option.map_eq_some_iff.mp hj
  have hfrom := h s (List.mem_of_getElem? hs)
  split
  · exact hf s hfrom
  · exact hfrom

theorem StreamsFrom.modifyOutlet (h : n.StreamsFrom log)
    {f : Broadcaster (Event A) → Broadcaster (Event A)}
    (hf : ∀ b e, (f b).Carries e → b.Carries e ∨ e ∈ log) : (n.modifyOutlet i f).StreamsFrom log :=
  h.modify fun _ hs => hs.modifyOutlet fun e => hf _ e

theorem StreamsFrom.outlet (h : n.StreamsFrom log) {e : Event A} (he : (n.outlet i).Carries e) :
    e ∈ log := by
  unfold Node.outlet at he
  split at he
  · rename_i s hs
    exact (h s (List.mem_of_getElem? hs)).outlet e he
  · obtain ⟨m, hm, -⟩ := he
    cases hm

/-- The outlet is one that the stream had, but for an event that was taken from it. -/
theorem StreamsFrom.taken (h : n.StreamsFrom log) {left : Broadcaster (Event A)}
    (hleft : ∀ e, left.Carries e → (n.outlet i).Carries e) :
    (n.modifyOutlet i fun _ => left).StreamsFrom log :=
  h.modifyOutlet fun _ e he => .inr (h.outlet (hleft e he))

theorem StreamsFrom.signal (h : n.StreamsFrom log) : (n.signal i).StreamsFrom log := by
  unfold Node.signal
  split
  · rename_i s hs
    split
    · exact h.putStream (h s (List.mem_of_getElem? hs)).signal
    · exact h.modify fun _ hfrom => hfrom.signal
    · exact h
  · exact h

theorem StreamsFrom.stop (h : n.StreamsFrom log) : (n.stop i).StreamsFrom log := by
  unfold Node.stop
  split
  · exact h
  · rename_i s hs
    have hfrom := h s (List.mem_of_getElem? hs)
    have hput : (n.putStream i { s with pull := none }).StreamsFrom log :=
      h.putStream (hfrom.putPull nofun)
    dsimp only
    split
    · rename_i subscription inlet _ hsource
      refine hput.putStream ⟨hfrom.outlet, ?_, nofun⟩
      rintro inlet' ⟨⟩ e he
      exact hfrom.inlet inlet hsource e (Broadcaster.carries_drop he)
    · exact hput.modifyOutlet fun _ e he => .inl (Broadcaster.carries_drop he)
    · exact hput

/-- What a read from a position yields is of the log. -/
theorem readFrom_subset {store : Store A} (hstore : store.Holds log) {cursor : Position}
    (events : List (Event A)) (hpage : (store.readFrom cursor).page = .ok events) : events ⊆ log := by
  intro e he
  rw [hstore.page_readFrom] at hpage
  unfold Log.answered at hpage
  split at hpage <;> cases hpage
  exact List.mem_of_mem_drop (List.mem_of_mem_take he)

theorem streamsFrom_movePolling (h : n.StreamsFrom log) (hstore : n.store.Holds log)
    (hs : s.From log) {wakeUp : WakeUp} {next : Position} {budget : Option Nat}
    {loop : PollLoop Position (Event A)} {timer : Option Timer} (hloop : loop.From log)
    (hmove : n.movePolling i s wakeUp next budget loop timer = some n') : n'.StreamsFrom log := by
  have hput {m : Node A S B} (hm : m.streams = n.streams) {loop' : PollLoop Position (Event A)}
      {wakeUp' : WakeUp} {timer' : Option Timer} (hloop' : loop'.From log) :
      (m.putStream i { s with
        source := .polling wakeUp' next budget
        pull := some (.polling loop' timer') }).StreamsFrom log := by
    refine (h.of_eq hm).putStream ⟨hs.outlet, nofun, ?_⟩
    rintro pull ⟨⟩
    exact hloop'
  unfold movePolling at hmove
  dsimp only at hmove
  split at hmove
  · cases hmove
    exact hput rfl (hloop.begin _ _)
  · split at hmove
    · cases hmove
    · cases hmove
      exact hput rfl (hloop.answer (readFrom_subset hstore))
  · split at hmove
    · rename_i e loop' hemit
      cases hmove
      obtain ⟨he, hloop'⟩ := hloop.emit hemit
      refine h.putStream (EventStream.From.passOn (hs.putPull ?_) he)
      rintro pull ⟨⟩
      exact hloop'
    · cases hmove
      exact hput rfl hloop.finishBatch
  · split at hmove
    · cases hmove
      exact hput rfl hloop
    · split at hmove
      · cases hmove
        exact hput rfl (hloop.woken _ _ _)
      · split at hmove
        · cases hmove
          exact hput rfl (hloop.woken _ _ _)
        · cases hmove
  · cases hmove
    exact h.stop

theorem streamsFrom_movePushed (h : n.StreamsFrom log) (hs : s.From log)
    {inlet : Broadcaster (Event A)} {subscription : Nat} (hsource : s.source = .pushed inlet)
    (hmove : n.movePushed i s inlet subscription = some n') : n'.StreamsFrom log := by
  unfold movePushed at hmove
  split at hmove
  · rename_i left e hreceive
    cases hmove
    obtain ⟨he, hleft⟩ := Broadcaster.carries_receive hreceive
    have hinlet := hs.inlet inlet hsource
    have hput : ({ s with source := .pushed left } : EventStream A).From log := by
      refine ⟨hs.outlet, ?_, hs.pull⟩
      rintro inlet' ⟨⟩ e' he'
      exact hinlet e' (hleft e' he')
    exact h.putStream (hput.passOn (hinlet e he))
  · cases hmove
    exact h.stop
  · cases hmove

theorem streamsFrom_moveReplaying (h : n.StreamsFrom log) (hstore : n.store.Holds log)
    (hs : s.From log) {live subscription : Nat} {replay : Replay A} {timer : Option Timer}
    (hreplay : replay.From log)
    (hmove : n.moveReplaying i s live replay subscription timer = some n') :
    n'.StreamsFrom log := by
  have hput {m : Node A S B} (hm : m.StreamsFrom log) {s' : EventStream A} (hs' : s'.From log)
      {replay' : Replay A} {timer' : Option Timer} (hreplay' : replay'.From log) :
      (m.putStream i { s' with
        pull := some (.replaying replay' subscription timer') }).StreamsFrom log := by
    refine hm.putStream (hs'.putPull ?_)
    rintro pull ⟨⟩
    exact hreplay'
  unfold moveReplaying at hmove
  dsimp only at hmove
  split at hmove
  · split at hmove
    · cases hmove
    · cases hmove
      exact hput (h.of_eq rfl) hs (hreplay.answer (readFrom_subset hstore))
  · split at hmove
    · cases hmove
      exact hput h hs hreplay
    · split at hmove
      · cases hmove
        exact hput h hs hreplay.resume
      · cases hmove
  · split at hmove
    · rename_i e replay' hemit
      cases hmove
      obtain ⟨he, hreplay'⟩ := hreplay.emit hemit
      exact hput h (hs.passOn he) hreplay'
    · cases hmove
      exact hput h hs hreplay.finishPage
  · split at hmove
    · rename_i left e hreceive
      cases hmove
      obtain ⟨hcarries, hleft⟩ := Broadcaster.carries_receive hreceive
      have he := h.outlet hcarries
      obtain ⟨hfollow, hpassed⟩ := hreplay.follow (e := e)
      refine hput (h.taken hleft) ?_ hfollow
      split
      · rename_i e' hsome
        rw [hpassed e' hsome]
        exact hs.passOn he
      · exact hs
    · cases hmove
      exact h.stop
    · cases hmove
  · cases hmove
    exact h.stop

/-- A step of a pull. -/
theorem streamsFrom_movePull (h : n.StreamsFrom log) (hstore : n.store.Holds log)
    (hmove : n.movePull i = some n') : n'.StreamsFrom log := by
  unfold movePull at hmove
  split at hmove
  · cases hmove
  · rename_i s hstream
    have hs := h s (List.mem_of_getElem? hstream)
    split at hmove
    · rename_i hpull _
      exact streamsFrom_movePolling h hstore hs (hs.pull _ hpull) hmove
    · rename_i hsource
      exact streamsFrom_movePushed h hs hsource hmove
    · rename_i hpull _
      exact streamsFrom_moveReplaying h hstore hs (hs.pull _ hpull) hmove
    · cases hmove

end Node
end Chronicle
