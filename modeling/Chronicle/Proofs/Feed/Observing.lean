import Chronicle.Proofs.Feed.Passing
import Chronicle.Proofs.Feed.Replaying
import Mathlib.Logic.Relation

/-!
# Chronicle.Proofs.Feed.Observing

What a subscriber of a stream was sent while the log grows, reads fail for a time and other streams
go on, whatever records cannot be decoded: what can be decoded between the first position and the
cursor (`passes_what_decodes`).

* `Observed`: an invariant of a stream and of what one of its subscribers was sent. What happens
  beside the stream keeps it if the growing of the log does (`Observed.beside`).
* `Polls`: a polling stream is started, stopped and goes on.
* `Replays`, `Rests`: a replay goes on until the end of the log is reached or it is given up.
-/

namespace Chronicle

variable {A : Type} [Vocabulary A] {c : Contents A} {first : Position} {sent : List (Event A)}

/-! ## What a subscriber was sent -/

namespace EventStream

/-- The cursor of a stream whose pull is not in the middle of a page. -/
def cursor? (s : EventStream A) : Option Position :=
  match s.source, s.pull with
  | .polling _ next _, none => some next
  | .polling _ next _, some (.polling loop _) => loop.phase.cursor? next
  | _, some (.replaying replay _ _) => replay.phase.cursor?
  | _, _ => none

def replay? (s : EventStream A) : Option (Replay A) :=
  match s.pull with
  | some (.replaying replay _ _) => some replay
  | _ => none

def drains (s : EventStream A) : Bool := s.replay?.any fun replay => replay.phase.drains

def follows (s : EventStream A) : Bool := s.replay?.any fun replay => replay.phase.follows

/-- Of these events a subscriber was sent those from `first` on: when the pull is between two pages,
up to the cursor, and when the log was replayed, all of them. -/
structure Passed (first : Position) (events sent : List (Event A)) (s : EventStream A) : Prop where
  upTo : ∀ cursor, s.cursor? = some cursor →
    sent = events.filter fun e => first ≤ e.position ∧ e.position < cursor
  whole : s.follows = true → sent = events.filter fun e => first ≤ e.position
  begins : sent <+: events.filter fun e => first ≤ e.position
  ordered : sent.Pairwise fun e e' => e.position < e'.position

variable {s : EventStream A} {next : Position}

theorem passed_of_sends (h : c.Sends first sent next) (hc : c.Numbered)
    (hcursor : ∀ cursor, s.cursor? = some cursor → c.Sends first sent cursor)
    (hend : s.follows = true → c.slots.length ≤ next.val) :
    s.Passed first c.slots.reduceOption sent where
  upTo cursor hat := (hcursor cursor hat).eq_filter hc
  whole hfollows := h.all hc (hend hfollows)
  begins := h.prefix_filter hc
  ordered := h.ordered hc

end EventStream

namespace Listening

variable {S B : Type} {i subscription : Nat} {t t' : Listening A S B}

/-- What the subscriber has taken and has in its mailbox. -/
def sentTo (t : Listening A S B) (i subscription : Nat) : List (Event A) :=
  t.taken ++ ((t.node.outlet i).mailbox subscription).queue

/-- A step of what goes on around stream `i` and the subscription, and anywhere else. -/
inductive Goes (i subscription : Nat) : Listening A S B → Listening A S B → Prop where
  | move {t t' : Listening A S B} (m : Move A) (hstep : t.step i subscription m = some t') :
      Goes i subscription t t'
  | elsewhere {t : Listening A S B} {node : Node A S B} (hstore : t.node.store.After node.store)
      (hstream : node.streams[i]? = t.node.streams[i]?) : Goes i subscription t { t with node }

def Drains (i subscription : Nat) (t t' : Listening A S B) : Prop :=
  (∃ s, t.node.streams[i]? = some s ∧ s.drains = true) ∧ Goes i subscription t t'

/-- What is to hold of the contents of the log, of what a subscriber was sent, and of a stream. -/
abbrev Invariant (A : Type) [Vocabulary A] : Type :=
  Contents A → List (Event A) → Source A → Option (Pull A) → Prop

/-- The invariant holds of the stream and its subscriber, over a log that only fails for a time. -/
structure Observed (i subscription : Nat) (I : Invariant A) (t : Listening A S B) : Prop where
  numbered : t.node.store.contents.Numbered
  pages : 0 < t.node.store.pageSize
  temporary : ∀ fault ∈ t.node.store.readFaults, fault.2.isTemporary = true
  mailbox : ((t.node.outlet i).mailbox subscription).Live
  stream : ∃ s, t.node.streams[i]? = some s ∧
    I t.node.store.contents (t.sentTo i subscription) s.source s.pull

/-- Appends keep the invariant. -/
def Invariant.Grows (I : Invariant A) : Prop :=
  ∀ {c c' : Contents A} {sent : List (Event A)} {source : Source A} {pull : Option (Pull A)},
    c.Grows c' → I c sent source pull → I c' sent source pull

def Move.Own : Move A → Prop
  | .start | .stop | .pull | .signal => True
  | _ => False

namespace Observed

variable {I J : Invariant A}

theorem frame (h : Observed i subscription I t) (hI : I.Grows)
    (hcontents : t.node.store.contents.Grows t'.node.store.contents)
    (hroom : t'.node.store.length < 0x10000000000000000)
    (hpages : 0 < t'.node.store.pageSize)
    (hfaults : ∀ fault ∈ t'.node.store.readFaults, fault.2.isTemporary = true)
    (hstream : t'.node.streams[i]? = t.node.streams[i]?) (htaken : t'.taken = t.taken) :
    Observed i subscription I t' := by
  have houtlet : t'.node.outlet i = t.node.outlet i := by rw [Node.outlet, Node.outlet, hstream]
  obtain ⟨s, hs, hinv⟩ := h.stream
  refine ⟨hcontents.numbered hroom h.numbered, hpages, hfaults, houtlet ▸ h.mailbox, s,
    hstream.trans hs, ?_⟩
  rw [sentTo, htaken, houtlet]
  exact hI hcontents hinv

/-- The outlet is changed, and so is what was taken from it. -/
theorem outlet (h : Observed i subscription I t) {taken : List (Event A)}
    {f : Broadcaster (Event A) → Broadcaster (Event A)}
    (hlive : ((f (t.node.outlet i)).mailbox subscription).Live)
    (hsent : taken ++ ((f (t.node.outlet i)).mailbox subscription).queue
      = t.sentTo i subscription) :
    Observed i subscription I ⟨t.node.modifyOutlet i f, taken⟩ := by
  obtain ⟨s, hs, hinv⟩ := h.stream
  have houtlet := Node.outlet_modifyOutlet_self (f := f) hs
  refine ⟨h.numbered, h.pages, h.temporary, ?_, { s with outlet := f s.outlet }, ?_, ?_⟩
  · show (((t.node.modifyOutlet i f).outlet i).mailbox subscription).Live
    rw [houtlet]
    exact hlive
  · show (t.node.streams.modify i _)[i]? = _
    rw [List.getElem?_modify, hs]
    simp
  · rw [sentTo]
    show I t.node.store.contents
      (taken ++ (((t.node.modifyOutlet i f).outlet i).mailbox subscription).queue) _ _
    rw [houtlet, hsent]
    exact hinv

theorem others (h : Observed i subscription I t)
    {f : Broadcaster (Event A) → Broadcaster (Event A)}
    (hsame : (f (t.node.outlet i)).mailbox subscription
      = (t.node.outlet i).mailbox subscription) :
    Observed i subscription I ⟨t.node.modifyOutlet i f, t.taken⟩ :=
  h.outlet (by rw [hsame]; exact h.mailbox) (by rw [hsame, sentTo])

/-- What is not done by the stream keeps the invariant. -/
theorem beside (h : Observed i subscription I t) (hI : I.Grows) {m : Move A} (hm : ¬ m.Own)
    (hstep : t.step i subscription m = some t')
    (hroom : t'.node.store.length < 0x10000000000000000) : Observed i subscription I t' := by
  cases m with
  | start | stop | pull | signal => exact absurd trivial hm
  | write batch =>
    cases hstep
    obtain ⟨hpages, hfaults, -⟩ := Store.write_reads (s := t.node.store) batch
    refine h.frame hI (Store.grows_write batch) hroom ?_ ?_ rfl rfl
    · show 0 < (t.node.store.write batch).2.pageSize
      rw [hpages]
      exact h.pages
    · intro fault hfault
      exact h.temporary fault (hfaults ▸ hfault)
  | record stream tag data =>
    cases hstep
    refine h.frame hI (Store.grows_appendRaw stream tag data) hroom ?_ ?_ rfl rfl
    · show 0 < (t.node.store.appendRaw stream tag data).2.pageSize
      rw [Store.pageSize_appendRaw]
      exact h.pages
    · intro fault hfault
      exact h.temporary fault (Store.readFaults_appendRaw (s := t.node.store) ▸ hfault)
  | pages n =>
    cases hstep
    exact h.frame hI (.refl _) hroom (Nat.lt_of_lt_of_le Nat.one_pos (Nat.le_max_right n 1))
      h.temporary rfl rfl
  | fail p reason =>
    cases hstep
    refine h.frame hI (.refl _) hroom h.pages ?_ rfl rfl
    intro fault hfault
    rcases List.mem_append.mp hfault with hold | hnew
    · exact h.temporary fault hold
    · rw [List.mem_singleton.mp hnew]
      rfl
  | hold _ | wait _ =>
    cases hstep
    exact h.frame hI (.refl _) hroom h.pages h.temporary rfl rfl
  | join =>
    cases hstep
    exact h.others (f := fun _ => (t.node.outlet i).subscribe.1)
      (Broadcaster.mailbox_subscribe_of_live h.mailbox)
  | leave other =>
    simp only [Listening.step] at hstep
    split at hstep
    · cases hstep
    · rename_i hother
      cases hstep
      exact h.others (Broadcaster.mailbox_drop_of_ne hother)
  | take =>
    simp only [Listening.step] at hstep
    split at hstep
    · rename_i outlet e hreceive
      cases hstep
      obtain ⟨rest, hqueue, hmailbox⟩ := Broadcaster.receive_item hreceive
      refine h.outlet ?_ ?_
      · rw [hmailbox]
        exact ⟨h.mailbox.linked, h.mailbox.held⟩
      · rw [hmailbox, sentTo, hqueue, List.append_assoc, List.singleton_append]
    · cases hstep

/-- The stream is put in another state without an event being passed on. -/
theorem put (h : Observed i subscription I t) {node : Node A S B} {s s' : EventStream A}
    (hs : t.node.streams[i]? = some s) (hstore : t.node.store.After node.store)
    (hs' : node.streams[i]? = some s') (houtlet : s'.outlet = s.outlet)
    (hJ : J t.node.store.contents (t.sentTo i subscription) s'.source s'.pull) :
    Observed i subscription J { t with node } := by
  have hsame : node.outlet i = t.node.outlet i := by
    rw [Node.outlet_of_getElem? hs', Node.outlet_of_getElem? hs, houtlet]
  refine ⟨?_, ?_, ?_, ?_, s', hs', ?_⟩
  · show node.store.contents.Numbered
    rw [hstore.contents]
    exact h.numbered
  · show 0 < node.store.pageSize
    rw [hstore.pageSize]
    exact h.pages
  · intro fault hfault
    exact h.temporary fault (hstore.faults hfault)
  · show ((node.outlet i).mailbox subscription).Live
    rw [hsame]
    exact h.mailbox
  · show J node.store.contents (t.taken ++ ((node.outlet i).mailbox subscription).queue) _ _
    rw [hstore.contents, hsame]
    exact hJ

/-- The stream passes an event on. -/
theorem passOn (h : Observed i subscription I t) {s : EventStream A} {e : Event A}
    {pull : Option (Pull A)} (hs : t.node.streams[i]? = some s)
    (hJ : J t.node.store.contents (t.sentTo i subscription ++ [e])
      (({ s with pull } : EventStream A).passOn e).source pull) :
    Observed i subscription J { t with node := t.node.putStream i ({ s with pull }.passOn e) } := by
  have hs' : (t.node.putStream i (({ s with pull } : EventStream A).passOn e)).streams[i]?
      = some (({ s with pull } : EventStream A).passOn e) := Node.getElem?_putStream_self hs
  have hmailbox : ((t.node.putStream i (({ s with pull } : EventStream A).passOn e)).outlet i).mailbox
      subscription = ((t.node.outlet i).mailbox subscription).deliver e := by
    rw [Node.outlet_of_getElem? hs', Node.outlet_of_getElem? hs]
    exact Broadcaster.mailbox_publish e
  rw [h.mailbox.deliver] at hmailbox
  refine ⟨h.numbered, h.pages, h.temporary, ?_, _, hs', ?_⟩
  · rw [hmailbox]
    exact ⟨h.mailbox.linked, h.mailbox.held⟩
  · rw [sentTo, hmailbox, ← List.append_assoc]
    exact hJ

end Observed

/-! ## What goes on around a stream -/

theorem Goes.length_le (h : Goes i subscription t t') :
    t.node.store.length ≤ t'.node.store.length := by
  cases h with
  | move m hstep =>
    by_cases hm : m.Appends
    · cases m with
      | write batch =>
        cases hstep
        exact Store.length_le_write batch
      | record stream tag data =>
        cases hstep
        exact (Store.grows_appendRaw stream tag data).length_le
      | _ => exact hm.elim
    · exact Nat.le_of_eq (congrArg Contents.length (contents_step hm hstep)).symm
  | elsewhere hstore hstream => exact Nat.le_of_eq (congrArg Contents.length hstore.contents).symm

theorem Observed.elsewhere {I : Invariant A} (h : Observed i subscription I t) (hI : I.Grows)
    {node : Node A S B} (hstore : t.node.store.After node.store)
    (hstream : node.streams[i]? = t.node.streams[i]?)
    (hroom : node.store.length < 0x10000000000000000) :
    Observed i subscription I { t with node } := by
  refine h.frame hI ?_ hroom ?_ ?_ hstream rfl
  · show t.node.store.contents.Grows node.store.contents
    rw [hstore.contents]
    exact .refl _
  · show 0 < node.store.pageSize
    rw [hstore.pageSize]
    exact h.pages
  · intro fault hfault
    exact h.temporary fault (hstore.faults hfault)

/-! ## Polling -/

/-- A polling stream goes on behind what was sent, and so does its pull. -/
def Polls (first : Position) : Invariant A := fun c sent source pull =>
  ∃ wakeUp next budget, source = .polling wakeUp next budget ∧ c.Sends first sent next ∧
    ∀ p, pull = some p → ∃ loop timer, p = .polling loop timer ∧ loop.Passes c first sent

theorem polls_grows : Invariant.Grows (A := A) (Polls first) := by
  rintro c c' sent source pull hc ⟨wakeUp, next, budget, hsource, hsends, hpull⟩
  refine ⟨wakeUp, next, budget, hsource, hsends.grow hc, fun p hp => ?_⟩
  obtain ⟨loop, timer, hloop, hpasses⟩ := hpull p hp
  exact ⟨loop, timer, hloop, hpasses.grow hc⟩

namespace Observed

/-- Between two events the loop passes nothing over. -/
theorem turns {I : Invariant A} (h : Observed i subscription I t) {next : Position}
    {loop loop' : PollLoop Position (Event A)}
    (hloop : loop.Passes t.node.store.contents first sent)
    (hnext : t.node.store.contents.Sends first sent next)
    (hturns : Node.PollTurns t.node.store next loop loop') :
    loop'.Passes t.node.store.contents first sent := by
  cases hturns with
  | begin w => exact hloop.begin hnext
  | answer hphase =>
    exact hloop.answer h.numbered hphase
      (Store.readFrom_cases h.numbered h.pages h.temporary _)
  | finishBatch => exact hloop.finishBatch
  | rest => exact hloop
  | woken w rested reason => exact hloop.woken

theorem start (h : Observed i subscription (Polls first) t) :
    Observed i subscription (Polls first) { t with node := t.node.start i } := by
  obtain ⟨s, hs, wakeUp, next, budget, hsource, hsends, hpull⟩ := h.stream
  cases hrunning : s.isRunning with
  | true =>
    rw [Node.start_of_running hs hrunning]
    exact h
  | false =>
    have hlisted : (t.node.enlist (.pull i)).streams[i]? = some s := by
      rw [Node.streams_enlist, hs]
    have hstore : t.node.store.After (t.node.enlist (.pull i)).store := by
      rw [Node.store_enlist]
      exact .refl _
    rw [Node.start_of_polling hs hrunning hsource]
    refine h.put hs hstore (Node.getElem?_putStream_self hlisted) rfl
      ⟨wakeUp, next, budget, hsource, hsends, fun p hp => ?_⟩
    exact ⟨_, none, (Option.some.inj hp).symm, PollLoop.passes_new budget⟩

theorem stop (h : Observed i subscription (Polls first) t) :
    Observed i subscription (Polls first) { t with node := t.node.stop i } := by
  obtain ⟨s, hs, wakeUp, next, budget, hsource, hsends, hpull⟩ := h.stream
  rw [Node.stop_of_polling hs hsource]
  exact h.put hs (.refl _) (Node.getElem?_putStream_self hs) rfl
    ⟨wakeUp, next, budget, hsource, hsends, nofun⟩

theorem signal (h : Observed i subscription (Polls first) t) :
    Observed i subscription (Polls first) { t with node := t.node.signal i } := by
  obtain ⟨s, hs, wakeUp, next, budget, hsource, hsends, hpull⟩ := h.stream
  rw [Node.signal_of_polling hs hsource]
  exact h.put hs (.refl _) (Node.getElem?_putStream_self hs) rfl
    ⟨wakeUp.signal, next, budget, rfl, hsends, hpull⟩

theorem pull (h : Observed i subscription (Polls first) t) {node : Node A S B}
    (hmove : t.node.movePull i = some node) :
    Observed i subscription (Polls first) { t with node } := by
  obtain ⟨s, hs, wakeUp, next, budget, hsource, hsends, hpulls⟩ := h.stream
  cases hpull : s.pull with
  | none =>
    simp only [Node.movePull, hs, hpull] at hmove
    cases hmove
  | some pull =>
    obtain ⟨loop, timer, rfl, hloop⟩ := hpulls pull hpull
    cases Node.polled_of_movePull hs hsource hpull hmove with
    | @turn _ loop' wakeUp' timer' hturns hstore _ hstream =>
      -- a skip moves the cursor of the loop and leaves `next`, which has as many events before it
      refine h.put hs hstore hstream rfl ⟨wakeUp', next, budget, rfl, hsends, fun p hp => ?_⟩
      exact ⟨loop', timer', (Option.some.inj hp).symm, h.turns hloop hsends hturns⟩
    | @passOn loop' e hemit =>
      obtain ⟨hsent, hloop'⟩ := hloop.emit h.numbered hemit
      refine h.passOn hs ⟨wakeUp, e.position.next, budget, ?_, hsent, fun p hp => ?_⟩
      · simp only [EventStream.passOn, hsource]
      · exact ⟨loop', none, (Option.some.inj hp).symm, hloop'⟩
    | stop => exact h.stop

theorem goes_polls (h : Observed i subscription (Polls first) t)
    (hgoes : Goes i subscription t t')
    (hroom : t'.node.store.length < 0x10000000000000000) :
    Observed i subscription (Polls first) t' := by
  cases hgoes with
  | elsewhere hstore hstream => exact h.elsewhere polls_grows hstore hstream hroom
  | move m hstep =>
    by_cases hm : m.Own
    · cases m with
      | start =>
        cases hstep
        exact h.start
      | stop =>
        cases hstep
        exact h.stop
      | signal =>
        cases hstep
        exact h.signal
      | pull =>
        obtain ⟨node, hmove, rfl⟩ := Option.map_eq_some_iff.mp hstep
        exact h.pull hmove
      | _ => exact hm.elim
    · exact h.beside polls_grows hm hstep hroom

theorem run_polls (h : Observed i subscription (Polls first) t)
    (hrun : Relation.ReflTransGen (Goes i subscription) t t')
    (hroom : t'.node.store.length < 0x10000000000000000) :
    Observed i subscription (Polls first) t' := by
  induction hrun with
  | refl => exact h
  | tail _ hgoes ih =>
    -- the log only grows, so that it has room at the end leaves room all along
    exact (ih (Nat.lt_of_le_of_lt hgoes.length_le hroom)).goes_polls hgoes hroom

end Observed

/-! ## Replaying -/

/-- The log is being replayed for a stream that is to follow stream `live`. -/
def Replays (first : Position) (live : Nat) : Invariant A := fun c sent source pull =>
  ∃ policy replay own timer, source = .replaying first policy live ∧
    pull = some (.replaying replay own timer) ∧ replay.phase.Drains c first sent

/-- Nothing more is replayed: the end of the log is reached, or the replay was given up. -/
def Rests (first : Position) : Invariant A := fun c sent source pull =>
  ∃ next policy live, source = .replaying first policy live ∧ c.Sends first sent next ∧
    ∀ p, pull = some p → ∃ replay own timer, p = .replaying replay own timer ∧
      (replay.phase = .following ∧ c.slots.length ≤ next.val ∨ replay.phase = .ended)

theorem replays_grows {live : Nat} : Invariant.Grows (A := A) (Replays first live) := by
  rintro c c' sent source pull hc ⟨policy, replay, own, timer, hsource, hpull, hdrains⟩
  exact ⟨policy, replay, own, timer, hsource, hpull, hdrains.grow hc⟩

namespace Observed

variable {live : Nat}

theorem stop_replays (h : Observed i subscription (Replays first live) t) (hapart : live ≠ i) :
    Observed i subscription (Rests first) { t with node := t.node.stop i } := by
  obtain ⟨s, hs, policy, replay, own, timer, hsource, hpull, hdrains⟩ := h.stream
  obtain ⟨next, hnext, -⟩ := hdrains.sends
  have hstore : t.node.store.After (t.node.stop i).store := by
    rw [Node.store_stop]
    exact .refl _
  exact h.put hs hstore (Node.getElem?_stop_of_replaying hs hapart hsource hpull) rfl
    ⟨next, policy, live, hsource, hnext, nofun⟩

/-- The stream is left in the middle of a replay, or behind it. -/
theorem turn_replays (h : Observed i subscription (Replays first live) t) {s : EventStream A}
    {policy : RetryPolicy} {replay replay' : Replay A} {own : Nat} {timer : Option Timer}
    {node : Node A S B} (hs : t.node.streams[i]? = some s)
    (hsource : s.source = .replaying first policy live)
    (hdrains : replay.phase.Drains t.node.store.contents first (t.sentTo i subscription))
    (hturn : Node.ReplayTurns t.node.store replay replay') (hstore : t.node.store.After node.store)
    (hstream : node.streams[i]? =
      some { s with pull := some (.replaying replay' own timer) }) :
    Observed i subscription (Replays first live) { t with node } ∨
      Observed i subscription (Rests first) { t with node } := by
  have hstays (hdrains' : replay'.phase.Drains t.node.store.contents first
      (t.sentTo i subscription)) : Observed i subscription (Replays first live) { t with node } :=
    h.put hs hstore hstream rfl ⟨policy, replay', own, timer, hsource, rfl, hdrains'⟩
  cases hturn with
  | @answer cursor attempt hphase =>
    have hcursor := hdrains
    rw [hphase] at hcursor
    have hread := Store.readFrom_cases h.numbered h.pages h.temporary cursor
    rcases Replay.drains_answer hcursor h.numbered hphase hread with hdrains' | hover
    · exact .inl (hstays hdrains')
    · refine .inr (h.put hs hstore hstream rfl
        ⟨cursor, policy, live, hsource, hcursor, fun p hp => ?_⟩)
      exact ⟨_, own, timer, (Option.some.inj hp).symm, hover⟩
  | wait => exact .inl (hstays hdrains)
  | resume hphase => exact .inl (hstays (Replay.drains_resume hdrains))
  | finishPage hphase hemit => exact .inl (hstays (Replay.drains_finishPage hdrains))

theorem pull_replays (h : Observed i subscription (Replays first live) t)
    {node : Node A S B} (hmove : t.node.movePull i = some node) :
    Observed i subscription (Replays first live) { t with node } ∨
      Observed i subscription (Rests first) { t with node } := by
  obtain ⟨s, hs, policy, replay, own, timer, hsource, hpull, hdrains⟩ := h.stream
  cases Node.replayed_of_movePull hs hsource hpull hmove with
  | @turn n₁ replay' timer' hturn hstore hstreams =>
    have hs₁ : n₁.streams[i]? = some s := by rw [hstreams, hs]
    exact h.turn_replays hs hsource hdrains hturn hstore (Node.getElem?_putStream_self hs₁)
  | @passOn e replay' hemit =>
    refine .inl (h.passOn (J := Replays first live) hs ⟨policy, replay', own, none, ?_, rfl, ?_⟩)
    · simp only [EventStream.passOn, hsource]
    · exact Replay.drains_emit hdrains h.numbered hemit
  | follow hphase hreceive =>
    rw [hphase] at hdrains
    exact hdrains.elim
  | stop hphase =>
    rcases hphase with hphase | hphase <;> rw [hphase] at hdrains <;> exact hdrains.elim

theorem goes_replays (h : Observed i subscription (Replays first live) t) (hapart : live ≠ i)
    (hgoes : Goes i subscription t t') (hroom : t'.node.store.length < 0x10000000000000000) :
    Observed i subscription (Replays first live) t' ∨ Observed i subscription (Rests first) t' := by
  cases hgoes with
  | elsewhere hstore hstream => exact .inl (h.elsewhere replays_grows hstore hstream hroom)
  | move m hstep =>
    by_cases hm : m.Own
    · obtain ⟨s, hs, policy, replay, own, timer, hsource, hpull, hdrains⟩ := h.stream
      cases m with
      | start =>
        -- the pull is under way, so nothing is begun
        cases hstep
        rw [Node.start_of_running hs (by rw [EventStream.isRunning, hpull]; rfl)]
        exact .inl h
      | stop =>
        cases hstep
        exact .inr (h.stop_replays hapart)
      | signal =>
        cases hstep
        have hstore : t.node.store.After (t.node.signal i).store := by
          rw [Node.store_signal]
          exact .refl _
        refine .inl (h.elsewhere replays_grows hstore ?_ hroom)
        simp only [Node.signal, hs, hsource, List.getElem?_modify]
        simp [hapart]
      | pull =>
        obtain ⟨node, hmove, rfl⟩ := Option.map_eq_some_iff.mp hstep
        exact h.pull_replays hmove
      | _ => exact hm.elim
    · exact .inl (h.beside replays_grows hm hstep hroom)

/-- Once the log is replayed, no step is taken any more while it is being replayed. -/
theorem not_drains (h : Observed i subscription (Rests first) t) : ¬ Drains i subscription t t' := by
  rintro ⟨⟨s, hs, hdrains⟩, -⟩
  obtain ⟨s', hs', next, policy, live, hsource, hsends, hpull⟩ := h.stream
  obtain rfl : s = s' := Option.some.inj (hs.symm.trans hs')
  cases hp : s.pull with
  | none => simp [EventStream.drains, EventStream.replay?, hp] at hdrains
  | some pull =>
    obtain ⟨replay, own, timer, rfl, hphase⟩ := hpull pull hp
    rcases hphase with ⟨hphase, -⟩ | hphase <;>
      simp [EventStream.drains, EventStream.replay?, hp, hphase, ReplayPhase.drains] at hdrains

theorem run_replays (h : Observed i subscription (Replays first live) t) (hapart : live ≠ i)
    (hrun : Relation.ReflTransGen (Drains i subscription) t t')
    (hroom : t'.node.store.length < 0x10000000000000000) :
    Observed i subscription (Replays first live) t' ∨ Observed i subscription (Rests first) t' := by
  induction hrun with
  | refl => exact .inl h
  | tail _ hdrains ih =>
    rcases ih (Nat.lt_of_le_of_lt hdrains.2.length_le hroom) with hbefore | hbefore
    · exact hbefore.goes_replays hapart hdrains.2 hroom
    · exact absurd hdrains hbefore.not_drains

end Observed

/-! ## What is passed on -/

namespace Observed

theorem passed_polls (h : Observed i subscription (Polls first) t) :
    ∃ s, t.node.streams[i]? = some s ∧
      s.Passed first t.node.store.events (t.sentTo i subscription) := by
  obtain ⟨s, hs, wakeUp, next, budget, hsource, hsends, hpulls⟩ := h.stream
  rw [Store.events_eq_reduceOption]
  refine ⟨s, hs, EventStream.passed_of_sends hsends h.numbered ?_ ?_⟩
  · intro cursor hcursor
    cases hpull : s.pull with
    | none =>
      simp only [EventStream.cursor?, hsource, hpull] at hcursor
      cases hcursor
      exact hsends
    | some pull =>
      obtain ⟨loop, timer, rfl, hloop⟩ := hpulls pull hpull
      simp only [EventStream.cursor?, hsource, hpull] at hcursor
      exact hloop.phase.sends hsends hcursor
  · intro hfollows
    cases hpull : s.pull with
    | none => simp [EventStream.follows, EventStream.replay?, hpull] at hfollows
    | some pull =>
      obtain ⟨loop, timer, rfl, -⟩ := hpulls pull hpull
      simp [EventStream.follows, EventStream.replay?, hpull] at hfollows

theorem passed_replays {live : Nat} (h : Observed i subscription (Replays first live) t) :
    ∃ s, t.node.streams[i]? = some s ∧
      s.Passed first t.node.store.events (t.sentTo i subscription) := by
  obtain ⟨s, hs, policy, replay, own, timer, hsource, hpull, hdrains⟩ := h.stream
  obtain ⟨next, hsends, hnext⟩ := hdrains.sends
  rw [Store.events_eq_reduceOption]
  refine ⟨s, hs, EventStream.passed_of_sends hsends h.numbered ?_ ?_⟩
  · intro cursor hcursor
    simp only [EventStream.cursor?, hsource, hpull] at hcursor
    rw [hnext cursor hcursor]
    exact hsends
  · intro hfollows
    simp [EventStream.follows, EventStream.replay?, hpull, hdrains.not_follows] at hfollows

theorem passed_rests (h : Observed i subscription (Rests first) t) :
    ∃ s, t.node.streams[i]? = some s ∧
      s.Passed first t.node.store.events (t.sentTo i subscription) := by
  obtain ⟨s, hs, next, policy, live, hsource, hsends, hpulls⟩ := h.stream
  rw [Store.events_eq_reduceOption]
  refine ⟨s, hs, EventStream.passed_of_sends hsends h.numbered ?_ ?_⟩
  · intro cursor hcursor
    cases hpull : s.pull with
    | none =>
      simp only [EventStream.cursor?, hsource, hpull] at hcursor
      cases hcursor
    | some pull =>
      obtain ⟨replay, own, timer, rfl, hphase⟩ := hpulls pull hpull
      simp only [EventStream.cursor?, hsource, hpull] at hcursor
      rcases hphase with ⟨hphase, -⟩ | hphase <;> rw [hphase] at hcursor <;> cases hcursor
  · intro hfollows
    cases hpull : s.pull with
    | none => simp [EventStream.follows, EventStream.replay?, hpull] at hfollows
    | some pull =>
      obtain ⟨replay, own, timer, rfl, hphase⟩ := hpulls pull hpull
      rcases hphase with ⟨-, hend⟩ | hphase
      · exact hend
      · simp [EventStream.follows, EventStream.replay?, hpull, hphase, ReplayPhase.follows]
          at hfollows

end Observed

/-- Nothing was read yet, and the subscriber was sent nothing. -/
structure Fresh (i subscription : Nat) (n : Node A S B) : Prop where
  numbered : n.store.contents.Numbered
  pages : 0 < n.store.pageSize
  temporary : ∀ fault ∈ n.store.readFaults, fault.2.isTemporary = true
  mailbox : ((n.outlet i).mailbox subscription).Live
  unsent : ((n.outlet i).mailbox subscription).queue = []

namespace Fresh

variable {n : Node A S B} {outlet : Broadcaster (Event A)}

theorem polls (h : Fresh i subscription n) {wakeUp : WakeUp} {budget : Option Nat}
    (hs : n.streams[i]? = some ⟨.polling wakeUp first budget, outlet, none⟩) :
    Observed i subscription (Polls first) { node := n } := by
  refine ⟨h.numbered, h.pages, h.temporary, h.mailbox, _, hs, wakeUp, first, budget, rfl, ?_, nofun⟩
  rw [sentTo, h.unsent]
  exact .refl _ _

theorem replays (h : Fresh i subscription n) {policy : RetryPolicy} {live : Nat}
    (hapart : live ≠ i) (hs : n.streams[i]? = some ⟨.replaying first policy live, outlet, none⟩) :
    Observed i subscription (Replays first live) { node := n.start i } := by
  have hstore : (n.start i).store = n.store := Node.store_start n i
  have hstart := Node.start_of_replaying hs rfl rfl
  have hput : (n.start i).streams[i]? = some ⟨.replaying first policy live, outlet,
      some (.replaying (.new first policy) (n.outlet live).subscribe.2 none)⟩ := by
    rw [hstart]
    refine Node.getElem?_putStream_self (s := ⟨.replaying first policy live, outlet, none⟩) ?_
    rw [Node.getElem?_modifyOutlet_of_ne hapart, Node.streams_enlist, hs]
  have houtlet : (n.start i).outlet i = n.outlet i := by
    rw [Node.outlet_of_getElem? hput, Node.outlet_of_getElem? hs]
  refine ⟨hstore ▸ h.numbered, hstore ▸ h.pages, hstore ▸ h.temporary, houtlet ▸ h.mailbox, _, hput,
    policy, _, _, none, rfl, rfl, ?_⟩
  rw [sentTo, houtlet, h.unsent]
  exact Contents.Sends.refl _ _

end Fresh

/-- Whatever records of a growing log cannot be decoded, wherever its pages end and whenever a read
fails for a time: a stream that polls the log, with or without a budget for skipping, and one that
replays it, for as long as it does, have sent what can be decoded between the first position and the
cursor, each event once and in the order of the positions, and nothing else. -/
theorem passes_what_decodes {n : Node A S B} (h : Fresh i subscription n) :
    (∀ {wakeUp budget outlet} {t : Listening A S B},
      n.streams[i]? = some ⟨.polling wakeUp first budget, outlet, none⟩ →
      Relation.ReflTransGen (Goes i subscription) { node := n } t →
      t.node.store.length < 0x10000000000000000 →
      ∃ s, t.node.streams[i]? = some s ∧
        s.Passed first t.node.store.events (t.sentTo i subscription)) ∧
    (∀ {policy live outlet} {t : Listening A S B}, live ≠ i →
      n.streams[i]? = some ⟨.replaying first policy live, outlet, none⟩ →
      Relation.ReflTransGen (Drains i subscription) { node := n.start i } t →
      t.node.store.length < 0x10000000000000000 →
      ∃ s, t.node.streams[i]? = some s ∧
        s.Passed first t.node.store.events (t.sentTo i subscription)) := by
  constructor
  · intro wakeUp budget outlet t hs hrun hroom
    exact ((h.polls hs).run_polls hrun hroom).passed_polls
  · intro policy live outlet t hapart hs hrun hroom
    rcases (h.replays hapart hs).run_replays hapart hrun hroom with hreplays | hrests
    · exact hreplays.passed_replays
    · exact hrests.passed_rests

/-- Two streams over a log that takes records of one tag: the first one polls it, and skips what
fails for good at once, the other one replays it. -/
def tagged : Node Notes.Fact Int64 Unit where
  store := {
    contents := .records ⟨[("Noted.v1", ⟨.fact .noted, "Noted"⟩)]⟩ []
    pageSize := 3
    clock := 0 }
  model := .new Notes.projector .unbounded
  streams := [
    { EventStream.polling {} (some 0) (.ofNat 0) with outlet := Broadcaster.new.subscribe.1 },
    { EventStream.replaying (.ofNat 0) {} 0 with outlet := Broadcaster.new.subscribe.1 }]

theorem fresh_tagged {i : Nat} (hi : i = 0 ∨ i = 1) : Fresh i 0 tagged where
  numbered := by decide
  pages := by decide
  temporary := nofun
  mailbox := by rcases hi with rfl | rfl <;> exact Mailbox.live_new
  unsent := by rcases hi with rfl | rfl <;> rfl

/-- Of five records the second and the fourth are under another tag. Pages begin at the first, the
fourth and the fifth one, and the second page fails once before. -/
def taggedPolls : List (Move Notes.Fact) :=
  [.write [.fact (.noted "a" 2)], .record ⟨"Topic", "a"⟩ "Gone.v1" [],
    .write [.fact (.noted "a" 3)], .record ⟨"Topic", "a"⟩ "Gone.v1" [], .start, .pull, .pull, .pull,
    .pull, .pull, .pull, .wait 4000, .pull, .fail (.ofNat 3) "busy", .pull, .pull, .wait 4000,
    .pull, .pull, .write [.fact (.noted "a" 4)], .pull, .wait 4000, .pull, .pull, .pull, .pull,
    .take]

/-- The polling stream is behind the fifth record, and the replay has got to the end. -/
theorem tagged_passed :
    (∃ t s, run 0 0 { node := tagged } taggedPolls = some t ∧ t.node.streams[0]? = some s ∧
      s.cursor? = some (.ofNat 5) ∧ (t.sentTo 0 0).map (fun e => e.position.val) = [0, 2, 4] ∧
      s.Passed (.ofNat 0) t.node.store.events (t.sentTo 0 0)) ∧
    ∃ t s, Relation.ReflTransGen (Drains 1 0) { node := tagged.start 1 } t ∧
      t.node.streams[1]? = some s ∧ s.follows = true ∧
      (t.sentTo 1 0).map (fun e => e.position.val) = [0, 2] ∧
      s.Passed (.ofNat 0) t.node.store.events (t.sentTo 1 0) := by
  constructor
  · have hrun : run 0 0 { node := tagged } taggedPolls = some _ := rfl
    obtain ⟨s, hs, hpassed⟩ :=
      (passes_what_decodes (fresh_tagged (.inl rfl))).1 rfl (reflTransGen_of_run (.move _) hrun)
        (by decide)
    cases hs
    exact ⟨_, _, hrun, rfl, rfl, rfl, hpassed⟩
  · have hstep {t t' : Listening Notes.Fact Int64 Unit} (m : Move Notes.Fact)
        (hdrains : ∃ s, t.node.streams[1]? = some s ∧ s.drains = true)
        (hstep : t.step 1 0 m = some t') : Drains 1 0 t t' := ⟨hdrains, .move m hstep⟩
    have hrun : Relation.ReflTransGen (Drains 1 0) { node := tagged.start 1 } _ :=
      .head (hstep (.write [.fact (.noted "a" 2)]) ⟨_, rfl, rfl⟩ rfl) <|
      .head (hstep (.record ⟨"Topic", "a"⟩ "Gone.v1" []) ⟨_, rfl, rfl⟩ rfl) <|
      .head (hstep (.write [.fact (.noted "a" 3)]) ⟨_, rfl, rfl⟩ rfl) <|
      .head (hstep (.record ⟨"Topic", "a"⟩ "Gone.v1" []) ⟨_, rfl, rfl⟩ rfl) <|
      .head (hstep .pull ⟨_, rfl, rfl⟩ rfl) <|
      .head (hstep .pull ⟨_, rfl, rfl⟩ rfl) <|
      .head (hstep .pull ⟨_, rfl, rfl⟩ rfl) <|
      .head (hstep .pull ⟨_, rfl, rfl⟩ rfl) <|
      .head (hstep .pull ⟨_, rfl, rfl⟩ rfl) <|
      .single (hstep .pull ⟨_, rfl, rfl⟩ rfl)
    obtain ⟨s, hs, hpassed⟩ :=
      (passes_what_decodes (fresh_tagged (.inr rfl))).2 Nat.zero_ne_one rfl hrun (by decide)
    cases hs
    exact ⟨_, _, hrun, rfl, rfl, rfl, hpassed⟩

end Listening
end Chronicle
