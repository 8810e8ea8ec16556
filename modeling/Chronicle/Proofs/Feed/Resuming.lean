import Chronicle.Node.Pulls
import Chronicle.Notes
import Chronicle.Proofs.Feed.Delivery
import Chronicle.Proofs.Log.Decoding
import Chronicle.Proofs.Running

/-!
# Chronicle.Proofs.Feed.Resuming

An event stream that polls the log and is started and stopped at any time. Three cursors move at
different moments: the poll loop's own one when a batch is handed out, the end of the batch when it
is read, and `next`, where the next pull resumes, with every event that is passed on. Only `next`
outlives a pull. It is always behind the last event that was passed on, so a pull that is given up
between any two steps takes nothing with it that the next one does not read again, and nothing is
passed on twice.

* `PollLoop.InStep`: what a loop is about to hand out is what the log has from `next` on.
* `EventStream.Resumes`: what a subscriber was sent are the events before `next`.
* `resumes_where_it_stopped`: that holds at every moment of a run.
-/

namespace Chronicle

variable {A : Type} {log : List (Event A)} {next : Position}

/-! ## The cursors of a strategy -/

namespace Strategy

variable {C : Type} (s : Strategy C) (polled : C)

@[simp] theorem cursor_next_advanced (c : C) : (s.next polled (.advanced c)).cursor = c := by
  cases s <;> rfl

@[simp] theorem cursor_next_empty : (s.next polled .empty).cursor = polled := by
  cases s <;> rfl

@[simp] theorem cursor_next_temporary (reason : String) :
    (s.next polled (.failed (.temporary reason))).cursor = polled := by
  cases s <;> rfl

end Strategy

/-! ## The poll loop -/

/-- What is about to be handed out is what the log has from `next` on. -/
def PollPhase.InStep (log : List (Event A)) (next : Position) : PollPhase Position (Event A) → Prop
  | .opening => True
  | .reading cursor => cursor = next
  | .emitting _ items target => items <+: log.drop next.val ∧ target.val = next.val + items.length
  | .resting cursor _ => cursor = next
  | .ended => True

/-- The loop of a pull that is to go on at `next`. -/
structure PollLoop.InStep (log : List (Event A)) (next : Position)
    (l : PollLoop Position (Event A)) : Prop where
  after : l.after = fun e => e.position.next
  phase : l.phase.InStep log next

namespace PollLoop

variable {l l' : PollLoop Position (Event A)} {w : WakeUp}

theorem inStep_new (budget : Option Nat) : (EventStream.newLoop budget).InStep log next := by
  unfold EventStream.newLoop
  cases budget <;> exact ⟨rfl, trivial⟩

theorem InStep.append {more : List (Event A)} (h : l.InStep log next) :
    l.InStep (log ++ more) next := by
  refine ⟨h.after, ?_⟩
  have hphase := h.phase
  cases hp : l.phase with
  | emitting cursor items target =>
    rw [hp] at hphase
    refine ⟨hphase.1.trans ?_, hphase.2⟩
    rw [List.drop_append]
    exact List.prefix_append _ _
  | opening => trivial
  | reading cursor => rw [hp] at hphase; exact hphase
  | resting cursor hot => rw [hp] at hphase; exact hphase
  | ended => trivial

theorem InStep.begin (h : l.InStep log next) : (l.begin w next).1.InStep log next := by
  unfold PollLoop.begin
  split
  · exact ⟨h.after, rfl⟩
  · exact h

theorem InStep.conclude (h : l.InStep log next) {cursor : Position} {outcome : PollOutcome Position}
    (hcursor : (l.strategy.next cursor outcome).cursor = next) :
    (l.conclude cursor outcome).1.InStep log next :=
  ⟨h.after, hcursor⟩

/-- A read at the cursor of the loop finds what the log has from there on, or fails for a time. -/
theorem InStep.answer (h : l.InStep log next) (hlog : Log.Numbered log) {cursor : Position}
    (hphase : l.phase = .reading cursor) {fault : Option ReadFailure} {limit : Nat}
    (htemporary : ∀ failure, fault = some failure → failure.isTemporary = true) :
    (l.answer (Log.answered fault (Log.page log cursor limit))).1.InStep log next := by
  have hcursor : cursor = next := by
    have := h.phase
    rw [hphase] at this
    exact this
  subst hcursor
  cases fault with
  | some failure =>
    cases failure with
    | permanent reason => exact absurd (htemporary _ rfl) nofun
    | temporary reason =>
      simp only [PollLoop.answer, hphase, Log.answered]
      exact h.conclude (Strategy.cursor_next_temporary _ _ _)
  | none =>
    simp only [PollLoop.answer, hphase, Log.answered]
    cases hlast : (Log.page log cursor limit).getLast? with
    | none => exact h.conclude (Strategy.cursor_next_empty _ _)
    | some last =>
      refine ⟨h.after, List.take_prefix _ _, ?_⟩
      rw [h.after]
      exact (Log.page_last hlog hlast).2

/-- The next item of a batch is the event at `next`, and the loop is to go on behind it. -/
theorem InStep.emit (h : l.InStep log next) (hlog : Log.Numbered log) {e : Event A}
    (hemit : l.emit? = some (e, l')) :
    log[next.val]? = some e ∧ e.position.next.val = next.val + 1 ∧
      l'.InStep log e.position.next := by
  unfold PollLoop.emit? at hemit
  split at hemit
  · rename_i cursor x rest target hphase
    cases hemit
    have hitems := h.phase
    rw [hphase] at hitems
    obtain ⟨hbegins, htarget⟩ := hitems
    obtain ⟨he, hrest⟩ := Log.next_of_prefix_drop hbegins
    have hnext : e.position.next.val = next.val + 1 := by
      rw [hlog.next (List.mem_of_getElem? he), hlog.position he]
    refine ⟨he, hnext, h.after, ?_, ?_⟩
    · rw [hnext]
      exact hrest
    · rw [hnext, htarget, List.length_cons]
      omega
  · cases hemit

/-- When a batch is handed out, `next` has got to its end. -/
theorem InStep.finishBatch (h : l.InStep log next) : l.finishBatch.1.InStep log next := by
  unfold PollLoop.finishBatch
  split
  · rename_i cursor target hphase
    have hitems := h.phase
    rw [hphase] at hitems
    refine h.conclude ?_
    rw [Strategy.cursor_next_advanced]
    exact Position.ext hitems.2
  · exact h

theorem InStep.woken (h : l.InStep log next) {rested : Duration} {reason : WakeReason} :
    (l.woken w rested reason).1.InStep log next := by
  unfold PollLoop.woken
  split
  · rename_i cursor hot hphase
    have hcursor := h.phase
    rw [hphase] at hcursor
    exact ⟨h.after, hcursor⟩
  · exact h

end PollLoop

/-! ## The stream and one of its subscribers -/

/-- The stream will go on at `next`, whether its pull goes on or another one is begun, and what the
subscriber has taken and has in its mailbox are the events from `first` up to `next`. -/
structure EventStream.Resumes (first : Position) (subscription : Nat) (log taken : List (Event A))
    (next : Position) (s : EventStream A) : Prop where
  source : ∃ wakeUp budget, s.source = .polling wakeUp next budget
  pull : ∀ pull, s.pull = some pull → ∃ loop timer, pull = .polling loop timer ∧
    loop.InStep log next
  reach : next = first ∨ first.val ≤ next.val ∧ next.val ≤ log.length
  mailbox : (s.outlet.mailbox subscription).Live
  sent : taken ++ (s.outlet.mailbox subscription).queue = (log.take next.val).drop first.val

namespace EventStream.Resumes

variable {first : Position} {subscription : Nat} {taken : List (Event A)} {s s' : EventStream A}

/-- Starting, stopping and everything that a pull does between two events. -/
theorem turn (h : s.Resumes first subscription log taken next) (houtlet : s'.outlet = s.outlet)
    {wakeUp : WakeUp} {budget : Option Nat} (hsource : s'.source = .polling wakeUp next budget)
    (hpull : ∀ pull, s'.pull = some pull → ∃ loop timer, pull = .polling loop timer ∧
      loop.InStep log next) : s'.Resumes first subscription log taken next where
  source := ⟨wakeUp, budget, hsource⟩
  pull := hpull
  reach := h.reach
  mailbox := houtlet ▸ h.mailbox
  sent := houtlet ▸ h.sent

theorem append {more : List (Event A)} (h : s.Resumes first subscription log taken next) :
    s.Resumes first subscription (log ++ more) taken next where
  source := h.source
  pull pull hpull := by
    obtain ⟨loop, timer, hloop, hstep⟩ := h.pull pull hpull
    exact ⟨loop, timer, hloop, hstep.append⟩
  reach := by
    rcases h.reach with hfirst | ⟨hle, hnext⟩
    · exact .inl hfirst
    · exact .inr ⟨hle, by rw [List.length_append]; omega⟩
  mailbox := h.mailbox
  sent := by
    rw [h.sent]
    rcases h.reach with hfirst | ⟨_, hnext⟩
    · have hnil (events : List (Event A)) : (events.take next.val).drop first.val = [] := by
        rw [hfirst]
        exact List.drop_eq_nil_of_le (List.length_take_le _ _)
      rw [hnil, hnil]
    · rw [List.take_append_of_le_length hnext]

/-- The event at `next` is passed on. -/
theorem passOn (h : s.Resumes first subscription log taken next) {e : Event A}
    {loop : PollLoop Position (Event A)} {timer : Option Timer} (he : log[next.val]? = some e)
    (hnext : e.position.next.val = next.val + 1) (hstep : loop.InStep log e.position.next) :
    ({ s with pull := some (.polling loop timer) }.passOn e).Resumes first subscription log taken
      e.position.next := by
  obtain ⟨wakeUp, budget, hsource⟩ := h.source
  have hlt : next.val < log.length := (List.getElem?_eq_some_iff.mp he).1
  have hfirst : first.val ≤ next.val := by
    rcases h.reach with hfirst | ⟨hle, _⟩
    · exact Nat.le_of_eq (congrArg Position.val hfirst.symm)
    · exact hle
  have hdeliver := h.mailbox.deliver e
  exact {
    source := ⟨wakeUp, budget, by simp only [EventStream.passOn, hsource]⟩
    pull := fun pull hpull => ⟨loop, timer, (Option.some.inj hpull).symm, hstep⟩
    reach := .inr ⟨by omega, by omega⟩
    mailbox := by
      show ((s.outlet.publish e).1.mailbox subscription).Live
      rw [Broadcaster.mailbox_publish, hdeliver]
      exact ⟨h.mailbox.linked, h.mailbox.held⟩
    sent := by
      show taken ++ ((s.outlet.publish e).1.mailbox subscription).queue = _
      rw [Broadcaster.mailbox_publish, hdeliver, hnext, List.take_add_one, he, ← List.append_assoc,
        h.sent, List.drop_append_of_le_length]
      · rfl
      · rw [List.length_take]
        omega }

/-- The subscriber takes its next event. -/
theorem take (h : s.Resumes first subscription log taken next) {e : Event A}
    {outlet : Broadcaster (Event A)} (hreceive : s.outlet.receive subscription = (outlet, .item e)) :
    { s with outlet }.Resumes first subscription log (taken ++ [e]) next := by
  obtain ⟨rest, hqueue, hmailbox⟩ := Broadcaster.receive_item hreceive
  exact {
    source := h.source
    pull := h.pull
    reach := h.reach
    mailbox := by
      show (outlet.mailbox subscription).Live
      rw [hmailbox]
      exact ⟨h.mailbox.linked, h.mailbox.held⟩
    sent := by
      show taken ++ [e] ++ (outlet.mailbox subscription).queue = _
      rw [hmailbox, ← h.sent, hqueue, List.append_assoc, List.singleton_append] }

/-- What others do with the outlet does not concern the subscriber. -/
theorem others (h : s.Resumes first subscription log taken next) {outlet : Broadcaster (Event A)}
    (hsame : outlet.mailbox subscription = s.outlet.mailbox subscription) :
    { s with outlet }.Resumes first subscription log taken next where
  source := h.source
  pull := h.pull
  reach := h.reach
  mailbox := hsame ▸ h.mailbox
  sent := by
    show taken ++ (outlet.mailbox subscription).queue = _
    rw [hsame, h.sent]

end EventStream.Resumes

/-! ## Pulls and the log -/

namespace Node

variable [Vocabulary A] {S B : Type} (n : Node A S B) (i : Nat)

theorem store_start : (n.start i).store = n.store := by
  unfold Node.start Node.enlist
  (repeat' split) <;> rfl

theorem store_stop : (n.stop i).store = n.store := by
  unfold Node.stop
  (repeat' split) <;> rfl

theorem store_signal : (n.signal i).store = n.store := by
  unfold Node.signal
  (repeat' split) <;> rfl

/-- A pull does nothing to the log but read it. -/
theorem after_movePull {n n' : Node A S B} {i : Nat} (h : n.movePull i = some n') :
    n.store.After n'.store := by
  simp only [Node.movePull, Node.movePolling, Node.movePushed, Node.moveReplaying] at h
  (repeat' split at h) <;> cases h <;>
    first
    | exact .refl _
    | exact Store.after_readFrom
    | rw [store_stop]; exact .refl _

/-! ### Polling streams -/

variable {n i} {s : EventStream A}

theorem start_of_running (hs : n.streams[i]? = some s) (hrunning : s.isRunning = true) :
    n.start i = n := by
  unfold Node.start
  simp only [hs, hrunning, if_true]

variable {wakeUp : WakeUp} {budget : Option Nat}

theorem start_of_polling (hs : n.streams[i]? = some s) (hrunning : s.isRunning = false)
    (hsource : s.source = .polling wakeUp next budget) :
    n.start i = (n.enlist (.pull i)).putStream i
      { s with pull := some (.polling (EventStream.newLoop budget) none) } := by
  unfold Node.start
  simp only [hs, hrunning, hsource, if_false, Bool.false_eq_true]

theorem stop_of_polling (hs : n.streams[i]? = some s)
    (hsource : s.source = .polling wakeUp next budget) :
    n.stop i = (n.putStream i { s with pull := none }).dismiss (.pull i) := by
  unfold Node.stop
  simp only [hs, hsource]
  split <;> first | rfl | rename_i hpushed; cases hpushed

theorem signal_of_polling (hs : n.streams[i]? = some s)
    (hsource : s.source = .polling wakeUp next budget) :
    n.signal i = n.putStream i { s with source := .polling wakeUp.signal next budget } := by
  unfold Node.signal EventStream.signal
  simp only [hs, hsource]

/-- A step of a poll loop between two events, in a pull that resumes at `next`. -/
inductive PollTurns (store : Store A) (next : Position) (l : PollLoop Position (Event A)) :
    PollLoop Position (Event A) → Prop where
  | begin (w : WakeUp) : PollTurns store next l (l.begin w next).1
  | answer {cursor : Position} (hphase : l.phase = .reading cursor) :
      PollTurns store next l (l.answer (store.readFrom cursor).page).1
  | finishBatch : PollTurns store next l l.finishBatch.1
  | rest : PollTurns store next l l
  | woken (w : WakeUp) (rested : Duration) (reason : WakeReason) :
      PollTurns store next l (l.woken w rested reason).1

/-- Over a log that only fails for a time a loop stays in step between two events. -/
theorem PollTurns.inStep {store : Store A} {loop loop' : PollLoop Position (Event A)}
    (hturns : PollTurns store next loop loop') (hdecodes : store.contents.Decodes log)
    (hnumbered : Log.Numbered log)
    (htemporary : ∀ fault ∈ store.readFaults, fault.2.isTemporary = true)
    (hloop : loop.InStep log next) : loop'.InStep log next := by
  cases hturns with
  | begin w => exact hloop.begin
  | answer hphase =>
    rw [Store.page_readFrom_of_decodes hdecodes hnumbered]
    refine hloop.answer hnumbered hphase fun failure hfailure => ?_
    obtain ⟨found, hfound, rfl⟩ := Option.map_eq_some_iff.mp hfailure
    exact htemporary (_, found.1)
      ((Store.takeFault_perm hfound).mem_iff.mpr List.mem_cons_self)
  | finishBatch => exact hloop.finishBatch
  | rest => exact hloop
  | woken w rested reason => exact hloop.woken

/-- The node after a step of the pull of stream `i`, which is polling. -/
inductive Polled (n : Node A S B) (i : Nat) (s : EventStream A) (next : Position)
    (budget : Option Nat) (loop : PollLoop Position (Event A)) : Node A S B → Prop where
  | turn {n' : Node A S B} {loop' : PollLoop Position (Event A)} {wakeUp : WakeUp}
      {timer : Option Timer} (hloop : PollTurns n.store next loop loop')
      (hstore : n.store.After n'.store) (hturns : n'.turns = n.turns)
      (hstream : n'.streams[i]? = some { s with
        source := .polling wakeUp next budget, pull := some (.polling loop' timer) }) :
      Polled n i s next budget loop n'
  | passOn {loop' : PollLoop Position (Event A)} {e : Event A}
      (hemit : loop.emit? = some (e, loop')) : Polled n i s next budget loop
        (n.putStream i ({ s with pull := some (.polling loop' none) }.passOn e))
  | stop : Polled n i s next budget loop (n.stop i)

theorem polled_of_movePull {n' : Node A S B} {loop : PollLoop Position (Event A)}
    {timer : Option Timer} (hs : n.streams[i]? = some s)
    (hsource : s.source = .polling wakeUp next budget)
    (hpull : s.pull = some (.polling loop timer)) (hmove : n.movePull i = some n') :
    Polled n i s next budget loop n' := by
  obtain ⟨source, outlet, pull⟩ := s
  obtain rfl : source = .polling wakeUp next budget := hsource
  obtain rfl : pull = some (.polling loop timer) := hpull
  simp only [Node.movePull, hs, Node.movePolling] at hmove
  cases hphase : loop.phase with
  | opening =>
    simp only [hphase] at hmove
    cases hmove
    exact .turn (.begin wakeUp) (.refl _) rfl (getElem?_putStream_self hs)
  | reading cursor =>
    simp only [hphase] at hmove
    split at hmove
    · cases hmove
    · cases hmove
      exact .turn (.answer hphase) Store.after_readFrom rfl (getElem?_putStream_self hs)
  | emitting cursor items target =>
    simp only [hphase] at hmove
    split at hmove
    · rename_i e loop' hemit
      cases hmove
      exact .passOn hemit
    · cases hmove
      exact .turn .finishBatch (.refl _) rfl (getElem?_putStream_self hs)
  | resting cursor hot =>
    simp only [hphase] at hmove
    split at hmove
    · cases hmove
      exact .turn .rest (.refl _) rfl (getElem?_putStream_self hs)
    · split at hmove
      · cases hmove
        exact .turn (.woken _ _ _) (.refl _) rfl (getElem?_putStream_self hs)
      · split at hmove
        · cases hmove
          exact .turn (.woken _ _ _) (.refl _) rfl (getElem?_putStream_self hs)
        · cases hmove
  | ended =>
    simp only [hphase] at hmove
    cases hmove
    exact .stop

end Node

/-! ## Runs -/

/-- A node with what a subscriber of one of its streams has taken so far. -/
structure Listening (A S B : Type) [Vocabulary A] where
  node : Node A S B
  taken : List (Event A) := []

namespace Listening

variable [Vocabulary A] {S B : Type}

inductive Move (A : Type) [Vocabulary A] where
  | start
  | stop
  /-- The pull goes on. -/
  | pull
  | write (batch : List (Payload A))
  /-- A record is appended as it is. -/
  | record (stream : StreamId) (tag : String) (data : List UInt8)
  /-- From now on a read returns at most so many events. -/
  | pages (n : Nat)
  /-- A later read from the position is to fail for a time. -/
  | fail (p : Position) (reason : String)
  /-- Reads wait before they begin, or go on. -/
  | hold (held : Bool)
  | signal
  | wait (millis : Nat)
  /-- Somebody else subscribes. -/
  | join
  /-- Somebody else gives a subscription up. -/
  | leave (other : Nat)
  /-- The subscriber takes its next event. -/
  | take

def Move.Appends : Move A → Prop
  | .write _ | .record .. => True
  | _ => False

def step (i subscription : Nat) (t : Listening A S B) : Move A → Option (Listening A S B)
  | .start => some { t with node := t.node.start i }
  | .stop => some { t with node := t.node.stop i }
  | .pull => (t.node.movePull i).map fun node => { t with node }
  | .write batch => some { t with node := (t.node.write batch).2 }
  | .record stream tag data =>
    let store := (t.node.store.appendRaw stream tag data).2
    some { t with node := { t.node with store } }
  | .pages n =>
    let store := t.node.store.withPageSize n
    some { t with node := { t.node with store } }
  | .fail p reason =>
    let store := t.node.store.failReadFrom p (.temporary reason)
    some { t with node := { t.node with store } }
  | .hold held => some { t with node := { t.node with holdsReads := held } }
  | .signal => some { t with node := t.node.signal i }
  | .wait millis => some { t with node := { t.node with now := t.node.now + millis } }
  | .join => some { t with node := (t.node.subscribe i).1 }
  | .leave other =>
    if other = subscription then none
    else some { t with node := t.node.modifyOutlet i fun outlet => outlet.drop other }
  | .take =>
    match (t.node.outlet i).receive subscription with
    | (outlet, .item e) =>
      some { t with node := t.node.modifyOutlet i fun _ => outlet, taken := t.taken ++ [e] }
    | _ => none

abbrev run (i subscription : Nat) (t : Listening A S B) (ms : List (Move A)) :
    Option (Listening A S B) :=
  runMoves (step i subscription) t ms

/-- The stream goes on where it is, over a log that only fails for a time, and its pull is among the
tasks once while it is open, and never else. -/
structure Resumed (i subscription : Nat) (first : Position) (log : List (Event A))
    (t : Listening A S B) : Prop where
  decodes : t.node.store.contents.Decodes log
  numbered : Log.Numbered log
  temporary : ∀ fault ∈ t.node.store.readFaults, fault.2.isTemporary = true
  stream : ∃ s next, t.node.streams[i]? = some s ∧
    s.Resumes first subscription log t.taken next ∧
    t.node.turns.count (.pull i) = if s.isRunning then 1 else 0

namespace Resumed

variable {i subscription : Nat} {first : Position} {t t' : Listening A S B} {s s' : EventStream A}

/-- Anything that leaves the stream and its task alone, and reads or grows the log. -/
theorem frame {log' : List (Event A)} (h : Resumed i subscription first log t)
    (hlog : log <+: log') (hdecodes : t'.node.store.contents.Decodes log')
    (hnumbered : Log.Numbered log')
    (hfaults : ∀ fault ∈ t'.node.store.readFaults, fault.2.isTemporary = true)
    (hstream : t'.node.streams[i]? = t.node.streams[i]?)
    (hturns : t'.node.turns = t.node.turns) (htaken : t'.taken = t.taken) :
    Resumed i subscription first log' t' := by
  obtain ⟨more, rfl⟩ := hlog
  obtain ⟨s, next, hs, hresumes, hcount⟩ := h.stream
  refine ⟨hdecodes, hnumbered, hfaults, s, next, hstream.trans hs, ?_, by rw [hturns, hcount]⟩
  rw [htaken]
  exact hresumes.append

/-- The stream is put in another state. -/
theorem put (h : Resumed i subscription first log t) {node : Node A S B} {taken : List (Event A)}
    {next : Position} (hstore : t.node.store.After node.store)
    (hstream : node.streams[i]? = some s')
    (hresumes : s'.Resumes first subscription log taken next)
    (hcount : node.turns.count (.pull i) = if s'.isRunning then 1 else 0) :
    Resumed i subscription first log ⟨node, taken⟩ where
  decodes := by
    show node.store.contents.Decodes log
    rw [hstore.contents]
    exact h.decodes
  numbered := h.numbered
  temporary fault hfault := h.temporary fault (hstore.faults hfault)
  stream := ⟨s', next, hstream, hresumes, hcount⟩

theorem start (h : Resumed i subscription first log t) :
    Resumed i subscription first log { t with node := t.node.start i } := by
  obtain ⟨s, next, hs, hresumes, hcount⟩ := h.stream
  obtain ⟨wakeUp, budget, hsource⟩ := hresumes.source
  cases hrunning : s.isRunning with
  | true =>
    rw [Node.start_of_running hs hrunning]
    exact h
  | false =>
    rw [hrunning] at hcount
    have hfree : ¬ t.node.turns.contains (.pull i) = true := by
      rw [List.contains_iff_mem]
      exact List.count_eq_zero.mp hcount
    rw [Node.start_of_polling hs hrunning hsource, Node.enlist, if_neg hfree]
    refine h.put (.refl _) (Node.getElem?_putStream_self hs) (hresumes.turn rfl hsource ?_) ?_
    · rintro pull hpull
      exact ⟨_, none, (Option.some.inj hpull).symm, PollLoop.inStep_new budget⟩
    · show (t.node.turns ++ [TaskId.pull i]).count (TaskId.pull i) = 1
      rw [List.count_append, hcount]
      simp

theorem stop (h : Resumed i subscription first log t) :
    Resumed i subscription first log { t with node := t.node.stop i } := by
  obtain ⟨s, next, hs, hresumes, hcount⟩ := h.stream
  obtain ⟨wakeUp, budget, hsource⟩ := hresumes.source
  rw [Node.stop_of_polling hs hsource]
  refine h.put (.refl _) (Node.getElem?_putStream_self hs) (hresumes.turn rfl hsource nofun) ?_
  show (t.node.turns.erase (TaskId.pull i)).count (TaskId.pull i) = 0
  rw [List.count_erase_self, hcount]
  split <;> rfl

/-- Between two events the loop stays in step. -/
theorem turns (h : Resumed i subscription first log t) {next : Position}
    {loop loop' : PollLoop Position (Event A)} (hloop : loop.InStep log next)
    (hturns : Node.PollTurns t.node.store next loop loop') : loop'.InStep log next :=
  hturns.inStep h.decodes h.numbered h.temporary hloop

/-- A step of the pull hands the next event out, or gets on between two events. -/
theorem pull (h : Resumed i subscription first log t) {node : Node A S B}
    (hmove : t.node.movePull i = some node) :
    Resumed i subscription first log { t with node } := by
  obtain ⟨s, next, hs, hresumes, hcount⟩ := h.stream
  obtain ⟨wakeUp, budget, hsource⟩ := hresumes.source
  cases hpull : s.pull with
  | none =>
    simp only [Node.movePull, hs, hpull] at hmove
    cases hmove
  | some pull =>
    obtain ⟨loop, timer, rfl, hloop⟩ := hresumes.pull pull hpull
    rw [EventStream.isRunning, hpull] at hcount
    cases Node.polled_of_movePull hs hsource hpull hmove with
    | turn hturns hstore hlisted hstream =>
      refine h.put hstore hstream (hresumes.turn rfl rfl fun pull hpull => ?_) ?_
      · exact ⟨_, _, (Option.some.inj hpull).symm, h.turns hloop hturns⟩
      · rw [hlisted]
        exact hcount
    | passOn hemit =>
      obtain ⟨he, hnext, hloop'⟩ := hloop.emit h.numbered hemit
      exact h.put (.refl _) (Node.getElem?_putStream_self hs)
        (hresumes.passOn he hnext hloop') hcount
    | stop => exact h.stop

theorem outlet (h : Resumed i subscription first log t) {taken : List (Event A)}
    {f : Broadcaster (Event A) → Broadcaster (Event A)}
    (hf : ∀ (s : EventStream A) next, t.node.streams[i]? = some s →
      s.Resumes first subscription log t.taken next →
      { s with outlet := f s.outlet }.Resumes first subscription log taken next) :
    Resumed i subscription first log ⟨t.node.modifyOutlet i f, taken⟩ := by
  obtain ⟨s, next, hs, hresumes, hcount⟩ := h.stream
  refine h.put (.refl _) ?_ (hf s next hs hresumes) hcount
  show (t.node.streams.modify i _)[i]? = _
  rw [List.getElem?_modify, hs]
  simp

theorem step (h : Resumed i subscription first log t) {m : Move A} (hm : ¬ m.Appends)
    (hstep : t.step i subscription m = some t') : Resumed i subscription first log t' := by
  cases m with
  | write batch => exact absurd trivial hm
  | record stream tag data => exact absurd trivial hm
  | start =>
    cases hstep
    exact h.start
  | stop =>
    cases hstep
    exact h.stop
  | pull =>
    obtain ⟨node, hmove, rfl⟩ := Option.map_eq_some_iff.mp hstep
    exact h.pull hmove
  | pages n =>
    cases hstep
    exact h.frame List.prefix_rfl h.decodes h.numbered h.temporary rfl rfl rfl
  | fail p reason =>
    cases hstep
    refine h.frame List.prefix_rfl h.decodes h.numbered (fun fault hfault => ?_) rfl rfl rfl
    rcases List.mem_append.mp hfault with hold | hnew
    · exact h.temporary fault hold
    · rw [List.mem_singleton.mp hnew]
      rfl
  | hold held =>
    cases hstep
    exact h.frame List.prefix_rfl h.decodes h.numbered h.temporary rfl rfl rfl
  | signal =>
    cases hstep
    obtain ⟨s, next, hs, hresumes, hcount⟩ := h.stream
    obtain ⟨wakeUp, budget, hsource⟩ := hresumes.source
    rw [Node.signal_of_polling hs hsource]
    exact h.put (.refl _) (Node.getElem?_putStream_self hs)
      (hresumes.turn rfl rfl hresumes.pull) hcount
  | wait millis =>
    cases hstep
    exact h.frame List.prefix_rfl h.decodes h.numbered h.temporary rfl rfl rfl
  | join =>
    cases hstep
    have hjoin : (t.node.subscribe i).1 =
        t.node.modifyOutlet i fun _ => (t.node.outlet i).subscribe.1 := rfl
    rw [hjoin]
    refine h.outlet fun s next hs hresumes => hresumes.others ?_
    rw [Node.outlet_of_getElem? hs]
    exact Broadcaster.mailbox_subscribe_of_live hresumes.mailbox
  | leave other =>
    simp only [Listening.step] at hstep
    split at hstep
    · cases hstep
    · rename_i hother
      cases hstep
      exact h.outlet fun s next hs hresumes =>
        hresumes.others (Broadcaster.mailbox_drop_of_ne hother)
  | take =>
    simp only [Listening.step] at hstep
    split at hstep
    · rename_i outlet e hreceive
      cases hstep
      refine h.outlet fun s next hs hresumes => hresumes.take ?_
      rw [Node.outlet_of_getElem? hs] at hreceive
      exact hreceive
    · cases hstep

end Resumed

variable {i subscription : Nat} {first : Position} {t t' : Listening A S B}

theorem contents_step {m : Move A} (hm : ¬ m.Appends)
    (hstep : t.step i subscription m = some t') :
    t'.node.store.contents = t.node.store.contents := by
  cases m with
  | write batch => exact absurd trivial hm
  | record stream tag data => exact absurd trivial hm
  | start => cases hstep; exact congrArg Store.contents (Node.store_start _ _)
  | stop => cases hstep; exact congrArg Store.contents (Node.store_stop _ _)
  | pull =>
    obtain ⟨node, hmove, rfl⟩ := Option.map_eq_some_iff.mp hstep
    exact (Node.after_movePull hmove).contents
  | signal => cases hstep; exact congrArg Store.contents (Node.store_signal _ _)
  | leave other =>
    simp only [step] at hstep
    split at hstep <;> cases hstep
    rfl
  | take =>
    simp only [step] at hstep
    split at hstep <;> cases hstep
    rfl
  | _ => cases hstep; rfl

/-- What holds of a log that can be decoded before a move holds of the log after it. -/
theorem resumed_step {m : Move A} (hstep : t.step i subscription m = some t')
    (h : ∀ log, t.node.store.contents.Decodes log → log.length < 0x10000000000000000 →
      Resumed i subscription first log t)
    {log : List (Event A)} (hdecodes : t'.node.store.contents.Decodes log)
    (hroom : log.length < 0x10000000000000000) : Resumed i subscription first log t' := by
  by_cases hm : m.Appends
  · cases m with
    | write batch =>
      cases hstep
      obtain ⟨before, hbegins, hbefore, hnumbered⟩ := Store.decodes_of_write hdecodes
      have ht := h before hbefore (Nat.lt_of_le_of_lt hbegins.length_le hroom)
      refine ht.frame hbegins hdecodes (hnumbered hroom ht.numbered) (fun fault hfault => ?_)
        rfl rfl rfl
      exact ht.temporary fault ((Store.write_reads batch).2.1 ▸ hfault)
    | record stream tag data =>
      cases hstep
      obtain ⟨before, hbegins, hbefore, hnumbered⟩ := Store.decodes_of_appendRaw hdecodes
      have ht := h before hbefore (Nat.lt_of_le_of_lt hbegins.length_le hroom)
      refine ht.frame hbegins hdecodes (hnumbered hroom ht.numbered) (fun fault hfault => ?_)
        rfl rfl rfl
      exact ht.temporary fault (Store.readFaults_appendRaw (s := t.node.store) ▸ hfault)
    | _ => exact hm.elim
  · rw [contents_step hm hstep] at hdecodes
    exact (h log hdecodes hroom).step hm hstep

theorem resumed_run {ms : List (Move A)} (hrun : t.run i subscription ms = some t')
    (h : ∀ log, t.node.store.contents.Decodes log → log.length < 0x10000000000000000 →
      Resumed i subscription first log t)
    {log : List (Event A)} (hdecodes : t'.node.store.contents.Decodes log)
    (hroom : log.length < 0x10000000000000000) : Resumed i subscription first log t' :=
  runMoves_induction
    (P := fun u : Listening A S B => ∀ log, u.node.store.contents.Decodes log →
      log.length < 0x10000000000000000 → Resumed i subscription first log u)
    h (fun _ _ hstep hu _ => resumed_step hstep hu) hrun log hdecodes hroom

/-- A stream that polls the log from `first` on has not begun, and its subscriber was sent nothing. -/
structure Waiting (i subscription : Nat) (first : Position) (n : Node A S B) : Prop where
  stream : ∃ wakeUp budget outlet, n.streams[i]? = some ⟨.polling wakeUp first budget, outlet, none⟩
  mailbox : ((n.outlet i).mailbox subscription).Live
  unsent : ((n.outlet i).mailbox subscription).queue = []
  idle : TaskId.pull i ∉ n.turns
  temporary : ∀ fault ∈ n.store.readFaults, fault.2.isTemporary = true
  numbered : ∀ log, n.store.contents.Decodes log → Log.Numbered log

theorem Waiting.resumed {n : Node A S B} (h : Waiting i subscription first n)
    {log : List (Event A)} (hdecodes : n.store.contents.Decodes log) :
    Resumed i subscription first log { node := n } := by
  obtain ⟨wakeUp, budget, outlet, hs⟩ := h.stream
  have houtlet := Node.outlet_of_getElem? hs
  refine ⟨hdecodes, h.numbered log hdecodes, h.temporary, _, first, hs, ?_,
    List.count_eq_zero.mpr h.idle⟩
  exact {
    source := ⟨wakeUp, budget, rfl⟩
    pull := nofun
    reach := .inl rfl
    mailbox := houtlet ▸ h.mailbox
    sent := by
      have hunsent := h.unsent
      rw [houtlet] at hunsent
      show [] ++ (outlet.mailbox subscription).queue = _
      rw [hunsent, List.drop_eq_nil_of_le (List.length_take_le _ _)]
      rfl }

/-- Whatever the order in which a polling stream is started and stopped, its pull goes on, events are
appended, reads return long pages or short ones or fail for a time: at every moment its pull is one
of the tasks exactly if it is open, and then once; and a subscriber from before the first start was
sent the events of the log from the first position up to the one that the stream resumes at, each
once and in the order of their positions. -/
theorem resumes_where_it_stopped {n : Node A S B} (h : Waiting i subscription first n)
    {ms : List (Move A)} (hrun : run i subscription { node := n } ms = some t)
    {log : List (Event A)} (hdecodes : t.node.store.contents.Decodes log)
    (hroom : log.length < 0x10000000000000000) :
    ∃ s next, t.node.streams[i]? = some s ∧ s.nextPosition? = some next ∧
      t.node.turns.count (.pull i) = (if s.isRunning then 1 else 0) ∧
      t.taken ++ (s.outlet.mailbox subscription).queue =
        log.filter (fun e => first ≤ e.position ∧ e.position < next) ∧
      (t.taken ++ (s.outlet.mailbox subscription).queue).map (fun e => e.position.val) =
        List.range' first.val (next.val - first.val) := by
  have hresumed := resumed_run hrun (fun log hlog _ => h.resumed hlog) hdecodes hroom
  obtain ⟨s, next, hs, hresumes, hcount⟩ := hresumed.stream
  obtain ⟨wakeUp, budget, hsource⟩ := hresumes.source
  have hnext : s.nextPosition? = some next := by
    rw [EventStream.nextPosition?, hsource]
  have hreach : next.val ≤ first.val ∨ next.val ≤ log.length := by
    rcases hresumes.reach with rfl | ⟨_, hle⟩
    · exact .inl (Nat.le_refl _)
    · exact .inr hle
  refine ⟨s, next, hs, hnext, hcount, ?_, ?_⟩
  · rw [hresumes.sent, hresumed.numbered.drop_take]
  · rw [hresumes.sent, hresumed.numbered.positions_drop_take hreach]

/-- A stream polls a log of three events from the second one on. -/
def pollingSecond : Node Notes.Fact Int64 Unit :=
  { store := {
      contents := .payloads [Notes.noted 2 0, Notes.noted 3 1, Notes.noted 4 2], clock := 0 }
    model := .new Notes.projector .unbounded
    streams := [{ EventStream.polling {} none (.ofNat 1) with
      outlet := Broadcaster.new.subscribe.1 }] }

theorem waiting_pollingSecond : Waiting 0 0 (.ofNat 1) pollingSecond where
  stream := ⟨_, none, _, rfl⟩
  mailbox := Mailbox.live_new
  unsent := rfl
  idle := by decide
  temporary := nofun
  numbered log hlog := by
    obtain rfl := hlog
    decide

/-- The stream is stopped before it reads, and again in the middle of a batch. The next pull reads
single events, and its first read fails. -/
def restarts : List (Move Notes.Fact) :=
  [.start, .pull, .stop, .start, .pull, .pull, .pull, .stop, .write [.fact (.noted "a" 5)],
    .pages 1, .fail (.ofNat 2) "busy", .start, .pull, .pull, .pull, .wait 2000, .pull, .pull, .pull,
    .take]

/-- The subscriber was sent the second and the third event, and the fourth is what comes next. -/
theorem restarts_resume :
    ∃ t s next, run 0 0 { node := pollingSecond } restarts = some t ∧
      t.node.streams[0]? = some s ∧ s.nextPosition? = some next ∧ next = .ofNat 3 ∧
      t.node.turns.count (.pull 0) = (if s.isRunning then 1 else 0) ∧
      (t.taken ++ (s.outlet.mailbox 0).queue).map (fun e => e.position.val) =
        List.range' 1 (next.val - 1) := by
  have hrun : run 0 0 { node := pollingSecond } restarts = some _ := rfl
  obtain ⟨s, next, hs, hnext, hcount, -, hpositions⟩ :=
    resumes_where_it_stopped waiting_pollingSecond hrun rfl (by decide)
  cases hs
  cases hnext
  exact ⟨_, _, _, hrun, rfl, rfl, by decide, hcount, hpositions⟩

end Listening
end Chronicle
