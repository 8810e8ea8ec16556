import Mathlib.Logic.Relation
import Chronicle.Proofs.Feed.Resuming
import Chronicle.Proofs.Log.Slots

/-!
# Chronicle.Proofs.Feed.Waking

Writers that append to the log and signal a poll loop. The signals share one slot, and the loop
clears it: a signal may be raised between any two steps of the loop, of other writers, or of
anybody else, and any number of them may come to one.

The loop clears the slot on the way into a read and nowhere else (`Node.Paced`). So while the slot
is empty, whatever was appended and signalled was there when the slot was last cleared
(`Waking.Heedful`), and a loop that rests has read the log since.
-/

namespace Chronicle

variable {A S B : Type} [Vocabulary A]

/-! ## Steps of a poll loop -/

namespace PollPhase

variable {C T : Type}

/-- The slot was cleared, and the log is about to be read. -/
def isReading : PollPhase C T → Bool
  | .reading _ => true
  | _ => false

def hasRead : PollPhase C T → Bool
  | .emitting .. | .resting .. => true
  | _ => false

theorem isReading_of_hasRead {phase : PollPhase C T} (h : phase.hasRead = true) :
    phase.isReading = false := by
  cases phase <;> first | rfl | cases h

end PollPhase

theorem PollLoop.hasRead_conclude {C T : Type} [DecidableEq C] {l : PollLoop C T} {cursor : C}
    {outcome : PollOutcome C} : (l.conclude cursor outcome).1.phase.hasRead = true := rfl

/-- Whatever a read comes to, it was made. -/
theorem PollLoop.hasRead_answer {C T : Type} [DecidableEq C] {l : PollLoop C T} {cursor : C}
    (h : l.phase = .reading cursor) (page : Except ReadFailure (List T)) :
    (l.answer page).1.phase.hasRead = true := by
  unfold answer
  rw [h]
  cases page with
  | error failure => exact hasRead_conclude
  | ok items =>
    dsimp only
    split
    · exact hasRead_conclude
    · rfl

namespace Node

variable {n n' : Node A S B} {i : Nat} {s : EventStream A} {wakeUp : WakeUp} {next : Position}
  {budget : Option Nat} {loop : PollLoop Position (Event A)} {timer : Option Timer}

/-- The loop of a polling stream is about to read. -/
def isReading (n : Node A S B) (i : Nat) : Bool :=
  match n.streams[i]? with
  | some ⟨_, _, some (.polling loop _)⟩ => loop.phase.isReading
  | _ => false

theorem isReading_of_polling (hs : n.streams[i]? = some s)
    (hpull : s.pull = some (.polling loop timer)) : n.isReading i = loop.phase.isReading := by
  obtain ⟨source, outlet, pull⟩ := s
  obtain rfl : pull = some (.polling loop timer) := hpull
  simp only [isReading, hs]

theorem isReading_of_stopped (hs : n.streams[i]? = some s) (hpull : s.pull = none) :
    n.isReading i = false := by
  obtain ⟨source, outlet, pull⟩ := s
  obtain rfl : pull = none := hpull
  simp only [isReading, hs]

/-- A step of the loop, with its slot. -/
inductive Paced (i : Nat) (wakeUp : WakeUp) (loop : PollLoop Position (Event A)) :
    Node A S B → Prop where
  /-- The slot is cleared on the way into a read. -/
  | clears {n' : Node A S B} {s' : EventStream A} {wakeUp' : WakeUp} {next' : Position}
      {budget' : Option Nat} {loop' : PollLoop Position (Event A)} {timer' : Option Timer}
      (hphase : loop.phase.isReading = false) (hs' : n'.streams[i]? = some s')
      (hsource : s'.source = .polling wakeUp' next' budget')
      (hpull : s'.pull = some (.polling loop' timer')) (hphase' : loop'.phase.isReading = true)
      (hslot : wakeUp'.signalled = false) : Paced i wakeUp loop n'
  /-- The log is read, or was read before. -/
  | reads {n' : Node A S B} {s' : EventStream A} {next' : Position} {budget' : Option Nat}
      {loop' : PollLoop Position (Event A)} {timer' : Option Timer}
      (hphase : loop.phase.isReading = true ∨ loop.phase.hasRead = true)
      (hs' : n'.streams[i]? = some s') (hsource : s'.source = .polling wakeUp next' budget')
      (hpull : s'.pull = some (.polling loop' timer')) (hphase' : loop'.phase.hasRead = true) :
      Paced i wakeUp loop n'
  /-- The loop is given up. -/
  | stops {n' : Node A S B} {s' : EventStream A} {next' : Position} {budget' : Option Nat}
      (hs' : n'.streams[i]? = some s') (hsource : s'.source = .polling wakeUp next' budget')
      (hpull : s'.pull = none) : Paced i wakeUp loop n'

theorem stopped_of_polling (hs : n.streams[i]? = some s)
    (hsource : s.source = .polling wakeUp next budget) :
    (n.stop i).streams[i]? = some { s with pull := none } := by
  rw [stop_of_polling hs hsource]
  exact getElem?_putStream_self hs

theorem paced_of_movePull (hs : n.streams[i]? = some s)
    (hsource : s.source = .polling wakeUp next budget)
    (hpull : s.pull = some (.polling loop timer)) (hmove : n.movePull i = some n') :
    Paced i wakeUp loop n' := by
  obtain ⟨source, outlet, pull⟩ := s
  obtain rfl : source = .polling wakeUp next budget := hsource
  obtain rfl : pull = some (.polling loop timer) := hpull
  simp only [Node.movePull, hs, Node.movePolling] at hmove
  cases hphase : loop.phase with
  | opening =>
    simp only [hphase, PollLoop.begin] at hmove
    cases hmove
    exact .clears (by rw [hphase]; rfl) (getElem?_putStream_self hs) rfl rfl rfl rfl
  | reading cursor =>
    simp only [hphase] at hmove
    split at hmove
    · cases hmove
    · cases hmove
      exact .reads (.inl (by rw [hphase]; rfl)) (getElem?_putStream_self hs) rfl rfl
        (PollLoop.hasRead_answer hphase _)
  | emitting cursor items target =>
    have hread : loop.phase.isReading = true ∨ loop.phase.hasRead = true :=
      .inr (by rw [hphase]; rfl)
    simp only [hphase] at hmove
    cases items with
    | cons e rest =>
      simp only [PollLoop.emit?, hphase] at hmove
      cases hmove
      exact .reads hread (getElem?_putStream_self hs) rfl rfl rfl
    | nil =>
      simp only [PollLoop.emit?, PollLoop.finishBatch, hphase] at hmove
      cases hmove
      exact .reads hread (getElem?_putStream_self hs) rfl rfl PollLoop.hasRead_conclude
  | resting cursor hot =>
    have hread : loop.phase.hasRead = true := by rw [hphase]; rfl
    have hrests : loop.phase.isReading = false := by rw [hphase]; rfl
    simp only [hphase, PollLoop.woken] at hmove
    split at hmove
    · cases hmove
      exact .reads (.inr hread) (getElem?_putStream_self hs) rfl rfl hread
    · split at hmove
      · cases hmove
        exact .clears hrests (getElem?_putStream_self hs) rfl rfl rfl rfl
      · split at hmove
        · cases hmove
          exact .clears hrests (getElem?_putStream_self hs) rfl rfl rfl rfl
        · cases hmove
  | ended =>
    simp only [hphase] at hmove
    cases hmove
    exact .stops (stopped_of_polling hs rfl) rfl rfl

/-- A loop that rests takes another step if the slot is full. -/
theorem isSome_movePull_of_signalled (hs : n.streams[i]? = some s)
    (hsource : s.source = .polling wakeUp next budget)
    (hpull : s.pull = some (.polling loop timer)) {cursor : Position} {hot : Bool}
    (hphase : loop.phase = .resting cursor hot) (hslot : wakeUp.signalled = true) :
    (n.movePull i).isSome = true := by
  obtain ⟨source, outlet, pull⟩ := s
  obtain rfl : source = .polling wakeUp next budget := hsource
  obtain rfl : pull = some (.polling loop timer) := hpull
  simp only [Node.movePull, hs, Node.movePolling, hphase, hslot, if_true]
  cases timer <;> rfl

end Node

/-! ## Writers that signal -/

structure Append where
  /-- How long the log was after it. -/
  reach : Nat
  /-- The signal that its writer raises after it has completed. -/
  signalled : Bool := false

/-- A node with what writers have done and with what a poll loop has seen of it. -/
structure Waking (A S B : Type) [Vocabulary A] where
  node : Node A S B
  appends : List Append := []
  /-- How long the log was when the slot was last cleared. -/
  cleared : Nat := 0
  /-- How long the log was when it was last read. -/
  read : Nat := 0

namespace Waking

variable {t t' : Waking A S B} {i : Nat}

inductive Move (A : Type) [Vocabulary A] where
  | append (batch : List (Payload A))
  /-- A record is appended as it is. -/
  | record (stream : StreamId) (tag : String) (data : List UInt8)
  /-- The writer of an append signals, for the first time or again. -/
  | signal (k : Nat)
  | start
  | stop
  /-- The loop goes on. -/
  | pull

/-- What a step of the loop makes of the node. Before a read begins the slot is cleared. -/
def pulled (t : Waking A S B) (i : Nat) (node : Node A S B) : Waking A S B :=
  { t with
    node
    cleared := if !t.node.isReading i && node.isReading i then t.node.store.length else t.cleared
    read := if t.node.isReading i then t.node.store.length else t.read }

def step (i : Nat) (t : Waking A S B) : Move A → Option (Waking A S B)
  | .append batch =>
    let node := (t.node.write batch).2
    match (t.node.write batch).1 with
    | .ok _ => some { t with node, appends := t.appends ++ [{ reach := node.store.length }] }
    | .error _ => some { t with node }
  | .record stream tag data =>
    let store := (t.node.store.appendRaw stream tag data).2
    some { t with
      node := { t.node with store }
      appends := t.appends ++ [{ reach := store.length }] }
  | .signal k =>
    match t.appends[k]? with
    | some a => some { t with
        node := t.node.signal i
        appends := t.appends.set k { a with signalled := true } }
    | none => none
  | .start => some { t with node := t.node.start i }
  | .stop => some { t with node := t.node.stop i }
  | .pull => (t.node.movePull i).map (t.pulled i)

abbrev run (i : Nat) (t : Waking A S B) (ms : List (Move A)) : Option (Waking A S B) :=
  runMoves (step i) t ms

/-- A step of the loop or of a writer, or of anybody else. Others may append and signal, read, make
reads fail or wait, and let time pass. -/
inductive Goes (i : Nat) : Waking A S B → Waking A S B → Prop where
  | move {t t' : Waking A S B} (m : Move A) (hstep : t.step i m = some t') : Goes i t t'
  | elsewhere {t : Waking A S B} {node : Node A S B}
      (hstore : t.node.store.length ≤ node.store.length)
      (hstream : ∀ s, t.node.streams[i]? = some s → ∃ s', node.streams[i]? = some s' ∧
        s'.pull = s.pull ∧ (s'.source = s.source ∨ s'.source = s.signal.source)) :
      Goes i t { t with node }

/-- While the slot is empty, every append that was signalled was there when the slot was last
cleared, and a loop that has read did so later. -/
structure Heedful (i : Nat) (t : Waking A S B) : Prop where
  appended : ∀ a ∈ t.appends, a.reach ≤ t.node.store.length
  cleared : t.cleared ≤ t.node.store.length
  stream : ∃ s wakeUp next budget, t.node.streams[i]? = some s ∧
    s.source = .polling wakeUp next budget ∧
    (wakeUp.signalled = false → ∀ a ∈ t.appends, a.signalled = true → a.reach ≤ t.cleared) ∧
    (∀ pull, s.pull = some pull → ∃ loop timer, pull = .polling loop timer ∧
      (loop.phase.hasRead = true → t.cleared ≤ t.read))

namespace Heedful

/-- Whatever leaves the loop alone and lets the log grow. A signal may be raised. -/
theorem frame (h : Heedful i t) {node : Node A S B}
    (hstore : t.node.store.length ≤ node.store.length)
    (hstream : ∀ s, t.node.streams[i]? = some s → ∃ s', node.streams[i]? = some s' ∧
      s'.pull = s.pull ∧ (s'.source = s.source ∨ s'.source = s.signal.source)) :
    Heedful i { t with node } := by
  obtain ⟨s, wakeUp, next, budget, hs, hsource, hslot, hpull⟩ := h.stream
  obtain ⟨s', hs', hsame, hsignalled⟩ := hstream s hs
  have hpull' : ∀ pull, s'.pull = some pull → ∃ loop timer, pull = .polling loop timer ∧
      (loop.phase.hasRead = true → t.cleared ≤ t.read) := by
    rw [hsame]
    exact hpull
  refine ⟨fun a ha => Nat.le_trans (h.appended a ha) hstore, Nat.le_trans h.cleared hstore, ?_⟩
  rcases hsignalled with hsame | hsignalled
  · exact ⟨s', wakeUp, next, budget, hs', hsame.trans hsource, hslot, hpull'⟩
  · refine ⟨s', wakeUp.signal, next, budget, hs', ?_, nofun, hpull'⟩
    rw [hsignalled, EventStream.signal, hsource]

/-- A write makes the log longer, and that is how far the append reaches. -/
theorem appending (h : Heedful i t) :
    Heedful i { t with appends := t.appends ++ [{ reach := t.node.store.length }] } := by
  obtain ⟨s, wakeUp, next, budget, hs, hsource, hslot, hpull⟩ := h.stream
  refine ⟨fun a ha => ?_, h.cleared, s, wakeUp, next, budget, hs, hsource,
    fun hempty a ha hsig => ?_, hpull⟩
  · rcases List.mem_append.mp ha with hold | hnew
    · exact h.appended a hold
    · cases List.mem_singleton.mp hnew
      exact Nat.le_refl _
  · rcases List.mem_append.mp ha with hold | hnew
    · exact hslot hempty a hold hsig
    · cases List.mem_singleton.mp hnew
      cases hsig

theorem signal (h : Heedful i t) {k : Nat} {a : Append} (hk : t.appends[k]? = some a) :
    Heedful i { t with
      node := t.node.signal i
      appends := t.appends.set k { a with signalled := true } } := by
  obtain ⟨s, wakeUp, next, budget, hs, hsource, -, hpull⟩ := h.stream
  have hstore := Node.store_signal t.node i
  refine ⟨fun b hb => ?_, by rw [hstore]; exact h.cleared,
    { s with source := .polling wakeUp.signal next budget }, wakeUp.signal, next, budget, ?_, rfl,
    nofun, hpull⟩
  · rw [hstore]
    rcases List.mem_or_eq_of_mem_set hb with hold | rfl
    · exact h.appended b hold
    · exact h.appended a (List.mem_of_getElem? hk)
  · rw [Node.signal_of_polling hs hsource]
    exact Node.getElem?_putStream_self hs

theorem start (h : Heedful i t) : Heedful i { t with node := t.node.start i } := by
  obtain ⟨s, wakeUp, next, budget, hs, hsource, hslot, hpull⟩ := h.stream
  have hstore := Node.store_start t.node i
  have happended : ∀ a ∈ t.appends, a.reach ≤ (t.node.start i).store.length := by
    rw [hstore]
    exact h.appended
  refine ⟨happended, by rw [hstore]; exact h.cleared, ?_⟩
  cases hrunning : s.isRunning with
  | true =>
    rw [Node.start_of_running hs hrunning]
    exact ⟨s, wakeUp, next, budget, hs, hsource, hslot, hpull⟩
  | false =>
    have hlisted : (t.node.enlist (.pull i)).streams[i]? = some s := by
      rw [Node.streams_enlist, hs]
    rw [Node.start_of_polling hs hrunning hsource]
    refine ⟨_, wakeUp, next, budget, Node.getElem?_putStream_self hlisted, hsource, hslot, ?_⟩
    rintro pull ⟨⟩
    exact ⟨_, none, rfl, nofun⟩

theorem stop (h : Heedful i t) : Heedful i { t with node := t.node.stop i } := by
  obtain ⟨s, wakeUp, next, budget, hs, hsource, hslot, -⟩ := h.stream
  have hstore := Node.store_stop t.node i
  exact ⟨by rw [hstore]; exact h.appended, by rw [hstore]; exact h.cleared, _, wakeUp, next,
    budget, Node.stopped_of_polling hs hsource, hsource, hslot, nofun⟩

/-- The slot is cleared when the log holds every append so far, and what is cleared is read. -/
theorem pull (h : Heedful i t) {node : Node A S B} (hmove : t.node.movePull i = some node) :
    Heedful i (t.pulled i node) := by
  obtain ⟨s, wakeUp, next, budget, hs, hsource, hslot, hpull⟩ := h.stream
  have hlength : node.store.length = t.node.store.length :=
    congrArg Contents.length (Node.after_movePull hmove).contents
  obtain ⟨loop, timer, hloop⟩ : ∃ loop timer, s.pull = some (.polling loop timer) := by
    cases hp : s.pull with
    | none =>
      simp only [Node.movePull, hs, hp] at hmove
      cases hmove
    | some pull =>
      obtain ⟨loop, timer, rfl, -⟩ := hpull pull hp
      exact ⟨loop, timer, rfl⟩
  obtain ⟨_, _, hsame, hread⟩ := hpull _ hloop
  cases hsame
  have hreading := Node.isReading_of_polling hs hloop
  have happended : ∀ a ∈ t.appends, a.reach ≤ node.store.length := by
    rw [hlength]
    exact h.appended
  cases Node.paced_of_movePull hs hsource hloop hmove with
  | clears hphase hs' hsource' hpull' hphase' hslot' =>
    rw [hphase] at hreading
    rw [pulled, hreading, (Node.isReading_of_polling hs' hpull').trans hphase']
    refine ⟨happended, Nat.le_of_eq hlength.symm, _, _, _, _, hs', hsource',
      fun _ a ha _ => h.appended a ha, fun pull hp => ?_⟩
    cases hpull'.symm.trans hp
    refine ⟨_, _, rfl, fun hread' => ?_⟩
    rw [PollPhase.isReading_of_hasRead hread'] at hphase'
    cases hphase'
  | reads hphase hs' hsource' hpull' hphase' =>
    have hpast := PollPhase.isReading_of_hasRead hphase'
    rw [pulled, hreading, (Node.isReading_of_polling hs' hpull').trans hpast, Bool.and_false]
    refine ⟨happended, by rw [hlength]; exact h.cleared, _, _, _, _, hs', hsource', hslot,
      fun pull hp => ?_⟩
    cases hpull'.symm.trans hp
    refine ⟨_, _, rfl, fun _ => ?_⟩
    by_cases hreads : loop.phase.isReading = true
    · rw [if_pos hreads]
      exact h.cleared
    · rw [if_neg hreads]
      exact hread (hphase.resolve_left hreads)
  | stops hs' hsource' hpull' =>
    rw [pulled, Node.isReading_of_stopped hs' hpull', Bool.and_false]
    refine ⟨happended, by rw [hlength]; exact h.cleared, _, _, _, _, hs', hsource', hslot,
      fun pull hp => ?_⟩
    cases hpull'.symm.trans hp

theorem step {m : Move A} (h : Heedful i t) (hstep : t.step i m = some t') : Heedful i t' := by
  have hgrown (node : Node A S B) (hstreams : node.streams = t.node.streams)
      (hstore : t.node.store.length ≤ node.store.length) : Heedful i { t with node } :=
    h.frame hstore fun s hs => ⟨s, by rw [hstreams, hs], rfl, .inl rfl⟩
  cases m with
  | append batch =>
    have hwritten := hgrown (t.node.write batch).2 rfl (Store.length_le_write batch)
    simp only [Waking.step] at hstep
    split at hstep
    · cases hstep
      exact hwritten.appending
    · cases hstep
      exact hwritten
  | record stream tag data =>
    cases hstep
    have hlength : t.node.store.length ≤ (t.node.store.appendRaw stream tag data).2.length :=
      (Store.grows_appendRaw stream tag data).length_le
    have hrecorded := hgrown { t.node with
      store := (t.node.store.appendRaw stream tag data).2 } rfl hlength
    exact hrecorded.appending
  | signal k =>
    simp only [Waking.step] at hstep
    split at hstep
    · rename_i a hk
      cases hstep
      exact h.signal hk
    · cases hstep
  | start =>
    cases hstep
    exact h.start
  | stop =>
    cases hstep
    exact h.stop
  | pull =>
    obtain ⟨node, hmove, rfl⟩ := Option.map_eq_some_iff.mp hstep
    exact h.pull hmove

theorem goes (h : Heedful i t) (hgoes : Goes i t t') : Heedful i t' := by
  cases hgoes with
  | move m hstep => exact h.step hstep
  | elsewhere hstore hstream => exact h.frame hstore hstream

end Heedful

/-- Writers append to the log and signal a poll loop, and signal again, between any steps of the
loop. Reads fail, the loop is given up and begun again, and others append and signal as well. A loop
that rests while the slot is empty has missed no writer: whatever was appended and signalled was
there before the slot was last cleared, and the log was read after that. While the slot is full, a
loop that rests goes on. -/
theorem no_wake_up_lost {n : Node A S B} {s₀ : EventStream A} {wakeUp₀ : WakeUp} {next₀ : Position}
    {budget₀ : Option Nat} (hs₀ : n.streams[i]? = some s₀)
    (hsource₀ : s₀.source = .polling wakeUp₀ next₀ budget₀) (hpull₀ : s₀.pull = none)
    (hgoes : Relation.ReflTransGen (Goes i) { node := n } t) {s : EventStream A} {wakeUp : WakeUp}
    {next : Position} {budget : Option Nat} {loop : PollLoop Position (Event A)}
    {timer : Option Timer} {cursor : Position} {hot : Bool} (hs : t.node.streams[i]? = some s)
    (hsource : s.source = .polling wakeUp next budget)
    (hpull : s.pull = some (.polling loop timer)) (hphase : loop.phase = .resting cursor hot) :
    (wakeUp.signalled = false → ∀ a ∈ t.appends, a.signalled = true →
      a.reach ≤ t.cleared ∧ t.cleared ≤ t.read) ∧
    (wakeUp.signalled = true → (t.node.movePull i).isSome = true) := by
  have hstart : Heedful i ({ node := n } : Waking A S B) :=
    ⟨nofun, Nat.zero_le _, s₀, wakeUp₀, next₀, budget₀, hs₀, hsource₀, nofun,
      fun pull hp => by rw [hpull₀] at hp; cases hp⟩
  have h : Heedful i t := by
    clear hs hpull hphase
    induction hgoes with
    | refl => exact hstart
    | tail _ hstep ih => exact ih.goes hstep
  refine ⟨fun hempty a ha hsig => ?_, fun hfull =>
    Node.isSome_movePull_of_signalled hs hsource hpull hphase hfull⟩
  obtain ⟨s', wakeUp', next', budget', hs', hsource', hslot, hread⟩ := h.stream
  cases hs.symm.trans hs'
  cases hsource.symm.trans hsource'
  obtain ⟨_, _, hsame, hcleared⟩ := hread _ hpull
  cases hsame
  exact ⟨hslot hempty a ha hsig, hcleared (by rw [hphase]; rfl)⟩

def idle : Node Notes.Fact Int64 Unit :=
  ((Node.new (Store.ofPayloads 0) Notes.projector .unbounded).addStream
    (.polling {} none Position.zero)).1

/-- One writer appends before the first read and signals twice after it. Another one appends while
the loop rests, and signals when the loop has been woken and not read yet. -/
def overlapping : List (Move Notes.Fact) :=
  [.start, .pull, .append [.fact (.noted "a" 2)], .pull, .signal 0, .signal 0, .pull, .pull, .pull,
    .append [.fact (.noted "a" 3)], .pull, .signal 1, .pull, .pull, .pull, .pull, .pull, .pull,
    .pull]

/-- When the loop rests for good, it has read what both have written. -/
theorem overlapping_rests :
    ∃ t, run 0 { node := idle } overlapping = some t ∧
      (∀ a ∈ t.appends, a.signalled = true) ∧ t.appends.map Append.reach = [1, 2] ∧
      ∀ a ∈ t.appends, a.reach ≤ t.read := by
  have hrun : run 0 { node := idle } overlapping = some _ := rfl
  have hsignalled : ∀ a ∈ [(⟨1, true⟩ : Append), ⟨2, true⟩], a.signalled = true := by simp
  have hread := (no_wake_up_lost rfl rfl rfl (reflTransGen_of_run (.move _) hrun) rfl rfl rfl rfl).1 rfl
  exact ⟨_, hrun, hsignalled, rfl, fun a ha =>
    Nat.le_trans (hread a ha (hsignalled a ha)).1 (hread a ha (hsignalled a ha)).2⟩

end Waking
end Chronicle
