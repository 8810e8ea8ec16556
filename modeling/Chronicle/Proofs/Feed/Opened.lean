import Chronicle.Proofs.Feed.Replaying
import Chronicle.Proofs.Feed.Resuming

/-!
# Chronicle.Proofs.Feed.Opened

Pulls of the log that are opened with a token: a poll loop, or a replay that goes on to follow a live
stream. A read is begun and answered in two steps, and the token may fire between any two steps. What
goes on around a pull may change its log, its live stream and its slot at any moment.

Without a token the pulls of a node are such pulls: whatever they pass on from their start on, the
opened pull emits (`Node.carried_from_start`).
-/

namespace Chronicle

variable {A : Type} [Vocabulary A]

/-! ## What runs a pull -/

inductive Engine (A : Type) where
  | polling (loop : PollLoop Position (Event A))
  | replaying (replay : Replay A)

namespace Engine

variable {A : Type}

/-- Where the next page is read from, if it is about to be read or being read. -/
def cursor? : Engine A → Option Position
  | .polling loop =>
    match loop.phase with
    | .reading cursor => some cursor
    | _ => none
  | .replaying replay =>
    match replay.phase with
    | .draining cursor _ => some cursor
    | _ => none

/-- The token is looked at here. -/
def watches : Engine A → Bool
  | .polling loop =>
    match loop.phase with
    | .emitting .. | .ended => false
    | _ => true
  | .replaying replay =>
    match replay.phase with
    | .backingOff .. | .following => true
    | _ => false

def cancel : Engine A → Engine A
  | .polling loop => .polling loop.cancel
  | .replaying replay => .replaying replay.cancel

def answer : Engine A → Page A → Engine A
  | .polling loop, page => .polling (loop.answer page).1
  | .replaying replay, page => .replaying (replay.answer page).1

/-- The next event of the batch that is being passed on. -/
def emit? : Engine A → Option (Event A × Engine A)
  | .polling loop => loop.emit?.map fun (e, loop) => (e, .polling loop)
  | .replaying replay => replay.emit?.map fun (e, replay) => (e, .replaying replay)

end Engine

/-! ## A pull and its token -/

/-- A pull of the log among what goes on around it. -/
structure Opened (A : Type) [Vocabulary A] where
  store : Store A
  /-- Where a poll loop takes its first cursor from. -/
  first : Position := Position.zero
  wakeUp : WakeUp := .new {}
  /-- The outlet of the stream that a replay will follow, and its subscription. -/
  live : Broadcaster (Event A) := {}
  subscription : Nat := 0
  engine : Engine A
  /-- The token has fired. -/
  fired : Bool := false
  /-- Where the reads that it has begun begin. -/
  begun : List Position := []
  /-- The last one is not answered yet. -/
  underWay : Bool := false
  emitted : List (Event A) := []

namespace Opened

variable {u : Opened A}

def polling (store : Store A) (wakeUp : WakeUp) (first : Position) (budget : Option Nat) :
    Opened A :=
  { store, wakeUp, first, engine := .polling (EventStream.newLoop budget) }

/-- A source that replays the log is opened: it subscribes to the live stream first. -/
def replaying (store : Store A) (live : Broadcaster (Event A)) (first : Position)
    (policy : RetryPolicy) : Opened A :=
  { store
    live := live.subscribe.1
    subscription := live.subscribe.2
    engine := .replaying (.new first policy) }

/-- What a pull does that has nothing to read and nothing to pass on, unless it has to wait. -/
def turnOver (u : Opened A) : Option (Opened A) :=
  match u.engine with
  | .polling loop =>
    match loop.phase with
    | .opening =>
      let (loop, wakeUp) := loop.begin u.wakeUp u.first
      some { u with wakeUp, engine := .polling loop, underWay := false }
    | .emitting .. => some { u with engine := .polling loop.finishBatch.1 }
    | .resting _ hot =>
      if u.wakeUp.signalled then
        let (loop, wakeUp) := loop.woken u.wakeUp (u.wakeUp.timeout hot) .signalled
        some { u with wakeUp, engine := .polling loop, underWay := false }
      else none
    | _ => none
  | .replaying replay =>
    match replay.phase with
    | .emitting .. => some { u with engine := .replaying replay.finishPage, underWay := false }
    | .following =>
      match u.live.receive u.subscription with
      | (live, .item e) =>
        let (passed, replay) := replay.follow e
        some { u with live, engine := .replaying replay, emitted := u.emitted ++ passed.toList }
      | (_, .ended) => some { u with engine := .replaying { replay with phase := .ended } }
      | (_, .pending) => none
    | _ => none

def turn (u : Opened A) : Option (Opened A) :=
  if u.fired && u.engine.watches then some { u with engine := u.engine.cancel, underWay := false }
  else
    match u.engine.cursor? with
    | some cursor =>
      if u.underWay then
        let reading := u.store.readFrom cursor
        some { u with
          store := reading.store
          engine := u.engine.answer reading.page
          underWay := false }
      else some { u with underWay := true, begun := u.begun ++ [cursor] }
    | none =>
      match u.engine.emit? with
      | some (e, engine) => some { u with engine, emitted := u.emitted ++ [e] }
      | none => u.turnOver

/-- A timer is over. A poll loop looks at the token and at the signals before it looks at the timer;
a replay that finds both the token and the timer takes either. -/
def lapse (u : Opened A) : Option (Opened A) :=
  match u.engine with
  | .polling loop =>
    match loop.phase with
    | .resting _ hot =>
      if u.fired || u.wakeUp.signalled then none
      else
        let (loop, wakeUp) := loop.woken u.wakeUp (u.wakeUp.timeout hot) .timedOut
        some { u with wakeUp, engine := .polling loop, underWay := false }
    | _ => none
  | .replaying replay =>
    match replay.phase with
    | .backingOff .. => some { u with engine := .replaying replay.resume, underWay := false }
    | _ => none

inductive Move (A : Type) [Vocabulary A] where
  /-- The token fires. -/
  | fire
  | turn
  | lapse
  /-- Others write, make reads fail, publish, signal, or poll from the same source. -/
  | elsewhere (store : Store A) (live : Broadcaster (Event A)) (wakeUp : WakeUp) (first : Position)

def Move.isTurn : Move A → Bool
  | .turn => true
  | _ => false

def step (u : Opened A) : Move A → Option (Opened A)
  | .fire => some { u with fired := true }
  | .turn => u.turn
  | .lapse => u.lapse
  | .elsewhere store live wakeUp first => some { u with store, live, wakeUp, first }

abbrev run (u : Opened A) (ms : List (Move A)) : Option (Opened A) := runMoves step u ms

/-- The token is not seen, and there is nothing to read: the next event is passed on, or something
else is done. -/
theorem turn_of_unseen (hunseen : (u.fired && u.engine.watches) = false)
    (hcursor : u.engine.cursor? = none) : u.turn =
      match u.engine.emit? with
      | some (e, engine) => some { u with engine, emitted := u.emitted ++ [e] }
      | none => u.turnOver := by
  rw [turn, hunseen, if_neg Bool.false_ne_true, hcursor]

/-- An event of the live stream is passed on, or dropped. -/
theorem turn_of_following {left : Broadcaster (Event A)} {e : Event A} {replay : Replay A}
    (hengine : u.engine = .replaying replay) (hphase : replay.phase = .following)
    (hunfired : u.fired = false) (hreceive : u.live.receive u.subscription = (left, .item e)) :
    u.turn = some { u with
      live := left
      engine := .replaying (replay.follow e).2
      emitted := u.emitted ++ (replay.follow e).1.toList } := by
  rw [turn_of_unseen (by rw [hunfired, Bool.false_and])
    (by simp only [hengine, Engine.cursor?, hphase])]
  simp only [hengine, Engine.emit?, Replay.emit?, hphase, Option.map_none, turnOver, hreceive]

end Opened

/-! ## The pulls of a node -/

namespace Node

variable {S B : Type} {n n' : Node A S B} {i : Nat} {u v : Opened A} {s s' : EventStream A}
  {first : Position}

/-- The opened pull is that of the stream, in surroundings that are those of the node. -/
inductive Drives (n : Node A S B) (i : Nat) (s : EventStream A) : Opened A → Prop where
  | polling {u : Opened A} {loop : PollLoop Position (Event A)} {timer : Option Timer}
      {budget : Option Nat} (hengine : u.engine = .polling loop)
      (hsource : s.source = .polling u.wakeUp u.first budget)
      (hpull : s.pull = some (.polling loop timer)) : Drives n i s u
  | replaying {u : Opened A} {replay : Replay A} {timer : Option Timer} {first : Position}
      {policy : RetryPolicy} {live : Nat} (hengine : u.engine = .replaying replay)
      (hsource : s.source = .replaying first policy live) (hapart : live ≠ i)
      (hlive : u.live = n.outlet live)
      (hpull : s.pull = some (.replaying replay u.subscription timer)) : Drives n i s u

/-- The pull of stream `i` is an opened pull whose token has not fired. -/
structure Carries (n : Node A S B) (i : Nat) (u : Opened A) : Prop where
  store : u.store = n.store
  unfired : u.fired = false
  idle : u.underWay = false
  stream : ∃ s, n.streams[i]? = some s ∧ Drives n i s u

/-- What a step of the pull of stream `i` passes on, the opened pull emits in some course of things,
and it is that pull still, unless that was given up. -/
def Carried (n n' : Node A S B) (i : Nat) (u : Opened A) : Prop :=
  ∃ ms v passed, Opened.run u ms = some v ∧ (Carries n' i v ∨ Over n' i) ∧
    v.emitted = u.emitted ++ passed ∧
    n'.outlet i = passed.foldl (fun outlet e => (outlet.publish e).1) (n.outlet i)

/-- The opened pull has made some moves, and finds its surroundings as the node has them now. -/
theorem Carried.of_run (ms : List (Opened.Move A)) (hrun : Opened.run u ms = some v)
    (hunfired : v.fired = false) (hidle : v.underWay = false) (hs : n.streams[i]? = some s)
    (hs' : n'.streams[i]? = some s') (live : Broadcaster (Event A)) (wakeUp : WakeUp)
    (first : Position) (hdrives : Drives n' i s' { v with store := n'.store, live, wakeUp, first })
    (passed : List (Event A)) (hemitted : v.emitted = u.emitted ++ passed)
    (houtlet : s'.outlet = passed.foldl (fun outlet e => (outlet.publish e).1) s.outlet) :
    Carried n n' i u := by
  refine ⟨ms ++ [.elsewhere n'.store live wakeUp first],
    { v with store := n'.store, live, wakeUp, first }, passed,
    runMoves_append.mpr ⟨v, hrun, rfl⟩, .inl ⟨rfl, hunfired, hidle, s', hs', hdrives⟩, hemitted, ?_⟩
  rw [outlet_of_getElem? hs', outlet_of_getElem? hs, houtlet]

/-- Nothing is passed on by the moves. -/
theorem Carried.of_silent (ms : List (Opened.Move A)) (hrun : Opened.run u ms = some v)
    (hunfired : v.fired = false) (hidle : v.underWay = false) (hs : n.streams[i]? = some s)
    (hs' : n'.streams[i]? = some s') (live : Broadcaster (Event A)) (wakeUp : WakeUp)
    (first : Position) (hdrives : Drives n' i s' { v with store := n'.store, live, wakeUp, first })
    (hemitted : v.emitted = u.emitted) (houtlet : s'.outlet = s.outlet) : Carried n n' i u :=
  .of_run ms hrun hunfired hidle hs hs' live wakeUp first hdrives []
    (hemitted.trans (List.append_nil _).symm) houtlet

theorem Carried.of_over (hover : Over n' i) (houtlet : n'.outlet i = n.outlet i) :
    Carried n n' i u :=
  ⟨[], u, [], rfl, .inr hover, (List.append_nil _).symm, houtlet⟩

section Pull

variable {outlet live : Broadcaster (Event A)} {wakeUp : WakeUp} {subscription : Nat}
  {begun : List Position} {emitted : List (Event A)} {timer : Option Timer}

theorem carried_polling {budget : Option Nat} {loop : PollLoop Position (Event A)}
    (hs : n.streams[i]? = some
      ⟨.polling wakeUp first budget, outlet, some (.polling loop timer)⟩)
    (hmove : n.movePull i = some n') :
    Carried n n' i
      ⟨n.store, first, wakeUp, live, subscription, .polling loop, false, begun, false, emitted⟩ := by
  obtain ⟨strategy, after, phase⟩ := loop
  simp only [Node.movePull, hs, movePolling] at hmove
  cases phase with
  | opening =>
    cases hmove
    exact .of_silent [.turn] rfl rfl rfl hs (getElem?_putStream_self hs) live wakeUp.clear first
      (.polling rfl rfl rfl) rfl rfl
  | reading cursor =>
    -- a read of the node is begun and answered in one step
    dsimp only at hmove
    split at hmove
    · cases hmove
    · cases hmove
      exact .of_silent [.turn, .turn] rfl rfl rfl hs (getElem?_putStream_self hs) live wakeUp first
        (.polling rfl rfl rfl) rfl rfl
  | emitting cursor events next =>
    cases events with
    | nil =>
      cases hmove
      exact .of_silent [.turn] rfl rfl rfl hs (getElem?_putStream_self hs) live wakeUp first
        (.polling rfl rfl rfl) rfl rfl
    | cons e rest =>
      cases hmove
      exact .of_run [.turn] rfl rfl rfl hs (getElem?_putStream_self hs) live wakeUp
        e.position.next (.polling rfl rfl rfl) [e] rfl rfl
  | resting cursor hot =>
    obtain ⟨config, signalled, current⟩ := wakeUp
    cases timer with
    | none =>
      cases hmove
      exact .of_silent [] rfl rfl rfl hs (getElem?_putStream_self hs) live _ first
        (.polling rfl rfl rfl) rfl rfl
    | some timer =>
      cases signalled with
      | true =>
        cases hmove
        exact .of_silent [.turn] rfl rfl rfl hs (getElem?_putStream_self hs) live _ first
          (.polling rfl rfl rfl) rfl rfl
      | false =>
        dsimp only at hmove
        rw [if_neg Bool.false_ne_true] at hmove
        split at hmove
        · cases hmove
          exact .of_silent [.lapse] rfl rfl rfl hs (getElem?_putStream_self hs) live _ first
            (.polling rfl rfl rfl) rfl rfl
        · cases hmove
  | ended =>
    cases hmove
    have hs' : (n.stop i).streams[i]? = some
        { source := .polling wakeUp first budget, outlet, pull := none } := by
      rw [stop_of_polling hs rfl]
      exact getElem?_putStream_self hs
    refine .of_over ⟨_, hs', rfl⟩ ?_
    rw [outlet_of_getElem? hs', outlet_of_getElem? hs]

theorem carried_replaying {start : Position} {policy : RetryPolicy} {k : Nat} {replay : Replay A}
    (hs : n.streams[i]? = some
      ⟨.replaying start policy k, outlet, some (.replaying replay subscription timer)⟩)
    (hapart : k ≠ i) (hmove : n.movePull i = some n') :
    Carried n n' i ⟨n.store, first, wakeUp, n.outlet k, subscription, .replaying replay, false,
      begun, false, emitted⟩ := by
  obtain ⟨origin, retry, last, phase⟩ := replay
  have hlive {s' : EventStream A} : n.outlet k = (n.putStream i s').outlet k :=
    (outlet_putStream_of_ne hapart.symm).symm
  simp only [Node.movePull, hs, moveReplaying] at hmove
  cases phase with
  | draining cursor attempt =>
    dsimp only at hmove
    split at hmove
    · cases hmove
    · cases hmove
      exact .of_silent [.turn, .turn] rfl rfl rfl hs (getElem?_putStream_self hs) (n.outlet k)
        wakeUp first (.replaying rfl rfl hapart hlive rfl) rfl rfl
  | backingOff cursor attempt delay =>
    cases timer with
    | none =>
      cases hmove
      exact .of_silent [] rfl rfl rfl hs (getElem?_putStream_self hs) (n.outlet k) wakeUp first
        (.replaying rfl rfl hapart hlive rfl) rfl rfl
    | some timer =>
      dsimp only at hmove
      split at hmove
      · cases hmove
        exact .of_silent [.lapse] rfl rfl rfl hs (getElem?_putStream_self hs) (n.outlet k) wakeUp
          first (.replaying rfl rfl hapart hlive rfl) rfl rfl
      · cases hmove
  | emitting cursor events =>
    cases events with
    | nil =>
      cases hmove
      exact .of_silent [.turn] rfl rfl rfl hs (getElem?_putStream_self hs) (n.outlet k) wakeUp
        first (.replaying rfl rfl hapart hlive rfl) rfl rfl
    | cons e rest =>
      cases hmove
      exact .of_run [.turn] rfl rfl rfl hs (getElem?_putStream_self hs) (n.outlet k) wakeUp first
        (.replaying rfl rfl hapart hlive rfl) [e] rfl rfl
  | following =>
    dsimp only at hmove
    split at hmove
    · rename_i left e hreceive
      have hs₁ : (n.modifyOutlet k fun _ => left).streams[i]? = _ :=
        (getElem?_modifyOutlet_of_ne hapart).trans hs
      cases hmove
      cases hpassed : (Replay.follow ⟨origin, retry, last, .following⟩ e).1 with
      | none =>
        exact .of_run [.turn]
          (runMoves_singleton.trans (Opened.turn_of_following rfl rfl rfl hreceive)) rfl rfl hs
          (getElem?_putStream_self hs₁) _ wakeUp first (.replaying rfl rfl hapart rfl rfl) []
          (by rw [hpassed]; rfl) rfl
      | some e' =>
        exact .of_run [.turn]
          (runMoves_singleton.trans (Opened.turn_of_following rfl rfl rfl hreceive)) rfl rfl hs
          (getElem?_putStream_self hs₁) _ wakeUp first (.replaying rfl rfl hapart rfl rfl) [e']
          (by rw [hpassed]; rfl) rfl
    · cases hmove
      obtain ⟨hover, houtlet, -⟩ := over_stop hs hapart rfl rfl
      exact .of_over hover houtlet
    · cases hmove
  | ended =>
    cases hmove
    obtain ⟨hover, houtlet, -⟩ := over_stop hs hapart rfl rfl
    exact .of_over hover houtlet

end Pull

theorem Carries.pull (h : Carries n i u) (hmove : n.movePull i = some n') :
    Carried n n' i u := by
  obtain ⟨hstore, hunfired, hidle, s, hs, hdrives⟩ := h
  obtain ⟨store, first, wakeUp, live, subscription, engine, fired, begun, underWay, emitted⟩ := u
  obtain ⟨source, outlet, pull⟩ := s
  obtain rfl : store = n.store := hstore
  obtain rfl : fired = false := hunfired
  obtain rfl : underWay = false := hidle
  cases hdrives with
  | @polling loop timer budget hengine hsource hpull =>
    obtain rfl : engine = .polling loop := hengine
    obtain rfl : source = .polling wakeUp first budget := hsource
    obtain rfl : pull = some (.polling loop timer) := hpull
    exact carried_polling hs hmove
  | @replaying replay timer start policy k hengine hsource hapart hlive hpull =>
    obtain rfl : engine = .replaying replay := hengine
    obtain rfl : source = .replaying start policy k := hsource
    obtain rfl : live = n.outlet k := hlive
    obtain rfl : pull = some (.replaying replay subscription timer) := hpull
    exact carried_replaying hs hapart hmove

/-- A polling stream opens a pull. -/
theorem carries_start_polling {wakeUp : WakeUp} {budget : Option Nat} (hs : n.streams[i]? = some s)
    (hsource : s.source = .polling wakeUp first budget) (hpull : s.pull = none) :
    Carries (n.start i) i (.polling n.store wakeUp first budget) := by
  have hrunning : s.isRunning = false := by rw [EventStream.isRunning, hpull]; rfl
  have hlisted : (n.enlist (.pull i)).streams[i]? = some s := by rw [streams_enlist, hs]
  refine ⟨(store_start n i).symm, rfl, rfl, ?_⟩
  rw [start_of_polling hs hrunning hsource]
  exact ⟨_, getElem?_putStream_self hlisted, .polling rfl hsource rfl⟩

/-- A replaying stream opens a pull, which subscribes to the live stream. -/
theorem carries_start_replaying {policy : RetryPolicy} {live : Nat} {ls : EventStream A}
    (hapart : live ≠ i) (hlive : n.streams[live]? = some ls) (hs : n.streams[i]? = some s)
    (hsource : s.source = .replaying first policy live) (hpull : s.pull = none) :
    Carries (n.start i) i (.replaying n.store (n.outlet live) first policy) := by
  have hs₁ : ((n.enlist (.pull i)).modifyOutlet live fun _ =>
      (n.outlet live).subscribe.1).streams[i]? = some s := by
    rw [getElem?_modifyOutlet_of_ne hapart, streams_enlist, hs]
  have hlisted : (n.enlist (.pull i)).streams[live]? = some ls := by rw [streams_enlist, hlive]
  refine ⟨(store_start n i).symm, rfl, rfl, ?_⟩
  rw [start_of_replaying hs hsource hpull]
  refine ⟨_, getElem?_putStream_self hs₁, .replaying rfl hsource hapart ?_ rfl⟩
  rw [outlet_putStream_of_ne hapart.symm, outlet_modifyOutlet_self hlisted]
  rfl

/-! ### Runs -/

/-- A step of the pull of stream `i`, or of what goes on around it. -/
inductive Pulling (i : Nat) (n : Node A S B) : Node A S B → Prop where
  | pull {n' : Node A S B} (hmove : n.movePull i = some n') : Pulling i n n'
  | signal : Pulling i n (n.signal i)
  /-- Anything may happen elsewhere. -/
  | aside {n' : Node A S B} (hstream : n'.streams[i]? = n.streams[i]?) : Pulling i n n'

theorem Carries.aside (h : Carries n i u) (hstream : n'.streams[i]? = n.streams[i]?) :
    Carried n n' i u := by
  obtain ⟨-, hunfired, hidle, s, hs, hdrives⟩ := h
  have hs' : n'.streams[i]? = some s := hstream.trans hs
  cases hdrives with
  | polling hengine hsource hpull =>
    exact .of_silent [] rfl hunfired hidle hs hs' u.live u.wakeUp u.first
      (.polling hengine hsource hpull) rfl rfl
  | @replaying replay timer first policy live hengine hsource hapart hlive hpull =>
    exact .of_silent [] rfl hunfired hidle hs hs' (n'.outlet live) u.wakeUp u.first
      (.replaying hengine hsource hapart rfl hpull) rfl rfl

theorem Carries.signal (h : Carries n i u) : Carried n (n.signal i) i u := by
  obtain ⟨-, hunfired, hidle, s, hs, hdrives⟩ := id h
  cases hdrives with
  | polling hengine hsource hpull =>
    rw [signal_of_polling hs hsource]
    exact .of_silent [] rfl hunfired hidle hs (getElem?_putStream_self hs) u.live u.wakeUp.signal
      u.first (.polling hengine rfl hpull) rfl rfl
  | @replaying replay timer first policy live hengine hsource hapart hlive hpull =>
    -- The signal goes to the live stream.
    refine h.aside ?_
    unfold Node.signal
    simp only [hs, hsource, List.getElem?_modify, hapart, if_false]
    rfl

/-- A stream whose pull was given up passes nothing on. -/
theorem Over.pulling (h : Over n i) (hstep : Pulling i n n') :
    Over n' i ∧ n'.outlet i = n.outlet i := by
  cases hstep with
  | pull hmove =>
    rw [movePull_over h] at hmove
    cases hmove
  | signal =>
    refine ⟨?_, outlet_signal n i i⟩
    obtain ⟨s, hs, hnone⟩ := h
    have hsignal : s.signal.pull = none := by
      unfold EventStream.signal
      split <;> exact hnone
    unfold Node.signal
    simp only [hs]
    split
    · exact ⟨s.signal, getElem?_putStream_self hs, hsignal⟩
    · rename_i live _
      by_cases hlive : live = i
      · exact ⟨s.signal, by simp [hlive, hs], hsignal⟩
      · exact ⟨s, by simp [hlive, hs], hnone⟩
    · exact ⟨s, hs, hnone⟩
  | aside hstream =>
    refine ⟨h.of_eq hstream, ?_⟩
    rw [outlet, outlet, hstream]

theorem Carries.pulling (h : Carries n i u) (hstep : Pulling i n n') : Carried n n' i u := by
  cases hstep with
  | pull hmove => exact h.pull hmove
  | signal => exact h.signal
  | aside hstream => exact h.aside hstream

/-- However the pull goes on, and whatever goes on around it, the opened pull emits what it passes
on. -/
theorem Carries.run (h : Carries n i u) (hrun : Relation.ReflTransGen (Pulling i) n n') :
    Carried n n' i u := by
  induction hrun with
  | refl => exact ⟨[], u, [], rfl, .inl h, (List.append_nil _).symm, rfl⟩
  | @tail m n' _ hstep ih =>
    obtain ⟨ms, v, passed, hms, hcarries | hover, hemitted, houtlet⟩ := ih
    · obtain ⟨ms', w, more, hms', hends, hmore, houtlet'⟩ := hcarries.pulling hstep
      refine ⟨ms ++ ms', w, passed ++ more, runMoves_append.mpr ⟨v, hms, hms'⟩, hends, ?_, ?_⟩
      · rw [hmore, hemitted, List.append_assoc]
      · rw [houtlet', houtlet, List.foldl_append]
    · obtain ⟨hover', hsame⟩ := hover.pulling hstep
      exact ⟨ms, v, passed, hms, .inr hover', hemitted, hsame.trans houtlet⟩

/-- A stream that polls or replays passes on from its start on what a pull emits that is opened over
the log of the node. A replay follows the live stream from there on. -/
theorem carried_from_start (hs : n.streams[i]? = some s) (hpull : s.pull = none)
    (hrun : Relation.ReflTransGen (Pulling i) (n.start i) n') :
    (∀ wakeUp first budget, s.source = .polling wakeUp first budget →
      Carried (n.start i) n' i (.polling n.store wakeUp first budget)) ∧
    ∀ first policy live ls, s.source = .replaying first policy live → live ≠ i →
      n.streams[live]? = some ls →
      Carried (n.start i) n' i (.replaying n.store (n.outlet live) first policy) :=
  ⟨fun _ _ _ hsource => (carries_start_polling hs hsource hpull).run hrun,
    fun _ _ _ _ hsource hapart hlive =>
      (carries_start_replaying hapart hlive hs hsource hpull).run hrun⟩

end Node
end Chronicle
