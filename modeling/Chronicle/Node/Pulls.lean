import Chronicle.Node.Basic

/-!
# Chronicle.Node.Pulls

Starting and stopping event streams, and the steps of their pulls. A step is `none` when the pull
has to wait: for a timer, a signal, a delivery, or a read that is held.
-/

namespace Chronicle
namespace Node

variable {A S B : Type} [Vocabulary A]

/-- Begins a stream's pull, unless one is under way. -/
def start (n : Node A S B) (i : Nat) : Node A S B :=
  match n.streams[i]? with
  | none => n
  | some s =>
    if s.isRunning then n
    else
      let n := n.enlist (.pull i)
      match s.source with
      | .polling _ _ budget =>
        n.putStream i { s with pull := some (.polling (EventStream.newLoop budget) none) }
      | .pushed inlet =>
        let (inlet, subscription) := inlet.subscribe
        n.putStream i { s with source := .pushed inlet, pull := some (.pushed subscription) }
      | .replaying first policy live =>
        let (n, subscription) := n.subscribe live
        n.putStream i
          { s with pull := some (.replaying (Replay.new first policy) subscription none) }

/-- Ends a stream's pull. Its subscriptions to other feeds are given up. -/
def stop (n : Node A S B) (i : Nat) : Node A S B :=
  match n.streams[i]? with
  | none => n
  | some s =>
    let n := (n.putStream i { s with pull := none }).dismiss (.pull i)
    match s.pull, s.source with
    | some (.pushed subscription), .pushed inlet =>
      n.putStream i { s with source := .pushed (inlet.drop subscription), pull := none }
    | some (.replaying _ subscription _), .replaying _ _ live =>
      n.modifyOutlet live fun outlet => outlet.drop subscription
    | _, _ => n

/-- Pushes an event into a stream, and counts the pulls that receive it. -/
def push (n : Node A S B) (i : Nat) (e : Event A) : Node A S B × Nat :=
  match n.streams[i]? with
  | some s =>
    match s.source with
    | .pushed inlet =>
      let (inlet, receivers) := inlet.publish e
      (n.putStream i { s with source := .pushed inlet }, receivers)
    | _ => (n, 0)
  | none => (n, 0)

def movePolling (n : Node A S B) (i : Nat) (s : EventStream A) (wakeUp : WakeUp)
    (next : Position) (budget : Option Nat) (loop : PollLoop Position (Event A))
    (timer : Option Timer) : Option (Node A S B) :=
  let put (n : Node A S B) (loop : PollLoop Position (Event A)) (wakeUp : WakeUp)
      (timer : Option Timer) : Node A S B :=
    n.putStream i
      { s with source := .polling wakeUp next budget, pull := some (.polling loop timer) }
  match loop.phase with
  | .opening =>
    let (loop, wakeUp) := loop.begin wakeUp next
    some (put n loop wakeUp none)
  | .reading cursor =>
    if n.holdsReads then none
    else
      let reading := n.store.readFrom cursor
      let (loop, notes) := loop.answer reading.page
      some (put ({ n with store := reading.store }.note (reading.notes ++ notes)) loop wakeUp none)
  | .emitting .. =>
    match loop.emit? with
    | some (e, loop) =>
      some (n.putStream i ({ s with pull := some (.polling loop none) }.passOn e))
    | none =>
      let (loop, notes) := loop.finishBatch
      some (put (n.note notes) loop wakeUp none)
  | .resting _ hot =>
    match timer with
    | none =>
      let span := wakeUp.timeout hot
      some (put n loop wakeUp (some ⟨n.now + span.millis, span⟩))
    | some timer =>
      if wakeUp.signalled then
        let (loop, wakeUp) := loop.woken wakeUp timer.span .signalled
        some (put n loop wakeUp none)
      else if timer.due ≤ n.now then
        let (loop, wakeUp) := loop.woken wakeUp timer.span .timedOut
        some (put n loop wakeUp none)
      else none
  | .ended => some (n.stop i)

def movePushed (n : Node A S B) (i : Nat) (s : EventStream A) (inlet : Broadcaster (Event A))
    (subscription : Nat) : Option (Node A S B) :=
  match inlet.receive subscription with
  | (inlet, .item e) => some (n.putStream i ({ s with source := .pushed inlet }.passOn e))
  | (_, .ended) => some (n.stop i)
  | (_, .pending) => none

/-- A step of a pull that replays the log and then follows a stream. -/
def moveReplaying (n : Node A S B) (i : Nat) (s : EventStream A) (live : Nat) (replay : Replay A)
    (subscription : Nat) (timer : Option Timer) : Option (Node A S B) :=
  let put (n : Node A S B) (s : EventStream A) (replay : Replay A) (timer : Option Timer) :
      Node A S B :=
    n.putStream i { s with pull := some (.replaying replay subscription timer) }
  match replay.phase with
  | .draining cursor _ =>
    if n.holdsReads then none
    else
      let reading := n.store.readFrom cursor
      let (replay, notes) := replay.answer reading.page
      some (put ({ n with store := reading.store }.note (reading.notes ++ notes)) s replay none)
  | .backingOff _ _ delay =>
    match timer with
    | none => some (put n s replay (some ⟨n.now + delay.millis, delay⟩))
    | some timer => if timer.due ≤ n.now then some (put n s replay.resume none) else none
  | .emitting .. =>
    match replay.emit? with
    | some (e, replay) => some (put n (s.passOn e) replay none)
    | none => some (put n s replay.finishPage none)
  | .following =>
    match (n.outlet live).receive subscription with
    | (outlet, .item e) =>
      let n := n.modifyOutlet live fun _ => outlet
      let (passed, replay) := replay.follow e
      let s := match passed with
        | some e => s.passOn e
        | none => s
      some (put n s replay none)
    | (_, .ended) => some (n.stop i)
    | (_, .pending) => none
  | .ended => some (n.stop i)

def movePull (n : Node A S B) (i : Nat) : Option (Node A S B) :=
  match n.streams[i]? with
  | none => none
  | some s =>
    match s.pull, s.source with
    | some (.polling loop timer), .polling wakeUp next budget =>
      n.movePolling i s wakeUp next budget loop timer
    | some (.pushed subscription), .pushed inlet => n.movePushed i s inlet subscription
    | some (.replaying replay subscription timer), .replaying _ _ live =>
      n.moveReplaying i s live replay subscription timer
    | _, _ => none

/-- When the timer of a stream's pull is due, if one is set. -/
def pullDue? (s : EventStream A) : Option Nat :=
  match s.pull with
  | some (.polling _ timer) => timer.map Timer.due
  | some (.replaying _ _ timer) => timer.map Timer.due
  | _ => none

end Node
end Chronicle
