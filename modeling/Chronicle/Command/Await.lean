import Chronicle.Broadcast
import Chronicle.Cancel
import Chronicle.Command.Handler

/-!
# Chronicle.Command.Await

Submitting commands and waiting for their outcomes. A waiter subscribes to a feed of outcomes before
its command is submitted, so the outcome cannot be missed, and gives the subscription up when the
wait is over. A desk is the place where commands are submitted and waited for together.
-/

namespace Chronicle

def submit {B : Type} (commands : Broadcaster (Command B)) (c : Command B) :
    Broadcaster (Command B) × List Note :=
  let (after, receivers) := commands.publish c
  (after, .metric .commandSubmitted :: if receivers = 0 then [.log .noSubscribers] else [])

/-- What waiting for an outcome comes to. -/
abbrev Awaited := Except RuntimeError Outcome

structure Await where
  command : CommandId
  subscription : Nat
  answer : Option Awaited := none

namespace Await

def begin (feed : Broadcaster Outcome) (command : CommandId) : Await × Broadcaster Outcome :=
  let (feed, subscription) := feed.subscribe
  ({ command, subscription }, feed)

def finish (a : Await) (feed : Broadcaster Outcome) (answer : Awaited) :
    Await × Broadcaster Outcome :=
  ({ a with answer := some answer }, feed.drop a.subscription)

def cancelReason (command : CommandId) : String :=
  "stopped waiting for command " ++ command.render

/-- The next step of a wait, if it can take one. A cancellation comes before what was delivered. -/
def step (a : Await) (fired : Bool) (feed : Broadcaster Outcome) :
    Option (Await × Broadcaster Outcome) :=
  if a.answer.isSome then none
  else if fired then some (a.finish feed (.error (.cancelled (cancelReason a.command))))
  else
    match feed.receive a.subscription with
    | (feed, .item o) => some (if o.command = a.command then a.finish feed (.ok o) else (a, feed))
    | (feed, .ended) => some (a.finish feed (.error (.feedClosed a.command)))
    | (_, .pending) => none

/-- Takes steps as long as it can: one for each outcome delivered, and one more. -/
def run (a : Await) (fired : Bool) (feed : Broadcaster Outcome) : Await × Broadcaster Outcome :=
  go ((feed.mailbox a.subscription).queue.length + 1) a feed
where
  go : Nat → Await → Broadcaster Outcome → Await × Broadcaster Outcome
    | 0, a, feed => (a, feed)
    | fuel + 1, a, feed =>
      match a.step fired feed with
      | some (a, feed) => go fuel a feed
      | none => (a, feed)

end Await

/-- A wait at a desk. -/
structure Waiter where
  name : String
  wait : Await
  /-- What can cancel the wait. -/
  token : CancelToken
  source : CancelSource := {}

/-- Commands, the outcomes that are published about them, and who waits for which. -/
structure Desk (B : Type) where
  commands : Broadcaster (Command B) := {}
  feed : Broadcaster Outcome := {}
  waiters : List Waiter := []
  notes : List Note := []

namespace Desk

variable {B : Type}

def submit (d : Desk B) (c : Command B) : Desk B :=
  let (commands, notes) := Chronicle.submit d.commands c
  { d with commands, notes := d.notes ++ notes }

def submitAll (d : Desk B) (cs : List (Command B)) : Desk B := cs.foldl submit d

/-- A further subscription to the commands, and its number. -/
def subscribe (d : Desk B) : Desk B × Nat :=
  let (commands, i) := d.commands.subscribe
  ({ d with commands }, i)

def drain (d : Desk B) (i : Nat) : Desk B × List (Command B) :=
  let (commands, taken) := d.commands.drain i
  ({ d with commands }, taken)

def drop (d : Desk B) (i : Nat) : Desk B := { d with commands := d.commands.drop i }

/-- Lets every waiter take the steps that it can. -/
def settle (d : Desk B) : Desk B :=
  go { d with waiters := [] } d.waiters
where
  go (d : Desk B) : List Waiter → Desk B
    | [] => d
    | w :: rest =>
      let (wait, feed) := w.wait.run (w.token.isFired w.source) d.feed
      go { d with feed, waiters := d.waiters ++ [{ w with wait }] } rest

/-- Submits a command and waits for its outcome. -/
def await (d : Desk B) (name : String) (c : Command B) (token : CancelToken)
    (source : CancelSource) : Desk B :=
  let (wait, feed) := Await.begin d.feed c.id
  let waiter : Waiter := { name, wait, token, source }
  let d := submit { d with feed } c
  settle { d with waiters := d.waiters ++ [waiter] }

def publish (d : Desk B) (o : Outcome) : Desk B × Nat :=
  let (feed, receivers) := d.feed.publish o
  (settle { d with feed }, receivers)

def closeFeed (d : Desk B) : Desk B := settle { d with feed := d.feed.close }

def cancel (d : Desk B) (name : String) : Desk B :=
  settle { d with waiters := (fire d.waiters.reverse).reverse }
where
  fire : List Waiter → List Waiter
    | [] => []
    | w :: earlier =>
      if w.name == name then { w with source := w.source.cancel } :: earlier
      else w :: fire earlier

/-- What the latest wait of a name has come to. -/
def answer? (d : Desk B) (name : String) : Option Awaited :=
  (d.waiters.findRev? fun w => w.name == name).bind fun w => w.wait.answer

/-- Waits for a command while a responder publishes outcomes for each command that it sees, and
closes the feed behind them or not. Without an own outcome and without the end of the feed there is
no answer. -/
def awaitWith (c : Command B) (responses : List Outcome) (closes : Bool) :
    Option Awaited × List Note :=
  let d := ({} : Desk B)
  let d := d.subscribe.1
  let d := d.await "" c .never {}
  let d := responses.foldl (fun d o => (d.publish o).1) d
  let d := if closes then d.closeFeed else d
  (d.answer? "", d.notes)

end Desk

end Chronicle
