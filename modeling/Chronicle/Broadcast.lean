/-!
# Chronicle.Broadcast

Fan-out to any number of subscribers without bounds or loss. Every subscription has a mailbox that
takes what is published from then on, in order. A mailbox is linked as long as the broadcaster still
delivers to it; a subscription that was given up is unlinked at the next publication. An unlinked
mailbox still holds what it took, and ends when that is used up.
-/

namespace Chronicle

/-- One subscription's side of a broadcaster. -/
structure Mailbox (T : Type) where
  /-- What was delivered and not yet taken, the earliest first. -/
  queue : List T := []
  /-- The broadcaster delivers to it. -/
  linked : Bool := true
  /-- The subscription was not given up. -/
  held : Bool := true
  deriving DecidableEq

namespace Mailbox

variable {T : Type}

def new : Mailbox T := {}

/-- Delivers an item, or unlinks a mailbox that nobody holds. -/
def deliver (m : Mailbox T) (item : T) : Mailbox T :=
  if m.linked && m.held then { m with queue := m.queue ++ [item] } else { m with linked := false }

def unlink (m : Mailbox T) : Mailbox T := { m with linked := false }

def prune (m : Mailbox T) : Mailbox T := { m with linked := m.linked && m.held }

def giveUp (m : Mailbox T) : Mailbox T := { m with queue := [], held := false }

/-- Nothing is left and nothing will come. -/
def ended (m : Mailbox T) : Bool := m.queue.isEmpty && !m.linked

end Mailbox

/-- A broadcaster with all subscriptions ever made; a subscription is known by its number. -/
structure Broadcaster (T : Type) where
  mailboxes : List (Mailbox T) := []
  deriving DecidableEq

/-- What a subscriber that asks for the next item is told. -/
inductive Receipt (T : Type) where
  | item (x : T)
  | ended
  | pending
  deriving DecidableEq

namespace Broadcaster

variable {T : Type}

def new : Broadcaster T := {}

/-- A further subscription, and its number. -/
def subscribe (b : Broadcaster T) : Broadcaster T × Nat :=
  (⟨b.mailboxes ++ [Mailbox.new]⟩, b.mailboxes.length)

/-- How many mailboxes are linked. -/
def links (b : Broadcaster T) : Nat := (b.mailboxes.filter fun m => m.linked).length

def publish (b : Broadcaster T) (item : T) : Broadcaster T × Nat :=
  let after : Broadcaster T := ⟨b.mailboxes.map fun m => m.deliver item⟩
  (after, after.links)

/-- Counts the subscriptions that are held and linked, and unlinks the others. -/
def subscriberCount (b : Broadcaster T) : Broadcaster T × Nat :=
  let after : Broadcaster T := ⟨b.mailboxes.map Mailbox.prune⟩
  (after, after.links)

def close (b : Broadcaster T) : Broadcaster T := ⟨b.mailboxes.map Mailbox.unlink⟩

def drop (b : Broadcaster T) (i : Nat) : Broadcaster T := ⟨b.mailboxes.modify i Mailbox.giveUp⟩

def mailbox (b : Broadcaster T) (i : Nat) : Mailbox T :=
  b.mailboxes[i]?.getD { linked := false, held := false }

def receive (b : Broadcaster T) (i : Nat) : Broadcaster T × Receipt T :=
  let m := b.mailbox i
  match m.queue with
  | x :: rest => (⟨b.mailboxes.modify i fun m => { m with queue := rest }⟩, .item x)
  | [] => (b, if m.linked then .pending else .ended)

/-- Takes the next item of subscription `i`, if there is one. -/
def receive? (b : Broadcaster T) (i : Nat) : Broadcaster T × Option T :=
  match b.receive i with
  | (b, .item x) => (b, some x)
  | (b, _) => (b, none)

/-- Takes everything that subscription `i` holds. -/
def drain (b : Broadcaster T) (i : Nat) : Broadcaster T × List T :=
  (⟨b.mailboxes.modify i fun m => { m with queue := [] }⟩, (b.mailbox i).queue)

def describe (b : Broadcaster T) : String :=
  "Broadcaster \x7b subscribers: " ++ toString b.links ++ " \x7d"

end Broadcaster

end Chronicle
