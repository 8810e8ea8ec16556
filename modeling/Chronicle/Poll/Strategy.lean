import Chronicle.Event.Basic

/-!
# Chronicle.Poll.Strategy

Where a poll loop reads next. Every strategy moves on behind a batch and stays after an empty read
or a temporary failure. `retryForever` also stays after a permanent one; `retryThenSkip` stays for a
budget of them and then skips the cursor, giving up what is there.
-/

namespace Chronicle

/-- What a read came to, for the cursor. -/
inductive PollOutcome (C : Type) where
  /-- Items were read; the cursor behind the last one. -/
  | advanced (next : C)
  | empty
  | failed (failure : ReadFailure)
  deriving DecidableEq

inductive Strategy (C : Type) where
  | retryForever
  /-- Counts the permanent failures since the last successful read or skip. -/
  | retryThenSkip (budget : Nat) (skip : C → C) (failures : Nat)

namespace Strategy

variable {C : Type}

def failures : Strategy C → Nat
  | .retryForever => 0
  | .retryThenSkip _ _ failures => failures

/-- Where to read next. -/
structure Move (C : Type) where
  strategy : Strategy C
  cursor : C
  /-- The polled cursor was given up. -/
  skipped : Bool

/-- The move after `polled` was read with this outcome. -/
def next (s : Strategy C) (polled : C) (outcome : PollOutcome C) : Move C :=
  match s, outcome with
  | .retryForever, .advanced next => ⟨.retryForever, next, false⟩
  | .retryForever, .empty => ⟨.retryForever, polled, false⟩
  | .retryForever, .failed _ => ⟨.retryForever, polled, false⟩
  | .retryThenSkip budget skip _, .advanced next => ⟨.retryThenSkip budget skip 0, next, false⟩
  | .retryThenSkip budget skip _, .empty => ⟨.retryThenSkip budget skip 0, polled, false⟩
  | .retryThenSkip budget skip n, .failed (.temporary _) =>
    ⟨.retryThenSkip budget skip n, polled, false⟩
  | .retryThenSkip budget skip n, .failed (.permanent _) =>
    if n + 1 ≤ budget then ⟨.retryThenSkip budget skip (n + 1), polled, false⟩
    else ⟨.retryThenSkip budget skip 0, skip polled, true⟩

/-- The moves after outcomes in order. What was polled is the cursor of the move before, unless an
outcome says otherwise. -/
def follow (s : Strategy C) (cursor : C) : List (Option C × PollOutcome C) → List (Move C)
  | [] => []
  | (polled, outcome) :: rest =>
    let move := s.next (polled.getD cursor) outcome
    move :: move.strategy.follow move.cursor rest

def Move.notes (m : Move C) : List Note :=
  if m.skipped then [.metric .cursorSkipped, .log .cursorSkipped] else []

def describe : Strategy C → String
  | .retryForever => "RetryForever"
  | .retryThenSkip budget _ failures =>
    "RetryThenSkip \x7b max_retries: " ++ toString budget ++ ", failures: " ++ toString failures
      ++ ", .. \x7d"

end Strategy

end Chronicle
