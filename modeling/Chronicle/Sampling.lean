/-!
# Chronicle.Sampling

Taking items from a sequence that yields them at given times, up to a deadline. An item that is due
at the deadline is still taken. What was looked at is used up; what comes too late stays.
-/

namespace Chronicle

/-- A sequence, the time in milliseconds, and the items to come with their times, the earliest
first. -/
structure TimedItems (T : Type) where
  now : Nat := 0
  items : List (Nat × T)
  /-- The sequence ends behind the last item; otherwise nothing tells that it was the last. -/
  ends : Bool

namespace TimedItems

variable {T : Type}

/-- The next item, if it is due by the deadline. At the end there is nothing to wait for. -/
def next (s : TimedItems T) (deadline : Nat) : TimedItems T × Option T :=
  match s.items with
  | [] => ({ s with now := if s.ends then s.now else deadline }, none)
  | (time, x) :: rest =>
    if time ≤ deadline then ({ s with now := max s.now time, items := rest }, some x)
    else ({ s with now := deadline }, none)

/-- Takes up to `n` items that are due by the deadline. -/
def collectUntil (deadline : Nat) : (n : Nat) → TimedItems T → TimedItems T × List T
  | 0, s => (s, [])
  | n + 1, s =>
    match s.next deadline with
    | (s, none) => (s, [])
    | (s, some x) =>
      let (s, more) := collectUntil deadline n s
      (s, x :: more)

/-- Takes up to `n` items that come within so many milliseconds. -/
def collect (s : TimedItems T) (n within : Nat) : TimedItems T × List T :=
  collectUntil (s.now + within) n s

/-- Looks at up to `fuel` items for one that is accepted. -/
def matchUntil (deadline : Nat) (accepts : T → Bool) : (fuel : Nat) → TimedItems T →
    TimedItems T × Option T
  | 0, s => s.next deadline
  | fuel + 1, s =>
    match s.next deadline with
    | (s, none) => (s, none)
    | (s, some x) => if accepts x then (s, some x) else matchUntil deadline accepts fuel s

/-- Takes the first item that is accepted and comes within so many milliseconds, and those before
it. -/
def nextMatching (s : TimedItems T) (accepts : T → Bool) (within : Nat) :
    TimedItems T × Option T :=
  matchUntil (s.now + within) accepts s.items.length s

end TimedItems

end Chronicle
