/-!
# Chronicle.Cancel

Cooperative cancellation. A source fires once and for good; tokens observe it, and a token of no
source never fires. A source that is given up without firing leaves its tokens as they are. A
`CancelScope` is a source together with the tokens that were handed out.
-/

namespace Chronicle

/-- The side that cancels. A source that was given up cannot fire any more. -/
structure CancelSource where
  fired : Bool := false
  held : Bool := true
  deriving DecidableEq

/-- The side that observes: a source's token, or one that never fires. -/
inductive CancelToken where
  | observing
  | never
  deriving DecidableEq

namespace CancelSource

def cancel (s : CancelSource) : CancelSource := { s with fired := s.fired || s.held }

def giveUp (s : CancelSource) : CancelSource := { s with held := false }

end CancelSource

def CancelToken.isFired (t : CancelToken) (source : CancelSource) : Bool :=
  match t with
  | .observing => source.fired
  | .never => false

structure CancelWait where
  /-- The token fired in time. -/
  fired : Bool
  /-- Milliseconds until both the wait and the cancellation are over. -/
  elapsed : Nat
  /-- The source afterwards. -/
  source : CancelSource
  deriving DecidableEq

/-- Waits at most `limit` milliseconds for a token, while the source fires after `cancelAfter`
milliseconds, if at all. -/
def CancelToken.wait (t : CancelToken) (source : CancelSource) (limit : Nat)
    (cancelAfter : Option Nat) : CancelWait :=
  let later := match cancelAfter with
    | some _ => source.cancel
    | none => source
  let firesAt : Option Nat :=
    if t.isFired source then some 0
    else if t.isFired later then cancelAfter
    else none
  let (fired, waited) := match firesAt with
    | some time => if time ≤ limit then (true, time) else (false, limit)
    | none => (false, limit)
  ⟨fired, max waited (cancelAfter.getD 0), later⟩

/-- A source and the tokens handed out beside it; a token is known by its number. -/
structure CancelScope where
  source : CancelSource := {}
  tokens : List CancelToken := []
  deriving DecidableEq

namespace CancelScope

/-- Hands a token out, and gives its number. -/
def issue (s : CancelScope) (t : CancelToken) : CancelScope × Nat :=
  ({ s with tokens := s.tokens ++ [t] }, s.tokens.length)

/-- A token by its number. What was not handed out never fires. -/
def token (s : CancelScope) (i : Nat) : CancelToken := s.tokens[i]?.getD .never

/-- Hands out a token that observes the same as another one. -/
def clone (s : CancelScope) (i : Nat) : CancelScope × Nat := s.issue (s.token i)

def cancel (s : CancelScope) : CancelScope := { s with source := s.source.cancel }

def giveUp (s : CancelScope) : CancelScope := { s with source := s.source.giveUp }

def isFired (s : CancelScope) (i : Nat) : Bool := (s.token i).isFired s.source

def wait (s : CancelScope) (i limit : Nat) (cancelAfter : Option Nat) : CancelScope × CancelWait :=
  let w := (s.token i).wait s.source limit cancelAfter
  ({ s with source := w.source }, w)

end CancelScope

end Chronicle
