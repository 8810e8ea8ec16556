import Chronicle.Poll.Loop

/-!
# Chronicle.Poll.Trial

A poll loop run in virtual time against a scripted log. Reads take the time that the script gives
them, signals and the cancellation come at given times, and the run ends with the loop or when
enough items were taken.
-/

namespace Chronicle

/-- One read: how long it takes in milliseconds, and what it returns. -/
structure ScriptedRead (T : Type) where
  took : Nat := 0
  page : Except ReadFailure (List T)

/-- What a poll loop is run against. -/
structure PollTrial (C T : Type) where
  /-- The first cursor, and when it is available. -/
  cursor : C
  openAt : Nat
  /-- The `k`-th read from a cursor. -/
  read : Nat → C → ScriptedRead T
  /-- When the wake-up is signalled. -/
  signals : List Nat
  /-- When the token fires. -/
  cancelAt : Nat
  /-- How many items are taken, if not all. -/
  take : Option Nat

namespace PollTrial

variable {C T : Type}

structure State (C T : Type) where
  now : Nat
  loop : PollLoop C T
  wakeUp : WakeUp
  items : List (Nat × T) := []
  reads : List (Nat × C) := []
  notes : List Note := []

/-- Enough items were taken. -/
def satisfied (t : PollTrial C T) (s : State C T) : Bool :=
  match t.take with
  | some n => decide (n ≤ s.items.length)
  | none => false

/-- Lets time pass up to `time`: signals of that span are raised. -/
def passTo (t : PollTrial C T) (s : State C T) (time : Nat) : State C T :=
  let raised := t.signals.any fun signal => s.now < signal && signal ≤ time
  { s with now := time, wakeUp := if raised then s.wakeUp.signal else s.wakeUp }

/-- Ends the loop at the time of the cancellation. -/
def stop (t : PollTrial C T) (s : State C T) : State C T :=
  let s := t.passTo s (max s.now t.cancelAt)
  { s with loop := s.loop.cancel }

/-- The next step of a run, or `none` when it is over. -/
def step [DecidableEq C] (t : PollTrial C T) (s : State C T) : Option (State C T) :=
  if t.satisfied s then none
  else
    match s.loop.phase with
    | .ended => none
    | .opening =>
      if t.cancelAt ≤ max s.now t.openAt then some (t.stop s)
      else
        let s := t.passTo s (max s.now t.openAt)
        let (loop, wakeUp) := s.loop.begin s.wakeUp t.cursor
        some { s with loop, wakeUp }
    | .reading cursor =>
      if t.cancelAt ≤ s.now then some (t.stop s)
      else
        let read := t.read s.reads.length cursor
        let s := { s with reads := s.reads ++ [(s.now, cursor)] }
        if t.cancelAt ≤ s.now + read.took then some (t.stop s)
        else
          let s := t.passTo s (s.now + read.took)
          let (loop, notes) := s.loop.answer read.page
          some { s with loop, notes := s.notes ++ notes }
    | .emitting .. =>
      match s.loop.emit? with
      | some (item, loop) => some { s with loop, items := s.items ++ [(s.now, item)] }
      | none =>
        let (loop, notes) := s.loop.finishBatch
        some { s with loop, notes := s.notes ++ notes }
    | .resting _ hot =>
      let later (time : Nat) := if s.now < time then some (time - s.now) else none
      let signalAt := (t.signals.filterMap later).min?
      let rest := s.wakeUp.restFor hot signalAt (some (t.cancelAt - s.now))
      match rest.reason with
      | none => some (t.stop s)
      | some reason =>
        let rested := s.wakeUp.timeout hot
        let s := { s with now := s.now + rest.elapsed }
        let (loop, wakeUp) := s.loop.woken s.wakeUp rested reason
        some { s with loop, wakeUp }

/-- Runs until the end, at most `fuel` steps. -/
def runFor [DecidableEq C] (t : PollTrial C T) : (fuel : Nat) → State C T → State C T
  | 0, s => s
  | fuel + 1, s =>
    match t.step s with
    | some s => t.runFor fuel s
    | none => s

/-- Runs from time zero until the end. -/
def run [DecidableEq C] (t : PollTrial C T) (strategy : Strategy C) (after : T → C)
    (config : WakeUpConfig) : State C T :=
  t.runFor 0x1000000000000000 { now := 0, loop := .new strategy after, wakeUp := .new config }

end PollTrial

end Chronicle
