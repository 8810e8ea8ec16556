import Chronicle.Banking.Demo

/-!
# Chronicle.Main

The program: tells the demonstration session.
-/

/-- Prints the session's lines, or the error that ended it. -/
def main : IO UInt32 := do
  match Chronicle.Banking.Demo.session with
  | .ok s =>
    for line in s.lines do
      IO.println line
    return 0
  | .error message =>
    IO.eprintln ("Error: " ++ message)
    return 1
