import Chronicle.Command.Handler

/-!
# Chronicle.Command.Script

Handlers that follow a script: what a trial lets a handler do before its run ends, and how it ends.
Whatever can happen to a run can be written down this way, queries of the read model apart.
-/

namespace Chronicle

inductive Script (A : Type) where
  | ends (c : Completion A)
  /-- Waits for its token, and reports that it observed it. -/
  | waitCancel
  | sleep (millis : Nat) (next : Script A)
  /-- Fires the command's own token and goes on. -/
  | cancelThen (next : Script A)

/-- The completion that a handler of some name reports: it puts its name in front of a message of
success. -/
def Completion.signed {A : Type} (name : String) : Completion A → Completion A
  | .handled ⟨events, .ok message⟩ => .handled ⟨events, .ok (name ++ ":" ++ message)⟩
  | other => other

/-- The run of a scripted handler of some name. -/
def Script.work {A S : Type} (name : String) : Script A → Work A S
  | .ends c => .finish (c.signed name)
  | .waitCancel => .untilCancelled (.finish (.failed { cause := .cancelled "observed" }))
  | .sleep millis next => .sleep millis (next.work name)
  | .cancelThen next => .fireToken (next.work name)

end Chronicle
