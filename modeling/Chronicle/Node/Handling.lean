import Chronicle.Node.Reads

/-!
# Chronicle.Node.Handling

Running a handler by itself, against a node's read model, and applying the log to the read model at
once. Nothing else runs meanwhile.
-/

namespace Chronicle
namespace Node

variable {A S B : Type} [Vocabulary A]

/-- Runs a handler to its end, its token having fired or not. Its sleeps let time pass, and a wait
for the token goes on at once. -/
def handle : Work A S → Bool → Node A S B → Completion A × Node A S B
  | .finish c, _, n => (c, n)
  | .sleep millis rest, fired, n => handle rest fired { n with now := n.now + millis }
  | .untilCancelled rest, fired, n => handle rest fired n
  | .checkCancel rest, fired, n => handle (rest fired) fired n
  | .fireToken rest, _, n => handle rest true n
  | .query stream rest, fired, n =>
    let served := n.model.get n.store stream
    let n := { n with model := served.model, store := served.store }.note served.notes
    handle (rest served.answer) fired n

def applyLog [DecidableEq S] (n : Node A S B) : Node A S B :=
  n.store.events.foldl (fun n e => (n.serve fun m store => m.applyNow store e).2) n

end Node
end Chronicle
