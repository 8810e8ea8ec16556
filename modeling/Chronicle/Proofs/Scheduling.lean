import Chronicle.Node.Schedule
import Mathlib.Logic.Relation

/-!
# Chronicle.Proofs.Scheduling

In whatever order tasks take steps, and however long time passes (`Node.Stirs`), what every single
step keeps is kept (`Node.Lasting.run`). What the schedule of a node does is one such order
(`Node.stirs_runUntil`).
-/

namespace Chronicle
namespace Node

variable {A S B : Type} [Vocabulary A] [DecidableEq S] {P : Node A S B → Prop} {n m : Node A S B}
  {limit : Option Nat} {done : Node A S B → Bool}

/-- What goes on by itself in a node: a task takes a step, time passes, or the turns change. -/
inductive Stirs (n : Node A S B) : Node A S B → Prop where
  | move {n' : Node A S B} (t : TaskId) : n.move t = some n' → Stirs n n'
  | turns (turns : List TaskId) : Stirs n { n with turns }
  | now (now : Nat) : Stirs n { n with now }

/-- No step of a task changes that something holds of the node, and neither do the clock and the
order of the turns. -/
structure Lasting (P : Node A S B → Prop) : Prop where
  move {n n' : Node A S B} {t : TaskId} : P n → n.move t = some n' → P n'
  turns {n : Node A S B} (turns : List TaskId) : P n → P { n with turns }
  now {n : Node A S B} (now : Nat) : P n → P { n with now }

namespace Lasting

theorem run (hlasting : Lasting P) (h : P n) (hrun : Relation.ReflTransGen Stirs n m) : P m := by
  induction hrun with
  | refl => exact h
  | tail _ hstep ih =>
    cases hstep with
    | move t hmove => exact hlasting.move ih hmove
    | turns turns => exact hlasting.turns turns ih
    | now now => exact hlasting.now now ih

theorem turn (hlasting : Lasting P) (t : TaskId) (fuel : Nat) (h : P n) : P (turn fuel n t) := by
  induction fuel generalizing n with
  | zero => exact h
  | succ fuel ih =>
    unfold Node.turn
    cases hmove : n.move t with
    | none => exact h
    | some n' => exact ih (hlasting.move h hmove)

theorem requeue (hlasting : Lasting P) (t : TaskId) (h : P n) :
    P (if n.turns.contains t then (n.dismiss t).enlist t else n) := by
  split
  · unfold enlist
    split
    · exact hlasting.turns _ h
    · exact hlasting.turns _ (hlasting.turns (n.turns.erase t) h)
  · exact h

theorem settleFor (hlasting : Lasting P) (fuel : Nat) (h : P n) : P (settleFor fuel n) := by
  induction fuel generalizing n with
  | zero => exact h
  | succ fuel ih =>
    unfold Node.settleFor
    cases n.nextTurn? with
    | none => exact h
    | some t => exact ih (hlasting.requeue t (hlasting.turn t ample h))

theorem settle (hlasting : Lasting P) (h : P n) : P n.settle := hlasting.settleFor ample h

theorem runFor (hlasting : Lasting P) (fuel : Nat) (h : P n) : P (runFor limit done fuel n) := by
  induction fuel generalizing n with
  | zero => exact h
  | succ fuel ih =>
    have hsettled := hlasting.settle h
    unfold Node.runFor
    dsimp only
    split
    · exact hsettled
    · split
      · exact hlasting.now _ hsettled
      · split
        · exact ih (hlasting.now _ hsettled)
        · exact hlasting.now _ hsettled

theorem runUntil (hlasting : Lasting P) (h : P n) : P (n.runUntil limit done) := hlasting.runFor ample h

theorem advance (hlasting : Lasting P) (millis : Nat) (h : P n) : P (n.advance millis) :=
  hlasting.runUntil h

end Lasting

theorem lasting_stirs (n : Node A S B) : Lasting (Relation.ReflTransGen Stirs n) where
  move {_ _ t} h hmove := h.tail (.move t hmove)
  turns turns h := h.tail (.turns turns)
  now now h := h.tail (.now now)

theorem stirs_settle (n : Node A S B) : Relation.ReflTransGen Stirs n n.settle :=
  (lasting_stirs n).settle .refl

theorem stirs_runUntil (n : Node A S B) :
    Relation.ReflTransGen Stirs n (n.runUntil limit done) := (lasting_stirs n).runUntil .refl

theorem stirs_advance (n : Node A S B) (millis : Nat) :
    Relation.ReflTransGen Stirs n (n.advance millis) := (lasting_stirs n).advance millis .refl

end Node
end Chronicle
