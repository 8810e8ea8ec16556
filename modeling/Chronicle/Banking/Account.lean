import Chronicle.Int64
import Chronicle.Projection.Projector

/-!
# Chronicle.Banking.Account

Accounts as histories of facts: opened with a balance, then withdrawn from and deposited to. The
projection of an account is its owner and balance. Balances may go negative, and they stop at the
ends of the 64-bit range.
-/

namespace Chronicle
namespace Banking

abbrev AccountId := String

/-- An amount of money in the smallest unit. -/
structure Money where
  amount : Int64
  deriving DecidableEq

namespace Money

def zero : Money := ⟨0⟩

def add (a b : Money) : Money := ⟨saturate (a.amount.toInt + b.amount.toInt)⟩

def sub (a b : Money) : Money := ⟨saturate (a.amount.toInt - b.amount.toInt)⟩

def isPositive (m : Money) : Bool := decide (0 < m.amount.toInt)

def lt (a b : Money) : Bool := decide (a.amount.toInt < b.amount.toInt)

def max (a b : Money) : Money := if a.lt b then b else a

def render (m : Money) : String := toString m.amount.toInt

end Money

inductive Fact where
  | opened (account : AccountId) (owner : String) (initial : Money)
  | withdrawn (account : AccountId) (transfer : Uuid) (amount : Money)
  | deposited (account : AccountId) (transfer : Uuid) (amount : Money)
  deriving DecidableEq

inductive Kind where
  | opened
  | withdrawn
  | deposited
  deriving DecidableEq

def category : String := "Account"

def streamOf (id : AccountId) : StreamId := ⟨category, id⟩

def Fact.account : Fact → AccountId
  | .opened account .. => account
  | .withdrawn account .. => account
  | .deposited account .. => account

def moneyCodec : Codec Money := Codec.int64.convert Money.amount Money.mk

def openedCodec : Codec (AccountId × String × Money) :=
  Codec.text.pair (Codec.text.pair moneyCodec)

def movedCodec : Codec (AccountId × Uuid × Money) := Codec.text.pair (Codec.uuid.pair moneyCodec)

instance : Vocabulary Fact where
  Kind := Kind
  kindEq := inferInstance
  kind
    | .opened .. => .opened
    | .withdrawn .. => .withdrawn
    | .deposited .. => .deposited
  tag
    | .opened => "AccountCreated.v1"
    | .withdrawn => "MoneyWithdrawn.v1"
    | .deposited => "MoneyDeposited.v1"
  stream f := streamOf f.account
  encode
    | .opened account owner initial => openedCodec.encode (account, owner, initial)
    | .withdrawn account transfer amount => movedCodec.encode (account, transfer, amount)
    | .deposited account transfer amount => movedCodec.encode (account, transfer, amount)
  decode
    | .opened => fun input => do
      let ((account, owner, initial), rest) ← openedCodec.decode input
      return (.opened account owner initial, rest)
    | .withdrawn => fun input => do
      let ((account, transfer, amount), rest) ← movedCodec.decode input
      return (.withdrawn account transfer amount, rest)
    | .deposited => fun input => do
      let ((account, transfer, amount), rest) ← movedCodec.decode input
      return (.deposited account transfer amount, rest)

structure Account where
  id : AccountId
  owner : String
  balance : Money
  deriving DecidableEq

namespace Account

def adjust (state : Option Account) (change : Money → Money) : Option Account :=
  state.map fun account => { account with balance := change account.balance }

def fold (state : Option Account) : Option Fact → Option Account
  | some (.opened id owner initial) => some ⟨id, owner, initial⟩
  | some (.withdrawn _ _ amount) => adjust state fun balance => balance.sub amount
  | some (.deposited _ _ amount) => adjust state fun balance => balance.add amount
  | none => state

/-- Money that moves from or to an account that was never opened is worth a warning. -/
def notes (state : Option Account) : Option Fact → List Note
  | some (.withdrawn ..) | some (.deposited ..) =>
    if state.isNone then [.log .unopenedAccount] else []
  | _ => []

/-- Owner and balance of every account. -/
def projector {A : Type} [Includes Fact A] : Projector A Account where
  concerns s := s.isOf category
  fold state e := fold state (e.payload.fact? Fact)
  notes state e := notes state (e.payload.fact? Fact)

end Account

end Banking
end Chronicle
