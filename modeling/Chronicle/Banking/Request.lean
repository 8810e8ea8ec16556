import Chronicle.Banking.Account
import Chronicle.Command.Handler
import Chronicle.Text.Blank

/-!
# Chronicle.Banking.Request

What the bank can be asked for, and how it answers. An account is opened once, under a name that is
not blank. A transfer moves a positive amount between two accounts that exist; both sides are
recorded in one write. Everything is decided on the projections of the accounts.
-/

namespace Chronicle
namespace Banking

inductive Request where
  | create (account : AccountId) (owner : String) (initial : Money)
  | transfer (id : Uuid) (source destination : AccountId) (amount : Money)
  /-- Something that the bank does not do. -/
  | other (type : String)
  deriving DecidableEq

namespace Request

def type : Request → String
  | .create .. => "CreateAccount"
  | .transfer .. => "TransferMoney"
  | .other type => type

def command (r : Request) (id : CommandId) : Command Request := ⟨id, r.type, r⟩

end Request

variable {A : Type} [Includes Fact A]

def refuse (f : Failure) : Work A Account := .finish (.handled (.failed f))

/-- The handler observed its cancellation. -/
def stop (reason : String) : Work A Account := .finish (.failed { cause := .cancelled reason })

/-- Asks for an account; a failure of the read model ends the run. -/
def withAccount (id : AccountId) (next : Option Account → Work A Account) : Work A Account :=
  .query (streamOf id) fun
    | .ok account => next account
    | .error e => .finish (.failed { cause := .runtime e })

def create (account : AccountId) (owner : String) (initial : Money) : Work A Account :=
  if Text.isBlank owner then refuse (.invalidInput "Account holder name cannot be empty")
  else
    withAccount account fun existing =>
      if existing.isSome then refuse (.conflict ("Account " ++ account ++ " already exists"))
      else
        .checkCancel fun fired =>
          if fired then stop "account creation cancelled"
          else
            .finish (.handled (.ok [Payload.ofFact (Fact.opened account owner initial)]
              ("Account " ++ account ++ " opened for " ++ owner)))

def missing (role : String) (id : AccountId) (found : Option Account) : Option Failure :=
  if found.isNone then some (.notFound (role ++ " account " ++ id ++ " not found")) else none

def transfer (id : Uuid) (source destination : AccountId) (amount : Money) : Work A Account :=
  if !amount.isPositive then
    refuse (.invalidInput ("Transfer amount must be positive, got " ++ amount.render))
  else if source = destination then
    refuse (.invalidInput "Cannot transfer to the same account")
  else
    withAccount source fun payer =>
    withAccount destination fun payee =>
      let failure := Failure.collect
        ([missing "Source" source payer, missing "Destination" destination payee].filterMap (·))
      if !failure.isNone then refuse failure
      else
        .checkCancel fun fired =>
          if fired then stop "transfer cancelled"
          else
            .finish (.handled (.ok
              [Payload.ofFact (Fact.withdrawn source id amount),
               Payload.ofFact (Fact.deposited destination id amount)]
              ("Transferred " ++ amount.render ++ " from " ++ source ++ " to " ++ destination)))

def Request.work : Request → Work A Account
  | .create account owner initial => Banking.create account owner initial
  | .transfer id source destination amount => Banking.transfer id source destination amount
  | .other type => .finish (.failed { cause := .plain ("cannot handle " ++ type) })

def handlers : HandlerTable A Account Request :=
  let handle (c : Command Request) : Work A Account := c.body.work
  (({} : HandlerTable A Account Request).register "CreateAccount" (.shared handle)).register
    "TransferMoney" (.shared handle)

end Banking
end Chronicle
