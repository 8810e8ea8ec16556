import Chronicle.Banking.Bank

/-!
# Chronicle.Banking.Demo

A short session at the bank, told line by line. The bank's log keeps bytes.
-/

namespace Chronicle

mutual

/-- A failure's debugging text: its kind, and its message in quotes or its children in brackets. -/
def Failure.describe : Failure → String
  | .multiple children =>
    "Multiple([" ++ String.intercalate ", " (Failure.describeAll children) ++ "])"
  | .forbidden m => "Forbidden(" ++ Text.quote m ++ ")"
  | .notFound m => "NotFound(" ++ Text.quote m ++ ")"
  | .conflict m => "Conflict(" ++ Text.quote m ++ ")"
  | .internal m => "Internal(" ++ Text.quote m ++ ")"
  | .invalidInput m => "InvalidInput(" ++ Text.quote m ++ ")"
  | .cancelled m => "Cancelled(" ++ Text.quote m ++ ")"

def Failure.describeAll : List Failure → List String
  | [] => []
  | f :: rest => f.describe :: Failure.describeAll rest

end

namespace Banking
namespace Demo

/-- A session: the bank, and the lines told so far. -/
structure Session where
  bank : Bank Fact
  lines : List String := []

namespace Session

def tell (s : Session) (lines : List String) : Session := { s with lines := s.lines ++ lines }

def report (s : Session) (executed : Option Awaited × Bank Fact) : Except String Session :=
  match executed with
  | (some (.ok o), bank) =>
    let line := match o.result with
      | .ok message => "  ok: " ++ message
      | .error f => "  failed: " ++ f.describe
    .ok (tell { s with bank } [line])
  | (some (.error e), _) => .error e.message
  | (none, _) => .error "no outcome"

def createAccount (s : Session) (account : AccountId) (owner : String) (initial : Money) :
    Except String Session :=
  s.report (s.bank.createAccount account owner initial none)

def transfer (s : Session) (source destination : AccountId) (amount : Money) :
    Except String Session :=
  s.report (s.bank.transfer source destination amount none)

def balances (s : Session) : Except String Session :=
  let line (a : Account) : String :=
    "  " ++ a.owner ++ " (" ++ a.id ++ "): " ++ a.balance.render
  match s.bank.accounts with
  | (.ok accounts, bank) => .ok (tell { s with bank } (accounts.map fun a => line a.2))
  | (.error e, _) => .error e.message

end Session

def session : Except String Session := do
  let registry ← (registry (A := Fact) id).mapError EventError.message
  let s : Session := { bank := .start (.ofRecords registry Store.testClock) {} }
  let s := s.tell ["=== Banking Example: Money Transfers ===", "", "Opening accounts..."]
  let s ← s.createAccount "A" "Alex" Money.zero
  let s ← s.createAccount "B" "Mace" ⟨1000⟩
  let s := s.tell ["", "Transferring 123 from Alex to Mace..."]
  let s ← s.transfer "A" "B" ⟨123⟩
  let s := s.tell ["", "Transferring from an account that does not exist..."]
  let s ← s.transfer "Z" "B" ⟨5⟩
  let s := s.tell ["", "Opening Alex's account twice..."]
  let s ← s.createAccount "A" "Alex" Money.zero
  let s := s.tell ["", "Balances:"]
  let s ← s.balances
  return s.tell
    ["", toString s.bank.node.store.length ++ " events in the log", "", "=== Demo Complete ==="]

end Demo
end Banking
end Chronicle
