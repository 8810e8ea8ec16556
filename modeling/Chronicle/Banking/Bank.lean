import Chronicle.Banking.Request
import Chronicle.Node.Handling
import Chronicle.Node.Schedule

/-!
# Chronicle.Banking.Bank

The bank: a node with one polling event stream, the projections of the accounts fed by it, and a
dispatcher for its commands. Whoever executes a command waits until the read model has seen the
outcome, so what is read afterwards includes what the command did.

Identifiers are issued by counting, from a block of their own.
-/

namespace Chronicle
namespace Banking

/-- A registry of the bank's facts, where they are part of a vocabulary. -/
def registry {A : Type} [Vocabulary A] (within : Kind → Vocabulary.Kind A) :
    Except EventError (Registry A) :=
  Registry.empty.registerAll
    [(.fact (within .opened), "AccountCreated"), (.fact (within .withdrawn), "MoneyWithdrawn"),
     (.fact (within .deposited), "MoneyDeposited")]

structure Bank (A : Type) [Vocabulary A] where
  node : Node A Account Request
  /-- How many identifiers were issued. -/
  issued : Nat := 0

namespace Bank

variable {A : Type} [Vocabulary A] [Includes Fact A]

def closed (store : Store A) : Bank A :=
  { node :=
      { Node.new store Account.projector .unbounded with
        handlers := handlers, searches := true, notifies := some 0 } }

/-- Opens a bank over a log. Its tasks have not had a turn yet. -/
def start (store : Store A) (config : Config) : Bank A :=
  let node := { (closed store).node with policy := config.persistRetry }
  { node := (node.followLog config.wakeUp config.skipAfter).dispatch }

/-- The block of identifiers that is set aside for the bank begins here. It has the form of random
identifiers, and nothing else is to take identifiers from it. -/
def block : Nat := 0x8f1d6c523b7e4a909d24000000000000

def issue (b : Bank A) : Uuid × Bank A :=
  (Uuid.ofNat (block + b.issued + 1), { b with issued := b.issued + 1 })

def prepare (b : Bank A) (make : Uuid → Request) : Request × Bank A :=
  let (id, b) := b.issue
  (make id, b)

def settle (b : Bank A) : Bank A := { b with node := b.node.settle }

def advance (b : Bank A) (millis : Nat) : Bank A := { b with node := b.node.advance millis }

/-- Submits a command that somebody waits for. -/
def request (b : Bank A) (c : Command Request) : Await × Bank A :=
  let (wait, outcomes) := Await.begin b.node.model.outcomes c.id
  (wait, { b with node := { b.node with model := { b.node.model with outcomes } }.submit c })

/-- Lets a wait take what it finds, and gives it up. -/
def collect (b : Bank A) (wait : Await) : Option Awaited × Bank A :=
  let (wait, feed) := wait.run false b.node.model.outcomes
  let outcomes := feed.drop wait.subscription
  (wait.answer, { b with node := { b.node with model := { b.node.model with outcomes } } })

/-- Executes a command. There is no answer if the read model has not seen the outcome within the
limit. -/
def execute (b : Bank A) (c : Command Request) (limit : Option Nat) : Option Awaited × Bank A :=
  let (wait, b) := b.request c
  let node := b.node.runUntil (limit.map (b.node.now + ·)) fun n =>
    (wait.run false n.model.outcomes).1.answer.isSome
  { b with node }.collect wait

def ask (b : Bank A) (make : Uuid → Request) (limit : Option Nat) : Option Awaited × Bank A :=
  let (r, b) := b.prepare make
  let (id, b) := b.issue
  b.execute (r.command id) limit

/-- Runs the handler of a request by itself, its token having fired or not. What it decides is not
recorded. -/
def consult (b : Bank A) (r : Request) (fired : Bool) : Completion A × Bank A :=
  let (c, node) := Node.handle r.work fired b.node
  (c, { b with node })

def createAccount (b : Bank A) (account : AccountId) (owner : String) (initial : Money)
    (limit : Option Nat) : Option Awaited × Bank A :=
  b.ask (fun _ => .create account owner initial) limit

def transfer (b : Bank A) (source destination : AccountId) (amount : Money)
    (limit : Option Nat) : Option Awaited × Bank A :=
  b.ask (fun id => .transfer id source destination amount) limit

/-- The balance of an account, if it was opened. -/
def balance (b : Bank A) (account : AccountId) : Except RuntimeError (Option Money) × Bank A :=
  let (state, node) := b.node.serve fun m store => m.get store (streamOf account)
  (state.map fun account => account.map Account.balance, { b with node })

/-- Every account, by its identity in code point order. -/
def accounts (b : Bank A) : Except RuntimeError (List (AccountId × Account)) × Bank A :=
  let (all, node) := b.node.serve fun m store => m.getAll store
  let byId (states : List (StreamId × Account)) : List (AccountId × Account) :=
    let table := states.foldl
      (fun table held => (table.filter fun a => a.1 != held.2.id) ++ [(held.2.id, held.2)]) []
    table.mergeSort fun x y => x.1 ≤ y.1
  (all.map byId, { b with node })

end Bank
end Banking
end Chronicle
