import Chronicle.Proofs.Banking.Balances
import Chronicle.Proofs.Command.Telling
import Chronicle.Proofs.Projection.Piping
import Mathlib.Logic.Function.Basic

/-!
# Chronicle.Proofs.Banking.Ledger

The bank as a map from identities to accounts. A request is answered from the map, and changes it at
once (`Ledger.execute`): there are no events, nothing is recorded and nothing is looked up. A log
holds such a ledger (`Ledger.ofLog`). The handler of a request that is told what the log holds answers
as the ledger does (`Ledger.resultOf_command`), and when the facts that it decides on are written, the
log holds the ledger behind the request (`Ledger.ofLog_recorded`).
-/

namespace Chronicle
namespace Banking

/-- The accounts that there are, by their identities. -/
abbrev Ledger := AccountId → Option Account

/-- The facts that are recorded about a request that is granted. -/
def Request.grants : Request → List Fact
  | .create account owner initial => [.opened account owner initial]
  | .transfer id source destination amount =>
    [.withdrawn source id amount, .deposited destination id amount]
  | .other _ => []

namespace Ledger

/-- What a request comes to, and the ledger behind it. -/
def execute (l : Ledger) : Request → Result × Ledger
  | .create account owner initial =>
    if Text.isBlank owner then (.error (.invalidInput "Account holder name cannot be empty"), l)
    else
      match l account with
      | some _ => (.error (.conflict ("Account " ++ account ++ " already exists")), l)
      | none =>
        (.ok ("Account " ++ account ++ " opened for " ++ owner),
          Function.update l account (some ⟨account, owner, initial⟩))
  | .transfer _ source destination amount =>
    let absent (role : String) (id : AccountId) : Failure :=
      .notFound (role ++ " account " ++ id ++ " not found")
    if amount.amount.toInt ≤ 0 then
      (.error (.invalidInput ("Transfer amount must be positive, got " ++ amount.render)), l)
    else if source = destination then
      (.error (.invalidInput "Cannot transfer to the same account"), l)
    else
      match l source, l destination with
      | some payer, some payee =>
        (.ok ("Transferred " ++ amount.render ++ " from " ++ source ++ " to " ++ destination),
          Function.update
            (Function.update l source (some { payer with balance := payer.balance.sub amount }))
            destination (some { payee with balance := payee.balance.add amount }))
      | none, some _ => (.error (absent "Source" source), l)
      | some _, none => (.error (absent "Destination" destination), l)
      | none, none =>
        (.error (.multiple [absent "Source" source, absent "Destination" destination]), l)
  | .other type =>
    let reason : String :=
      if type = "CreateAccount" ∨ type = "TransferMoney" then "Faulted: cannot handle " ++ type
      else "Unhandled: no handler registered for " ++ type
    (.error (.internal reason), l)

def run (l : Ledger) : List (CommandId × Request) → List Outcome × Ledger
  | [] => ([], l)
  | (id, r) :: rest =>
    let (outcomes, l') := (l.execute r).2.run rest
    (⟨id, (l.execute r).1⟩ :: outcomes, l')

def facts (l : Ledger) (r : Request) : List Fact :=
  if (l.execute r).1.isOk then r.grants else []

def post (l : Ledger) (f : Fact) : Ledger :=
  Function.update l f.account (Account.fold (l f.account) (some f))

/-- Every account has the identity that it is found under. -/
def Named (l : Ledger) : Prop := ∀ id held, l id = some held → held.id = id

variable {l : Ledger} {r : Request} {f : Fact}

theorem run_concat {requests : List (CommandId × Request)} {id : CommandId} :
    l.run (requests ++ [(id, r)]) =
      ((l.run requests).1 ++ [⟨id, ((l.run requests).2.execute r).1⟩],
        ((l.run requests).2.execute r).2) := by
  induction requests generalizing l with
  | nil => rfl
  | cons first rest ih =>
    rw [List.cons_append, run, ih]
    rfl

/-- The facts of a request make the ledger that is behind it. -/
theorem foldl_post : (l.facts r).foldl post l = (l.execute r).2 := by
  cases r with
  | create account owner initial =>
    simp only [facts, execute]
    split
    · rfl
    · cases l account <;> rfl
  | transfer id source destination amount =>
    simp only [facts, execute]
    split
    · rfl
    · split
      · rfl
      · rename_i hne
        cases hpayer : l source <;> cases hpayee : l destination <;> dsimp only
        case some.some payer payee =>
          have hother (x : Option Account) : Function.update l source x destination = some payee := by
            rw [Function.update_of_ne (Ne.symm hne), hpayee]
          simp only [Except.isOk, Except.toBool, if_true, Request.grants, List.foldl_cons,
            List.foldl_nil, post, Fact.account, Account.fold, Account.adjust, hpayer, Option.map_some,
            hother]
        all_goals rfl
  | other type => rfl

theorem length_facts_le : (l.facts r).length ≤ 2 := by
  unfold facts
  split
  · cases r <;> simp [Request.grants]
  · exact Nat.zero_le _

theorem Named.post (h : l.Named) : (l.post f).Named := by
  intro id held hheld
  unfold Ledger.post at hheld
  by_cases hid : id = f.account
  · subst hid
    rw [Function.update_self] at hheld
    have hadjusted {change : Money → Money}
        (hsome : Account.adjust (l f.account) change = some held) : held.id = f.account := by
      obtain ⟨earlier, hearlier, rfl⟩ := Option.map_eq_some_iff.mp hsome
      exact h _ earlier hearlier
    cases f <;> simp only [Account.fold] at hheld
    case opened account owner initial =>
      cases hheld
      rfl
    all_goals exact hadjusted hheld
  · rw [Function.update_of_ne hid] at hheld
    exact h id held hheld

theorem Named.foldl_post (h : l.Named) (facts : List Fact) : (facts.foldl Ledger.post l).Named := by
  induction facts generalizing l with
  | nil => exact h
  | cons f rest ih => exact ih h.post

/-! ## The ledger of a log -/

section Logs

variable {A : Type} [Vocabulary A] [Includes Fact A] {log more : List (Event A)} {e : Event A}

/-- The accounts as the log has them. -/
def ofLog (log : List (Event A)) : Ledger := fun id => Account.projector.projection log (streamOf id)

def recorded (l : Ledger) (id : CommandId) (r : Request) : List (Payload A) :=
  (l.facts r).map Payload.ofFact ++ [.outcome ⟨id, (l.execute r).1⟩]

theorem ofLog_concat (hplaced : Placed A) :
    ofLog (log ++ [e]) = (e.payload.fact? Fact).toList.foldl post (ofLog log) := by
  funext id
  unfold ofLog
  rw [Projector.projection_concat]
  show (if e.stream = streamOf id then Account.fold _ (e.payload.fact? Fact) else _) = _
  cases hfact : e.payload.fact? Fact with
  | none => exact ite_self _
  | some f =>
    have hstream : e.stream = streamOf f.account := by
      cases hp : e.payload with
      | outcome o =>
        rw [hp] at hfact
        cases hfact
      | fact a =>
        rw [hp] at hfact
        rw [Event.stream, hp]
        exact hplaced a f hfact
    show _ = post (ofLog log) f id
    rw [hstream, post]
    by_cases hid : id = f.account
    · rw [hid, if_pos rfl, Function.update_self]
      rfl
    · rw [if_neg fun h => hid (streamOf_injective h).symm, Function.update_of_ne hid]
      rfl

def factsAmong (ps : List (Payload A)) : List Fact := ps.filterMap fun p => p.fact? Fact

theorem ofLog_append (hplaced : Placed A) :
    ofLog (log ++ more) = (factsAmong (more.map Event.payload)).foldl post (ofLog log) := by
  induction more generalizing log with
  | nil =>
    rw [List.append_nil]
    rfl
  | cons e rest ih =>
    rw [List.append_cons, ih, ofLog_concat hplaced, List.map_cons]
    simp only [factsAmong, List.filterMap_cons]
    cases e.payload.fact? Fact <;> rfl

theorem named_ofLog (hplaced : Placed A) : (ofLog log).Named := by
  have hnone : (ofLog ([] : List (Event A))).Named := nofun
  have hall := hnone.foldl_post (factsAmong (log.map Event.payload))
  rwa [← ofLog_append hplaced, List.nil_append] at hall

omit [Vocabulary A] in
theorem factsAmong_recorded {id : CommandId} :
    factsAmong (l.recorded id r : List (Payload A)) = l.facts r := by
  have hfact : (fun p : Payload A => p.fact? Fact) ∘ Payload.ofFact = some := funext fact?_ofFact
  rw [factsAmong, recorded, List.filterMap_append, List.filterMap_map, hfact, List.filterMap_some]
  exact List.append_nil _

/-- When what is recorded about a request is in the log, the log holds the ledger behind it. -/
theorem ofLog_recorded (hplaced : Placed A) {id : CommandId}
    (h : more.map Event.payload = (ofLog log).recorded id r) :
    ofLog (log ++ more) = ((ofLog log).execute r).2 := by
  rw [ofLog_append hplaced, h, factsAmong_recorded, foldl_post]

/-! ### The handlers -/

theorem answerOf_streamOf (account : AccountId) :
    Account.projector.answerOf log (streamOf account) = .ok (ofLog log account) := by
  have hconcerns : (Account.projector : Projector A Account).concerns (streamOf account) = true :=
    beq_self_eq_true category
  rw [Projector.answerOf, if_pos hconcerns]
  rfl

/-- A handler that is told what the log holds answers a banking request as the ledger does. -/
theorem told_create {account : AccountId} {owner : String} {initial : Money} :
    (create account owner initial : Work A Account).told (Account.projector.answerOf log) =
      some (.handled ⟨((ofLog log).facts (.create account owner initial)).map Payload.ofFact,
        ((ofLog log).execute (.create account owner initial)).1⟩) := by
  unfold create
  simp only [facts, execute]
  split
  · rfl
  · simp only [withAccount, Work.told, answerOf_streamOf]
    cases ofLog log account <;> rfl

theorem told_transfer {id : Uuid} {source destination : AccountId} {amount : Money} :
    (transfer id source destination amount : Work A Account).told (Account.projector.answerOf log) =
      some (.handled
        ⟨((ofLog log).facts (.transfer id source destination amount)).map Payload.ofFact,
          ((ofLog log).execute (.transfer id source destination amount)).1⟩) := by
  unfold transfer
  simp only [facts, execute]
  by_cases hamount : amount.amount.toInt ≤ 0
  · have hrefused : (!amount.isPositive) = true := by
      simp only [Money.isPositive, Bool.not_eq_true', decide_eq_false_iff_not]
      omega
    rw [if_pos hrefused, if_pos hamount]
    rfl
  · have hgranted : ¬(!amount.isPositive) = true := by
      simp only [Money.isPositive, Bool.not_eq_true', decide_eq_false_iff_not]
      omega
    rw [if_neg hgranted, if_neg hamount]
    split
    · rfl
    · simp only [withAccount, Work.told, answerOf_streamOf]
      cases ofLog log source <;> cases ofLog log destination <;> rfl

theorem resultOf_handled {c : Command Request} {h : Handled A}
    (hfind : (handlers : HandlerTable A Account Request).find? c.type
      = some (.shared fun c => c.body.work))
    (htold : (c.body.work : Work A Account).told (Account.projector.answerOf log)
      = some (.handled h)) :
    handlers.resultOf (Account.projector.answerOf log) c
      = some (.processed c.id h.events h.result) := by
  simp only [HandlerTable.resultOf, HandlerTable.resolve, hfind, Bool.false_eq_true, if_false,
    Work.resultOf, htold]
  rfl

/-- A command comes to what the ledger of the log answers. -/
theorem resultOf_command (log : List (Event A)) (id : CommandId) (r : Request) :
    ∃ result : ProcessingResult A,
    handlers.resultOf (Account.projector.answerOf log) (r.command id) = some result ∧
      result.events = ((ofLog log).facts r).map Payload.ofFact ∧
      result.outcome = ⟨id, ((ofLog log).execute r).1⟩ := by
  cases r with
  | create account owner initial => exact ⟨_, resultOf_handled rfl told_create, rfl, rfl⟩
  | transfer transferId source destination amount =>
    exact ⟨_, resultOf_handled rfl told_transfer, rfl, rfl⟩
  | other type =>
    have houtcome (reason : String) (hreason : reason =
        if type = "CreateAccount" ∨ type = "TransferMoney" then "Faulted: cannot handle " ++ type
        else "Unhandled: no handler registered for " ++ type) :
        (⟨id, .error (.internal reason)⟩ : Outcome) = ⟨id, ((ofLog log).execute (.other type)).1⟩ := by
      rw [hreason]
      rfl
    by_cases hbound : type = "CreateAccount" ∨ type = "TransferMoney"
    · have hfind : (handlers : HandlerTable A Account Request).find? type
          = some (.shared fun c => c.body.work) := by
        rcases hbound with rfl | rfl <;> rfl
      refine ⟨.faulted id ("cannot handle " ++ type), ?_, rfl, houtcome _ ?_⟩
      · simp only [HandlerTable.resultOf, HandlerTable.resolve, Request.command, Request.type, hfind]
        rfl
      · rw [if_pos hbound, ← String.append_assoc]
        rfl
    · have hfind : (handlers : HandlerTable A Account Request).find? type = none := by
        rw [not_or] at hbound
        exact List.lookup_eq_none_iff.mpr (by simp [handlers, HandlerTable.register, hbound])
      refine ⟨.unhandled id ("no handler registered for " ++ type), ?_, rfl, houtcome _ ?_⟩
      · simp only [HandlerTable.resultOf, HandlerTable.resolve, Request.command, Request.type, hfind]
      · rw [if_neg hbound, ← String.append_assoc]
        rfl

end Logs
end Ledger
end Banking
end Chronicle
