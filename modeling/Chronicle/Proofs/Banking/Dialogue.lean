import Chronicle.Proofs.Banking.Conserving
import Chronicle.Proofs.Banking.Ledger
import Chronicle.Proofs.Log.Likeness
import Chronicle.Proofs.Command.Errands
import Mathlib.Data.String.Basic

/-!
# Chronicle.Proofs.Banking.Dialogue

A bank whose commands are executed one after another, over a store that does not fail. In whatever
order the tasks of the bank take steps (`Dialogue`), everyone who is answered is answered as by the
ledger, and balances and accounts are those of the ledger (`executed_as_ledger`). What `Bank.execute`
does is one of these courses (`Dialogue.execute`).
-/

namespace Chronicle
namespace Banking

variable {A : Type} [Vocabulary A] [Includes Fact A]

structure Answered where
  id : CommandId
  request : Request
  answer : Awaited

/-- The read model of the bank has applied these events. -/
def Bank.HasRead (b : Bank A) (events : List (Event A)) : Prop :=
  ∀ e ∈ events, Position.reached b.node.model.cache.highWater e.position = true

/-- A bank that was opened over a log, and what happened since: commands were executed, each after the
one before it was answered, and in between somebody looked or took an identifier. All the while the
tasks of the bank take steps in whatever order; a command is answered when the wait for its outcome
finds one. Before the first command the bank has read what the log held. -/
inductive Dialogue (store : Store A) (config : Config) (base : List (Event A)) :
    List Answered → Bank A → Prop
  | start : Dialogue store config base [] (Bank.start store config)
  | answer {calls : List Answered} {b : Bank A} {node : Node A Account Request} {answer : Awaited}
      (id : CommandId) (r : Request) (earlier : Dialogue store config base calls b)
      (read : calls = [] → b.HasRead base)
      (stirs : Relation.ReflTransGen Node.Stirs (b.request (r.command id)).2.node node)
      (answered : ({ b with node }.collect (b.request (r.command id)).1).1 = some answer) :
      Dialogue store config base (calls ++ [⟨id, r, answer⟩])
        ({ b with node }.collect (b.request (r.command id)).1).2
  | stir {calls : List Answered} {b : Bank A} {node : Node A Account Request}
      (earlier : Dialogue store config base calls b) (stirs : Node.Stirs b.node node) :
      Dialogue store config base calls { b with node }
  | balance {calls : List Answered} {b : Bank A} (account : AccountId)
      (earlier : Dialogue store config base calls b) :
      Dialogue store config base calls (b.balance account).2
  | accounts {calls : List Answered} {b : Bank A} (earlier : Dialogue store config base calls b) :
      Dialogue store config base calls b.accounts.2
  | issue {calls : List Answered} {b : Bank A} (earlier : Dialogue store config base calls b) :
      Dialogue store config base calls b.issue.2

variable {store : Store A} {config : Config} {base log : List (Event A)} {calls : List Answered}
  {b : Bank A} {least : Nat}

/-- No command is under way, and at least so many events of the log were applied. -/
def Bank.Rests (store : Store A) (log : List (Event A)) (least : Nat) (b : Bank A) : Prop :=
  ∃ applied, least ≤ applied ∧
    Node.Rests Account.projector handlers store.contents.Recalls log applied b.node

omit [Vocabulary A] in
theorem concerns_outcome (o : Outcome) :
    (Account.projector : Projector A Account).concerns o.stream = false := by
  show (Outcome.category == category) = false
  decide

/-- A bank that was just opened has applied nothing. -/
theorem rests_start (hkeeps : store.Keeps base) (hsized : 0 < store.pageSize) (hquiet : store.Quiet)
    (hwrites : store.writeFaults = 0) : (Bank.start store config).Rests store base 0 := by
  have hcurrent : Session.Current Account.projector base
      ⟨(Bank.start store config).node.store, (Bank.start store config).node.model, 0⟩ :=
    (Session.Settled.of_start Collection.roomy_unbounded rfl hkeeps hsized hquiet).toCurrent
  have hresumes : EventStream.Resumes Position.zero 0 base [] Position.zero
      { source := .polling (.new config.wakeUp) Position.zero config.skipAfter
        outlet := ⟨[.new]⟩
        pull := some (.polling (EventStream.newLoop config.skipAfter) none) } := by
    refine ⟨⟨_, _, rfl⟩, ?_, .inl rfl, Mailbox.live_new, rfl⟩
    rintro pull ⟨⟩
    exact ⟨_, _, rfl, PollLoop.inStep_new _⟩
  have hpiped : Node.Piped Account.projector base 0 (Bank.start store config).node :=
    ⟨hcurrent, hquiet, rfl, rfl, _, .idle, .zero, streams_start, rfl, trivial, hresumes⟩
  have hsmooth : Node.Smooth Account.projector handlers store.contents.Recalls base 0
      (Bank.start store config).node :=
    { hpiped with
      handlers := rfl
      recalls := fun _ => id
      acks := rfl
      writes := hwrites
      shutdown := rfl
      dispatcher := ⟨[], rfl⟩
      inbox := Mailbox.live_new }
  have hjobs : (Bank.start store config).node.jobs = [] := rfl
  refine ⟨0, Nat.le_refl 0, { hsmooth with unasked := rfl, finished := fun j a hj => ?_ }⟩
  rw [hjobs] at hj
  cases hj

namespace Bank.Rests

variable {r : Request}

theorem caughtUp (h : b.Rests store log log.length) :
    Node.Rests Account.projector handlers store.contents.Recalls log log.length b.node := by
  obtain ⟨applied, hall, hrests⟩ := h
  rwa [Nat.le_antisymm hrests.bounded hall] at hrests

/-- A bank that has read the log has applied all of it. -/
theorem of_hasRead (h : b.Rests store log least) (hread : b.HasRead log) :
    b.Rests store log log.length := by
  obtain ⟨applied, -, hrests⟩ := h
  refine ⟨applied, ?_, hrests⟩
  by_contra hlags
  have hnext : log[applied]? = some log[applied] := List.getElem?_eq_getElem (by omega)
  have hmark := (hrests.current.mark _).mp (hread _ (List.mem_of_getElem? hnext))
  rw [hrests.current.keeps.numbered.position hnext] at hmark
  exact Nat.lt_irrefl _ hmark

omit [Vocabulary A] in
theorem outcome?_facts {facts : List Fact} : ∀ q ∈ facts.map (Payload.ofFact (A := A)),
    q.outcome? = none := by
  intro q hq
  obtain ⟨f, -, rfl⟩ := List.mem_map.mp hq
  rfl

/-- Whoever waits for a command and is answered, is answered as by the ledger that the log holds, and
from then on the log holds the ledger behind it. -/
theorem answer (hplaced : Placed A) (h : b.Rests store log log.length) {id : CommandId}
    {node : Node A Account Request} {answer : Awaited}
    (hrecalls : ∀ q ∈ ((Ledger.ofLog log).recorded id r : List (Payload A)), store.contents.Recalls q)
    (hroom : log.length + 3 < 0x10000000000000000)
    (hstirs : Relation.ReflTransGen Node.Stirs (b.request (r.command id)).2.node node)
    (hanswer : ({ b with node }.collect (b.request (r.command id)).1).1 = some answer) :
    answer = .ok ⟨id, ((Ledger.ofLog log).execute r).1⟩ ∧ ∃ log', log'.length ≤ log.length + 3 ∧
      Ledger.ofLog log' = ((Ledger.ofLog log).execute r).2 ∧
      ({ b with node }.collect (b.request (r.command id)).1).2.Rests store log' log'.length := by
  obtain ⟨result, hcomes, hevents, houtcome⟩ := Ledger.resultOf_command log id r
  have hrecorded : result.events ++ [.outcome result.outcome] = (Ledger.ofLog log).recorded id r := by
    rw [hevents, houtcome, Ledger.recorded]
  have hlength : result.events.length ≤ 2 := by
    rw [hevents, List.length_map]
    exact Ledger.length_facts_le
  have hnone : ∀ q ∈ result.events, q.outcome? = none := hevents ▸ outcome?_facts
  rw [← hrecorded] at hrecalls
  have hsubscribed := h.caughtUp.feeds b.node.model.outcomes.subscribe.1
  have hsubmitted := hsubscribed.submit hcomes
    (Broadcaster.mailbox_subscribe (b := b.node.model.outcomes))
  have hroom' : log.length + result.events.length + 1 < 0x10000000000000000 := by omega
  obtain ⟨more, told, herrand⟩ :=
    (Node.Errand.lasting concerns_outcome hrecalls hroom').run ⟨[], 0, hsubmitted⟩ hstirs
  obtain ⟨rfl, hmore, hrests⟩ := herrand.answered hnone rfl rfl hanswer
  refine ⟨by rw [houtcome], log ++ more, ?_, ?_, ?_⟩
  · have hsame := congrArg List.length hmore
    simp only [List.length_map, List.length_append, List.length_singleton] at hsame ⊢
    omega
  · exact Ledger.ofLog_recorded hplaced (hmore.trans hrecorded)
  · exact ⟨_, Nat.le_refl _, hrests.feeds _⟩

/-! ### What is read -/

/-- A balance is the one of the ledger that the log holds. -/
theorem balance_eq (h : b.Rests store log log.length) (account : AccountId) :
    (b.balance account).1 = .ok ((Ledger.ofLog log account).map Account.balance) := by
  have hrests := h.caughtUp
  have hanswer : (b.node.model.get b.node.store (streamOf account)).answer = _ :=
    hrests.current.answer_get hrests.quiet rfl (streamOf account)
  rw [Ledger.answerOf_streamOf] at hanswer
  show (b.node.model.get b.node.store (streamOf account)).answer.map _ = _
  rw [hanswer]
  rfl

end Bank.Rests

/-- States of accounts that differ are entered side by side. -/
theorem foldl_table {states : List (StreamId × Account)} {table : List (AccountId × Account)}
    (hdistinct : states.Pairwise fun x y => x.2.id ≠ y.2.id)
    (hnew : ∀ entry ∈ table, ∀ held ∈ states, entry.1 ≠ held.2.id) :
    states.foldl (fun table held =>
      (table.filter fun a => a.1 != held.2.id) ++ [(held.2.id, held.2)]) table
      = table ++ states.map fun held => (held.2.id, held.2) := by
  induction states generalizing table with
  | nil => exact (List.append_nil _).symm
  | cons held rest ih =>
    obtain ⟨hhead, hrest⟩ := List.pairwise_cons.mp hdistinct
    have hkept : (table.filter fun a => a.1 != held.2.id) = table :=
      List.filter_eq_self.mpr fun entry hentry => by
        simpa using hnew entry hentry held List.mem_cons_self
    rw [List.foldl_cons, hkept, ih hrest, List.append_assoc]
    · rfl
    · intro entry hentry other hother
      rcases List.mem_append.mp hentry with hold | hlast
      · exact hnew entry hold other (List.mem_cons_of_mem _ hother)
      · rw [List.mem_singleton.mp hlast]
        exact hhead other hother

/-- A table whose identities differ is sorted strictly. -/
theorem pairwise_mergeSort_table {table : List (AccountId × Account)}
    (hdistinct : table.Pairwise fun x y => x.1 ≠ y.1) :
    (table.mergeSort fun x y => x.1 ≤ y.1).Pairwise fun x y => x.1 < y.1 := by
  have hsorted : (table.mergeSort fun x y => x.1 ≤ y.1).Pairwise fun x y => x.1 ≤ y.1 := by
    refine (List.pairwise_mergeSort ?_ ?_ table).imp of_decide_eq_true
    · simp only [decide_eq_true_eq]
      exact fun x y z => le_trans
    · simp only [Bool.or_eq_true, decide_eq_true_eq]
      exact fun x y => le_total _ _
  have hapart : (table.mergeSort fun x y => x.1 ≤ y.1).Pairwise fun x y => x.1 ≠ y.1 :=
    ((List.mergeSort_perm table _).pairwise_iff fun h => h.symm).mpr hdistinct
  exact (hsorted.and hapart).imp fun h => lt_of_le_of_ne h.1 h.2

/-- What has a projection among the streams of accounts is the account that the stream is named
after. -/
theorem projection_iff (hplaced : Placed A) {s : StreamId} {held : Account} :
    (Account.projector : Projector A Account).concerns s = true ∧
        Account.projector.projection log s = some held ↔
      s = streamOf held.id ∧ Ledger.ofLog log held.id = some held := by
  constructor
  · rintro ⟨hs, hprojection⟩
    have hkey : s = streamOf s.key := by
      rw [show s = ⟨s.category, s.key⟩ from rfl, eq_of_beq hs]
      rfl
    rw [hkey] at hprojection
    have hname : held.id = s.key := Ledger.named_ofLog hplaced _ held hprojection
    rw [hname]
    exact ⟨hkey, hprojection⟩
  · rintro ⟨rfl, hprojection⟩
    exact ⟨beq_self_eq_true category, hprojection⟩

/-- The accounts are those of the ledger that the log holds, in the order of their identities. -/
theorem Bank.Rests.accounts_eq (hplaced : Placed A) (h : b.Rests store log log.length) :
    ∃ all, b.accounts.1 = .ok all ∧ (all.Pairwise fun x y => x.1 < y.1) ∧
      ∀ id held, (id, held) ∈ all ↔ Ledger.ofLog log id = some held := by
  have hrests := h.caughtUp
  obtain ⟨states, hanswer, hdistinct, hstates⟩ :=
    hrests.current.answer_getAll hrests.quiet hrests.unbounded rfl
  have hheld (s : StreamId) (held : Account) : (s, held) ∈ states ↔
      s = streamOf held.id ∧ Ledger.ofLog log held.id = some held :=
    (hstates s held).trans (projection_iff hplaced)
  have hids : states.Pairwise fun x y => x.2.id ≠ y.2.id := by
    refine hdistinct.imp_of_mem fun {x y} hx hy hne hsame => hne ?_
    rw [((hheld x.1 x.2).mp hx).1, ((hheld y.1 y.2).mp hy).1, hsame]
  have hempty : ∀ entry ∈ ([] : List (AccountId × Account)), ∀ held ∈ states,
      entry.1 ≠ held.2.id := fun _ h => absurd h List.not_mem_nil
  let table := states.map fun held => (held.2.id, held.2)
  have haccounts : b.accounts.1 = .ok (table.mergeSort fun x y => x.1 ≤ y.1) := by
    show (b.node.model.getAll b.node.store).answer.map _ = _
    rw [hanswer]
    exact congrArg (fun table => Except.ok (List.mergeSort table fun x y => decide (x.1 ≤ y.1)))
      (foldl_table hids hempty)
  refine ⟨_, haccounts, pairwise_mergeSort_table (List.pairwise_map.mpr hids), fun id held => ?_⟩
  rw [List.mem_mergeSort, List.mem_map]
  constructor
  · rintro ⟨x, hx, heq⟩
    cases heq
    exact ((hheld x.1 x.2).mp hx).2
  · intro hledger
    have hname : held.id = id := Ledger.named_ofLog hplaced id held hledger
    refine ⟨(streamOf held.id, held), (hheld _ _).mpr ⟨rfl, ?_⟩, by rw [hname]⟩
    rw [hname]
    exact hledger

/-! ## Whole dialogues -/

/-- What the ledger that the log held at first comes to with the commands that were executed. -/
def ledgerAfter (base : List (Event A)) (calls : List Answered) : List Outcome × Ledger :=
  (Ledger.ofLog base).run (calls.map fun x => (x.id, x.request))

theorem ledgerAfter_concat {x : Answered} : ledgerAfter base (calls ++ [x]) =
    ((ledgerAfter base calls).1 ++ [⟨x.id, ((ledgerAfter base calls).2.execute x.request).1⟩],
      ((ledgerAfter base calls).2.execute x.request).2) := by
  unfold ledgerAfter
  rw [List.map_append]
  exact Ledger.run_concat

/-- All of the log was applied: after a command in any case, and before the first one if the bank has
read what the log held. -/
theorem Bank.Rests.caught_of_calls (h : b.Rests store log (if calls = [] then 0 else log.length))
    (hbase : calls = [] → log = base) (hread : calls = [] → b.HasRead base) :
    b.Rests store log log.length := by
  by_cases hcalls : calls = []
  · have hread' := hread hcalls
    rw [← hbase hcalls] at hread'
    exact h.of_hasRead hread'
  · rwa [if_neg hcalls] at h

/-- After a dialogue the log holds what the ledger has come to, and what was answered is what the
ledger answered. After the first command all of the log was applied. -/
theorem Dialogue.rests (hplaced : Placed A) (hkeeps : store.Keeps base)
    (hsized : 0 < store.pageSize) (hquiet : store.Quiet) (hwrites : store.writeFaults = 0)
    (h : Dialogue store config base calls b)
    (hrecalls : ∀ x ∈ calls, ∀ l : Ledger, ∀ q ∈ (l.recorded x.id x.request : List (Payload A)),
      store.contents.Recalls q)
    (hroom : base.length + 3 * calls.length < 0x10000000000000000) :
    ∃ log, b.Rests store log (if calls = [] then 0 else log.length) ∧ (calls = [] → log = base) ∧
      log.length ≤ base.length + 3 * calls.length ∧ Ledger.ofLog log = (ledgerAfter base calls).2 ∧
      calls.map Answered.answer = (ledgerAfter base calls).1.map .ok := by
  induction h with
  | start =>
    exact ⟨base, rests_start hkeeps hsized hquiet hwrites, fun _ => rfl, Nat.le_add_right _ _, rfl,
      rfl⟩
  | @answer calls b node answer id r earlier read stirs answered ih =>
    rw [List.length_append, List.length_singleton] at hroom
    obtain ⟨log, hrests, hbase, hlength, hledger, hanswers⟩ :=
      ih (fun x hx => hrecalls x (List.mem_append_left _ hx)) (by omega)
    have hcaught := hrests.caught_of_calls hbase read
    have hrecalls' : ∀ q ∈ ((Ledger.ofLog log).recorded id r : List (Payload A)),
        store.contents.Recalls q :=
      hrecalls _ (List.mem_append_right _ (List.mem_singleton_self _)) _
    obtain ⟨rfl, log', hlength', hledger', hrests'⟩ :=
      hcaught.answer hplaced hrecalls' (by omega) stirs answered
    rw [hledger] at hledger' ⊢
    have hsome (x : Answered) : calls ++ [x] ≠ [] := List.append_ne_nil_of_right_ne_nil _ (by simp)
    refine ⟨log', ?_, fun h => absurd h (hsome _), ?_, ?_, ?_⟩
    · rw [if_neg (hsome _)]
      exact hrests'
    · rw [List.length_append, List.length_singleton]
      omega
    · rw [ledgerAfter_concat, hledger']
    · rw [ledgerAfter_concat, List.map_append, List.map_append, hanswers]
      rfl
  | balance account earlier ih =>
    obtain ⟨log, ⟨applied, hleast, h⟩, hrest⟩ := ih hrecalls hroom
    exact ⟨log, ⟨applied, hleast, h.get _⟩, hrest⟩
  | accounts earlier ih =>
    obtain ⟨log, ⟨applied, hleast, h⟩, hrest⟩ := ih hrecalls hroom
    exact ⟨log, ⟨applied, hleast, h.getAll⟩, hrest⟩
  | stir earlier stirs ih =>
    obtain ⟨log, hrests, hrest⟩ := ih hrecalls hroom
    exact ⟨log, (Node.Rests.lasting concerns_outcome _).run hrests (.single stirs), hrest⟩
  | issue earlier ih =>
    obtain ⟨log, hrests, hrest⟩ := ih hrecalls hroom
    exact ⟨log, hrests, hrest⟩

/-- Commands are executed one after another by a bank whose store does not fail, and whose tasks take
steps in any order. Everyone who is answered is answered as by a ledger that begins with what the log
held at first. What is read afterwards, balances and accounts, is what the ledger has. -/
theorem executed_as_ledger (hplaced : Placed A) (hkeeps : store.Keeps base)
    (hsized : 0 < store.pageSize) (hquiet : store.Quiet) (hwrites : store.writeFaults = 0)
    (h : Dialogue store config base calls b)
    (hrecalls : ∀ x ∈ calls, ∀ l : Ledger, ∀ q ∈ (l.recorded x.id x.request : List (Payload A)),
      store.contents.Recalls q)
    (hroom : base.length + 3 * calls.length < 0x10000000000000000) :
    calls.map Answered.answer = (ledgerAfter base calls).1.map .ok ∧
      ((calls = [] → b.HasRead base) →
        (∀ account, (b.balance account).1
          = .ok (((ledgerAfter base calls).2 account).map Account.balance)) ∧
        ∃ all, b.accounts.1 = .ok all ∧ (all.Pairwise fun x y => x.1 < y.1) ∧
          ∀ id held, (id, held) ∈ all ↔ (ledgerAfter base calls).2 id = some held) := by
  obtain ⟨log, hrests, hbase, -, hledger, hanswers⟩ :=
    h.rests hplaced hkeeps hsized hquiet hwrites hrecalls hroom
  refine ⟨hanswers, fun hread => ?_⟩
  have hcaught := hrests.caught_of_calls hbase hread
  refine ⟨fun account => ?_, ?_⟩
  · rw [hcaught.balance_eq, hledger]
  · rw [← hledger]
    exact hcaught.accounts_eq hplaced

/-! ### The schedule of the bank -/

section Schedule

variable (h : Dialogue store config base calls b)
include h

theorem Dialogue.stirred {node : Node A Account Request}
    (hrun : Relation.ReflTransGen Node.Stirs b.node node) :
    Dialogue store config base calls { b with node } := by
  induction hrun with
  | refl => exact h
  | tail _ hstirs ih => exact ih.stir hstirs

theorem Dialogue.settle : Dialogue store config base calls b.settle :=
  h.stirred (Node.stirs_settle b.node)

theorem Dialogue.advance (millis : Nat) : Dialogue store config base calls (b.advance millis) :=
  h.stirred (Node.stirs_advance b.node millis)

/-- Whoever executes a command waits while the tasks take steps in one of the orders that there are. -/
theorem Dialogue.execute (id : CommandId) (r : Request) (limit : Option Nat)
    (hread : calls = [] → b.HasRead base) {answer : Awaited}
    (hanswer : (b.execute (r.command id) limit).1 = some answer) :
    Dialogue store config base (calls ++ [⟨id, r, answer⟩]) (b.execute (r.command id) limit).2 :=
  h.answer id r hread (Node.stirs_runUntil _) hanswer

end Schedule

/-! ### A bank that keeps bytes -/

/-- A store that keeps bytes under the bank's registry can be written every payload whose texts are
short enough to be written behind their lengths. -/
theorem recalls_of_fits {registry : Registry Fact} (hregistry : Banking.registry id = .ok registry)
    {kept : List Record} {q : Payload Fact} (hfits : q.Fits Fact.Fits) :
    (Contents.records registry kept).Recalls q :=
  (registry_binds hregistry q).recalls (hfits.readable exact_facts) kept

/-- What is recorded about a request fits if the facts that it can bring about do, and what is answered
does. -/
theorem fits_recorded {l : Ledger} {id : CommandId} {r : Request} (hgrants : ∀ f ∈ r.grants, f.Fits)
    (hresult : (l.execute r).1.Fits) :
    ∀ q ∈ (l.recorded id r : List (Payload Fact)), q.Fits Fact.Fits := by
  intro q hq
  rcases List.mem_append.mp hq with hfact | hlast
  · obtain ⟨f, hf, rfl⟩ := List.mem_map.mp hfact
    unfold Ledger.facts at hf
    split at hf
    · exact hgrants f hf
    · cases hf
  · rw [List.mem_singleton.mp hlast]
    exact hresult

theorem fits_create {l : Ledger} {id : CommandId} {account : AccountId} {owner : String}
    {initial : Money} (hblank : Text.isBlank owner = false) (haccount : Codec.TextFits account)
    (howner : Codec.TextFits owner)
    (hopened : Codec.TextFits ("Account " ++ account ++ " opened for " ++ owner))
    (hopen : Codec.TextFits ("Account " ++ account ++ " already exists")) :
    ∀ q ∈ (l.recorded id (.create account owner initial) : List (Payload Fact)),
      q.Fits Fact.Fits := by
  refine fits_recorded (List.forall_mem_singleton.mpr ⟨haccount, howner⟩) ?_
  simp only [Ledger.execute, hblank]
  cases l account with
  | none => exact hopened
  | some held => exact hopen

theorem fits_transfer {l : Ledger} {id : CommandId} {transfer : Uuid} {source destination : AccountId}
    {amount : Money} (hpositive : ¬ amount.amount.toInt ≤ 0) (hne : source ≠ destination)
    (hsource : Codec.TextFits source) (hdestination : Codec.TextFits destination)
    (hmoved : Codec.TextFits
      ("Transferred " ++ amount.render ++ " from " ++ source ++ " to " ++ destination))
    (hpayer : Codec.TextFits ("Source account " ++ source ++ " not found"))
    (hpayee : Codec.TextFits ("Destination account " ++ destination ++ " not found")) :
    ∀ q ∈ (l.recorded id (.transfer transfer source destination amount) : List (Payload Fact)),
      q.Fits Fact.Fits := by
  have hgrants : ∀ f ∈ (Request.transfer transfer source destination amount).grants, f.Fits :=
    List.forall_mem_cons.mpr ⟨hsource, List.forall_mem_singleton.mpr hdestination⟩
  refine fits_recorded hgrants ?_
  have htwo : Codec.Countable 2 := by decide
  simp only [Ledger.execute, hpositive, hne, if_false]
  cases l source <;> cases l destination
  · exact ⟨htwo, hpayer, hpayee, trivial⟩
  · exact hpayer
  · exact hpayee
  · exact hmoved

/-- Two accounts are opened, money is moved between them, and a transfer is refused. -/
def business : List (CommandId × Request) :=
  [(.ofNat 1, .create "B" "Mace" ⟨5⟩), (.ofNat 2, .create "A" "Alex" ⟨100⟩),
    (.ofNat 3, .transfer (.ofNat 5) "A" "B" ⟨30⟩), (.ofNat 4, .transfer (.ofNat 6) "C" "B" ⟨1⟩)]

theorem fits_business (l : Ledger) : ∀ x ∈ business,
    ∀ q ∈ (l.recorded x.1 x.2 : List (Payload Fact)), q.Fits Fact.Fits := by
  have hA : Codec.TextFits "A" := by decide
  have hB : Codec.TextFits "B" := by decide
  intro x hx
  simp only [business, List.mem_cons, List.not_mem_nil, or_false] at hx
  rcases hx with rfl | rfl | rfl | rfl
  · exact fits_create (by decide) hB (by decide) (by decide) (by decide)
  · exact fits_create (by decide) hA (by decide) (by decide) (by decide)
  · exact fits_transfer (by decide) (by decide) hA hB (by decide) (by decide) (by decide)
  · exact fits_transfer (by decide) (by decide) (by decide) hB (by decide) (by decide) (by decide)

def emptyFile : Store Fact :=
  match Banking.registry id with
  | .ok registry => .ofRecords registry 0
  | .error _ => .ofPayloads 0

/-- A bank over an empty store, after so many of these commands. After each of them somebody looks at
one account, and then at all of them. -/
def bankAfter (n : Nat) : Bank Fact :=
  (business.take n).foldl
    (fun b x => ((b.execute (x.2.command x.1) none).2.balance "B").2.accounts.2)
    (Bank.start emptyFile {})

/-- Before the second command, whoever looks at the first account finds what it was opened with. -/
theorem business_executed_as_ledger : ∃ calls : List Answered,
    Dialogue emptyFile {} [] calls (bankAfter 4) ∧
      calls.map Answered.answer =
        [.ok ⟨.ofNat 1, .ok "Account B opened for Mace"⟩,
          .ok ⟨.ofNat 2, .ok "Account A opened for Alex"⟩,
          .ok ⟨.ofNat 3, .ok "Transferred 30 from A to B"⟩,
          .ok ⟨.ofNat 4, .error (.notFound "Source account C not found")⟩] ∧
      ((bankAfter 1).balance "B").1.toOption = some (some ⟨5⟩) ∧
      ((bankAfter 4).balance "A").1 = .ok (some ⟨70⟩) ∧
      ((bankAfter 4).balance "C").1 = .ok none := by
  have hread {calls : List Answered} (b : Bank Fact) : calls = [] → b.HasRead [] :=
    fun _ _ h => absurd h List.not_mem_nil
  have hanswered (n : Nat) (r : Request)
      (h : ((bankAfter n).execute (r.command (.ofNat (n + 1))) none).1.isSome = true) :
      ∃ answer, ((bankAfter n).execute (r.command (.ofNat (n + 1))) none).1 = some answer :=
    Option.isSome_iff_exists.mp h
  obtain ⟨a₁, h₁⟩ := hanswered 0 (.create "B" "Mace" ⟨5⟩) (by decide +kernel)
  obtain ⟨a₂, h₂⟩ := hanswered 1 (.create "A" "Alex" ⟨100⟩) (by decide +kernel)
  obtain ⟨a₃, h₃⟩ := hanswered 2 (.transfer (.ofNat 5) "A" "B" ⟨30⟩) (by decide +kernel)
  obtain ⟨a₄, h₄⟩ := hanswered 3 (.transfer (.ofNat 6) "C" "B" ⟨1⟩) (by decide +kernel)
  obtain ⟨calls, hcalls, hdialogue⟩ : ∃ calls : List Answered,
      calls.map (fun x => (x.id, x.request)) = business ∧
        Dialogue emptyFile {} [] calls (bankAfter 4) := by
    have hstart : Dialogue emptyFile {} [] [] (bankAfter 0) := .start
    have hlooks {calls : List Answered} {b : Bank Fact} (h : Dialogue emptyFile {} [] calls b) :
        Dialogue emptyFile {} [] calls (b.balance "B").2.accounts.2 := (h.balance "B").accounts
    have hfirst := hlooks (hstart.execute _ _ none (hread _) h₁)
    have hsecond := hlooks (hfirst.execute _ _ none (hread _) h₂)
    have hthird := hlooks (hsecond.execute _ _ none (hread _) h₃)
    exact ⟨_, rfl, hlooks (hthird.execute _ _ none (hread _) h₄)⟩
  have hempty : emptyFile.Keeps [] := ⟨⟨rfl, rfl⟩, by decide, by decide⟩
  have hlength : calls.length = 4 := by
    rw [← List.length_map (fun x : Answered => (x.id, x.request)), hcalls]
    rfl
  have hrecalls : ∀ x ∈ calls, ∀ l : Ledger, ∀ q ∈ (l.recorded x.id x.request : List (Payload Fact)),
      emptyFile.contents.Recalls q := by
    intro x hx l q hq
    have hmem : (x.id, x.request) ∈ business := hcalls ▸ List.mem_map_of_mem hx
    exact recalls_of_fits rfl (fits_business l _ hmem q hq)
  obtain ⟨hanswers, hafter⟩ := executed_as_ledger placed_fact hempty (by decide) ⟨rfl, rfl⟩ rfl
    hdialogue hrecalls (by rw [hlength]; decide)
  obtain ⟨hbalance, -⟩ := hafter (hread _)
  have hledger : ledgerAfter ([] : List (Event Fact)) calls = Ledger.run (fun _ => none) business := by
    rw [ledgerAfter, hcalls]
    rfl
  have houtcomes : (Ledger.run (fun _ => none) business).1 =
      [⟨.ofNat 1, .ok "Account B opened for Mace"⟩, ⟨.ofNat 2, .ok "Account A opened for Alex"⟩,
        ⟨.ofNat 3, .ok "Transferred 30 from A to B"⟩,
        ⟨.ofNat 4, .error (.notFound "Source account C not found")⟩] := by
    decide +kernel
  have hheld : ((Ledger.run (fun _ => none) business).2 "A").map Account.balance = some ⟨70⟩ ∧
      (Ledger.run (fun _ => none) business).2 "C" = none := by
    decide +kernel
  refine ⟨calls, hdialogue, ?_, by decide +kernel, ?_, ?_⟩
  · rw [hanswers, hledger, houtcomes]
    rfl
  · rw [hbalance, hledger, hheld.1]
  · rw [hbalance, hledger, hheld.2]
    rfl

end Banking
end Chronicle
