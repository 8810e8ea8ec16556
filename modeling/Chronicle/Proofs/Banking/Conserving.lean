import Chronicle.Proofs.Banking.Balances
import Chronicle.Proofs.Banking.Opening
import Chronicle.Proofs.Projection.Grounding

/-!
# Chronicle.Proofs.Banking.Conserving

Commands carried out side by side neither make money nor lose any. A handler decides on projections
that may be stale by the time its events are written, but an account that it was told of was founded
in the log, and stays so: whatever the handler returns may be written behind any longer log
(`Sanctions`). So every batch is one that keeps the log balanced (`money_conserved`).
-/

namespace Chronicle
namespace Banking

/-! ## What handlers return -/

section Handlers

variable {A : Type} [Vocabulary A] [Includes Fact A] {log more : List (Event A)} {s : StreamId}
  {w : Work A Account} {account : AccountId} {phase : JobPhase A Account}

/-- An account that an answer reports was founded. -/
def Truthful (log : List (Event A)) (s : StreamId)
    (answer : Except RuntimeError (Option Account)) : Prop :=
  ∀ state, answer = .ok state → Account.projector.Founds log s state

theorem Truthful.append {answer : Except RuntimeError (Option Account)}
    (h : Truthful log s answer) : Truthful (log ++ more) s answer :=
  fun state hanswer => (h state hanswer).append

/-- What a run returns that is told nothing but the truth may be written behind the log. -/
def Decides (log : List (Event A)) (w : Work A Account) : Prop :=
  ∀ h, w.EndsOn (Truthful log) (.handled h) → Sanctioned log h.events

theorem decides_refuse (f : Failure) : Decides log (refuse f) := by
  rintro h ⟨⟩
  exact .nothing

theorem decides_failed (e : HandlerError) : Decides log (.finish (.failed e)) := nofun

theorem decides_checkCancel {next : Bool → Work A Account} (h : ∀ fired, Decides log (next fired)) :
    Decides log (.checkCancel next) := by
  intro handled hends
  cases hends with
  | checkCancel fired hrest => exact h fired handled hrest

theorem decides_withAccount {next : Option Account → Work A Account}
    (h : ∀ held, Account.projector.Founds log (streamOf account) held → Decides log (next held)) :
    Decides log (withAccount account next) := by
  intro handled hends
  cases hends with
  | query answer hright hrest =>
    cases answer with
    | ok held => exact h held (hright held rfl) handled hrest
    | error e => cases hrest

theorem decides_create (account : AccountId) (owner : String) (initial : Money) :
    Decides log (create account owner initial) := by
  unfold create
  split
  · exact decides_refuse _
  refine decides_withAccount fun existing _ => ?_
  split
  · exact decides_refuse _
  refine decides_checkCancel fun fired => ?_
  split
  · exact decides_failed _
  · rintro h ⟨⟩
    exact .opening account owner initial

/-- A transfer that returns events has found both of its accounts. -/
theorem decides_transfer (id : Uuid) (source destination : AccountId) (amount : Money) :
    Decides log (transfer id source destination amount) := by
  unfold transfer
  split
  · exact decides_refuse _
  split
  · exact decides_refuse _
  rename_i hne
  refine decides_withAccount fun payer hpayer => decides_withAccount fun payee hpayee => ?_
  dsimp only
  split
  · exact decides_refuse _
  rename_i hnone
  refine decides_checkCancel fun fired => ?_
  split
  · exact decides_failed _
  · rintro h ⟨⟩
    obtain ⟨hsource, hdestination⟩ : payer.isSome = true ∧ payee.isSome = true := by
      cases payer <;> cases payee <;>
        first
        | exact absurd rfl hnone
        | exact ⟨rfl, rfl⟩
    exact .transfer id source destination amount hne (hpayer hsource) (hpayee hdestination)

theorem decides_work (b : Request) : Decides log b.work := by
  cases b with
  | create account owner initial => exact decides_create account owner initial
  | transfer id source destination amount => exact decides_transfer id source destination amount
  | other type => exact decides_failed _

/-- However the log grows until then, what a run returns may be written behind it. -/
def Sanctions (log : List (Event A)) (w : Work A Account) : Prop :=
  ∀ more, Decides (log ++ more) w

theorem Sanctions.append (h : Sanctions log w) : Sanctions (log ++ more) w := by
  intro later
  rw [List.append_assoc]
  exact h (more ++ later)

theorem Sanctions.rest {w' : Work A Account} (h : Sanctions log w) (hrest : Work.Rest w' w)
    (htold : ∀ s next, w = .query s next → ∃ answer, Truthful log s answer ∧ w' = next answer) :
    Sanctions log w' := by
  intro more handled hends
  refine h more handled (hrest.endsOn (fun s next hquery => ?_) hends)
  obtain ⟨answer, htruthful, hnext⟩ := htold s next hquery
  exact ⟨answer, htruthful.append, hnext⟩

/-- What a job is about to write, or will be, may be written behind the log. -/
def Sound (log : List (Event A)) : JobPhase A Account → Prop
  | .executing e => Sanctions log e.work
  | .writing r => Sanctioned log r.events
  | _ => True

theorem Sound.append (h : Sound log phase) : Sound (log ++ more) phase := by
  cases phase with
  | executing e => exact Sanctions.append h
  | writing r => exact Sanctioned.append h
  | _ => trivial

theorem sound_conclude {j : Job A Account Request} {r : ProcessingResult A}
    (h : Sanctioned log r.events) : Sound log (j.conclude r).phase := by
  unfold Job.conclude
  dsimp only
  split
  · trivial
  · split
    · trivial
    · exact h

end Handlers

/-! ## Jobs -/

section Jobs

variable {A : Type} [Vocabulary A] [Includes Fact A] {base log more : List (Event A)}
  {n n' m : Node A Account Request} {i : Nat} {a a' : Assignment A Account Request}
  {phase phase' : JobPhase A Account}

/-- A bank on a balanced log whose projections were founded, and whose jobs will keep it balanced. -/
structure Trades (log : List (Event A)) (n : Node A Account Request) : Prop where
  handlers : n.handlers = handlers
  projector : n.model.projector = Account.projector
  store : n.store.Holds log
  grounded : n.Grounded log
  balanced : Balanced log
  sound : ∀ j ∈ n.jobs.map (·.job), Sound log j.phase

/-- A job that has not decided yet is told the truth, and so decides soundly. -/
theorem Trades.proceeds (h : Trades log n) (hsound : Sound log a.job.phase)
    (hproceeds : n.Proceeds a (n.nextAct i) phase) : Sound log phase := by
  cases hproceeds with
  | rest => exact hsound
  | run fired e hresolve =>
    rw [h.handlers] at hresolve
    intro more
    rw [work_of_run hresolve]
    exact decides_work _
  | collapse => trivial
  | stay e e' hphase hsame =>
    rw [hphase] at hsound
    show Sanctions log e'.work
    rw [hsame]
    exact hsound
  | goOn e e' hphase hrest hquery =>
    rw [hphase] at hsound
    refine Sanctions.rest hsound hrest fun s next hasks => ?_
    obtain ⟨answer, hreply, hnext⟩ := hquery s next hasks
    refine ⟨answer, fun state hanswer => ?_, hnext⟩
    rw [hanswer] at hreply
    rw [← h.projector]
    exact h.grounded.reply hreply
  | decide r hevents =>
    refine sound_conclude ?_
    rcases hevents with hnone | ⟨e, handled, hphase, hwork, hevents⟩
    · rw [hnone]
      exact .nothing
    · rw [hphase] at hsound
      rw [hevents]
      have hdecides := hsound [] handled
      rw [List.append_nil, hwork] at hdecides
      exact hdecides (.finish _)

/-- What a job writes may be written behind the log. -/
theorem sanctioned_of_advances {j : Job A Account Request} {act : Act A}
    (h : n.Advances j phase act phase') (hsound : Sound log phase) :
    Sanctioned log act.batch := by
  cases h with
  | written r r' _ => exact hsound
  | recorded r k _ => exact .outcome _
  | unrecorded r k delay _ _ => exact .outcome _
  | gaveUp r k _ _ => exact .outcome _
  | _ => exact .nothing

/-- A job that has decided has no more events to write than those that it decided on. -/
theorem sound_of_advances {j : Job A Account Request} {act : Act A}
    (h : n.Advances j phase act phase') (hdecided : ¬ phase.Undecided) (hsound : Sound log phase) :
    Sound log phase' := by
  cases h with
  | rest => exact hsound
  | begin e => exact absurd trivial hdecided
  | goOn e e' => exact absurd trivial hdecided
  | ask e e' s => exact absurd trivial hdecided
  | keep e e' s page => exact absurd trivial hdecided
  | decide _ r hphase => exact absurd hphase hdecided
  | retry r k delay => split <;> trivial
  | _ => trivial

theorem Trades.job (hplaced : Placed A) (h : Trades log n) (hmove : n.moveJob i = some n')
    (hroom : n'.store.length < 0x10000000000000000) : ∃ more, Trades (log ++ more) n' := by
  obtain ⟨a, ha⟩ := Node.exists_of_moveJob hmove
  obtain ⟨a', hmoved⟩ := Node.moveJob_moved ha hmove
  have hadvances := hmoved.step.advances
  have hsound : Sound log a.job.phase := h.sound _ (List.mem_map_of_mem (List.mem_of_getElem? ha))
  have hsound' : Sound log a'.job.phase := by
    by_cases hundecided : a.job.phase.Undecided
    · exact h.proceeds hsound (hmoved.step.proceeds hundecided)
    · exact sound_of_advances hadvances hundecided hsound
  obtain ⟨more, hholds, hmore, -⟩ := hmoved.touched.holds h.store hroom
  have hbatch : Sanctioned log (more.map Event.payload) := by
    rw [hmore, Node.appended]
    split
    · exact sanctioned_of_advances hadvances hsound
    · exact .nothing
  refine ⟨more, hmoved.untouched.handlers.trans h.handlers,
    hmoved.touched.projector.trans h.projector, hholds, (h.grounded.moveJob h.store hmove).append,
    h.balanced.append hplaced hbatch, fun j hj => ?_⟩
  obtain ⟨b, hb, rfl⟩ := List.mem_map.mp hj
  rw [hmoved.jobs] at hb
  rcases List.mem_or_eq_of_mem_set hb with hold | rfl
  · exact (h.sound _ (List.mem_map_of_mem hold)).append
  · exact hsound'.append

theorem Trades.happens (hplaced : Placed A) (h : Trades log n) (hstep : n.Happens n') :
    ∃ more, Trades (log ++ more) n' := by
  -- Everything but the steps of jobs leaves the log alone.
  have hapart (hapart : n.Apart n') : ∃ more, Trades (log ++ more) n' := by
    refine ⟨[], ?_⟩
    rw [List.append_nil]
    refine ⟨hapart.handlers.trans h.handlers, hapart.projector.trans h.projector,
      ⟨hapart.contents.trans h.store.contents, h.store.numbered, h.store.hinted⟩,
      h.grounded.happens h.store hstep, h.balanced, fun j hj => ?_⟩
    obtain ⟨a, ha, rfl⟩ := List.mem_map.mp hj
    obtain ⟨k, hk⟩ := List.getElem?_of_mem ha
    rcases hapart.job_cases hk with ⟨b, hb, hsame⟩ | ⟨-, hreceived⟩
    · rw [hsame]
      exact h.sound _ (List.mem_map_of_mem (List.mem_of_getElem? hb))
    · rw [hreceived]
      trivial
  cases hstep with
  | task t hmove hroom =>
    rcases Node.meanwhile_of_move hmove with ⟨i, -, hjob⟩ | hmeanwhile
    · exact h.job hplaced hjob hroom
    · exact hapart hmeanwhile.toApart
  | aside haside _ _ _ _ => exact hapart haside
  | get s => exact hapart (.of_jobs rfl rfl ReadModel.contents_get ReadModel.projector_get)
  | getUpTo s bound =>
    exact hapart (.of_jobs rfl rfl ReadModel.after_getUpTo.contents ReadModel.projector_getUpTo)
  | getAll _ =>
    exact hapart (.of_jobs rfl rfl ReadModel.after_getAllIn.contents ReadModel.projector_getAllIn)
  | invalidate => exact hapart (.of_jobs rfl rfl rfl rfl)

theorem Trades.run (hplaced : Placed A) (h : Trades base n)
    (hrun : Relation.ReflTransGen Node.Happens n m) : ∃ more, Trades (base ++ more) m := by
  induction hrun with
  | refl => exact ⟨[], by rwa [List.append_nil]⟩
  | tail _ hstep ih =>
    obtain ⟨more, htrades⟩ := ih
    obtain ⟨more', htrades'⟩ := htrades.happens hplaced hstep
    exact ⟨more ++ more', by rwa [← List.append_assoc]⟩

/-- A bank has one stream, which polls the log from its start and has passed nothing on. -/
theorem streams_start {store : Store A} {config : Config} :
    (Bank.start store config).node.streams =
      [{ source := .polling (.new config.wakeUp) Position.zero config.skipAfter
         outlet := ⟨[.new]⟩
         pull := some (.polling (EventStream.newLoop config.skipAfter) none) }] := rfl

/-- A bank that was just opened over a balanced log. -/
theorem trades_start {store : Store A} {config : Config} (hstore : store.Holds base)
    (hbase : Balanced base) : Trades base (Bank.start store config).node := by
  have hlookups : (Bank.start store config).node.lookups = [] := rfl
  have hjobs : (Bank.start store config).node.jobs = [] := rfl
  have hcache : (Bank.start store config).node.model.cache = .new .unbounded := rfl
  refine ⟨rfl, rfl, hstore, ⟨fun s hs => ?_, ?_, ?_, Node.held_of_nil hjobs, ?_⟩, hbase, ?_⟩
  · rw [streams_start, List.mem_singleton] at hs
    rw [hs]
    refine ⟨?_, nofun, ?_⟩
    · rintro e ⟨m, hm, he⟩
      rw [List.mem_singleton.mp hm] at he
      cases he
    · rintro pull ⟨⟩ cursor items next hphase
      cases hphase
  · rintro c ⟨⟩
    trivial
  · rw [hlookups]
    nofun
  · rw [hcache]
    rintro s x hx
    cases hx
  · rw [hjobs]
    nofun

/-- Commands are carried out side by side, in any order of their steps and with all else that happens
to a bank. Where money is withdrawn from an account or deposited there, the account is there. If
accounts are opened once and no balance stops at an end of the range, all accounts hold together what
they were opened with. -/
theorem money_conserved (hplaced : Placed A) {store : Store A} {config : Config}
    (hstore : store.Holds base) (hbase : Balanced base)
    (hrun : Relation.ReflTransGen Node.Happens (Bank.start store config).node m) :
    Balanced m.store.events := by
  obtain ⟨more, htrades⟩ := (trades_start hstore hbase).run hplaced hrun
  rw [htrades.store.events_eq]
  exact htrades.balanced

end Jobs

def opened : Node Fact Account Request := (Bank.start (.ofPayloads 0) {}).node

/-- The bank was asked for two accounts and for a transfer between them. -/
def askedToTransfer : Node Fact Account Request :=
  ((opened.submit ((Request.create "A" "Alex" ⟨100⟩).command (.ofNat 1))).submit
    ((Request.create "B" "Mace" ⟨5⟩).command (.ofNat 2))).submit
      ((Request.transfer (.ofNat 4) "A" "B" ⟨30⟩).command (.ofNat 3))

/-- The transfer asks for its accounts once they were opened, and the creates record their outcomes
in the meantime. -/
theorem money_conserved_in_transfer : ∃ m,
    Relation.ReflTransGen Node.Happens opened m ∧
      openings (m.store.events.map Event.payload) = ["A", "B"] ∧ m.store.length = 7 ∧
      Heard m.store.events ∧ total m.store.events = 105 ∧
      (Account.projector.projection m.store.events (streamOf "B")).map Account.balance
        = some ⟨35⟩ := by
  obtain ⟨m, hrun, hlength, hopenings, hrange, hinvested, hbalance⟩ : ∃ m,
      runMoves Node.move askedToTransfer
        [.dispatcher 0, .dispatcher 0, .dispatcher 0, .job 0, .job 1, .job 0, .job 1, .job 0,
          .job 1, .job 0, .job 1, .job 0, .job 1, .job 0, .job 1, .job 2, .job 2, .job 0, .job 2,
          .job 1, .job 2, .job 2, .job 2, .job 2, .job 2, .job 2] = some m ∧
        m.store.length = 7 ∧ openings (m.store.events.map Event.payload) = ["A", "B"] ∧
        Unsaturated m.store.events ∧ invested m.store.events = 105 ∧
        (Account.projector.projection m.store.events (streamOf "B")).map Account.balance
          = some ⟨35⟩ :=
    ⟨_, rfl, by decide, by decide, by decide, by decide, by decide⟩
  have hasked : Relation.ReflTransGen Node.Happens opened askedToTransfer :=
    ((Relation.ReflTransGen.single (Node.happens_submit _ _)).tail (Node.happens_submit _ _)).tail
      (Node.happens_submit _ _)
  have hruns := hasked.trans (Node.happens_of_moves hrun (by omega))
  have hempty : (Store.ofPayloads 0 : Store Fact).Holds [] := ⟨rfl, by decide, by decide⟩
  have hbalanced := money_conserved placed_fact hempty balanced_nil hruns
  refine ⟨m, hruns, hopenings, hlength, hbalanced.heard, ?_, hbalance⟩
  rw [hbalanced.conserved (by rw [hopenings]; decide) hrange, hinvested]

end Banking
end Chronicle
