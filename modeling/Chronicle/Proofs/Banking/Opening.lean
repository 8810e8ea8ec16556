import Chronicle.Banking.Bank
import Chronicle.Proofs.Banking.Handling
import Chronicle.Proofs.Command.Dealing
import Chronicle.Proofs.Command.Visibility
import Mathlib.Data.List.Nodup
import Mathlib.Data.List.Pairwise

/-!
# Chronicle.Proofs.Banking.Opening

When an account is opened twice. A create asks the read model for its account, decides, and writes
later what it has decided; other jobs take steps in between. Every opening in the log was written by
a create of that account that had been told that there was none (`Proper`). So accounts are opened
at most once exactly if no create is overtaken (`opened_once_iff`): none writes after another has
written in the meantime, or after the cache has told it that there is no account although the log
has one. Nothing keeps creates from being overtaken (`overlapping_creates_both_succeed`).
-/

namespace Chronicle
namespace Banking

/-! ## Jobs -/

section Jobs

variable {A : Type} {history more : List (Deed A)} {i : Nat} {account : AccountId} {b : Request}
  {r : ProcessingResult A} {phase phase' : JobPhase A Account} {effect : Effect A}

/-- A job was told that an account is not there. -/
def Told (history : List (Deed A)) (i : Nat) (account : AccountId) : Prop :=
  ∃ known, .told i (streamOf account) known ∈ history

theorem Told.append (h : Told history i account) : Told (history ++ more) i account := by
  obtain ⟨known, hmem⟩ := h
  exact ⟨known, List.mem_append_left _ hmem⟩

def Request.Creates (b : Request) (account : AccountId) : Prop :=
  ∃ owner initial, b = .create account owner initial

variable [Includes Fact A]

def Opened (history : List (Deed A)) (i : Nat) (account : AccountId) : Prop :=
  ∃ batch, .wrote i batch ∈ history ∧ account ∈ openings batch

theorem Opened.append (h : Opened history i account) : Opened (history ++ more) i account := by
  obtain ⟨batch, hmem, haccount⟩ := h
  exact ⟨batch, List.mem_append_left _ hmem, haccount⟩

/-- If what a job holds for an answer makes no projection, then it found that when it read it. -/
def Found (history : List (Deed A)) (i : Nat) (phase : JobPhase A Account) : Prop :=
  ∀ s page, phase.asked? = some (s, page) → Account.projector.findsNothing page = true →
    ∃ known, .told i s known ∈ history

/-- Where the job of a request can be, given what it was told and what it wrote. -/
def Stands (history : List (Deed A)) (i : Nat) (b : Request) : JobPhase A Account → Prop
  | .received | .crashed => True
  | .executing e => e.work = b.work ∧ Found history i (.executing e) ∨
    Supports (Told history i) b e.work
  | .writing r => Warranted (Told history i) b r
  | .checking r _ | .recording r _ | .backingOff r _ _ | .announcing r | .finished r =>
    r.result.isOk = true → ∀ account, b.Creates account → Opened history i account

theorem Stands.append (h : Stands history i b phase) : Stands (history ++ more) i b phase := by
  cases phase with
  | received => trivial
  | crashed => trivial
  | executing e =>
    refine h.imp (fun ⟨hwork, hfound⟩ => ⟨hwork, fun s page hasked hfinds => ?_⟩)
      fun hsupports id h hends => (hsupports id h hends).mono fun _ => .append
    obtain ⟨known, hmem⟩ := hfound s page hasked hfinds
    exact ⟨known, List.mem_append_left _ hmem⟩
  | writing r => exact Warranted.mono h fun _ => .append
  | _ => exact fun hok account hcreates => (h hok account hcreates).append

/-- A result that is warranted and has no events is none of a create that succeeded. -/
theorem stands_concluded (h : Warranted (Told history i) b r) :
    Stands history i b (.concluded r) := by
  unfold JobPhase.concluded
  split
  · rename_i hempty
    rintro hok account ⟨owner, initial, rfl⟩
    rcases h with ⟨hopens, -⟩ | ⟨-, hfailed⟩
    · rw [List.isEmpty_iff.mp hempty] at hopens
      cases hopens
    · rw [hok] at hfailed
      cases hfailed
  · exact h

variable [Vocabulary A] {c : Command Request} {n : Node A Account Request} {log : List (Event A)}

/-- A step of a job that does not ask for the account that it is to open. -/
theorem Stands.turn (h : Stands history i c.body phase) (hhandlers : n.handlers = handlers)
    (hasked : ∀ e, phase = .executing e → Supports (Told history i) c.body e.work)
    (hturn : Node.Turn n log c phase effect phase') :
    Stands (history ++ effect.deeds i) i c.body phase' := by
  have hfailed {r : ProcessingResult A} (hevents : r.events = [])
      (hresult : r.result.isOk = false) :
      Stands (history ++ Effect.nothing.deeds i) i c.body (.concluded r) :=
    (stands_concluded (warranted_failure hevents hresult)).append
  cases hturn with
  | rest => exact h.append
  | run fired e hresolve =>
    rw [hhandlers] at hresolve
    refine .inl ⟨work_of_run hresolve, fun s page hasked => ?_⟩
    have hpage := (JobPhase.asked?_executing.mp hasked).1
    rw [HandlerTable.page_of_run hresolve] at hpage
    cases hpage
  | refuse fired r hresolve =>
    rw [hhandlers] at hresolve
    exact hfailed (HandlerTable.resolve_refused hresolve).2 (failed_of_refused hresolve)
  | collapse => trivial
  | goOn e e' hwork =>
    have hsupports := hasked e rfl
    have hrest : Supports (Told history i) c.body e'.work := by
      rcases hwork with hsame | hrest
      · rw [hsame]
        exact hsupports
      · exact fun id handled hends => hsupports id handled (hrest.mayEnd hends)
    have hstands : Stands history i c.body (.executing e') := .inr hrest
    exact hstands.append
  | complete e o fired hends =>
    refine (stands_concluded (warranted_classify _ _ fun handled heq => ?_)).append
    exact hasked e rfl _ handled (heq ▸ hends)
  | interrupt e => exact hfailed rfl rfl
  | written r =>
    rintro hok account ⟨owner, initial, hcreates⟩
    have hwarranted : Warranted (Told history i) c.body r := h
    rw [hcreates] at hwarranted
    rcases hwarranted with ⟨hopens, -⟩ | ⟨-, hfailed⟩
    · refine ⟨r.events, List.mem_append_right _ (List.mem_singleton_self _), ?_⟩
      rw [hopens]
      exact List.mem_singleton_self _
    · rw [hok] at hfailed
      cases hfailed
  | unwritten r error => exact fun hok => nomatch hok
  | unfound r k => exact Stands.append h
  | found r k _ => exact Stands.append h
  | recorded r k => exact Stands.append h
  | unrecorded r k delay _ => exact Stands.append h
  | gaveUp r k _ => exact Stands.append h
  | retry r k delay =>
    split
    · exact Stands.append h
    · exact Stands.append h
  | announced r => exact Stands.append h

end Jobs

/-! ## The history of a bank -/

section Histories

variable {A : Type} [Includes Fact A] {base : List (Payload A)} {history more : List (Deed A)}
  {i j : Nat} {account : AccountId}

/-- What is right of a deed in view of those before it, where the log began with `base`: what the
log was read for is true, and a batch opens nothing, or one account of which its job was told that
it is not there. -/
def Proper (base : List (Payload A)) (earlier : List (Deed A)) : Deed A → Prop
  | .told _ s known =>
    known = false → ∀ account, s = streamOf account → account ∉ openings (base ++ writtenBy earlier)
  | .wrote i batch =>
    openings batch = [] ∨ ∃ account, openings batch = [account] ∧ Told earlier i account

/-- A job has opened an account that was in the log by then: the cache did not know of it when the
job asked, or it was opened after that. -/
def Overtaken (base : List (Payload A)) (history : List (Deed A)) : Prop :=
  ∃ before i account known between batch after,
    history = before ++ .told i (streamOf account) known :: (between ++ .wrote i batch :: after) ∧
    account ∈ openings batch ∧
    (known = true ∧ account ∈ openings (base ++ writtenBy before) ∨
      account ∈ openings (writtenBy between))

theorem Overtaken.append (h : Overtaken base history) : Overtaken base (history ++ more) := by
  obtain ⟨before, i, account, known, between, batch, after, rfl, hrest⟩ := h
  exact ⟨before, i, account, known, between, batch, after ++ more, by simp, hrest⟩

/-- As long as nobody is overtaken, accounts are opened once. -/
theorem nodup_of_not_overtaken (hbase : (openings base).Nodup) (h : Orderly (Proper base) history)
    (hnot : ¬ Overtaken base history) : (openings (base ++ writtenBy history)).Nodup := by
  induction history using List.reverseRecOn with
  | nil => rwa [writtenBy, List.flatMap_nil, List.append_nil]
  | append_singleton history d ih =>
    have ih := ih h.of_append fun hover => hnot hover.append
    rw [writtenBy_append, ← List.append_assoc, openings_append]
    have hproper := h history d [] rfl
    cases d with
    | told i s known => exact (List.append_nil _).symm ▸ ih
    | wrote i batch =>
      have hbatch : writtenBy [Deed.wrote i batch] = batch := List.append_nil _
      rw [hbatch]
      rcases hproper with hnothing | ⟨account, hopens, known, htold⟩
      · rw [hnothing, List.append_nil]
        exact ih
      rw [hopens]
      refine List.nodup_append.mpr ⟨ih, List.nodup_singleton _, ?_⟩
      rintro opened hopened account' haccount rfl
      rw [List.mem_singleton] at haccount
      subst haccount
      -- The job was told that the account is not there. It was there then, or it has come since.
      obtain ⟨before, between, rfl⟩ := List.append_of_mem htold
      refine hnot ⟨before, i, opened, known, between, batch, [], by simp, by simp [hopens], ?_⟩
      have hsplit : writtenBy (before ++ .told i (streamOf opened) known :: between)
          = writtenBy before ++ writtenBy between := writtenBy_append
      rw [hsplit, ← List.append_assoc, openings_append] at hopened
      refine (List.mem_append.mp hopened).imp (fun hbefore => ⟨?_, hbefore⟩) id
      by_contra hcached
      have hread : Proper base before (.told i (streamOf opened) known) :=
        h before _ (between ++ [.wrote i batch]) (by simp)
      exact hread (by simpa using hcached) opened rfl hbefore

theorem not_overtaken_of_nodup (h : (openings (base ++ writtenBy history)).Nodup) :
    ¬ Overtaken base history := by
  rintro ⟨before, i, account, known, between, batch, after, rfl, hbatch, hcause⟩
  have hsplit : writtenBy (before ++ .told i (streamOf account) known ::
      (between ++ .wrote i batch :: after))
        = writtenBy before ++ (writtenBy between ++ (batch ++ writtenBy after)) := by
    rw [writtenBy_append]
    exact congrArg (writtenBy before ++ ·) writtenBy_append
  have hafter : account ∈ openings (batch ++ writtenBy after) := by
    rw [openings_append]
    exact List.mem_append_left _ hbatch
  rw [hsplit, ← List.append_assoc, openings_append, openings_append (writtenBy between)] at h
  obtain ⟨-, hrest, hbefore⟩ := List.nodup_append.mp h
  rcases hcause with ⟨-, hmem⟩ | hmem
  · exact hbefore account hmem account (List.mem_append_right _ hafter) rfl
  · exact (List.nodup_append.mp hrest).2.2 account hmem account hafter rfl

/-- If accounts are opened once, each is opened by one job. -/
theorem opener_unique (h : (openings (writtenBy history)).Nodup) (hi : Opened history i account)
    (hj : Opened history j account) : i = j := by
  by_contra hne
  obtain ⟨batch, hmem, hopens⟩ := hi
  obtain ⟨batch', hmem', hopens'⟩ := hj
  rw [openings, writtenBy, List.filterMap_flatMap, List.nodup_flatMap] at h
  have hsymm : Std.Symm (Function.onFun List.Disjoint
      fun d : Deed A => d.batch.filterMap opening?) := ⟨fun _ _ hd _ h h' => hd h' h⟩
  have hdisjoint := h.2.forall hmem hmem' fun heq => hne (by cases heq; rfl)
  exact hdisjoint hopens hopens'

end Histories

/-! ## The bank -/

section Bank

variable {A : Type} [Vocabulary A] [Includes Fact A] {base : List (Event A)}
  {history : List (Deed A)} {n n' : Node A Account Request} {i : Nat}
  {a a' : Assignment A Account Request}

/-- A bank whose commands were not taken up yet, on a log that opens accounts at most once. The
writes of its jobs are acknowledged. -/
structure Fresh (base : List (Event A)) (n : Node A Account Request) : Prop where
  handlers : n.handlers = handlers
  projector : n.model.projector = Account.projector
  acks : n.lostAcks = []
  store : n.store.Holds base
  once : (openings (base.map Event.payload)).Nodup
  received : ∀ a ∈ n.jobs, a.job.persists = true ∧ a.job.phase = .received

/-- A bank after a history: the log is what the history says, which is as it should be, and every
job is where the history has taken it. -/
structure Conducts (base : List (Event A)) (history : List (Deed A))
    (n : Node A Account Request) : Prop where
  handlers : n.handlers = handlers
  projector : n.model.projector = Account.projector
  acks : n.lostAcks = []
  log : ∃ log, n.store.Holds log ∧
    log.map Event.payload = base.map Event.payload ++ writtenBy history
  persists : ∀ a ∈ n.jobs, a.job.persists = true
  stands : ∀ i a, n.jobs[i]? = some a → Stands history i a.job.command.body a.job.phase
  orderly : Orderly (Proper (base.map Event.payload)) history

theorem Fresh.conducts (h : Fresh base n) : Conducts base [] n where
  handlers := h.handlers
  projector := h.projector
  acks := h.acks
  log := ⟨base, h.store, (List.append_nil _).symm⟩
  persists a ha := (h.received a ha).1
  stands i a ha := by
    rw [(h.received a (List.mem_of_getElem? ha)).2]
    trivial
  orderly := orderly_nil

theorem Conducts.meanwhile (h : Conducts base history n) (hmeanwhile : n.Meanwhile n') :
    Conducts base history n' := by
  refine ⟨hmeanwhile.handlers.trans h.handlers, hmeanwhile.projector.trans h.projector,
    hmeanwhile.acks.trans h.acks, ?_, fun a ha => ?_, fun i a ha => ?_, h.orderly⟩
  · obtain ⟨log, hlog, hpayloads⟩ := h.log
    exact ⟨log, ⟨hmeanwhile.contents.trans hlog.contents, hlog.numbered, hlog.hinted⟩, hpayloads⟩
  · obtain ⟨k, hk⟩ := List.getElem?_of_mem ha
    rcases hmeanwhile.job_cases hk with ⟨b, hb, hsame⟩ | ⟨hnone, -⟩
    · rw [hsame]
      exact h.persists b (List.mem_of_getElem? hb)
    · exact hmeanwhile.persists k a hnone hk
  · rcases hmeanwhile.job_cases ha with ⟨b, hb, hsame⟩ | ⟨-, hreceived⟩
    · rw [hsame]
      exact h.stands i b hb
    · rw [hreceived]
      trivial

/-- What a step adds to the history is as it should be. -/
theorem Conducts.orderly_step (hplaced : Placed A) (h : Conducts base history n)
    (ha : n.jobs[i]? = some a) {log : List (Event A)} (hlog : n.store.Holds log)
    (hpayloads : log.map Event.payload = base.map Event.payload ++ writtenBy history)
    {effect : Effect A} {phase : JobPhase A Account}
    (hturn : Node.Turn n log a.job.command a.job.phase effect phase) :
    Orderly (Proper (base.map Event.payload)) (history ++ (n.hearsay i ++ effect.deeds i)) := by
  have hheard : Orderly (Proper (base.map Event.payload)) (history ++ n.hearsay i) := by
    rcases n.hearsay_cases i with hnothing | ⟨s, known, htold, hread⟩
    · rw [hnothing, List.append_nil]
      exact h.orderly
    · rw [htold]
      refine h.orderly.concat ?_
      rintro hunknown account rfl
      rw [← hpayloads]
      have hfinds := hread hunknown
      rw [h.projector] at hfinds
      exact unopened_of_findsNothing hplaced hlog hfinds
  rw [← List.append_assoc]
  have hstands := h.stands i a ha
  generalize a.job.phase = before at hturn hstands
  cases hturn with
  | written r =>
    refine hheard.concat ?_
    exact (Warranted.openings_cases hstands).imp id fun ⟨account, hopens, htold⟩ =>
      ⟨account, hopens, htold.append⟩
  | recorded r k => exact hheard.concat (.inl (openings_outcome r.outcome))
  | _ => exact (List.append_nil _).symm ▸ hheard

/-- A job that was told what it asked for goes on as its phase says. -/
theorem Conducts.stands_step (h : Conducts base history n) (hmoved : n.Moved n' i a a')
    {log : List (Event A)} {effect : Effect A}
    (hturn : Node.Turn n log a.job.command a.job.phase effect a'.job.phase) :
    Stands (history ++ (n.hearsay i ++ effect.deeds i)) i a.job.command.body a'.job.phase := by
  have hstands := h.stands i a hmoved.before
  by_cases hasked : ∀ e, a.job.phase = .executing e →
      Supports (Told history i) a.job.command.body e.work
  · have htold : Stands (history ++ n.hearsay i) i a.job.command.body a.job.phase := hstands.append
    rw [← List.append_assoc]
    refine htold.turn h.handlers (fun e he => ?_) hturn
    exact fun id handled hends => (hasked e he id handled hends).mono fun _ => .append
  · -- The handler has not asked for its account yet, and that is what this step does.
    push Not at hasked
    obtain ⟨e, hphase, hunsupported⟩ := hasked
    rw [hphase] at hstands
    obtain ⟨hwork, hfound⟩ := hstands.resolve_right hunsupported
    rcases work_cases (A := A) a.job.command.body with hsupports | ⟨account, next, hquery, hnext⟩
    · exact absurd (hwork ▸ hsupports _) hunsupported
    rcases hmoved.step.query hphase (hwork.trans hquery) with
      hsame | hstops | ⟨hact, hunknown, hgoes⟩ | ⟨answer, hreply, hgoes⟩
    · rw [hsame, hphase]
      exact hstands.append
    · rw [hstops, Job.interrupt,
        Job.phase_conclude (h.persists a (List.mem_of_getElem? hmoved.before))]
      exact (stands_concluded (warranted_failure rfl rfl)).append
    · rw [hgoes]
      refine .inl ⟨hwork, fun s page hasked hfinds => ⟨false, ?_⟩⟩
      obtain ⟨hpage, rest, hasks⟩ := JobPhase.asked?_executing.mp hasked
      cases hasks.symm.trans (hwork.trans hquery)
      obtain rfl := Option.some.inj hpage
      have hheard : n.hearsay i = [.told i (streamOf account) false] := by
        simp [Node.hearsay, hact, hunknown, h.projector, hfinds]
      rw [hheard]
      exact List.mem_append_right _ (List.mem_append_left _ (List.mem_singleton_self _))
    · rw [hgoes]
      refine .inr (hnext _ _ fun hanswer => ?_)
      rw [hanswer] at hreply
      rcases Node.hearsay_of_reply hmoved.before hreply with
        ⟨known, hheard⟩ | ⟨page, hasked, hfinds⟩
      · rw [hheard]
        exact ⟨known, List.mem_append_right _ (List.mem_append_left _ (List.mem_singleton_self _))⟩
      · rw [h.projector] at hfinds
        exact Told.append (hfound (streamOf account) page (hphase ▸ hasked) hfinds)

theorem Conducts.job (hplaced : Placed A) (h : Conducts base history n)
    (hmove : n.moveJob i = some n') (hroom : n'.store.length < 0x10000000000000000) :
    Conducts base (history ++ n.deeds i) n' := by
  obtain ⟨a, ha⟩ := Node.exists_of_moveJob hmove
  obtain ⟨a', hmoved⟩ := Node.moveJob_moved ha hmove
  obtain ⟨log, hlog, hpayloads⟩ := h.log
  have hpersists : a.job.persists = true := h.persists a (List.mem_of_getElem? ha)
  have hturn := hmoved.step.turn hlog.contents h.acks hpersists
  have hturned := hmoved.turned hlog.contents h.acks
  have hjob : a'.job = { a.job with phase := a'.job.phase } := hmoved.step.taken.job
  obtain ⟨more, hholds, -, -⟩ := hmoved.touched.holds hlog hroom
  rw [Node.deeds_eq rfl]
  refine ⟨hturned.handlers.trans h.handlers, hmoved.touched.projector.trans h.projector,
    hturned.acks.trans h.acks, ⟨log ++ more, hholds, ?_⟩, fun b hb => ?_, fun k b hb => ?_,
    h.orderly_step hplaced ha hlog hpayloads hturn⟩
  · obtain ⟨more', hcontents, happended⟩ := hturned.contents
    rw [hholds.contents] at hcontents
    have hmore : more = more' := List.append_cancel_left (Contents.payloads.inj hcontents)
    rw [List.map_append, hpayloads, hmore, happended, writtenBy_append, writtenBy_append,
      Node.writtenBy_hearsay, writtenBy_deeds, List.nil_append, List.append_assoc]
  · rw [hmoved.jobs] at hb
    rcases List.mem_or_eq_of_mem_set hb with hold | rfl
    · exact h.persists b hold
    · rw [hjob]
      exact hpersists
  · rw [hmoved.jobs, List.getElem?_set] at hb
    split at hb
    · rename_i hk
      subst hk
      split at hb
      · cases hb
        rw [hmoved.command]
        exact h.stands_step hmoved hturn
      · cases hb
    · exact (h.stands k b hb).append

theorem Fresh.run (hplaced : Placed A) (h : Fresh base n) {m : Node A Account Request}
    (hd : n.Dealings history m) : Conducts base history m := by
  induction hd with
  | start => exact h.conducts
  | job i _ hmove hroom ih => exact ih.job hplaced hmove hroom
  | meanwhile _ hmeanwhile ih => exact ih.meanwhile hmeanwhile

def Succeeded (j : Job A Account Request) (account : AccountId) : Prop :=
  j.command.body.Creates account ∧ j.phase.PastWriting ∧
    ∃ r, j.phase.result? = some r ∧ r.result.isOk = true

/-- The log opens every account at most once, and at most one create of it succeeds. -/
structure OpensOnce (n : Node A Account Request) : Prop where
  log : (openings (n.store.events.map Event.payload)).Nodup
  creates : ∀ (i j : Nat) (a b : Assignment A Account Request) (account : AccountId),
    n.jobs[i]? = some a → n.jobs[j]? = some b → Succeeded a.job account →
    Succeeded b.job account → i = j

omit [Vocabulary A] in
theorem Stands.opened {phase : JobPhase A Account} {b : Request} {account : AccountId}
    (h : Stands history i b phase) (hcreates : b.Creates account) (hpast : phase.PastWriting)
    {r : ProcessingResult A} (hr : phase.result? = some r) (hok : r.result.isOk = true) :
    Opened history i account := by
  cases phase with
  | received => exact hpast.elim
  | executing e => exact hpast.elim
  | writing r => exact hpast.elim
  | crashed => exact hpast.elim
  | _ =>
    cases hr
    exact h hok account hcreates

/-- Commands carried out side by side. The log is what it was and what their jobs have written, and
accounts are opened once exactly if no create was overtaken. -/
theorem opened_once_iff (hplaced : Placed A) (h : Fresh base n) {m : Node A Account Request}
    (hd : n.Dealings history m) :
    m.store.events.map Event.payload = base.map Event.payload ++ writtenBy history ∧
      (OpensOnce m ↔ ¬ Overtaken (base.map Event.payload) history) := by
  have hm := h.run hplaced hd
  obtain ⟨log, hlog, hpayloads⟩ := hm.log
  rw [← hlog.events_eq] at hpayloads
  refine ⟨hpayloads, fun honce => not_overtaken_of_nodup (hpayloads ▸ honce.log), fun hnot => ?_⟩
  have honce := nodup_of_not_overtaken h.once hm.orderly hnot
  refine ⟨hpayloads ▸ honce, ?_⟩
  rintro i j a b account ha hb ⟨hcreates, hpast, r, hr, hok⟩ ⟨hcreates', hpast', r', hr', hok'⟩
  rw [openings_append] at honce
  exact opener_unique (List.nodup_append.mp honce).2.1
    ((hm.stands i a ha).opened hcreates hpast hr hok)
    ((hm.stands j b hb).opened hcreates' hpast' hr' hok')

end Bank

def askedTwice : Node Fact Account Request :=
  ((Bank.start (.ofPayloads 0) {}).node.submit
    ((Request.create "A" "Alex" ⟨1⟩).command (.ofNat 1))).submit
      ((Request.create "A" "Mace" ⟨2⟩).command (.ofNat 2))

theorem fresh_askedTwice : Fresh [] askedTwice where
  handlers := rfl
  projector := rfl
  acks := rfl
  store := ⟨rfl, by decide, by decide⟩
  once := .nil
  received a ha := by
    have hnone : askedTwice.jobs = [] := rfl
    rw [hnone] at ha
    cases ha

theorem placed_fact : Placed Fact := by
  rintro a f hview
  cases hview
  rfl

/-- The second create asks after the first one has written, and is refused. -/
theorem later_create_conflicts : ∃ history m, askedTwice.Dealings history m ∧
    ¬ Overtaken [] history ∧ openings (m.store.events.map Event.payload) = ["A"] ∧
    m.jobs.map (·.job.phase.result?.map (·.result)) =
      [some (.ok "Account A opened for Alex"),
        some (.error (.conflict "Account A already exists"))] := by
  obtain ⟨m, hrun, hlength, hopenings, hresults⟩ : ∃ m, runMoves Node.move askedTwice
      [.dispatcher 0, .dispatcher 0, .job 0, .job 1, .job 0, .job 0, .job 0, .job 0, .job 0, .job 1,
        .job 1, .job 1, .job 1, .job 0, .job 0, .job 1] = some m ∧ m.store.length = 3 ∧
      openings (m.store.events.map Event.payload) = ["A"] ∧
      m.jobs.map (·.job.phase.result?.map (·.result)) =
        [some (.ok "Account A opened for Alex"),
          some (.error (.conflict "Account A already exists"))] :=
    ⟨_, rfl, by decide, by decide, by decide⟩
  obtain ⟨history, hd⟩ := Node.Dealings.of_moves hrun (by omega)
  -- Only the first of the two has succeeded.
  have hfirst {k : Nat} {a : Assignment Fact Account Request} {account : AccountId}
      (ha : m.jobs[k]? = some a) (hsucceeded : Succeeded a.job account) : k = 0 := by
    obtain ⟨-, -, r, hr, hok⟩ := hsucceeded
    have hat := congrArg (·[k]?) hresults
    simp only [List.getElem?_map, ha, hr, Option.map_some] at hat
    match k with
    | 0 => rfl
    | 1 =>
      rw [Option.some.inj (Option.some.inj hat)] at hok
      cases hok
    | k + 2 => cases hat
  refine ⟨history, m, hd, (opened_once_iff placed_fact fresh_askedTwice hd).2.mp ⟨?_, ?_⟩,
    hopenings, hresults⟩
  · rw [hopenings]
    exact List.nodup_singleton _
  · intro i j a b account ha hb hsa hsb
    rw [hfirst ha hsa, hfirst hb hsb]

/-- Both creates ask before either writes. -/
theorem overlapping_creates_both_succeed : ∃ m log, runMoves Node.move askedTwice
      [.dispatcher 0, .dispatcher 0, .job 0, .job 1, .job 0, .job 1, .job 0, .job 1, .job 0, .job 1,
        .job 0, .job 1, .job 0, .job 1, .job 0, .job 1, .job 0, .job 1] = some m ∧
    m.store.contents = .payloads log ∧
    openings (log.map Event.payload) = ["A", "A"] ∧
    m.jobs.map (·.job.result?.map (·.result)) =
      [some (.ok "Account A opened for Alex"), some (.ok "Account A opened for Mace")] :=
  ⟨_, _, rfl, rfl, by decide, by decide⟩

end Banking
end Chronicle
