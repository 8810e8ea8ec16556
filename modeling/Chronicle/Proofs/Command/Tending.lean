import Chronicle.Proofs.Command.Telling
import Chronicle.Proofs.Projection.Piping

/-!
# Chronicle.Proofs.Command.Tending

What a single step does to a node where nothing fails: one dispatcher takes the commands, its jobs
write, and the read model follows the log (`Node.Smooth`). A job that is on its way to a result puts
the next part of it behind the log (`Smooth.leads`), one that is done changes nothing (`Smooth.done`),
and the dispatcher begins a job for the next command (`Smooth.dispatch`).
-/

namespace Chronicle

/-- The result was recorded, or there will be none. -/
def JobPhase.Spent {A S : Type} : JobPhase A S → Prop
  | .announcing _ | .finished _ | .crashed => True
  | _ => False

namespace Node

variable {A S B : Type} [Vocabulary A] {p : Projector A S} {t : HandlerTable A S B}
  {R : Payload A → Prop} {log : List (Event A)} {applied : Nat} {n n' : Node A S B} {i : Nat}
  {a a' : Assignment A S B} {r : ProcessingResult A}
  {answers : StreamId → Except RuntimeError (Option S)}

/-- No write fails whose payloads are among `R`, no acknowledgement is lost, nothing is shut down, and
one dispatcher takes the commands, while the read model follows the log. -/
structure Smooth (p : Projector A S) (t : HandlerTable A S B) (R : Payload A → Prop)
    (log : List (Event A)) (applied : Nat) (n : Node A S B) : Prop extends Piped p log applied n where
  handlers : n.handlers = t
  recalls : ∀ q, R q → n.store.contents.Recalls q
  acks : n.lostAcks = []
  writes : n.store.writeFaults = 0
  shutdown : n.shutdown.fired = false
  dispatcher : ∃ begun, n.dispatchers = [⟨0, .receiving, begun⟩]
  inbox : (n.commands.mailbox 0).Live

/-- What happens elsewhere than at the commands, whose jobs may be nudged. -/
structure Elsewhere (n n' : Node A S B) : Prop where
  acks : n'.lostAcks = n.lostAcks
  writes : n'.store.writeFaults = n.store.writeFaults
  contents : n'.store.contents = n.store.contents
  shutdown : n'.shutdown = n.shutdown
  dispatchers : n'.dispatchers = n.dispatchers
  commands : n'.commands = n.commands
  handlers : n'.handlers = n.handlers
  jobs : List.Forall₂ Assignment.Nudged n.jobs n'.jobs

theorem Cleared.elsewhere (h : Cleared n n') : Elsewhere n n' :=
  ⟨h.acks, h.writes, h.contents, h.shutdown, h.dispatchers, h.commands, h.handlers,
    h.jobs ▸ nudged_refl n.jobs⟩

theorem elsewhere_moveToken (h : n.moveToken i = some n') : Elsewhere n n' := by
  obtain ⟨jobs, hjobs, rfl⟩ := nudged_moveToken h
  exact ⟨rfl, rfl, rfl, rfl, rfl, rfl, rfl, hjobs⟩

theorem Smooth.elsewhere {applied' : Nat} (h : Smooth p t R log applied n) (helse : Elsewhere n n')
    (hpiped : Piped p log applied' n') : Smooth p t R log applied' n' where
  toPiped := hpiped
  handlers := helse.handlers.trans h.handlers
  recalls := helse.contents ▸ h.recalls
  acks := helse.acks.trans h.acks
  writes := helse.writes.trans h.writes
  shutdown := helse.shutdown ▸ h.shutdown
  dispatcher := helse.dispatchers ▸ h.dispatcher
  inbox := helse.commands ▸ h.inbox

/-- The log has grown by a batch, and nothing else has changed for the read model. -/
structure Grows (p : Projector A S) (t : HandlerTable A S B) (R : Payload A → Prop)
    (log : List (Event A)) (applied : Nat) (n n' : Node A S B) (batch : List (Payload A))
    (more : List (Event A)) : Prop extends Smooth p t R (log ++ more) applied n' where
  payloads : more.map Event.payload = batch
  outcomes : n'.model.outcomes = n.model.outcomes
  commands : n'.commands = n.commands

/-- What was read of a stream that concerns the projector is all that the log has of it. -/
def ReadWhole (p : Projector A S) (log : List (Event A)) (s : StreamId) (page : Page A) : Prop :=
  p.concerns s = true ∧ page = .ok (Log.early log s log.length)

theorem Piped.readWhole (h : Piped p log applied n) {s : StreamId}
    (hunknown : n.model.known? s = none) :
    ReadWhole p log s (n.store.readStream s Position.last).page := by
  refine ⟨?_, ?_⟩
  · rw [← h.current.projector]
    exact ReadModel.concerns_of_unknown hunknown
  · rw [h.current.keeps.page_readStream, h.quiet.2, h.current.keeps.numbered.below_last_eq]
    rfl

/-- A step of a job puts its batch behind the log. -/
theorem Smooth.job (h : Smooth p t R log applied n) (hleads : Leads answers r n n' i a a')
    (hkeeps : ∀ s page, n.nextAct i = .keep s page → ReadWhole p log s page)
    (hrecalls : ∀ q ∈ (n.nextAct i).batch, R q)
    (hroom : log.length + (n.nextAct i).batch.length < 0x10000000000000000) :
    ∃ more, Grows p t R log applied n n' (n.nextAct i).batch more := by
  have huntouched := hleads.untouched
  have hlookups := huntouched.lookups
  have hconsumer := huntouched.consumer
  have hstreams := hleads.signalled
  have htouched := hleads.touched
  have hsmooth {more : List (Event A)} (hpiped : Piped p (log ++ more) applied n')
      (hsame : n'.store.contents.Recalls = n.store.contents.Recalls) :
      Smooth p t R (log ++ more) applied n' :=
    ⟨hpiped, huntouched.handlers.trans h.handlers, hsame ▸ h.recalls, hleads.acks, hleads.writes,
      huntouched.shutdown ▸ h.shutdown, huntouched.dispatchers ▸ h.dispatcher,
      huntouched.commands ▸ h.inbox⟩
  generalize n.nextAct i = act at htouched hkeeps hrecalls hroom ⊢
  have hread (hpiped : Piped p log applied n')
      (hcontents : n'.store.contents = n.store.contents) (hbatch : act.batch = [])
      (houtcomes : n'.model.outcomes = n.model.outcomes) :
      ∃ more, Grows p t R log applied n n' act.batch more := by
    rw [← List.append_nil log] at hpiped
    exact ⟨[], { hsmooth hpiped (by rw [hcontents]) with
      payloads := hbatch.symm, outcomes := houtcomes, commands := huntouched.commands }⟩
  have hafter (hafter : n.store.After n'.store) (hmodel : n'.model = n.model)
      (hbatch : act.batch = []) : ∃ more, Grows p t R log applied n n' act.batch more := by
    have hcurrent : Session.Current p log ⟨n.store, n'.model, applied⟩ := by
      rw [hmodel]
      exact h.current
    exact hread (h.read hafter hcurrent (by rw [hmodel]) hlookups hconsumer hstreams)
      hafter.contents hbatch (by rw [hmodel])
  have hwrite (hstore : n'.store = (n.store.write act.batch).2) (hmodel : n'.model = n.model) :
      ∃ more, Grows p t R log applied n n' act.batch more := by
    obtain ⟨-, hsame, more, hkeeps, hmore⟩ := h.current.keeps.written h.writes
      (fun q hq => h.recalls q (hrecalls q hq)) hroom
    rw [← hstore] at hsame hkeeps
    have hpiped := h.toPiped.write hstore hkeeps hmodel hlookups hconsumer hstreams
    exact ⟨more, { hsmooth hpiped hsame with
      payloads := hmore, outcomes := by rw [hmodel], commands := huntouched.commands }⟩
  cases act with
  | nothing => exact hafter htouched.1 htouched.2 rfl
  | search r => exact hafter htouched.1 htouched.2 rfl
  | announce r => exact hafter htouched.1 htouched.2 rfl
  | ask s => exact hafter htouched.1 htouched.2 rfl
  | keep s page =>
    obtain ⟨hs, rfl⟩ := hkeeps s page rfl
    obtain ⟨hstore, hmodel⟩ := htouched
    have hdigested := n.model.digested_digest s (.ok (Log.early log s log.length))
    rw [← hmodel] at hdigested
    obtain ⟨cache, hentries, -, hcapacity⟩ := hdigested.entries
    have hafter : n.store.After n'.store := hstore ▸ .refl _
    exact hread (h.read hafter (h.current.digested hs hdigested) (by rw [hentries]; exact hcapacity)
      hlookups hconsumer hstreams) hafter.contents rfl (by rw [hentries])
  | write events => exact hwrite htouched.1 htouched.2
  | record r => exact hwrite htouched.1 htouched.2

/-- A job on its way to a result takes a step. -/
theorem Smooth.leads (h : Smooth p t R log applied n) (ha : n.jobs[i]? = some a) (hjob : Dispatched a)
    (hanswers : ∀ s x, n.reply (n.nextAct i) = some (s, x) → x = answers s)
    (hkeeps : ∀ s page, n.nextAct i = .keep s page → ReadWhole p log s page)
    (hcomes : a.job.phase.comesTo answers t a.job.command = some r)
    (hrecalls : ∀ q ∈ (n.nextAct i).batch, R q)
    (hroom : log.length + (n.nextAct i).batch.length < 0x10000000000000000)
    (hmove : n.moveJob i = some n') :
    ∃ a' more, Leads answers r n n' i a a' ∧
      Grows p t R log applied n n' (n.nextAct i).batch more := by
  have haccepts := (h.current.keeps.written h.writes (fun q hq => h.recalls q (hrecalls q hq)) hroom).1
  rw [← h.handlers] at hcomes
  obtain ⟨a', hleads⟩ :=
    moveJob_leads ha hjob h.acks h.writes h.shutdown haccepts hanswers hcomes hmove
  obtain ⟨more, hgrows⟩ := h.job hleads hkeeps hrecalls hroom
  exact ⟨a', more, hleads, hgrows⟩

/-- Nothing is left to do for a job but to announce its result. -/
def Done (a : Assignment A S B) : Prop := Dispatched a ∧ a.job.phase.Spent

omit [Vocabulary A] in
theorem Done.nudged (h : Done a) (hnudged : a.Nudged a') : Done a' :=
  ⟨h.1.nudged hnudged, hnudged.job ▸ h.2⟩

/-- A step of a job that is done changes nothing else. -/
theorem Smooth.done (h : Smooth p t R log applied n) (ha : n.jobs[i]? = some a) (hdone : Done a)
    (hmove : n.moveJob i = some n') :
    ∃ a' more, Done a' ∧ n'.jobs = n.jobs.set i a' ∧ Grows p t R log applied n n' [] more := by
  obtain ⟨hdispatched, hspent⟩ := hdone
  cases hphase : a.job.phase with
  | announcing r =>
    have hcomes : a.job.phase.comesTo (fun _ => .ok none) t a.job.command = some r := by
      rw [hphase]
      rfl
    have hbatch : (n.nextAct i).batch = [] := by
      have hprefix := written_nextAct_prefix ha hcomes
      have hlength := hprefix.length_le
      rw [hphase, List.length_append] at hlength
      exact List.length_eq_zero_iff.mp (by simp only [JobPhase.written] at hlength; omega)
    have hasks (hask : (n.nextAct i).asks = true) : False := by
      obtain ⟨e, hexecuting⟩ := executing_of_asks ha hask
      cases hphase.symm.trans hexecuting
    obtain ⟨a', more, hleads, hgrows⟩ :=
      h.leads ha hdispatched (fun s x hreply => (hasks (asks_of_reply hreply)).elim)
        (fun s page hact => (hasks (hact ▸ rfl)).elim) hcomes
        (by rw [hbatch]; exact List.forall_mem_nil _)
        (by rw [hbatch]; exact h.current.keeps.numbered.1) hmove
    rw [hbatch] at hgrows
    have hspent' : a'.job.phase.Spent := by
      have hadvances := hleads.step.advances
      rw [hphase] at hadvances
      generalize n.nextAct i = act, a'.job.phase = phase at hadvances ⊢
      cases hadvances with
      | decide _ r' hundecided => exact hundecided.elim
      | _ => trivial
    exact ⟨a', more, ⟨hleads.dispatched, hspent'⟩, hleads.jobs, hgrows⟩
  | finished r => simp [moveJob, ha, Job.isOver, hphase] at hmove
  | crashed => simp [moveJob, ha, Job.isOver, hphase] at hmove
  | _ =>
    rw [hphase] at hspent
    exact hspent.elim

theorem assign_eq (c : Command B) : ∃ turns, (n.assign c true .shutdown none).1 = { n with
    jobs := n.jobs ++ [{ job := { command := c, persists := true }, token := .shutdown }]
    turns } := by
  unfold assign enlist
  dsimp only
  split <;> exact ⟨_, rfl⟩

/-- A dispatcher that takes a step begins a job for the next command. -/
theorem Smooth.dispatch (h : Smooth p t R log applied n) (hmove : n.moveDispatcher i = some n') :
    ∃ c rest, (n.commands.mailbox 0).queue = c :: rest ∧ (n'.commands.mailbox 0).queue = rest ∧
      n'.jobs = n.jobs ++ [{ job := { command := c, persists := true }, token := .shutdown }] ∧
      Smooth p t R log applied n' ∧ n'.store = n.store ∧ n'.model = n.model := by
  obtain ⟨begun, hdispatchers⟩ := h.dispatcher
  cases i with
  | succ i =>
    simp only [moveDispatcher, hdispatchers, List.getElem?_cons_succ, List.getElem?_nil] at hmove
    cases hmove
  | zero =>
    have hat : n.dispatchers[0]? = some ⟨0, .receiving, begun⟩ := by rw [hdispatchers]; rfl
    simp only [moveDispatcher, hat, h.shutdown, if_false, Bool.false_eq_true] at hmove
    split at hmove
    · rename_i commands c hreceive
      cases hmove
      obtain ⟨rest, hqueue, hmailbox⟩ := Broadcaster.receive_item hreceive
      obtain ⟨turns, hassigned⟩ := assign_eq (n := { n with commands }) c
      rw [hassigned]
      have hinbox : (commands.mailbox 0).Live := by
        rw [hmailbox]
        exact ⟨h.inbox.linked, h.inbox.held⟩
      have hrest : (commands.mailbox 0).queue = rest := by rw [hmailbox]
      refine ⟨c, rest, hqueue, hrest, rfl, ?_, rfl, rfl⟩
      exact ⟨h.toPiped.aside rfl rfl rfl rfl rfl, h.handlers, h.recalls, h.acks, h.writes, h.shutdown,
        ⟨_, by
        show n.dispatchers.set 0 _ = _
        rw [hdispatchers]
        rfl⟩, hinbox⟩
    · rename_i hended
      exact absurd h.inbox.linked (by
        rw [Broadcaster.unlinked_of_ended hended]
        exact Bool.false_ne_true)
    · cases hmove

end Node
end Chronicle
