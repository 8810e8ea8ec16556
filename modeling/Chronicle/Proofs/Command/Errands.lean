import Chronicle.Proofs.Command.Awaiting
import Chronicle.Proofs.Command.Tending
import Chronicle.Proofs.Scheduling

/-!
# Chronicle.Proofs.Command.Errands

A node that is given one command at a time, while nothing fails. The command goes to a dispatcher, a
job carries it out, and what the job has written is applied to the read model (`Node.Errand`). When
the feed of the read model has told of the outcome, everything in the log was applied and nothing is
under way (`Errand.answered`). So the next command meets a read model that knows what the ones before
it did, and its result is a function of the projections of the log.
-/

namespace Chronicle

variable {A S B : Type} [Vocabulary A]

omit [Vocabulary A] in
theorem JobPhase.spent_of_written {answers : StreamId → Except RuntimeError (Option S)}
    {t : HandlerTable A S B} {c : Command B} {r : ProcessingResult A} {phase : JobPhase A S}
    (hcomes : phase.comesTo answers t c = some r)
    (hwritten : phase.written = r.events ++ [.outcome r.outcome]) : phase.Spent := by
  have hlength := congrArg List.length hwritten
  rw [List.length_append, List.length_singleton] at hlength
  cases phase with
  | announcing r' => trivial
  | finished r' => trivial
  | crashed => trivial
  | recording r' k =>
    cases hcomes
    simp only [written] at hlength
    omega
  | checking r' k => cases hcomes
  | backingOff r' k delay => cases hcomes
  | _ =>
    simp only [written, List.length_nil] at hlength
    omega

namespace Node

variable {p : Projector A S} {t : HandlerTable A S B} {R : Payload A → Prop}
  {log before more : List (Event A)} {applied told : Nat} {n n' : Node A S B} {i sub : Nat}
  {a a' : Assignment A S B} {c : Command B} {r : ProcessingResult A}
  {answers : StreamId → Except RuntimeError (Option S)}

theorem moveLookup_of_nil (h : n.lookups = []) : n.moveLookup i = none := by
  simp only [moveLookup, h, List.getElem?_nil]

/-! ## Between two commands -/

def JobsDone (n : Node A S B) (but : Option Nat) : Prop :=
  ∀ j a, n.jobs[j]? = some a → but ≠ some j → Done a

theorem JobsDone.set {but : Option Nat} (h : JobsDone n but) (hjobs : n'.jobs = n.jobs.set i a')
    (hdone : but = some i ∨ Done a') : JobsDone n' but := by
  intro j b hj hbut
  rw [hjobs, List.getElem?_set] at hj
  split at hj
  · rename_i heq
    subst heq
    split at hj
    · cases hj
      exact hdone.resolve_left hbut
    · cases hj
  · exact h j b hj hbut

/-- No command is under way: none waits for a dispatcher, and the jobs are done. -/
structure Rests (p : Projector A S) (t : HandlerTable A S B) (R : Payload A → Prop)
    (log : List (Event A)) (applied : Nat) (n : Node A S B) : Prop
    extends Smooth p t R log applied n where
  unasked : (n.commands.mailbox 0).queue = []
  finished : JobsDone n none

/-- How far the jobs are with a command, and what is written of its result. -/
inductive Stage (answers : StreamId → Except RuntimeError (Option S)) (t : HandlerTable A S B)
    (c : Command B) (r : ProcessingResult A) (n : Node A S B) : List (Payload A) → Prop
  /-- A dispatcher is to take it. -/
  | submitted (queue : (n.commands.mailbox 0).queue = [c]) (comes : t.resultOf answers c = some r)
    (finished : JobsDone n none) : Stage answers t c r n []
  /-- A job carries it out. -/
  | carried {i : Nat} {a : Assignment A S B} (queue : (n.commands.mailbox 0).queue = [])
    (job : n.jobs[i]? = some a) (dispatched : Dispatched a) (command : a.job.command = c)
    (comes : a.job.phase.comesTo answers t c = some r)
    (others : JobsDone n (some i)) :
    Stage answers t c r n a.job.phase.written

/-- A node on its way with a command to its result. Behind `before` the log has `more`, the first
`told` events of which were applied, and a subscription to the feed of the read model was told of the
outcomes among these. -/
structure Errand (p : Projector A S) (t : HandlerTable A S B) (R : Payload A → Prop)
    (before : List (Event A)) (c : Command B) (r : ProcessingResult A) (sub : Nat)
    (more : List (Event A)) (told : Nat) (n : Node A S B) : Prop
    extends Smooth p t R (before ++ more) (before.length + told) n where
  feed : (n.model.outcomes.mailbox sub).Live
  heard : (n.model.outcomes.mailbox sub).queue = Log.outcomes (more.take told)
  held : n.Held fun _ => ReadWhole p before
  stage : Stage (p.answerOf before) t c r n (more.map Event.payload)

theorem Stage.written_prefix {written : List (Payload A)} (h : Stage answers t c r n written) :
    written <+: r.events ++ [.outcome r.outcome] := by
  cases h with
  | submitted _ _ _ => exact List.nil_prefix
  | carried _ _ _ _ comes _ => exact JobPhase.written_prefix comes

/-- While a handler runs, nothing is written. -/
theorem Stage.unwritten {written : List (Payload A)} (h : Stage answers t c r n written)
    (ha : n.jobs[i]? = some a) {e : Execution A S} (hphase : a.job.phase = .executing e) :
    written = [] := by
  cases h with
  | submitted _ _ _ => rfl
  | @carried k b queue job dispatched command comes others =>
    by_cases hk : k = i
    · subst hk
      obtain rfl : a = b := Option.some.inj (ha.symm.trans job)
      rw [hphase]
      rfl
    · have hspent := (others i a ha fun heq => hk (Option.some.inj heq)).2
      rw [hphase] at hspent
      exact hspent.elim

/-- Jobs that are done hold nothing. -/
theorem JobsDone.held (h : JobsDone n none) {right : Nat → StreamId → Page A → Prop} :
    n.Held right := by
  intro i a s page ha hasked
  have hspent := (h i a ha (Option.some_ne_none i).symm).2
  cases hphase : a.job.phase with
  | executing e =>
    rw [hphase] at hspent
    exact hspent.elim
  | _ =>
    rw [hphase] at hasked
    cases hasked

theorem JobsDone.nudged {but : Option Nat} (h : JobsDone n but)
    (hjobs : List.Forall₂ Assignment.Nudged n.jobs n'.jobs) : JobsDone n' but := by
  intro j b hj hbut
  rcases nudged_getElem? hjobs j with ⟨-, hnone⟩ | ⟨a, a', ha, ha', hnudged⟩
  · rw [hj] at hnone
    cases hnone
  · obtain rfl : b = a' := Option.some.inj (hj.symm.trans ha')
    exact (h j a ha hbut).nudged hnudged

theorem Stage.nudged {written : List (Payload A)} (h : Stage answers t c r n written)
    (hcommands : n'.commands = n.commands)
    (hjobs : List.Forall₂ Assignment.Nudged n.jobs n'.jobs) : Stage answers t c r n' written := by
  cases h with
  | submitted queue comes finished =>
    exact .submitted (hcommands ▸ queue) comes (finished.nudged hjobs)
  | @carried i b queue job dispatched command comes others =>
    rcases nudged_getElem? hjobs i with ⟨hnone, -⟩ | ⟨a, a', ha, ha', hnudged⟩
    · rw [job] at hnone
      cases hnone
    · obtain rfl : b = a := Option.some.inj (job.symm.trans ha)
      rw [← hnudged.job] at command comes ⊢
      exact .carried (hcommands ▸ queue) ha' (dispatched.nudged hnudged) command comes
        (others.nudged hjobs)

namespace Errand

/-- The log has grown by a batch, and the jobs got on. -/
theorem grows {batch : List (Payload A)} {more' : List (Event A)}
    (h : Errand p t R before c r sub more told n)
    (hgrows : Grows p t R (before ++ more) (before.length + told) n n' batch more')
    (hheld : n'.Held fun _ => ReadWhole p before)
    (hstage : Stage (p.answerOf before) t c r n' (more.map Event.payload ++ batch)) :
    Errand p t R before c r sub (more ++ more') told n' := by
  have htold : told ≤ more.length := by
    have hbounded := h.bounded
    rw [List.length_append] at hbounded
    omega
  have hsmooth := hgrows.toSmooth
  rw [List.append_assoc] at hsmooth
  refine ⟨hsmooth, hgrows.outcomes ▸ h.feed, ?_, hheld, ?_⟩
  · rw [hgrows.outcomes, List.take_append_of_le_length htold]
    exact h.heard
  · rw [List.map_append, hgrows.payloads]
    exact hstage

/-- While a handler asks, nothing is written. -/
theorem unwritten (h : Errand p t R before c r sub more told n)
    (hasks : (n.nextAct i).asks = true) : more = [] := by
  cases ha : n.jobs[i]? with
  | none =>
    simp only [nextAct, ha] at hasks
    cases hasks
  | some a =>
    obtain ⟨e, hphase⟩ := executing_of_asks ha hasks
    exact List.map_eq_nil_iff.mp (h.stage.unwritten ha hphase)

/-- What a handler is answered is taken from all of the log. -/
theorem answer_reply (h : Errand p t R before c r sub more told n) {s : StreamId}
    {answer : Except RuntimeError (Option S)}
    (hreply : n.reply (n.nextAct i) = some (s, answer)) : answer = p.answerOf before s := by
  obtain rfl := h.unwritten (asks_of_reply hreply)
  have hcurrent := h.current
  have hbounded := h.bounded
  rw [List.append_nil] at hcurrent hbounded
  have hall : before.length + told = before.length := by omega
  rcases reply_cases hreply with ⟨state, -, hknown, rfl⟩ | ⟨page, hact, rfl⟩
  · have hanswer := hcurrent.answer_get h.quiet hall s
    rwa [ReadModel.get, hknown] at hanswer
  · obtain ⟨hs, rfl⟩ := h.held.kept hact
    exact hcurrent.answer_digest hall hs

theorem job (h : Errand p t R before c r sub more told n)
    (hrecalls : ∀ q ∈ r.events ++ [.outcome r.outcome], R q)
    (hroom : before.length + r.events.length + 1 < 0x10000000000000000)
    (hmove : n.moveJob i = some n') : ∃ more', Errand p t R before c r sub more' told n' := by
  have hstage := h.stage
  cases ha : n.jobs[i]? with
  | none => simp [moveJob, ha] at hmove
  | some a =>
  have hheld : n'.Held fun _ => ReadWhole p before := by
    obtain ⟨a', hmoved⟩ := moveJob_moved ha hmove
    refine h.held.moved hmoved fun s hask hunknown => ?_
    obtain rfl := h.unwritten (i := i) (hask ▸ rfl)
    have hwhole := h.toPiped.readWhole hunknown
    rwa [List.append_nil] at hwhole
  generalize hwritten : more.map Event.payload = written at hstage
  cases hstage with
  | submitted queue comes finished =>
    have hspent : Done a := finished i a ha (Option.some_ne_none i).symm
    obtain ⟨a', more', hdone, hjobs, hgrows⟩ := h.toSmooth.done ha hspent hmove
    refine ⟨_, h.grows hgrows hheld ?_⟩
    rw [hwritten]
    exact .submitted (hgrows.commands ▸ queue) comes (finished.set hjobs (.inr hdone))
  | @carried k b queue job dispatched command comes others =>
    by_cases hk : i = k
    · subst hk
      obtain rfl : b = a := Option.some.inj (job.symm.trans ha)
      subst command
      have hbegins := written_nextAct_prefix ha comes
      have hkeeps (s : StreamId) (page : Page A) (hact : n.nextAct i = .keep s page) :
          ReadWhole p (before ++ more) s page := by
        obtain rfl := h.unwritten (i := i) (hact ▸ rfl)
        rw [List.append_nil]
        exact h.held.kept hact
      have hbatch : ∀ q ∈ (n.nextAct i).batch, R q :=
        fun q hq => hrecalls q (hbegins.subset (List.mem_append_right _ hq))
      have hroom' : (before ++ more).length + (n.nextAct i).batch.length < 0x10000000000000000 := by
        have hlength := hbegins.length_le
        have hsame := congrArg List.length hwritten
        simp only [List.length_append, List.length_map, List.length_singleton] at hlength hsame ⊢
        omega
      obtain ⟨b', more', hleads, hgrows⟩ :=
        h.toSmooth.leads ha dispatched (fun _ _ => h.answer_reply) hkeeps comes hbatch hroom' hmove
      have hcomes := hleads.comes
      rw [h.handlers] at hcomes
      refine ⟨_, h.grows hgrows hheld ?_⟩
      rw [hwritten, ← hleads.written]
      exact .carried (hgrows.commands ▸ queue) hleads.after hleads.dispatched hleads.command hcomes
        (others.set hleads.jobs (.inl rfl))
    · have hother : some k ≠ some i := fun heq => hk (Option.some.inj heq).symm
      obtain ⟨a', more', hdone, hjobs, hgrows⟩ := h.toSmooth.done ha (others i a ha hother) hmove
      have hjob : n'.jobs[k]? = some b := by
        rw [hjobs, List.getElem?_set_ne hk]
        exact job
      refine ⟨_, h.grows hgrows hheld ?_⟩
      rw [hwritten, List.append_nil]
      exact .carried (hgrows.commands ▸ queue) hjob dispatched command comes
        (others.set hjobs (.inr hdone))

theorem dispatch (h : Errand p t R before c r sub more told n)
    (hmove : n.moveDispatcher i = some n') : Errand p t R before c r sub more told n' := by
  obtain ⟨c', rest, hqueue, hrest, hjobs, hsmooth, hstore, hmodel⟩ := h.toSmooth.dispatch hmove
  have hheld := h.held.apart (meanwhile_moveDispatcher hmove).toApart
  refine ⟨hsmooth, hmodel ▸ h.feed, hmodel ▸ h.heard, hheld, ?_⟩
  have hstage := h.stage
  generalize more.map Event.payload = written at hstage ⊢
  cases hstage with
  | submitted queue comes finished =>
    rw [queue] at hqueue
    cases hqueue
    have hlast : n'.jobs[n.jobs.length]?
        = some { job := { command := c, persists := true }, token := .shutdown } := by
      rw [hjobs, List.getElem?_concat_length]
    refine .carried hrest hlast ⟨rfl, rfl, rfl⟩ rfl comes fun j b hj hb => ?_
    rw [hjobs, List.getElem?_append] at hj
    split at hj
    · exact finished j b hj (Option.some_ne_none j).symm
    · have hne : j ≠ n.jobs.length := fun heq => hb (congrArg some heq.symm)
      rw [List.getElem?_singleton, if_neg (by omega)] at hj
      cases hj
  | carried queue _ _ _ _ _ =>
    rw [queue] at hqueue
    cases hqueue

/-- Something happens that changes nothing of the commands. -/
theorem elsewhere {told' : Nat} (h : Errand p t R before c r sub more told n)
    (helse : Elsewhere n n') (hpiped : Piped p (before ++ more) (before.length + told') n')
    (hfeed : (n'.model.outcomes.mailbox sub).Live)
    (hheard : (n'.model.outcomes.mailbox sub).queue = Log.outcomes (more.take told')) :
    Errand p t R before c r sub more told' n' where
  toSmooth := h.toSmooth.elsewhere helse hpiped
  feed := hfeed
  heard := hheard
  held := h.held.admits (.of_nudged helse.jobs)
  stage := h.stage.nudged helse.commands helse.jobs

theorem pull (h : Errand p t R before c r sub more told n) (hmove : n.movePull i = some n') :
    Errand p t R before c r sub more told n' := by
  have hmodel := (aside_movePull hmove).2.2
  exact h.elsewhere (cleared_movePull hmove).elsewhere (h.toPiped.pull hmove) (hmodel ▸ h.feed)
    (hmodel ▸ h.heard)

/-- The consumer takes a step. If it applies an outcome, the feed tells of it. -/
theorem consumer [DecidableEq S] (h : Errand p t R before c r sub more told n)
    (hq : ∀ o : Outcome, p.concerns o.stream = false) (hmove : n.moveConsumer = some n') :
    ∃ told', Errand p t R before c r sub more told' n' := by
  have helse := (cleared_moveConsumer hmove).elsewhere
  rcases h.toPiped.consumer hq hmove with ⟨hpiped, hmodel⟩ | ⟨e, he, hpiped, houtcomes⟩
  · exact ⟨told, h.elsewhere helse hpiped (hmodel ▸ h.feed) (hmodel ▸ h.heard)⟩
  · rw [List.getElem?_append_right (by omega), Nat.add_sub_cancel_left] at he
    refine ⟨told + 1, h.elsewhere helse hpiped ?_ ?_⟩
    · rw [houtcomes]
      cases e.payload.outcome? with
      | none => exact h.feed
      | some o =>
        dsimp only
        rw [Broadcaster.mailbox_publish, h.feed.deliver]
        exact ⟨h.feed.linked, h.feed.held⟩
    · rw [houtcomes, Log.outcomes_take_succ he]
      cases e.payload.outcome? with
      | none => exact h.heard.trans (List.append_nil _).symm
      | some o =>
        dsimp only
        rw [Broadcaster.mailbox_publish, h.feed.deliver, ← h.heard]
        rfl

theorem move [DecidableEq S] {task : TaskId} (h : Errand p t R before c r sub more told n)
    (hq : ∀ o : Outcome, p.concerns o.stream = false)
    (hrecalls : ∀ q ∈ r.events ++ [.outcome r.outcome], R q)
    (hroom : before.length + r.events.length + 1 < 0x10000000000000000)
    (hmove : n.move task = some n') :
    ∃ more' told', Errand p t R before c r sub more' told' n' := by
  cases task with
  | pull i => exact ⟨more, told, h.pull hmove⟩
  | consumer =>
    obtain ⟨told', h'⟩ := h.consumer hq hmove
    exact ⟨more, told', h'⟩
  | lookup i =>
    have hmove : n.moveLookup i = some n' := hmove
    rw [moveLookup_of_nil h.lookups] at hmove
    cases hmove
  | job i =>
    obtain ⟨more', h'⟩ := h.job hrecalls hroom hmove
    exact ⟨more', told, h'⟩
  | token i =>
    have helse : Elsewhere n n' := elsewhere_moveToken hmove
    obtain ⟨jobs, -, rfl⟩ := nudged_moveToken hmove
    exact ⟨more, told, h.elsewhere helse (h.toPiped.aside rfl rfl rfl rfl rfl) h.feed h.heard⟩
  | dispatcher i => exact ⟨more, told, h.dispatch hmove⟩

theorem lasting [DecidableEq S] (hq : ∀ o : Outcome, p.concerns o.stream = false)
    (hrecalls : ∀ q ∈ r.events ++ [.outcome r.outcome], R q)
    (hroom : before.length + r.events.length + 1 < 0x10000000000000000) :
    Lasting fun n : Node A S B => ∃ more told, Errand p t R before c r sub more told n where
  move := fun ⟨_, _, h⟩ hmove => h.move hq hrecalls hroom hmove
  turns := fun _ ⟨more, told, h⟩ => ⟨more, told, h.elsewhere
    ⟨rfl, rfl, rfl, rfl, rfl, rfl, rfl, nudged_refl _⟩
    (h.toPiped.aside rfl rfl rfl rfl rfl) h.feed h.heard⟩
  now := fun _ ⟨more, told, h⟩ => ⟨more, told, h.elsewhere
    ⟨rfl, rfl, rfl, rfl, rfl, rfl, rfl, nudged_refl _⟩
    (h.toPiped.aside rfl rfl rfl rfl rfl) h.feed h.heard⟩

/-- What is written and was told of when the feed has told of an outcome. By then the whole result is
written, as its events record none. -/
theorem told_of_mem (h : Errand p t R before c r sub more told n)
    (hevents : ∀ q ∈ r.events, q.outcome? = none) {o : Outcome}
    (ho : o ∈ Log.outcomes (more.take told)) :
    o = r.outcome ∧ more.map Event.payload = r.events ++ [.outcome r.outcome] ∧
      more.length ≤ told := by
  have hnone (events : List (Event A)) (hbegins : events.map Event.payload <+: r.events) :
      Log.outcomes events = [] := by
    refine List.filterMap_eq_nil_iff.mpr fun e he => hevents _ (hbegins.subset ?_)
    exact List.mem_map_of_mem he
  have htaken : (more.take told).map Event.payload <+: r.events ++ [.outcome r.outcome] :=
    ((List.take_prefix told more).map _).trans h.stage.written_prefix
  -- Only the last of the result is an outcome, so it is not a shorter part that was told of.
  rcases List.prefix_concat_iff.mp htaken with hall | hpart
  · have hlong := congrArg List.length hall
    have hshort := h.stage.written_prefix.length_le
    rw [← hall] at hshort
    simp only [List.length_map, List.length_take] at hlong hshort
    have htold : more.length ≤ told := by omega
    rw [List.take_of_length_le htold] at hall ho
    refine ⟨?_, hall, htold⟩
    obtain ⟨e, he, heo⟩ := List.mem_filterMap.mp ho
    have hmem : e.payload ∈ r.events ++ [.outcome r.outcome] := hall ▸ List.mem_map_of_mem he
    rcases List.mem_append.mp hmem with hfact | hlast
    · rw [hevents _ hfact] at heo
      cases heo
    · rw [List.mem_singleton.mp hlast] at heo
      exact (Option.some.inj heo).symm
  · rw [hnone _ hpart] at ho
    cases ho

/-- When the wait for the outcome is over, it has got the outcome of the result. The result is in
the log, all of which was applied, and no command is under way. -/
theorem answered (h : Errand p t R before c r sub more told n)
    (hevents : ∀ q ∈ r.events, q.outcome? = none) {wait : Await} {answer : Awaited}
    (hsub : wait.subscription = sub) (hwait : wait.answer = none)
    (hanswer : (wait.run false n.model.outcomes).1.answer = some answer) :
    answer = .ok r.outcome ∧ more.map Event.payload = r.events ++ [.outcome r.outcome] ∧
      Rests p t R (before ++ more) (before ++ more).length n := by
  rw [Await.answer_run hwait, hsub, h.heard, h.feed.linked] at hanswer
  simp only [Await.due, Bool.false_eq_true, if_false, Bool.not_true] at hanswer
  split at hanswer
  · rename_i o hfound
    cases hanswer
    obtain ⟨rfl, hwritten, htold⟩ := h.told_of_mem hevents (List.mem_of_find?_eq_some hfound)
    refine ⟨rfl, hwritten, ?_⟩
    have hbounded := h.bounded
    have hall : before.length + told = (before ++ more).length := by
      rw [List.length_append] at hbounded ⊢
      omega
    have hsmooth := h.toSmooth
    have hstage := h.stage
    rw [hall] at hsmooth
    rw [hwritten] at hstage
    generalize hfull : r.events ++ [.outcome r.outcome] = written at hstage
    cases hstage with
    | submitted _ _ _ => cases List.append_eq_nil_iff.mp hfull |>.2
    | @carried k b queue job dispatched command comes others =>
      have hspent : Done b := ⟨dispatched, JobPhase.spent_of_written comes hfull.symm⟩
      refine ⟨hsmooth, queue, fun j d hj _ => ?_⟩
      by_cases hjk : j = k
      · subst hjk
        cases job.symm.trans hj
        exact hspent
      · exact others j d hj fun heq => hjk (Option.some.inj heq).symm
  · cases hanswer

end Errand

namespace Rests

theorem elsewhere {applied' : Nat} (h : Rests p t R log applied n) (helse : Elsewhere n n')
    (hpiped : Piped p log applied' n') : Rests p t R log applied' n' :=
  ⟨h.toSmooth.elsewhere helse hpiped, helse.commands ▸ h.unasked, h.finished.nudged helse.jobs⟩

/-- Without a command, nothing is written. -/
theorem move [DecidableEq S] {task : TaskId} (h : Rests p t R log applied n)
    (hq : ∀ o : Outcome, p.concerns o.stream = false) (hmove : n.move task = some n') :
    ∃ applied', applied ≤ applied' ∧ Rests p t R log applied' n' := by
  cases task with
  | pull i =>
    exact ⟨applied, Nat.le_refl _,
      h.elsewhere (cleared_movePull hmove).elsewhere (h.toPiped.pull hmove)⟩
  | consumer =>
    have helse : Elsewhere n n' := (cleared_moveConsumer hmove).elsewhere
    rcases h.toPiped.consumer hq hmove with ⟨hpiped, -⟩ | ⟨e, -, hpiped, -⟩
    · exact ⟨applied, Nat.le_refl _, h.elsewhere helse hpiped⟩
    · exact ⟨applied + 1, Nat.le_succ _, h.elsewhere helse hpiped⟩
  | lookup i =>
    have hmove : n.moveLookup i = some n' := hmove
    rw [moveLookup_of_nil h.lookups] at hmove
    cases hmove
  | job i =>
    have hmove : n.moveJob i = some n' := hmove
    cases ha : n.jobs[i]? with
    | none => simp [moveJob, ha] at hmove
    | some a =>
      have hspent : Done a := h.finished i a ha (Option.some_ne_none i).symm
      obtain ⟨a', more, hdone, hjobs, hgrows⟩ := h.toSmooth.done ha hspent hmove
      have hsmooth := hgrows.toSmooth
      rw [List.map_eq_nil_iff.mp hgrows.payloads, List.append_nil] at hsmooth
      exact ⟨applied, Nat.le_refl _, hsmooth, hgrows.commands ▸ h.unasked,
        h.finished.set hjobs (.inr hdone)⟩
  | token i =>
    have helse : Elsewhere n n' := elsewhere_moveToken hmove
    obtain ⟨jobs, -, rfl⟩ := nudged_moveToken hmove
    exact ⟨applied, Nat.le_refl _, h.elsewhere helse (h.toPiped.aside rfl rfl rfl rfl rfl)⟩
  | dispatcher i =>
    obtain ⟨c, rest, hqueue, -⟩ := h.toSmooth.dispatch hmove
    rw [h.unasked] at hqueue
    cases hqueue

theorem lasting [DecidableEq S] (hq : ∀ o : Outcome, p.concerns o.stream = false) (least : Nat) :
    Lasting fun n : Node A S B => ∃ applied, least ≤ applied ∧ Rests p t R log applied n where
  move := fun ⟨_, hleast, h⟩ hmove =>
    have ⟨applied', hle, h'⟩ := h.move hq hmove
    ⟨applied', Nat.le_trans hleast hle, h'⟩
  turns := fun _ ⟨applied, hleast, h⟩ => ⟨applied, hleast, h.elsewhere
    ⟨rfl, rfl, rfl, rfl, rfl, rfl, rfl, nudged_refl _⟩ (h.toPiped.aside rfl rfl rfl rfl rfl)⟩
  now := fun _ ⟨applied, hleast, h⟩ => ⟨applied, hleast, h.elsewhere
    ⟨rfl, rfl, rfl, rfl, rfl, rfl, rfl, nudged_refl _⟩ (h.toPiped.aside rfl rfl rfl rfl rfl)⟩

theorem feeds (h : Rests p t R log applied n) (outcomes : Broadcaster Outcome) :
    Rests p t R log applied { n with model := { n.model with outcomes } } :=
  h.elsewhere ⟨rfl, rfl, rfl, rfl, rfl, rfl, rfl, nudged_refl _⟩ (h.toPiped.feeds outcomes)

theorem get (h : Rests p t R log applied n) (s : StreamId) :
    Rests p t R log applied (n.serve fun m store => m.get store s).2 :=
  h.elsewhere
    ⟨rfl, ReadModel.writeFaults_get, ReadModel.contents_get, rfl, rfl, rfl, rfl, nudged_refl _⟩
    (h.toPiped.get s)

theorem getAll (h : Rests p t R log applied n) :
    Rests p t R log applied (n.serve fun m store => m.getAll store).2 :=
  h.elsewhere ⟨rfl, ReadModel.writeFaults_getAllIn, ReadModel.after_getAllIn.contents, rfl, rfl, rfl,
    rfl, nudged_refl _⟩ h.toPiped.getAll

/-- A command is submitted that comes to a result, while somebody has just subscribed to the feed of
the read model. -/
theorem submit (h : Rests p t R before before.length n)
    (hcomes : t.resultOf (p.answerOf before) c = some r)
    (hfeed : n.model.outcomes.mailbox sub = .new) :
    Errand p t R before c r sub [] 0 (n.submit c) := by
  have hinbox : (n.submit c).commands.mailbox 0 = (n.commands.mailbox 0).deliver c :=
    Broadcaster.mailbox_publish c
  have hsmooth : Smooth p t R before before.length (n.submit c) :=
    { h.toPiped.aside rfl rfl rfl rfl rfl with
      handlers := h.handlers
      recalls := h.recalls
      acks := h.acks
      writes := h.writes
      shutdown := h.shutdown
      dispatcher := h.dispatcher
      inbox := by
        rw [hinbox, h.inbox.deliver]
        exact ⟨h.inbox.linked, h.inbox.held⟩ }
  have hlive : (n.model.outcomes.mailbox sub).Live := hfeed ▸ Mailbox.live_new
  refine ⟨?_, hlive, congrArg Mailbox.queue hfeed, h.finished.held.of_jobs rfl,
    .submitted ?_ hcomes h.finished⟩
  · rw [List.append_nil]
    exact hsmooth
  · rw [hinbox, h.inbox.deliver, h.unasked]
    rfl

end Rests
end Node
end Chronicle
