import Chronicle.Proofs.Command.Accounting
import Chronicle.Proofs.Feed.Delivery
import Mathlib.Data.List.Forall2

/-!
# Chronicle.Proofs.Command.Books

The books of a node on which jobs carry out commands side by side. A course of events is any
interleaving of steps of jobs with what goes on around them (`Unfolds`); the writes that jobs try are
entered in the order in which they are tried, and the log is what was accepted of them (`Books`).
-/

namespace Chronicle
namespace Node

variable {A S B : Type} [Vocabulary A]

/-- What goes on around the jobs: time passes, tokens fire, reads and writes are made to fail, the
read model changes. The log is left alone, and so is the mailbox of a subscription to each feed. -/
structure Around (o r : Nat) (n n' : Node A S B) : Prop extends Alike n n' where
  now : n.now ≤ n'.now
  shutdown : n'.shutdown = n.shutdown ∨ n'.shutdown = n.shutdown.cancel
  contents : n'.store.contents = n.store.contents
  jobs : List.Forall₂ Assignment.Nudged n.jobs n'.jobs
  outcomes : n'.outcomes.mailbox o = n.outcomes.mailbox o
  results : n'.results.mailbox r = n.results.mailbox r

/-- What a node comes to, in any order of steps, and the writes that were tried on the way. -/
inductive Unfolds (o r : Nat) (n : Node A S B) : List (Write A) → Node A S B → Prop where
  | start : Unfolds o r n [] n
  | job {ws : List (Write A)} {m m' : Node A S B} (i : Nat) : Unfolds o r n ws m →
      m.moveJob i = some m' → Unfolds o r n (ws ++ m.attempt i) m'
  | around {ws : List (Write A)} {m m' : Node A S B} : Unfolds o r n ws m → Around o r m m' →
      Unfolds o r n ws m'

variable {n₀ n n' : Node A S B} {i : Nat} {effect : Effect A} {phase : JobPhase A S}

structure Books (n₀ : Node A S B) (base : List (Event A)) (ws : List (Write A))
    (n : Node A S B) : Prop where
  alike : Alike n₀ n
  commands : n.jobs.map (·.job.command) = n₀.jobs.map (·.job.command)
  contents : ∃ log, n.store.contents = .payloads log ∧
    log.map Event.payload = base.map Event.payload ++ acceptedPayloads ws
  owned : ∀ w ∈ ws, w.job < n.jobs.length
  cancellable : ∀ a ∈ n.jobs, a.Cancellable
  jobs : ∀ i a, n.jobs[i]? = some a → Accounted n₀ i (ownWrites ws i) a.job

variable {base : List (Event A)} {ws : List (Write A)} {a : Assignment A S B}

theorem books_start (h : n₀.Ready base) : Books n₀ base [] n₀ where
  alike := .refl n₀
  commands := rfl
  contents := ⟨base, h.contents, (List.append_nil _).symm⟩
  owned w hw := by cases hw
  cancellable := h.cancellable
  jobs i a ha := by
    obtain ⟨hpersists, hphase⟩ := h.received a (List.mem_of_getElem? ha)
    refine ⟨hpersists, ?_, ?_, ?_, ?_⟩
    · intro r hr
      rw [hphase] at hr
      cases hr
    · intro e he
      rw [hphase] at he
      cases he
    · intro r k hr
      rw [hphase] at hr
      cases hr
    · rw [hphase]
      rfl

theorem Books.command (hb : Books n₀ base ws n) (ha : n.jobs[i]? = some a) :
    ∃ a₀ ∈ n₀.jobs, a₀.job.command = a.job.command := by
  have hmem : a.job.command ∈ n.jobs.map (·.job.command) :=
    List.mem_map_of_mem (List.mem_of_getElem? ha)
  rw [hb.commands] at hmem
  obtain ⟨a₀, ha₀, heq⟩ := List.mem_map.mp hmem
  exact ⟨a₀, ha₀, heq⟩

/-- Jobs of commands with the same identity are one job. -/
theorem Books.same_job (hb : Books n₀ base ws n) (h : n₀.Ready base) {k : Nat}
    {b : Assignment A S B} (ha : n.jobs[i]? = some a) (hk : n.jobs[k]? = some b)
    (hid : a.job.command.id = b.job.command.id) : i = k := by
  have hdistinct : (n.jobs.map (·.job.command.id)).Nodup := by
    have hids : n.jobs.map (·.job.command.id) = n₀.jobs.map (·.job.command.id) := by
      have := congrArg (List.map Command.id) hb.commands
      rwa [List.map_map, List.map_map] at this
    rw [hids]
    exact h.distinct
  have hi := (List.getElem?_eq_some_iff.mp ha).1
  refine (List.getElem?_inj (by simpa using hi) hdistinct).mp ?_
  rw [List.getElem?_map, List.getElem?_map, ha, hk]
  exact congrArg some hid

theorem Books.owner (hb : Books n₀ base ws n) {w : Write A} (hw : w ∈ ws) :
    ∃ b, n.jobs[w.job]? = some b ∧ w ∈ ownWrites ws w.job ∧
      Accounted n₀ w.job (ownWrites ws w.job) b.job := by
  have hb' := List.getElem?_eq_getElem (hb.owned w hw)
  exact ⟨_, hb', List.mem_filter.mpr ⟨hw, beq_self_eq_true _⟩, hb.jobs _ _ hb'⟩

/-- A search finds nothing that a job did not write itself. -/
theorem Books.unfound (hb : Books n₀ base ws n) (h : n₀.Ready base) (ha : n.jobs[i]? = some a)
    {log : List (Event A)} (hlog : n.store.contents = .payloads log) {r : ProcessingResult A}
    {k : Nat} (hphase : a.job.phase = .checking r k) :
    ¬ ∃ e ∈ log, e.stream = r.outcome.stream := by
  have haccount := hb.jobs i a ha
  have hsearches := haccount.searching r k hphase
  have hid := (haccount.decided r (by rw [hphase]; rfl)).1
  obtain ⟨a₀, ha₀, hcommand⟩ := hb.command ha
  rintro ⟨e, he, hstream⟩
  have hpasses : e.payload.stream = Outcome.streamOf a.job.command.id := by
    rw [← hid]
    exact hstream
  have hclean : ∀ {events : List (Payload A)}, n₀.Clean events → e.payload ∉ events := by
    intro events hevents hmem
    refine hevents _ hmem a₀ ha₀ (.inr ⟨hsearches, ?_⟩)
    rw [hcommand]
    exact hpasses
  obtain ⟨log', hlog', hpayloads⟩ := hb.contents
  rw [hlog] at hlog'
  cases hlog'
  have hmem : e.payload ∈ log.map Event.payload := List.mem_map_of_mem he
  rw [hpayloads] at hmem
  rcases List.mem_append.mp hmem with hbase | hwritten
  · exact hclean h.unrecorded hbase
  · obtain ⟨w, hw, hbatch⟩ := List.mem_flatMap.mp hwritten
    obtain ⟨hw, haccepted⟩ := List.mem_filter.mp hw
    obtain ⟨b, hb', hown, haccount'⟩ := hb.owner hw
    rcases haccount'.accepted hown haccepted with hbatch' | ⟨r', hphase', hbatch'⟩
    · exact hclean hbatch' hbatch
    · -- an outcome in this stream is the job's own, which it has not recorded yet
      rw [hbatch', List.mem_singleton] at hbatch
      have hid' : r'.id = b.job.command.id := by
        refine (haccount'.decided r' ?_).1
        rcases hphase' with hp | hp <;> rw [hp] <;> rfl
      have hsame : a.job.command.id = b.job.command.id := by
        rw [hbatch] at hpasses
        rw [← hid']
        exact (Outcome.streamOf_injective hpasses).symm
      obtain rfl := hb.same_job h ha hb' hsame
      rw [ha] at hb'
      cases hb'
      rw [hphase] at hphase'
      rcases hphase' with hp | hp <;> cases hp

theorem Turned.jobs_getElem? (hturned : Turned n n' i a log phase effect)
    (ha : n.jobs[i]? = some a) : ∃ a', a.Taken n.policy phase a' ∧
      ∀ k, n'.jobs[k]? = if k = i then some a' else n.jobs[k]? := by
  obtain ⟨a', hjobs, ha'⟩ := hturned.jobs
  refine ⟨a', ha', fun k => ?_⟩
  rw [hjobs, List.getElem?_set]
  by_cases hk : k = i
  · rw [if_pos hk.symm, if_pos hk, if_pos (List.getElem?_eq_some_iff.mp ha).1]
  · rw [if_neg fun hk' => hk hk'.symm, if_neg hk]

theorem Books.turn (hb : Books n₀ base ws n) (h : n₀.Ready base) (ha : n.jobs[i]? = some a)
    {log : List (Event A)} (hlog : n.store.contents = .payloads log)
    (hturn : Turn n log a.job.command a.job.phase effect phase)
    (hturned : Turned n n' i a log phase effect) :
    Books n₀ base (ws ++ effect.writes i) n' := by
  obtain ⟨a', ha', hat⟩ := hturned.jobs_getElem? ha
  have hlength : n'.jobs.length = n.jobs.length := by
    obtain ⟨_, hjobs, -⟩ := hturned.jobs
    rw [hjobs, List.length_set]
  refine ⟨hb.alike.trans hturned.toAlike, ?_, ?_, fun w hw => ?_, fun b hmem => ?_,
    fun k b hk => ?_⟩
  · rw [← hb.commands]
    refine List.ext_getElem? fun k => ?_
    rw [List.getElem?_map, List.getElem?_map, hat]
    by_cases hk : k = i
    · rw [if_pos hk, hk, ha, Option.map_some, Option.map_some, ha'.job]
    · rw [if_neg hk]
  · obtain ⟨log', hlog', hpayloads⟩ := hb.contents
    rw [hlog] at hlog'
    cases hlog'
    obtain ⟨more, hmore, happended⟩ := hturned.contents
    refine ⟨log ++ more, hmore, ?_⟩
    rw [List.map_append, happended, hpayloads, acceptedPayloads_append, acceptedPayloads_writes,
      List.append_assoc]
  · rw [hlength]
    rcases List.mem_append.mp hw with hmem | hmem
    · exact hb.owned w hmem
    · rw [job_of_writes hmem]
      exact (List.getElem?_eq_some_iff.mp ha).1
  · obtain ⟨k, hk⟩ := List.getElem?_of_mem hmem
    rw [hat] at hk
    by_cases hki : k = i
    · rw [if_pos hki] at hk
      cases hk
      exact ha'.cancellable (hb.cancellable a (List.mem_of_getElem? ha))
    · rw [if_neg hki] at hk
      exact hb.cancellable b (List.mem_of_getElem? hk)
  · rw [ownWrites_writes]
    rw [hat] at hk
    by_cases hki : k = i
    · rw [if_pos hki] at hk
      cases hk
      subst hki
      obtain ⟨a₀, ha₀, hcommand⟩ := hb.command ha
      rw [if_pos rfl, ha'.job]
      refine (hb.jobs k a ha).turn hb.alike ?_ ?_ (fun r _ hp => hb.unfound h ha hlog hp) hturn
      · rw [← hcommand]
        exact h.built a₀ ha₀
      · rw [← hcommand]
        exact h.handled a₀ ha₀
    · rw [if_neg hki] at hk
      rw [if_neg hki]
      exact hb.jobs k b hk

theorem Books.around {o r : Nat} (hb : Books n₀ base ws n) (haround : Around o r n n') :
    Books n₀ base ws n' := by
  have hjob : ∀ {i : Nat} {a' : Assignment A S B}, n'.jobs[i]? = some a' →
      ∃ a : Assignment A S B, n.jobs[i]? = some a ∧ a'.job = a.job ∧
        (a.Cancellable → a'.Cancellable) := by
    intro i a' ha'
    rcases nudged_getElem? haround.jobs i with ⟨-, hnone⟩ | ⟨a, b, ha, hb, hnudged⟩
    · rw [ha'] at hnone
      cases hnone
    · rw [ha'] at hb
      cases hb
      exact ⟨a, ha, hnudged.job, hnudged.cancellable⟩
  have hlength := haround.jobs.length_eq
  refine ⟨hb.alike.trans haround.toAlike, ?_, ?_, fun w hw => ?_, fun a' hmem => ?_,
    fun i a' ha' => ?_⟩
  · rw [← hb.commands]
    refine List.ext_getElem? fun i => ?_
    rw [List.getElem?_map, List.getElem?_map]
    rcases nudged_getElem? haround.jobs i with ⟨hnone, hnone'⟩ | ⟨a, a', ha, ha', -⟩
    · rw [hnone, hnone']
    · obtain ⟨b, hb', hsame, -⟩ := hjob ha'
      rw [ha] at hb'
      cases hb'
      rw [ha, ha', Option.map_some, Option.map_some, hsame]
  · rw [haround.contents]
    exact hb.contents
  · rw [← hlength]
    exact hb.owned w hw
  · obtain ⟨i, ha'⟩ := List.getElem?_of_mem hmem
    obtain ⟨a, ha, -, hcancellable⟩ := hjob ha'
    exact hcancellable (hb.cancellable a (List.mem_of_getElem? ha))
  · obtain ⟨a, ha, hsame, -⟩ := hjob ha'
    rw [hsame]
    exact hb.jobs i a ha

theorem Books.stepped (hb : Books n₀ base ws n) (h : n₀.Ready base) (hmove : n.moveJob i = some n') :
    ∃ a log effect phase, n.jobs[i]? = some a ∧ n.store.contents = .payloads log ∧
      a.job.isOver = false ∧ Turn n log a.job.command a.job.phase effect phase ∧
      n.attempt i = effect.writes i ∧ Turned n n' i a log phase effect := by
  obtain ⟨a, ha⟩ := exists_of_moveJob hmove
  obtain ⟨log, hlog, -⟩ := hb.contents
  obtain ⟨hover, effect, phase, hturn, hattempt, hturned⟩ :=
    moveJob_turn hlog (hb.alike.acks.trans h.acks) ha (hb.jobs i a ha).persists hmove
  exact ⟨a, log, effect, phase, ha, hlog, hover, hturn, hattempt, hturned⟩

theorem Unfolds.books {o r : Nat} (hu : Unfolds o r n₀ ws n) (h : n₀.Ready base) :
    Books n₀ base ws n := by
  induction hu with
  | start => exact books_start h
  | job i _ hmove hb =>
    obtain ⟨a, log, effect, phase, ha, hlog, -, hturn, hattempt, hturned⟩ := hb.stepped h hmove
    rw [hattempt]
    exact hb.turn h ha hlog hturn hturned
  | around _ haround hb => exact hb.around haround

end Node
end Chronicle
