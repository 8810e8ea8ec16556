import Chronicle.Proofs.Command.Books

/-!
# Chronicle.Proofs.Command.Settling

What is left of a job that has finished. Both feeds have its result once (`Fed`), and the log has its
events, and after them its outcome, unless every attempt to record that was refused (`Settled`).
-/

namespace Chronicle

section Outcomes

variable {A : Type} [Vocabulary A] {id : CommandId}

theorem outcomesOf_append (ps qs : List (Payload A)) :
    outcomesOf id (ps ++ qs) = outcomesOf id ps ++ outcomesOf id qs := by
  simp [outcomesOf]

theorem outcomesOf_outcome (o : Outcome) :
    outcomesOf id [(.outcome o : Payload A)] = if o.command = id then [o] else [] := by
  by_cases h : o.command = id
  · simp [outcomesOf, Payload.outcome?, h]
  · simp [outcomesOf, Payload.outcome?, h]

theorem outcomesOf_perm {ps qs : List (Payload A)} (h : ps.Perm qs) :
    (outcomesOf id ps).Perm (outcomesOf id qs) :=
  (h.filterMap _).filter _

theorem outcomesOf_map_outcome {os : List Outcome} (h : ∀ o ∈ os, o.command = id) :
    outcomesOf id (os.map .outcome : List (Payload A)) = os := by
  induction os with
  | nil => rfl
  | cons o rest ih =>
    rw [List.map_cons, ← List.singleton_append, outcomesOf_append, outcomesOf_outcome,
      if_pos (h o List.mem_cons_self), ih fun o' ho' => h o' (List.mem_cons_of_mem _ ho')]
    rfl

theorem outcomesOf_eq_nil {ps : List (Payload A)}
    (h : ∀ p ∈ ps, ∀ o, p = .outcome o → o.command ≠ id) : outcomesOf id ps = [] := by
  refine List.filter_eq_nil_iff.mpr fun o ho => ?_
  obtain ⟨p, hp, hpo⟩ := List.mem_filterMap.mp ho
  cases p with
  | fact f => cases hpo
  | outcome o' =>
    cases hpo
    simpa using h _ hp o rfl

/-- Only the writes of one job count if the others put no such outcome into the log. -/
theorem outcomesOf_acceptedPayloads {ws : List (Write A)} {i : Nat}
    (h : ∀ w ∈ ws, w.job ≠ i → w.accepted = true → outcomesOf id w.batch = []) :
    outcomesOf id (acceptedPayloads ws) = outcomesOf id (acceptedPayloads (ownWrites ws i)) := by
  induction ws with
  | nil => rfl
  | cons w rest ih =>
    have hrest := ih fun w' hw' => h w' (List.mem_cons_of_mem _ hw')
    have hcons : ∀ ws' : List (Write A), acceptedPayloads (w :: ws') =
        (if w.accepted then w.batch else []) ++ acceptedPayloads ws' := by
      intro ws'
      cases hw : w.accepted <;> simp [acceptedPayloads, hw]
    rw [hcons, outcomesOf_append, hrest]
    by_cases hjob : w.job = i
    · have hown : ownWrites (w :: rest) i = w :: ownWrites rest i :=
        List.filter_cons_of_pos (by simpa using hjob)
      rw [hown, hcons, outcomesOf_append]
    · have hown : ownWrites (w :: rest) i = ownWrites rest i :=
        List.filter_cons_of_neg (by simpa using hjob)
      rw [hown]
      cases hw : w.accepted with
      | false => rfl
      | true =>
        rw [if_pos rfl, h w List.mem_cons_self hjob hw]
        rfl

end Outcomes

section Writes

variable {A : Type} {i : Nat} {r : ProcessingResult A} {ws rest : List (Write A)}

theorem acceptedPayloads_refusals (k : Nat) : acceptedPayloads (refusals i r k) = [] := by
  rw [acceptedPayloads, List.filter_eq_nil_iff.mpr, List.flatMap_nil]
  intro w hw
  rw [List.eq_of_mem_replicate hw]
  exact Bool.false_ne_true

theorem Opening.acceptedPayloads {opening : List (Write A)} (h : Opening i r opening) :
    acceptedPayloads opening = r.events := by
  cases h with
  | nothing h => exact h.symm
  | written _ => simp [Chronicle.acceptedPayloads]
  | refused events error _ hr =>
    rw [hr]
    rfl

theorem Opening.contiguous {opening : List (Write A)} (h : Opening i r opening)
    (hws : ownWrites ws i = opening ++ rest) :
    ∃ ws₁ ws₂ before, ws = ws₁ ++ ws₂ ∧ ownWrites ws₂ i = rest ∧
      Chronicle.acceptedPayloads ws₁ = before ++ r.events := by
  cases h with
  | nothing h => exact ⟨[], ws, [], rfl, hws, by rw [h]; rfl⟩
  | written _ =>
    obtain ⟨ws₁, ws₂, rfl, -, -, hrest⟩ := List.filter_eq_cons_iff.mp hws
    refine ⟨ws₁ ++ [⟨i, r.events, true⟩], ws₂, Chronicle.acceptedPayloads ws₁, by simp, hrest, ?_⟩
    rw [acceptedPayloads_append]
    simp [Chronicle.acceptedPayloads]
  | refused events error _ hr =>
    obtain ⟨ws₁, ws₂, rfl, -, -, hrest⟩ := List.filter_eq_cons_iff.mp hws
    refine ⟨ws₁ ++ [⟨i, events, false⟩], ws₂, Chronicle.acceptedPayloads ws₁, by simp, hrest, ?_⟩
    rw [acceptedPayloads_append, hr]
    simp [Chronicle.acceptedPayloads, ProcessingResult.events]

theorem recorded_in_log {k : Nat}
    (hws : ownWrites ws i = refusals i r k ++ [⟨i, [.outcome r.outcome], true⟩]) :
    ∃ between after, acceptedPayloads ws = between ++ .outcome r.outcome :: after := by
  obtain ⟨ws₁, ws₂, rfl, -, hlast⟩ := List.filter_eq_append_iff.mp hws
  obtain ⟨ws₃, ws₄, rfl, -, -, -⟩ := List.filter_eq_cons_iff.mp hlast
  refine ⟨acceptedPayloads (ws₁ ++ ws₃), acceptedPayloads ws₄, ?_⟩
  rw [← List.append_assoc, acceptedPayloads_append]
  simp [acceptedPayloads]

end Writes

/-- How a job that has finished with the result `r` has left the log, which is what the writes `ws`
added to `base`: what it tried to write, what it added, and which outcomes of the command there are.
Only a processed command has events. -/
inductive Settled {A : Type} [Vocabulary A] (p : RetryPolicy) (base : List (Payload A))
    (ws : List (Write A)) (i : Nat) (r : ProcessingResult A) : Prop where
  | recorded (opening : List (Write A)) (k : Nat) : Opening i r opening → k ≤ p.maxRetries →
      ownWrites ws i = opening ++ refusals i r k ++ [⟨i, [.outcome r.outcome], true⟩] →
      acceptedPayloads (ownWrites ws i) = r.events ++ [.outcome r.outcome] →
      (∃ before between after, acceptedPayloads ws =
        before ++ r.events ++ between ++ .outcome r.outcome :: after) →
      outcomesOf r.id (base ++ acceptedPayloads ws) = [r.outcome] → Settled p base ws i r
  /-- Every attempt to record the outcome was refused. -/
  | unrecorded (opening : List (Write A)) : Opening i r opening →
      ownWrites ws i = opening ++ refusals i r (p.maxRetries + 1) →
      acceptedPayloads (ownWrites ws i) = r.events → r.events <:+: acceptedPayloads ws →
      outcomesOf r.id (base ++ acceptedPayloads ws) = [] → Settled p base ws i r

theorem Job.result?_of_not_over {A S B : Type} {j : Job A S B} (h : j.isOver = false) :
    j.result? = none := by
  unfold Job.isOver at h
  unfold Job.result?
  split <;> simp_all

theorem Job.result?_concluded {A S B : Type} {j : Job A S B} (r : ProcessingResult A) :
    ({ j with phase := .concluded r } : Job A S B).result? = none := by
  unfold JobPhase.concluded
  cases h : r.events.isEmpty <;> rfl

namespace Node

variable {A S B : Type} [Vocabulary A] {n₀ n n' : Node A S B} {i : Nat} {log : List (Event A)}
  {base : List (Event A)} {ws : List (Write A)} {a : Assignment A S B} {effect : Effect A}
  {phase : JobPhase A S} {j : Job A S B}

/-! ## The feeds -/

/-- A step finishes a job by announcing its result, and not otherwise. -/
theorem Turn.result?_eq (h : Turn n log j.command j.phase effect phase) (hover : j.isOver = false) :
    ({ j with phase } : Job A S B).result?.toList = effect.announced := by
  have hbefore := Job.result?_of_not_over hover
  generalize hp : j.phase = phase₀ at h
  cases h with
  | rest =>
    rw [← hp, hbefore]
    rfl
  | refuse fired r _ =>
    rw [Job.result?_concluded]
    rfl
  | complete e o fired _ =>
    rw [Job.result?_concluded]
    rfl
  | interrupt e =>
    rw [Job.result?_concluded]
    rfl
  | retry r k delay =>
    cases n.searches <;> rfl
  | _ => rfl

/-- What the subscriptions `o` to outcomes and `r` to results were sent: the results of the jobs that
have finished, each once. -/
structure Fed (o r : Nat) (n₀ n : Node A S B) (sent : List (ProcessingResult A)) : Prop where
  results : n.results.mailbox r =
    { n₀.results.mailbox r with queue := (n₀.results.mailbox r).queue ++ sent }
  outcomes : n.outcomes.mailbox o = { n₀.outcomes.mailbox o with
    queue := (n₀.outcomes.mailbox o).queue ++ sent.map ProcessingResult.outcome }
  jobs : ∀ (i : Nat) (a : Assignment A S B), n.jobs[i]? = some a →
    sent.filter (·.id = a.job.command.id) = a.job.result?.toList
  known : ∀ result ∈ sent, ∃ a ∈ n.jobs, a.job.result? = some result

variable {o r : Nat} {sent : List (ProcessingResult A)}

theorem fed_start (h : n₀.Ready base) : Fed o r n₀ n₀ [] where
  results := by simp
  outcomes := by simp
  jobs i a ha := by
    have hphase := (h.received a (List.mem_of_getElem? ha)).2
    simp [Job.result?, hphase]
  known _ hmem := nomatch hmem

theorem Books.announced (hb : Books n₀ base ws n) (ha : n.jobs[i]? = some a)
    (hturn : Turn n log a.job.command a.job.phase effect phase) {result : ProcessingResult A}
    (hresult : result ∈ effect.announced) : result.id = a.job.command.id := by
  refine ((hb.jobs i a ha).decided result ?_).1
  generalize a.job.phase = before at hturn
  cases hturn with
  | announced r => rw [List.mem_singleton.mp hresult]; rfl
  | _ => cases hresult

theorem Fed.turn (hfed : Fed o r n₀ n sent) (ho : (n₀.outcomes.mailbox o).Live)
    (hr : (n₀.results.mailbox r).Live) (hb : Books n₀ base ws n) (h : n₀.Ready base)
    (ha : n.jobs[i]? = some a) (hover : a.job.isOver = false)
    (hturn : Turn n log a.job.command a.job.phase effect phase)
    (hturned : Turned n n' i a log phase effect) : Fed o r n₀ n' (sent ++ effect.announced) := by
  obtain ⟨a', ha', hat⟩ := hturned.jobs_getElem? ha
  have hresult : a'.job.result?.toList = effect.announced := by
    rw [ha'.job]
    exact hturn.result?_eq hover
  refine ⟨?_, ?_, fun k b hk => ?_, fun result hmem => ?_⟩
  · have hlive : (n.results.mailbox r).Live := by
      rw [hfed.results]
      exact ⟨hr.linked, hr.held⟩
    rw [hturned.results]
    refine (Broadcaster.mailbox_foldl_publish id hlive _).trans ?_
    rw [hfed.results]
    simp
  · have hlive : (n.outcomes.mailbox o).Live := by
      rw [hfed.outcomes]
      exact ⟨ho.linked, ho.held⟩
    rw [hturned.outcomes, Broadcaster.mailbox_foldl_publish ProcessingResult.outcome hlive,
      hfed.outcomes]
    simp
  · rw [hat] at hk
    rw [List.filter_append]
    by_cases hki : k = i
    · rw [if_pos hki] at hk
      cases hk
      have hall : effect.announced.filter (·.id = a'.job.command.id) = effect.announced := by
        refine List.filter_eq_self.mpr fun result hmem => ?_
        rw [ha'.job]
        exact decide_eq_true (hb.announced ha hturn hmem)
      have hnone : sent.filter (·.id = a'.job.command.id) = [] := by
        rw [ha'.job]
        have := hfed.jobs i a ha
        rw [Job.result?_of_not_over hover] at this
        exact this
      rw [hall, hnone, hresult]
      rfl
    · rw [if_neg hki] at hk
      have hnone : effect.announced.filter (·.id = b.job.command.id) = [] := by
        refine List.filter_eq_nil_iff.mpr fun result hmem => ?_
        rw [hb.announced ha hturn hmem, decide_eq_true_iff]
        exact fun hid => hki (hb.same_job h hk ha hid.symm)
      rw [hnone, List.append_nil]
      exact hfed.jobs k b hk
  · rcases List.mem_append.mp hmem with hold | hnew
    · obtain ⟨b, hb', hresult'⟩ := hfed.known result hold
      obtain ⟨k, hk⟩ := List.getElem?_of_mem hb'
      refine ⟨b, List.mem_of_getElem? (i := k) ?_, hresult'⟩
      rw [hat, if_neg, hk]
      rintro rfl
      rw [ha] at hk
      cases hk
      rw [Job.result?_of_not_over hover] at hresult'
      cases hresult'
    · rw [← hresult] at hnew
      refine ⟨a', List.mem_of_getElem? (i := i) ?_, by simpa using hnew⟩
      rw [hat, if_pos rfl]

theorem Fed.around (hfed : Fed o r n₀ n sent) (haround : Around o r n n') :
    Fed o r n₀ n' sent where
  results := haround.results.trans hfed.results
  outcomes := haround.outcomes.trans hfed.outcomes
  jobs i a' ha' := by
    rcases nudged_getElem? haround.jobs i with ⟨-, hnone⟩ | ⟨a, b, ha, hb, hnudged⟩
    · rw [ha'] at hnone
      cases hnone
    · rw [ha'] at hb
      cases hb
      rw [hnudged.job]
      exact hfed.jobs i a ha
  known result hmem := by
    obtain ⟨a, hmem', hresult⟩ := hfed.known result hmem
    obtain ⟨i, ha⟩ := List.getElem?_of_mem hmem'
    rcases nudged_getElem? haround.jobs i with ⟨hnone, -⟩ | ⟨b, a', hb, ha', hnudged⟩
    · rw [ha] at hnone
      cases hnone
    · rw [ha] at hb
      cases hb
      refine ⟨a', List.mem_of_getElem? ha', ?_⟩
      rw [hnudged.job]
      exact hresult

theorem Unfolds.fed (hu : Unfolds o r n₀ ws n) (h : n₀.Ready base)
    (ho : (n₀.outcomes.mailbox o).Live) (hr : (n₀.results.mailbox r).Live) :
    ∃ sent, Fed o r n₀ n sent := by
  induction hu with
  | start => exact ⟨[], fed_start h⟩
  | job i hu hmove ih =>
    obtain ⟨sent, hfed⟩ := ih
    have hb := hu.books h
    obtain ⟨a, _, effect, phase, ha, -, hover, hturn, -, hturned⟩ := hb.stepped h hmove
    exact ⟨_, hfed.turn ho hr hb h ha hover hturn hturned⟩
  | around _ haround ih =>
    obtain ⟨sent, hfed⟩ := ih
    exact ⟨sent, hfed.around haround⟩

/-! ## The log -/

theorem Clean.no_outcomes {events : List (Payload A)} (h : n₀.Clean events) {a₀ : Assignment A S B}
    (ha₀ : a₀ ∈ n₀.jobs) : outcomesOf a₀.job.command.id events = [] :=
  outcomesOf_eq_nil fun p hp o ho hid => h p hp a₀ ha₀ (.inl ⟨o, ho, hid⟩)

/-- The outcomes of a job's command are those that the job itself has put into the log. -/
theorem Books.own_outcomes (hb : Books n₀ base ws n) (h : n₀.Ready base) (ha : n.jobs[i]? = some a) :
    outcomesOf a.job.command.id (base.map Event.payload ++ acceptedPayloads ws)
      = outcomesOf a.job.command.id (acceptedPayloads (ownWrites ws i)) := by
  obtain ⟨a₀, ha₀, hcommand⟩ := hb.command ha
  have hclean : ∀ {events : List (Payload A)}, n₀.Clean events →
      outcomesOf a.job.command.id events = [] := by
    intro events hevents
    rw [← hcommand]
    exact hevents.no_outcomes ha₀
  rw [outcomesOf_append, hclean h.unrecorded, List.nil_append]
  refine outcomesOf_acceptedPayloads fun w hw hjob haccepted => ?_
  obtain ⟨b, hb', hown, haccount⟩ := hb.owner hw
  rcases haccount.accepted hown haccepted with hbatch | ⟨r', hphase, hbatch⟩
  · exact hclean hbatch
  · have hid : r'.id = b.job.command.id := by
      refine (haccount.decided r' ?_).1
      rcases hphase with hp | hp <;> rw [hp] <;> rfl
    rw [hbatch, outcomesOf_outcome, if_neg]
    exact fun hid' => hjob (hb.same_job h hb' ha (hid.symm.trans hid'))

theorem Books.settled (hb : Books n₀ base ws n) (h : n₀.Ready base) (ha : n.jobs[i]? = some a)
    {r : ProcessingResult A} (hphase : a.job.phase = .finished r) :
    r.id = a.job.command.id ∧ Settled n₀.policy (base.map Event.payload) ws i r := by
  have haccount := hb.jobs i a ha
  obtain ⟨hid, hclean⟩ := haccount.decided r (by rw [hphase]; rfl)
  have htally := haccount.tally
  rw [hphase] at htally
  obtain ⟨opening, closing, hopening, hclosing, hown⟩ := htally
  obtain ⟨ws₁, ws₂, before, rfl, hrest, hevents⟩ := hopening.contiguous hown
  have hnone : outcomesOf a.job.command.id r.events = [] := by
    obtain ⟨a₀, ha₀, hcommand⟩ := hb.command ha
    rw [← hcommand]
    exact hclean.no_outcomes ha₀
  have hadded : acceptedPayloads (ownWrites (ws₁ ++ ws₂) i)
      = r.events ++ acceptedPayloads closing := by
    rw [hown, acceptedPayloads_append, hopening.acceptedPayloads]
  have houtcomes : outcomesOf r.id (base.map Event.payload ++ acceptedPayloads (ws₁ ++ ws₂))
      = outcomesOf r.id (acceptedPayloads closing) := by
    rw [hid, hb.own_outcomes h ha, hadded, outcomesOf_append, hnone, List.nil_append]
  refine ⟨hid, ?_⟩
  cases hclosing with
  | recorded k hk =>
    have hclosing : acceptedPayloads (refusals i r k ++ [⟨i, [.outcome r.outcome], true⟩])
        = [.outcome r.outcome] := by
      rw [acceptedPayloads_append, acceptedPayloads_refusals]
      rfl
    rw [hclosing] at hadded houtcomes
    refine .recorded opening k hopening hk (by rw [hown, List.append_assoc]) hadded ?_ ?_
    · obtain ⟨between, after, hafter⟩ := recorded_in_log hrest
      refine ⟨before, between, after, ?_⟩
      rw [acceptedPayloads_append, hevents, hafter, ← List.append_assoc]
    · rw [houtcomes, outcomesOf_outcome]
      exact if_pos rfl
  | refused =>
    rw [acceptedPayloads_refusals] at hadded houtcomes
    refine .unrecorded opening hopening hown (by rw [hadded, List.append_nil]) ?_ houtcomes
    refine ⟨before, acceptedPayloads ws₂, ?_⟩
    rw [acceptedPayloads_append, hevents]

end Node
end Chronicle
