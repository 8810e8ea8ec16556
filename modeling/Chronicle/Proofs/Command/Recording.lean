import Chronicle.Proofs.Command.Processing
import Chronicle.Proofs.Command.Working

/-!
# Chronicle.Proofs.Command.Recording

A job that searches the log before it tries again records its outcome at most once. A write may be
accepted and the job be told that it failed; the search finds what such a write has left, so that an
attempt that was accepted is the last one (`outcome_recorded_once`).

What others append meanwhile, and what the handler returned, is counted on its own. A handler that
returns an outcome of its own command has the log hold two (`forged_beside_recorded`).
-/

namespace Chronicle

/-- An attempt of a job to record its outcome. -/
structure Attempt where
  outcome : Outcome
  /-- The log has it. -/
  committed : Bool
  /-- The job is told so. -/
  acknowledged : Bool
  deriving DecidableEq

/-- The outcomes that attempts have left in the log. -/
def recordedBy (tried : List Attempt) : List Outcome :=
  (tried.filter (·.committed)).map (·.outcome)

/-- Attempts to record an outcome, of which none was acknowledged. -/
def Unheard {A : Type} (r : ProcessingResult A) (tried : List Attempt) : Prop :=
  ∀ t ∈ tried, t.outcome = r.outcome ∧ t.acknowledged = false

/-- The attempts to record the outcome of a result have come to their end. `finds` is what there is
to a search that meets something. -/
inductive Pursued {A : Type} (max : Nat) (finds : Prop) (r : ProcessingResult A) :
    List Attempt → Prop where
  | acknowledged (failed : List Attempt) : Unheard r failed → failed.length ≤ max →
      Pursued max finds r (failed ++ [⟨r.outcome, true, true⟩])
  /-- As many failed as are granted. -/
  | exhausted (failed : List Attempt) : Unheard r failed → failed.length = max + 1 →
      Pursued max finds r failed
  /-- After some that failed, the search has met something in the outcome's place. -/
  | found (failed : List Attempt) : finds → failed ≠ [] → Unheard r failed →
      failed.length ≤ max → Pursued max finds r failed

theorem unheard_nil {A : Type} {r : ProcessingResult A} : Unheard r [] := nofun

theorem Unheard.concat {A : Type} {r : ProcessingResult A} {tried : List Attempt}
    (h : Unheard r tried) (committed : Bool) :
    Unheard r (tried ++ [⟨r.outcome, committed, false⟩]) := by
  intro t ht
  rcases List.mem_append.mp ht with hold | hnew
  · exact h t hold
  · rw [List.mem_singleton.mp hnew]
    exact ⟨rfl, rfl⟩

/-- Attempts to record the outcome of a result, of which only the last may have been accepted. -/
structure Attempts {A : Type} (r : ProcessingResult A) (tried : List Attempt) : Prop where
  outcome : ∀ t ∈ tried, t.outcome = r.outcome
  last : tried.Pairwise fun t _ => t.committed = false

/-- What the attempts of a job were by the time it is in a phase. -/
def JobPhase.Tried {A S : Type} (max : Nat) (tried : List Attempt) : JobPhase A S → Prop
  | .received | .executing _ | .writing _ | .crashed => tried = []
  | .recording r k =>
    tried.length = k ∧ k ≤ max ∧ Attempts r tried ∧ ∀ t ∈ tried, t.committed = false
  | .backingOff r k _ => tried.length = k + 1 ∧ k < max ∧ Attempts r tried
  | .checking r k => tried.length = k ∧ k ≤ max ∧ Attempts r tried
  | .announcing r | .finished r => tried.length ≤ max + 1 ∧ Attempts r tried

theorem JobPhase.Tried.length_le {A S : Type} {max : Nat} {tried : List Attempt}
    {phase : JobPhase A S} (h : phase.Tried max tried) : tried.length ≤ max + 1 := by
  cases phase with
  | recording r k => obtain ⟨hlength, hk, -⟩ := h; omega
  | checking r k => obtain ⟨hlength, hk, -⟩ := h; omega
  | backingOff r k delay => obtain ⟨hlength, hk, -⟩ := h; omega
  | announcing r => exact h.1
  | finished r => exact h.1
  | _ =>
    obtain rfl : tried = [] := h
    exact Nat.zero_le _

/-- There are attempts only where there is a result. -/
theorem JobPhase.Tried.attempts {A S : Type} {max : Nat} {tried : List Attempt}
    {phase : JobPhase A S} (h : phase.Tried max tried) :
    tried = [] ∨ ∃ r, phase.result? = some r ∧ Attempts r tried := by
  cases phase with
  | recording r k => exact .inr ⟨r, rfl, h.2.2.1⟩
  | checking r k => exact .inr ⟨r, rfl, h.2.2⟩
  | backingOff r k delay => exact .inr ⟨r, rfl, h.2.2⟩
  | announcing r => exact .inr ⟨r, rfl, h.2⟩
  | finished r => exact .inr ⟨r, rfl, h.2⟩
  | _ => exact .inl h

namespace Attempts

variable {A : Type} {r : ProcessingResult A} {tried : List Attempt}

theorem nil : Attempts r [] := ⟨nofun, .nil⟩

/-- After attempts that were all refused there may be another. -/
theorem concat (h : Attempts r tried) (hrefused : ∀ t ∈ tried, t.committed = false)
    (committed acknowledged : Bool) :
    Attempts r (tried ++ [⟨r.outcome, committed, acknowledged⟩]) where
  outcome t ht := by
    rcases List.mem_append.mp ht with hold | hnew
    · exact h.outcome t hold
    · rw [List.mem_singleton.mp hnew]
  last := List.pairwise_append.mpr
    ⟨h.last, List.pairwise_singleton _ _, fun t ht _ _ => hrefused t ht⟩

/-- At most one attempt was accepted. -/
theorem length_recordedBy (h : Attempts r tried) :
    (recordedBy tried).length = if tried.any (·.committed) then 1 else 0 := by
  have hlast := h.last
  clear h
  induction tried with
  | nil => rfl
  | cons t rest ih =>
    obtain ⟨hfirst, hrest⟩ := List.pairwise_cons.mp hlast
    cases hcommitted : t.committed with
    | false =>
      have := ih hrest
      simpa [recordedBy, hcommitted] using this
    | true =>
      obtain rfl : rest = [] := by
        refine List.eq_nil_iff_forall_not_mem.mpr fun u hu => ?_
        rw [hfirst u hu] at hcommitted
        cases hcommitted
      simp [recordedBy, hcommitted]

end Attempts

theorem Job.result?_conclude {A S B : Type} (j : Job A S B) (r : ProcessingResult A) :
    (j.conclude r).phase.result? = some r := by
  unfold Job.conclude
  cases j.persists with
  | false => rfl
  | true => cases r.events.isEmpty <;> rfl

theorem Job.tried_conclude {A S B : Type} {max : Nat} (j : Job A S B) (r : ProcessingResult A) :
    (j.conclude r).phase.Tried max [] := by
  unfold Job.conclude
  cases j.persists with
  | false => exact ⟨Nat.zero_le _, .nil⟩
  | true =>
    cases r.events.isEmpty with
    | true => exact ⟨rfl, Nat.zero_le _, .nil, nofun⟩
    | false => rfl

namespace Node

variable {A S B : Type} [Vocabulary A]

def attempted (n : Node A S B) : Act A → List Attempt
  | .nothing | .ask _ | .keep .. | .write _ | .search _ | .announce _ => []
  | .record r =>
    [⟨r.outcome, (n.store.write [.outcome r.outcome]).1.isOk,
      (n.writeForJob [.outcome r.outcome]).1.isOk⟩]

/-- What a step of a job puts into the log, unless that is the outcome. -/
def produced (n : Node A S B) : Act A → List (Payload A)
  | .nothing | .ask _ | .keep .. | .record _ | .search _ | .announce _ => []
  | .write events => n.appended (.write events)

/-- What goes on beside a job. Others append to the log and take steps; reads do not fail, and which
writes are refused and which acknowledgements are lost may change in any way. -/
structure Adds (i : Nat) (n n' : Node A S B) (more : List (Event A)) : Prop
    extends Spares (· = i) n n' where
  policy : n'.policy = n.policy
  searches : n'.searches = n.searches
  holds : n'.store.Holds (n.store.events ++ more)
  quiet : n'.store.Quiet

/-- What a node comes to while a job takes steps, in any order of these with what goes on beside
them: its attempts so far, and what the log has without them, of which it had `base` before. -/
inductive Recording (i : Nat) (n : Node A S B) (base : List (Payload A)) :
    List Attempt → List (Payload A) → Node A S B → Prop where
  | start : Recording i n base [] base n
  | job {tried : List Attempt} {others : List (Payload A)} {m m' : Node A S B} :
      Recording i n base tried others m → m.moveJob i = some m' →
      m'.store.length < 0x10000000000000000 →
      Recording i n base (tried ++ m.attempted (m.nextAct i)) (others ++ m.produced (m.nextAct i)) m'
  | beside {tried : List Attempt} {others : List (Payload A)} {m m' : Node A S B}
      {more : List (Event A)} : Recording i n base tried others m → Adds i m m' more →
      Recording i n base tried (others ++ more.map Event.payload) m'

variable {n n' m : Node A S B} {i k : Nat} {j : Job A S B} {a a' : Assignment A S B} {max : Nat}
  {tried : List Attempt} {others base : List (Payload A)} {act : Act A}
  {phase phase' : JobPhase A S} {n₀ : Node A S B} {id : CommandId}

/-- The steps of other jobs are among what goes on beside a job. -/
theorem adds_of_moveJob {log : List (Event A)} (hlog : n.store.Holds log) (hq : n.store.Quiet)
    (hk : k ≠ i) (h : n.moveJob k = some n') (hroom : n'.store.length < 0x10000000000000000) :
    ∃ more, Adds i n n' more ∧ more.map Event.payload = n.appended (n.nextAct k) := by
  obtain ⟨a, ha⟩ := exists_of_moveJob h
  obtain ⟨a', hmoved⟩ := moveJob_moved ha h
  obtain ⟨more, hholds, hmore, hquiet⟩ := hmoved.touched.holds hlog hroom
  have hbeside := hmoved.beside hk
  refine ⟨more, ⟨hbeside.spares, hbeside.policy, hbeside.searches, ?_, hquiet hq⟩, hmore⟩
  rw [hlog.events_eq]
  exact hholds

/-! ## One job -/

/-- A step of a job that searches goes on as its phase says, if the search finds an attempt that was
accepted. -/
theorem Advances.attempts (h : Advances n j phase act phase') (hmax : n.policy.maxRetries = max)
    (hsearches : n.searches = true)
    (hfinds : ∀ r : ProcessingResult A, (∀ t ∈ tried, t.outcome = r.outcome) →
      (∀ e rest, (n.store.readStream r.outcome.stream Position.last).page ≠ .ok (e :: rest)) →
      ∀ t ∈ tried, t.committed = false)
    (htried : phase.Tried max tried) : phase'.Tried max (tried ++ n.attempted act) := by
  subst hmax
  cases h with
  | rest => rw [attempted, List.append_nil]; exact htried
  | begin e => exact (List.append_nil _).trans htried
  | collapse => exact (List.append_nil _).trans htried
  | goOn e e' => exact (List.append_nil _).trans htried
  | ask e e' s => exact (List.append_nil _).trans htried
  | keep e e' s page => exact (List.append_nil _).trans htried
  | decide phase r hundecided =>
    obtain rfl : tried = [] := by
      cases phase <;> first | exact htried | exact hundecided.elim
    exact Job.tried_conclude j r
  | written r r' hid =>
    obtain rfl : tried = [] := htried
    exact ⟨rfl, Nat.zero_le _, .nil, nofun⟩
  | recorded r k hacknowledged =>
    obtain ⟨rfl, hk, hattempts, hrefused⟩ := htried
    refine ⟨?_, hattempts.concat hrefused _ _⟩
    rw [attempted, List.length_append, List.length_singleton]
    omega
  | unrecorded r k delay hfailed hlt =>
    obtain ⟨rfl, hk, hattempts, hrefused⟩ := htried
    exact ⟨by rw [attempted, List.length_append, List.length_singleton], hlt,
      hattempts.concat hrefused _ _⟩
  | gaveUp r k hfailed hmax =>
    obtain ⟨rfl, hk, hattempts, hrefused⟩ := htried
    refine ⟨?_, hattempts.concat hrefused _ _⟩
    rw [attempted, List.length_append, List.length_singleton]
    omega
  | retry r k delay =>
    obtain ⟨hlength, hk, hattempts⟩ := htried
    rw [attempted, List.append_nil, hsearches, if_pos rfl]
    exact ⟨hlength, hk, hattempts⟩
  | found r k =>
    obtain ⟨rfl, hk, hattempts⟩ := htried
    rw [attempted, List.append_nil]
    exact ⟨by omega, hattempts⟩
  | unfound r k hnothing =>
    -- The only step to a further attempt after the first one: no earlier one was accepted.
    obtain ⟨hlength, hk, hattempts⟩ := htried
    rw [attempted, List.append_nil]
    exact ⟨hlength, hk, hattempts, hfinds r hattempts.outcome hnothing⟩
  | announced r => rw [attempted, List.append_nil]; exact htried

theorem Advances.result_id (h : Advances n j phase act phase') {id : CommandId}
    (hid : j.command.id = id) (hresult : ∀ r, phase.result? = some r → r.id = id)
    {r : ProcessingResult A} (hr : phase'.result? = some r) : r.id = id := by
  cases h with
  | decide phase r' hundecided hr' =>
    rw [Job.result?_conclude] at hr
    cases hr
    exact hr'.trans hid
  | written r' r'' hsame =>
    cases hr
    exact hsame.trans (hresult r' rfl)
  | retry r' k delay =>
    refine hresult r ?_
    rw [← hr]
    cases n.searches <;> rfl
  | _ => exact hresult r hr

/-! ## The node -/

/-- A job of a command has made these attempts, and the log is what others put there and what the
attempts did. -/
structure Recorded (n₀ : Node A S B) (i : Nat) (id : CommandId) (tried : List Attempt)
    (others : List (Payload A)) (n : Node A S B) : Prop where
  policy : n.policy = n₀.policy
  searches : n.searches = true
  quiet : n.store.Quiet
  log : ∃ log, n.store.Holds log ∧
    (log.map Event.payload).Perm (others ++ (recordedBy tried).map .outcome)
  job : ∃ a, n.jobs[i]? = some a ∧ a.job.command.id = id ∧
    a.job.phase.Tried n₀.policy.maxRetries tried ∧ ∀ r, a.job.phase.result? = some r → r.id = id

/-- What a step puts into the log is the handler's or an attempt's. -/
theorem appended_perm (n : Node A S B) (act : Act A) :
    (n.appended act).Perm
      (n.produced act ++ (recordedBy (n.attempted act)).map .outcome) := by
  cases act with
  | nothing | ask _ | keep _ _ | search _ | announce _ => rw [appended_eq_nil rfl]; exact .nil
  | write events => rw [produced, attempted, recordedBy]; simp
  | record r =>
    simp only [appended, attempted, produced, recordedBy, Act.batch, List.nil_append]
    by_cases hcommitted : (n.store.write [.outcome r.outcome]).1.isOk = true
    · simp [hcommitted]
    · simp [hcommitted]

theorem outcomesOf_recordedBy (h : ∀ t ∈ tried, t.outcome.command = id) :
    outcomesOf id ((recordedBy tried).map .outcome : List (Payload A)) = recordedBy tried := by
  refine outcomesOf_map_outcome fun o ho => ?_
  obtain ⟨t, ht, rfl⟩ := List.mem_map.mp ho
  exact h t (List.mem_of_mem_filter ht)

theorem recordedBy_append (tried tried' : List Attempt) :
    recordedBy (tried ++ tried') = recordedBy tried ++ recordedBy tried' := by
  simp [recordedBy]

/-- A search finds an attempt that was accepted. -/
theorem finds_recorded {log : List (Event A)} (hlog : n.store.Holds log) (hq : n.store.Quiet)
    (hperm : (log.map Event.payload).Perm (others ++ (recordedBy tried).map .outcome))
    {r : ProcessingResult A} (houtcome : ∀ t ∈ tried, t.outcome = r.outcome)
    (hnothing : ∀ e rest, (n.store.readStream r.outcome.stream Position.last).page
      ≠ .ok (e :: rest)) : ∀ t ∈ tried, t.committed = false := by
  intro t ht
  by_contra hcommitted
  -- What was accepted is in the log, so the page that the search reads is not empty.
  have hmem : Payload.outcome r.outcome ∈ log.map Event.payload := by
    refine hperm.mem_iff.mpr (List.mem_append_right _ (List.mem_map_of_mem ?_))
    refine List.mem_map.mpr ⟨t, List.mem_filter.mpr ⟨ht, ?_⟩, houtcome t ht⟩
    simpa using hcommitted
  obtain ⟨e, he, hpayload⟩ := List.mem_map.mp hmem
  have hfound : e ∈ Log.below log r.outcome.stream Position.last := by
    refine List.mem_filter.mpr ⟨he, ?_⟩
    have hstream : e.stream = r.outcome.stream := by
      show e.payload.stream = _
      rw [hpayload]
      rfl
    simp [hlog.numbered.below_last he, hstream]
  have hpage : (n.store.readStream r.outcome.stream Position.last).page = _ := hlog.page_readStream
  rw [hq.2] at hpage
  cases hbelow : Log.below log r.outcome.stream Position.last with
  | nil =>
    rw [hbelow] at hfound
    cases hfound
  | cons e rest =>
    rw [hbelow] at hpage
    exact hnothing e rest hpage

theorem Recorded.turn (h : Recorded n₀ i id tried others n) (hmove : n.moveJob i = some n')
    (hroom : n'.store.length < 0x10000000000000000) :
    Recorded n₀ i id (tried ++ n.attempted (n.nextAct i)) (others ++ n.produced (n.nextAct i)) n' := by
  obtain ⟨log, hlog, hperm⟩ := h.log
  obtain ⟨a, ha, hid, htried, hresult⟩ := h.job
  obtain ⟨a', hmoved⟩ := moveJob_moved ha hmove
  obtain ⟨more, hholds, hmore, hquiet⟩ := hmoved.touched.holds hlog hroom
  refine ⟨hmoved.untouched.policy.trans h.policy, hmoved.untouched.searches.trans h.searches,
    hquiet h.quiet, ⟨_, hholds, ?_⟩, a', hmoved.after, by rw [hmoved.command, hid], ?_, fun r => ?_⟩
  · -- What the handler produced joins what others put there, the rest is the attempt's.
    rw [List.map_append, hmore, recordedBy_append, List.map_append]
    refine (hperm.append (appended_perm n _)).trans ?_
    simp only [List.append_assoc]
    refine .append_left others ?_
    simp only [← List.append_assoc]
    exact List.perm_append_comm.append_right _
  · exact hmoved.step.advances.attempts (congrArg _ h.policy) h.searches
      (fun r houtcome => finds_recorded hlog h.quiet hperm houtcome) htried
  · exact hmoved.step.advances.result_id hid hresult

theorem Recorded.beside {more : List (Event A)} (h : Recorded n₀ i id tried others n)
    (hadds : Adds i n n' more) :
    Recorded n₀ i id tried (others ++ more.map Event.payload) n' := by
  obtain ⟨log, hlog, hperm⟩ := h.log
  obtain ⟨a, ha, hjob⟩ := h.job
  obtain ⟨a', ha', hsame⟩ := hadds.spared i a rfl ha
  refine ⟨hadds.policy.trans h.policy, hadds.searches.trans h.searches, hadds.quiet,
    ⟨log ++ more, ?_, ?_⟩, a', ha', ?_⟩
  · rw [← hlog.events_eq]
    exact hadds.holds
  · rw [List.map_append, List.append_assoc]
    refine (hperm.append_right _).trans ?_
    rw [List.append_assoc]
    exact List.perm_append_comm.append_left others
  · rw [hsame]
    exact hjob

theorem Recording.recorded (h : Recording i n base tried others n') {log : List (Event A)}
    (hlog : n.store.Holds log) (hbase : base = log.map Event.payload) (hq : n.store.Quiet)
    (hsearches : n.searches = true) (ha : n.jobs[i]? = some a) (hphase : a.job.phase = .received) :
    Recorded n i a.job.command.id tried others n' := by
  induction h with
  | start =>
    refine ⟨rfl, hsearches, hq, ⟨log, hlog, ?_⟩, a, ha, rfl, ?_, ?_⟩
    · rw [hbase]
      exact .of_eq (List.append_nil _).symm
    · rw [hphase]
      rfl
    · rw [hphase]
      exact nofun
  | job _ hmove hroom ih => exact ih.turn hmove hroom
  | beside _ hadds ih => exact ih.beside hadds

/-- A command that is carried out once, by a job that searches the log before it tries again to
record the outcome, while no read fails. Each attempt may be accepted or refused, and one that was
accepted may be answered by a failure. There are at most as many attempts as the policy grants, each
with the outcome of the job's result, and none after one that was accepted. The log has the outcomes
that others and the handler put there, and besides them that of the accepted attempt, if there was
one. -/
theorem outcome_recorded_once {log : List (Event A)} (hlog : n.store.Holds log)
    (hq : n.store.Quiet) (hsearches : n.searches = true) (ha : n.jobs[i]? = some a)
    (hphase : a.job.phase = .received)
    (h : Recording i n (log.map Event.payload) tried others n') :
    tried.length ≤ n.policy.maxRetries + 1 ∧
    (tried.Pairwise fun t _ => t.committed = false) ∧
    (∀ t ∈ tried, t.outcome.command = a.job.command.id ∧
      ∃ a' r, n'.jobs[i]? = some a' ∧ a'.job.phase.result? = some r ∧ t.outcome = r.outcome) ∧
    ∃ log', n'.store.Holds log' ∧
      (outcomesOf a.job.command.id (log'.map Event.payload)).Perm
        (outcomesOf a.job.command.id others ++ recordedBy tried) ∧
      (outcomesOf a.job.command.id others = [] →
        (outcomesOf a.job.command.id (log'.map Event.payload)).length
          = if tried.any (·.committed) then 1 else 0) := by
  have hrecorded := h.recorded hlog rfl hq hsearches ha hphase
  obtain ⟨log', hlog', hperm⟩ := hrecorded.log
  obtain ⟨a', ha', hid, htried, hresult⟩ := hrecorded.job
  have hown : ∀ t ∈ tried, t.outcome.command = a.job.command.id ∧
      ∃ a' r, n'.jobs[i]? = some a' ∧ a'.job.phase.result? = some r ∧ t.outcome = r.outcome := by
    intro t ht
    rcases htried.attempts with rfl | ⟨r, hr, hattempts⟩
    · cases ht
    · refine ⟨?_, a', r, ha', hr, hattempts.outcome t ht⟩
      rw [hattempts.outcome t ht]
      exact hresult r hr
  have hlast : (tried.Pairwise fun t _ => t.committed = false) ∧
      (recordedBy tried).length = if tried.any (·.committed) then 1 else 0 := by
    rcases htried.attempts with rfl | ⟨r, -, hattempts⟩
    · exact ⟨.nil, rfl⟩
    · exact ⟨hattempts.last, hattempts.length_recordedBy⟩
  have hcount : (outcomesOf a.job.command.id (log'.map Event.payload)).Perm _ :=
    outcomesOf_perm hperm
  rw [outcomesOf_append, outcomesOf_recordedBy fun t ht => (hown t ht).1] at hcount
  refine ⟨htried.length_le, hlast.1, hown, log', hlog', hcount, fun hnone => ?_⟩
  rw [hcount.length_eq, hnone, List.nil_append]
  exact hlast.2

/-- Time goes on until a job may try again. -/
def waited (n : Node A S B) (i : Nat) : Node A S B :=
  match (n.jobs[i]?).bind (·.due) with
  | some time => { n with now := time }
  | none => n

theorem adds_waited {log : List (Event A)} (hlog : n.store.Holds log) (hq : n.store.Quiet) :
    Adds i n (n.waited i) [] := by
  have hadds {m : Node A S B} (hjobs : m.jobs = n.jobs) (hpolicy : m.policy = n.policy)
      (hsearches : m.searches = n.searches) (hstore : m.store = n.store) : Adds i n m [] := by
    refine ⟨⟨fun k a _ ha => ⟨a, by rw [hjobs, ha], rfl⟩⟩, hpolicy, hsearches, ?_, ?_⟩ <;>
      rw [hstore]
    · rwa [List.append_nil, hlog.events_eq]
    · exact hq
  unfold waited
  split
  · exact hadds rfl rfl rfl rfl
  · exact hadds rfl rfl rfl rfl

theorem moveJob_waited {r : ProcessingResult A} {k time : Nat} {delay : Duration}
    (ha : n.jobs[i]? = some a) (hphase : a.job.phase = .backingOff r k delay)
    (hdue : a.due = some time) (hcancel : a.cancelAt = none) :
    (n.waited i).moveJob i = some
      (({ n with now := time }.note []).putJob i
        { a with job := a.job.resume n.searches, due := none }) := by
  have hwaited : n.waited i = { n with now := time } := by
    unfold waited
    rw [ha, Option.bind_some, hdue]
  simp [hwaited, moveJob, ha, Job.isOver, hphase, cancelDue, hcancel, hdue]

/-- A command of which the outcome is to be recorded, and another beside it. The first write is
refused, and the next one is accepted without an acknowledgement. -/
def unacknowledged : Node Notes.Fact Int64 Unit :=
  { listening ⟨[("Note", .shared fun _ => .finish (.handled (.ok [] "noted")))]⟩
      [⟨.ofNat 1, "Note", ()⟩, ⟨.ofNat 2, "Note", ()⟩] with
    store := { (Store.ofPayloads 0 : Store Notes.Fact) with writeFaults := 1 }
    policy := { maxRetries := 2 }
    searches := true
    lostAcks := [true] }

/-- The second attempt leaves the outcome in the log, and there is no third. The other command is
begun meanwhile. -/
theorem unacknowledged_recorded_once :
    ∃ tried others n', Recording 0 unacknowledged [] tried others n' ∧
      tried = [⟨⟨.ofNat 1, .ok "noted"⟩, false, false⟩, ⟨⟨.ofNat 1, .ok "noted"⟩, true, false⟩] ∧
      n'.jobs.map (·.job.result?) = [some (.processed (.ofNat 1) [] (.ok "noted")), none] ∧
      ∃ log, n'.store.Holds log ∧ (outcomesOf (.ofNat 1) (log.map Event.payload)).length = 1 := by
  have hlog : unacknowledged.store.Holds [] := ⟨rfl, by decide, by decide⟩
  have hq : unacknowledged.store.Quiet := ⟨rfl, rfl⟩
  have hstart : Recording 0 unacknowledged [] [] [] unacknowledged := .start
  obtain ⟨more, hadds, hmore⟩ :=
    adds_of_moveJob hlog hq (by decide : 1 ≠ 0) (k := 1) rfl (by decide)
  obtain rfl : more = [] := List.map_eq_nil_iff.mp hmore
  have hrefused := ((((hstart.beside hadds).job rfl (by decide)).job rfl (by decide)).job rfl
    (by decide)).job rfl (by decide)
  have hrecorded₁ := hrefused.recorded hlog rfl hq rfl rfl rfl
  obtain ⟨_, hlog₁, -⟩ := hrecorded₁.log
  have hlost := ((((hrefused.beside (adds_waited hlog₁ hrecorded₁.quiet)).job
    (moveJob_waited rfl rfl rfl rfl) (by decide)).job rfl (by decide)).job rfl (by decide)).job
    rfl (by decide)
  have hrecorded₂ := hlost.recorded hlog rfl hq rfl rfl rfl
  obtain ⟨_, hlog₂, -⟩ := hrecorded₂.log
  have hfound := (((hlost.beside (adds_waited hlog₂ hrecorded₂.quiet)).job
    (moveJob_waited rfl rfl rfl rfl) (by decide)).job rfl (by decide)).job rfl (by decide)
  have honce := outcome_recorded_once hlog hq rfl rfl rfl hfound
  obtain ⟨-, -, -, log, hholds, -, hcount⟩ := honce
  exact ⟨_, _, _, hfound, rfl, rfl, log, hholds, hcount rfl⟩

/-- The command of `forging`, carried out by a job that searches. -/
def forgingSearched : Node Notes.Fact Int64 Unit := { forging with searches := true }

/-- One attempt is made, which is accepted and acknowledged, and the log has two outcomes of the
command. -/
theorem forged_beside_recorded :
    forgingSearched.searches = true ∧ forgingSearched.store.Holds [] ∧
    ∃ tried others n' log, Recording 0 forgingSearched [] tried others n' ∧
      n'.jobs.map (·.job.result?) =
        [some (.processed (.ofNat 1) [.outcome ⟨.ofNat 1, .ok "forged"⟩] (.ok "done"))] ∧
      tried = [⟨⟨.ofNat 1, .ok "done"⟩, true, true⟩] ∧
      n'.store.contents = .payloads log ∧
      outcomesOf (.ofNat 1) (log.map Event.payload)
        = [⟨.ofNat 1, .ok "forged"⟩, ⟨.ofNat 1, .ok "done"⟩] := by
  have hstart : Recording 0 forgingSearched [] [] [] forgingSearched := .start
  have hwritten := ((hstart.job rfl (by decide)).job rfl (by decide)).job rfl (by decide)
  have hfinished := (hwritten.job rfl (by decide)).job rfl (by decide)
  exact ⟨rfl, ⟨rfl, by decide, by decide⟩, _, _, _, _, hfinished, rfl, rfl, rfl, by decide⟩

end Node
end Chronicle
