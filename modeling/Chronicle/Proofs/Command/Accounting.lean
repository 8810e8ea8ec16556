import Chronicle.Proofs.Command.Identity
import Chronicle.Proofs.Command.Turning

/-!
# Chronicle.Proofs.Command.Accounting

What a job has tried to write. It is determined by the job's phase (`Tally`), and every step of the
job keeps it so (`Accounted.turn`).
-/

namespace Chronicle

/-- A payload passes for the record of a command's outcome: it is one, or it is found in the place
where jobs search for it. -/
def Payload.PassesFor {A : Type} [Vocabulary A] (searches : Bool) (id : CommandId)
    (p : Payload A) : Prop :=
  (∃ o, p = .outcome o ∧ o.command = id) ∨ (searches = true ∧ p.stream = Outcome.streamOf id)

def outcomesOf {A : Type} [Vocabulary A] (id : CommandId) (payloads : List (Payload A)) :
    List Outcome :=
  (payloads.filterMap Payload.outcome?).filter (·.command = id)

/-! ## The writes of one job -/

section Tally

variable {A S : Type}

/-- Writes of an outcome that were refused. -/
def refusals (i : Nat) (r : ProcessingResult A) (k : Nat) : List (Write A) :=
  List.replicate k ⟨i, [.outcome r.outcome], false⟩

/-- What a job has tried to write of its events by the time it has the result `r`. -/
inductive Opening (i : Nat) (r : ProcessingResult A) : List (Write A) → Prop where
  | nothing : r.events = [] → Opening i r []
  | written : r.events ≠ [] → Opening i r [⟨i, r.events, true⟩]
  /-- The command counts as faulted then. -/
  | refused (events : List (Payload A)) (error : String) : events ≠ [] → r = .faulted r.id error →
      Opening i r [⟨i, events, false⟩]

/-- How a job has recorded its outcome: with the first write that was accepted, or not at all after
all of them were refused. -/
inductive Closing (p : RetryPolicy) (i : Nat) (r : ProcessingResult A) : List (Write A) → Prop where
  | recorded (k : Nat) : k ≤ p.maxRetries →
      Closing p i r (refusals i r k ++ [⟨i, [.outcome r.outcome], true⟩])
  | refused : Closing p i r (refusals i r (p.maxRetries + 1))

/-- The writes that a job has tried by the time it is in a phase. -/
def Tally (p : RetryPolicy) (i : Nat) (own : List (Write A)) : JobPhase A S → Prop
  | .received | .executing _ => own = []
  | .writing r => own = [] ∧ r.events ≠ []
  | .checking r k | .recording r k =>
    k ≤ p.maxRetries ∧ ∃ opening, Opening i r opening ∧ own = opening ++ refusals i r k
  | .backingOff r k _ =>
    k < p.maxRetries ∧ ∃ opening, Opening i r opening ∧ own = opening ++ refusals i r (k + 1)
  | .announcing r | .finished r =>
    ∃ opening closing, Opening i r opening ∧ Closing p i r closing ∧ own = opening ++ closing
  | .crashed => False

def JobPhase.result? : JobPhase A S → Option (ProcessingResult A)
  | .writing r | .checking r _ | .recording r _ | .backingOff r _ _ | .announcing r | .finished r =>
    some r
  | _ => none

/-- What a job has tried to write: nothing, or its events and then its outcome. -/
theorem Tally.shape {p : RetryPolicy} {i : Nat} {own : List (Write A)} {phase : JobPhase A S}
    (h : Tally p i own phase) : own = [] ∨
      ∃ r opening rest, phase.result? = some r ∧ own = opening ++ rest ∧ Opening i r opening ∧
        ((∃ k, rest = refusals i r k) ∨
          ((phase = .announcing r ∨ phase = .finished r) ∧ Closing p i r rest)) := by
  cases phase with
  | received => exact .inl h
  | executing e => exact .inl h
  | writing r => exact .inl h.1
  | checking r k =>
    obtain ⟨-, opening, hopening, rfl⟩ := h
    exact .inr ⟨r, opening, _, rfl, rfl, hopening, .inl ⟨k, rfl⟩⟩
  | recording r k =>
    obtain ⟨-, opening, hopening, rfl⟩ := h
    exact .inr ⟨r, opening, _, rfl, rfl, hopening, .inl ⟨k, rfl⟩⟩
  | backingOff r k delay =>
    obtain ⟨-, opening, hopening, rfl⟩ := h
    exact .inr ⟨r, opening, _, rfl, rfl, hopening, .inl ⟨k + 1, rfl⟩⟩
  | announcing r =>
    obtain ⟨opening, closing, hopening, hclosing, rfl⟩ := h
    exact .inr ⟨r, opening, closing, rfl, rfl, hopening, .inr ⟨.inl rfl, hclosing⟩⟩
  | finished r =>
    obtain ⟨opening, closing, hopening, hclosing, rfl⟩ := h
    exact .inr ⟨r, opening, closing, rfl, rfl, hopening, .inr ⟨.inr rfl, hclosing⟩⟩
  | crashed => exact h.elim

theorem not_mem_refusals {i : Nat} {r : ProcessingResult A} {k : Nat} {w : Write A}
    (h : w.accepted = true) : w ∉ refusals i r k := by
  intro hmem
  rw [List.eq_of_mem_replicate hmem] at h
  cases h

theorem Opening.accepted {i : Nat} {r : ProcessingResult A} {opening : List (Write A)}
    (h : Opening i r opening) {w : Write A} (hw : w ∈ opening) (hw' : w.accepted = true) :
    w.batch = r.events := by
  cases h with
  | nothing => cases hw
  | written => rw [List.mem_singleton.mp hw]
  | refused =>
    rw [List.mem_singleton.mp hw] at hw'
    cases hw'

theorem Closing.accepted {p : RetryPolicy} {i : Nat} {r : ProcessingResult A}
    {closing : List (Write A)} (h : Closing p i r closing) {w : Write A} (hw : w ∈ closing)
    (hw' : w.accepted = true) : w.batch = [.outcome r.outcome] := by
  cases h with
  | recorded k _ =>
    rcases List.mem_append.mp hw with hmem | hmem
    · exact absurd hmem (not_mem_refusals hw')
    · rw [List.mem_singleton.mp hmem]
  | refused => exact absurd hw (not_mem_refusals hw')

theorem refusals_succ (i : Nat) (r : ProcessingResult A) (k : Nat) :
    refusals i r k ++ [⟨i, [.outcome r.outcome], false⟩] = refusals i r (k + 1) := by
  rw [refusals, refusals, List.replicate_succ']

theorem tally_concluded {p : RetryPolicy} {i : Nat} {r : ProcessingResult A} :
    Tally p i [] (.concluded r : JobPhase A S) := by
  unfold JobPhase.concluded
  by_cases h : r.events = []
  · rw [h]
    exact ⟨Nat.zero_le _, [], .nothing h, rfl⟩
  · rw [if_neg (by simpa using h)]
    exact ⟨rfl, h⟩

theorem result?_concluded (r : ProcessingResult A) :
    (JobPhase.concluded r : JobPhase A S).result? = some r := by
  unfold JobPhase.concluded
  split <;> rfl

def ownWrites (ws : List (Write A)) (i : Nat) : List (Write A) := ws.filter (·.job == i)

def acceptedPayloads (ws : List (Write A)) : List (Payload A) :=
  (ws.filter (·.accepted)).flatMap (·.batch)

theorem acceptedPayloads_append (ws ws' : List (Write A)) :
    acceptedPayloads (ws ++ ws') = acceptedPayloads ws ++ acceptedPayloads ws' := by
  rw [acceptedPayloads, List.filter_append, List.flatMap_append]
  rfl

theorem acceptedPayloads_writes (i : Nat) (effect : Effect A) :
    acceptedPayloads (effect.writes i) = effect.appended := by
  cases effect with
  | write batch accepted =>
    cases accepted with
    | true => simp [acceptedPayloads, Effect.writes, Effect.appended]
    | false => rfl
  | nothing => rfl
  | announce r => rfl

theorem ownWrites_writes (ws : List (Write A)) (effect : Effect A) (i k : Nat) :
    ownWrites (ws ++ effect.writes i) k
      = if k = i then ownWrites ws k ++ effect.writes i else ownWrites ws k := by
  rw [ownWrites, List.filter_append, ownWrites]
  cases effect with
  | write batch accepted =>
    by_cases hk : k = i
    · subst hk
      simp [Effect.writes]
    · rw [if_neg hk]
      have : ¬ i = k := fun h => hk h.symm
      simp [Effect.writes, this]
  | nothing => simp [Effect.writes]
  | announce r => simp [Effect.writes]

theorem job_of_writes {i : Nat} {effect : Effect A} {w : Write A} (h : w ∈ effect.writes i) :
    w.job = i := by
  cases effect with
  | write batch accepted => rw [List.mem_singleton.mp h]
  | nothing => cases h
  | announce r => cases h

end Tally

namespace Node

variable {A S B : Type} [Vocabulary A]

/-- Nothing among the events passes for the outcome of a command that the node has. -/
def Clean (n : Node A S B) (events : List (Payload A)) : Prop :=
  ∀ p ∈ events, ∀ a ∈ n.jobs, ¬ p.PassesFor n.searches a.job.command.id

/-- A node with commands that were not taken up yet. They have different identities, the log has no
outcome of theirs, and their handlers can be built and return nothing that passes for one. The
writes of the node are acknowledged. -/
structure Ready (n : Node A S B) (log : List (Event A)) : Prop where
  contents : n.store.contents = .payloads log
  acks : n.lostAcks = []
  received : ∀ a ∈ n.jobs, a.job.persists = true ∧ a.job.phase = .received
  distinct : (n.jobs.map (·.job.command.id)).Nodup
  unrecorded : n.Clean (log.map Event.payload)
  cancellable : ∀ a ∈ n.jobs, a.Cancellable
  built : ∀ a ∈ n.jobs, ∀ fired, (n.handlers.resolve a.job.command fired).1 ≠ .collapsed
  handled : ∀ a ∈ n.jobs, ∀ fired e, (n.handlers.resolve a.job.command fired).1 = .run e →
    ∀ h, e.work.MayEnd (.handled h) → n.Clean h.events

/-- A job has written what its phase says, and nothing that passes for the outcome of a command. -/
structure Accounted (n₀ : Node A S B) (i : Nat) (own : List (Write A)) (j : Job A S B) : Prop where
  persists : j.persists = true
  decided : ∀ r, j.phase.result? = some r → r.id = j.command.id ∧ n₀.Clean r.events
  running : ∀ e, j.phase = .executing e → ∀ h, e.work.MayEnd (.handled h) → n₀.Clean h.events
  searching : ∀ r k, j.phase = .checking r k → n₀.searches = true
  tally : Tally n₀.policy i own j.phase

end Node

theorem HandlerTable.resolve_refused {A S B : Type} {t : HandlerTable A S B} {c : Command B}
    {fired : Bool} {r : ProcessingResult A} (h : (t.resolve c fired).1 = .refused r) :
    r.id = c.id ∧ r.events = [] := by
  unfold HandlerTable.resolve at h
  cases hf : t.find? c.type with
  | none =>
    simp only [hf] at h
    cases h
    exact ⟨rfl, rfl⟩
  | some provider =>
    simp only [hf] at h
    by_cases hfired : fired = true
    · simp only [hfired, if_true] at h
      cases h
      exact ⟨rfl, rfl⟩
    · simp only [hfired, if_false, Bool.false_eq_true] at h
      split at h <;> cases h

theorem ProcessingResult.id_classify {A : Type} (id : CommandId) (fired : Bool) (o : Completion A) :
    (classify id fired o).1.id = id := by
  unfold classify
  repeat' split
  all_goals rfl

theorem ProcessingResult.events_classify {A : Type} (id : CommandId) (fired : Bool)
    (o : Completion A) : (∃ h, o = .handled h ∧ (classify id fired o).1.events = h.events) ∨
      (classify id fired o).1.events = [] := by
  cases o with
  | handled h => exact .inl ⟨h, rfl, rfl⟩
  | failed e =>
    right
    unfold classify
    dsimp only
    repeat' split
    all_goals rfl
  | panicked p => exact .inr rfl

namespace Node

variable {A S B : Type} [Vocabulary A] {n₀ n : Node A S B} {i : Nat} {own : List (Write A)}
  {j : Job A S B} {log : List (Event A)} {effect : Effect A} {phase : JobPhase A S}

theorem clean_nil : n₀.Clean ([] : List (Payload A)) := fun _ h => nomatch h

theorem accounted_concluded (hp : j.persists = true) {r : ProcessingResult A}
    (hid : r.id = j.command.id) (hclean : n₀.Clean r.events) :
    Accounted n₀ i [] { j with phase := .concluded r } where
  persists := hp
  decided r' hr' := by
    rw [result?_concluded] at hr'
    cases hr'
    exact ⟨hid, hclean⟩
  running e he := by
    have := result?_concluded (S := S) r
    rw [show JobPhase.concluded r = .executing e from he] at this
    cases this
  searching r' k hr' := by
    unfold JobPhase.concluded at hr'
    dsimp only at hr'
    split at hr' <;> cases hr'
  tally := tally_concluded

theorem Accounted.onward (h : Accounted n₀ i own j) {r : ProcessingResult A}
    (hr : j.phase.result? = some r) (hphase : phase.result? = some r)
    (hsearch : ∀ r k, phase = .checking r k → n₀.searches = true) {own' : List (Write A)}
    (htally : Tally n₀.policy i own' phase) : Accounted n₀ i own' { j with phase } where
  persists := h.persists
  decided r' hr' := by
    have : phase.result? = some r' := hr'
    rw [hphase] at this
    cases this
    exact h.decided r hr
  running e he := by
    have : phase = .executing e := he
    rw [this] at hphase
    cases hphase
  searching := hsearch
  tally := htally

theorem Accounted.turn (h : Accounted n₀ i own j) (halike : Alike n₀ n)
    (hbuilt : ∀ fired, (n₀.handlers.resolve j.command fired).1 ≠ .collapsed)
    (hhandled : ∀ fired e, (n₀.handlers.resolve j.command fired).1 = .run e →
      ∀ o, e.work.MayEnd (.handled o) → n₀.Clean o.events)
    (hunfound : ∀ r k, j.phase = .checking r k → ¬ ∃ e ∈ log, e.stream = r.outcome.stream)
    (hturn : Turn n log j.command j.phase effect phase) :
    Accounted n₀ i (own ++ effect.writes i) { j with phase } := by
  have htally := h.tally
  have hdecided := h.decided
  generalize hp : j.phase = before at hturn htally hdecided
  have hresult : ∀ r, before.result? = some r → j.phase.result? = some r := fun r hr => by
    rw [hp]
    exact hr
  cases hturn with
  | rest =>
    rw [← hp, show Effect.nothing.writes i = ([] : List (Write A)) from rfl, List.append_nil]
    exact h
  | run fired e hresolve =>
    rw [halike.handlers] at hresolve
    obtain rfl : own = [] := htally
    refine ⟨h.persists, (fun r hr => by cases hr), ?_, (fun r k hr => by cases hr), rfl⟩
    rintro e' he
    cases he
    exact hhandled fired e hresolve
  | refuse fired r hresolve =>
    obtain rfl : own = [] := htally
    obtain ⟨hid, hevents⟩ := HandlerTable.resolve_refused hresolve
    exact accounted_concluded h.persists hid (by rw [hevents]; exact clean_nil)
  | collapse fired hresolve =>
    rw [halike.handlers] at hresolve
    exact absurd hresolve (hbuilt fired)
  | goOn e e' hwork =>
    obtain rfl : own = [] := htally
    refine ⟨h.persists, (fun r hr => by cases hr), ?_, (fun r k hr => by cases hr), rfl⟩
    rintro e'' he o ho
    cases he
    rcases hwork with hsame | hrest
    · rw [hsame] at ho
      exact h.running e hp o ho
    · exact h.running e hp o (hrest.mayEnd ho)
  | complete e o fired hends =>
    obtain rfl : own = [] := htally
    refine accounted_concluded h.persists (ProcessingResult.id_classify _ _ _) ?_
    rcases ProcessingResult.events_classify j.command.id fired o with ⟨o', rfl, hevents⟩ | hevents
    · rw [hevents]
      exact h.running e hp o' hends
    · rw [hevents]
      exact clean_nil
  | interrupt e =>
    obtain rfl : own = [] := htally
    exact accounted_concluded h.persists rfl clean_nil
  | written r =>
    obtain ⟨rfl, hne⟩ := htally
    exact h.onward (hresult r rfl) rfl (fun _ _ hc => by cases hc)
      ⟨Nat.zero_le _, _, .written hne, rfl⟩
  | unwritten r error =>
    obtain ⟨rfl, hne⟩ := htally
    obtain ⟨hid, -⟩ := hdecided r rfl
    refine ⟨h.persists, fun r' hr' => ?_, (fun e he => by cases he), (fun r k hr => by cases hr),
      Nat.zero_le _, _, .refused r.events error hne rfl, rfl⟩
    cases hr'
    exact ⟨hid, clean_nil⟩
  | unfound r k =>
    rw [show Effect.nothing.writes i = ([] : List (Write A)) from rfl, List.append_nil]
    exact h.onward (hresult r rfl) rfl (fun _ _ hc => by cases hc) htally
  | found r k hfound => exact absurd hfound (hunfound r k hp)
  | recorded r k =>
    obtain ⟨hk, opening, hopening, rfl⟩ := htally
    refine h.onward (hresult r rfl) rfl (fun _ _ hc => by cases hc) ?_
    exact ⟨opening, _, hopening, .recorded k hk, List.append_assoc _ _ _⟩
  | unrecorded r k delay hlt =>
    obtain ⟨-, opening, hopening, rfl⟩ := htally
    refine h.onward (hresult r rfl) rfl (fun _ _ hc => by cases hc) ?_
    rw [halike.policy] at hlt
    refine ⟨hlt, opening, hopening, ?_⟩
    rw [List.append_assoc, ← refusals_succ]
    rfl
  | gaveUp r k hmax =>
    obtain ⟨hk, opening, hopening, rfl⟩ := htally
    rw [halike.policy] at hmax
    obtain rfl : k = n₀.policy.maxRetries := Nat.le_antisymm hk hmax
    refine h.onward (hresult r rfl) rfl (fun _ _ hc => by cases hc) ?_
    refine ⟨opening, _, hopening, .refused, ?_⟩
    rw [List.append_assoc, ← refusals_succ]
    rfl
  | retry r k delay =>
    obtain ⟨hk, opening, hopening, rfl⟩ := htally
    rw [halike.searches, show Effect.nothing.writes i = ([] : List (Write A)) from rfl,
      List.append_nil]
    cases hsearches : n₀.searches with
    | true =>
      exact h.onward (hresult r rfl) rfl (fun _ _ _ => hsearches) ⟨hk, opening, hopening, rfl⟩
    | false =>
      exact h.onward (hresult r rfl) rfl (fun _ _ hc => by cases hc) ⟨hk, opening, hopening, rfl⟩
  | announced r =>
    rw [show (Effect.announce r).writes i = ([] : List (Write A)) from rfl, List.append_nil]
    exact h.onward (hresult r rfl) rfl (fun _ _ hc => by cases hc) htally

/-- What an accepted write of a job has put into the log: events that pass for no command's outcome,
or the outcome, once the job has recorded it. -/
theorem Accounted.accepted (h : Accounted n₀ i own j) {w : Write A} (hw : w ∈ own)
    (haccepted : w.accepted = true) :
    n₀.Clean w.batch ∨ ∃ r, (j.phase = .announcing r ∨ j.phase = .finished r) ∧
      w.batch = [.outcome r.outcome] := by
  rcases h.tally.shape with rfl | ⟨r, opening, rest, hr, rfl, hopening, hrest⟩
  · cases hw
  · rcases List.mem_append.mp hw with hmem | hmem
    · left
      rw [hopening.accepted hmem haccepted]
      exact (h.decided r hr).2
    · rcases hrest with ⟨k, rfl⟩ | ⟨hphase, hclosing⟩
      · exact absurd hmem (not_mem_refusals haccepted)
      · exact .inr ⟨r, hphase, hclosing.accepted hmem haccepted⟩

end Node
end Chronicle
