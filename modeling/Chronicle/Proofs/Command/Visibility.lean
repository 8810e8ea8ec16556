import Chronicle.Proofs.Command.Working
import Chronicle.Proofs.Projection.Lookups

/-!
# Chronicle.Proofs.Command.Visibility

What a command has written can be read once its outcome is published. Any number of jobs write to
one log, a stream delivers it to the read model, and lookups come and go (`Pipes`). What each job
has put into the log is kept track of in a `Ledger`. A job's events precede its outcome there
(`Accounts`), and the read model applies events in the order of the log. When it has published
an outcome it has therefore applied the events of that job, and neither lookups that begin from then
on nor handlers that read from then on miss them (`published_outcome_shows`).
-/

namespace Chronicle

/-- Who has put what into the log: the events of jobs, and the outcomes that they recorded. -/
structure Ledger (A : Type) where
  events : List (Nat × Event A) := []
  outcomes : List (Nat × Event A) := []

namespace Ledger

variable {A : Type} {l : Ledger A} {i k : Nat} {t : Act A} {more : List (Event A)} {e : Event A}

def enter (l : Ledger A) (i : Nat) (t : Act A) (more : List (Event A)) : Ledger A :=
  match t with
  | .write _ => { l with events := l.events ++ more.map (i, ·) }
  | .record _ => { l with outcomes := l.outcomes ++ more.map (i, ·) }
  | .nothing | .ask _ | .keep .. | .search _ | .announce _ => l

theorem mem_events_enter (h : (k, e) ∈ (l.enter i t more).events) :
    (k, e) ∈ l.events ∨ (k = i ∧ e ∈ more ∧ ∃ events, t = .write events) := by
  cases t with
  | write events =>
    rcases List.mem_append.mp h with hold | hnew
    · exact .inl hold
    · obtain ⟨e, he, heq⟩ := List.mem_map.mp hnew
      cases heq
      exact .inr ⟨rfl, he, events, rfl⟩
  | _ => exact .inl h

theorem mem_outcomes_enter (h : (k, e) ∈ (l.enter i t more).outcomes) :
    (k, e) ∈ l.outcomes ∨ (k = i ∧ e ∈ more ∧ ∃ r, t = .record r) := by
  cases t with
  | record r =>
    rcases List.mem_append.mp h with hold | hnew
    · exact .inl hold
    · obtain ⟨e, he, heq⟩ := List.mem_map.mp hnew
      cases heq
      exact .inr ⟨rfl, he, r, rfl⟩
  | _ => exact .inl h

theorem outcomes_subset_enter : l.outcomes ⊆ (l.enter i t more).outcomes := by
  cases t with
  | record r => exact List.subset_append_left _ _
  | _ => exact List.Subset.refl _

end Ledger

def JobPhase.PastWriting {A S : Type} : JobPhase A S → Prop
  | .checking _ _ | .recording _ _ | .backingOff _ _ _ | .announcing _ | .finished _ => True
  | .received | .executing _ | .writing _ | .crashed => False

namespace Node

variable {A S B : Type} [Vocabulary A] {n n' m : Node A S B} {i k : Nat} {j : Job A S B}
  {a a' : Assignment A S B} {act : Act A} {phase phase' : JobPhase A S} {l l' : Ledger A}

/-- A job writes its events before anything of its outcome. -/
theorem Advances.pastWriting (h : Advances n j phase act phase') :
    (phase.PastWriting → phase'.PastWriting ∧ ∀ events, act ≠ .write events) ∧
      ∀ r, act = .record r → phase'.PastWriting := by
  cases h with
  | decide phase r hundecided =>
    refine ⟨fun hpast => ?_, nofun⟩
    cases phase <;> first | exact hpast.elim | exact hundecided.elim
  | retry r k delay =>
    refine ⟨fun _ => ⟨?_, nofun⟩, nofun⟩
    cases n.searches <;> trivial
  | rest => exact ⟨fun hpast => ⟨hpast, nofun⟩, nofun⟩
  | recorded r k _ => exact ⟨fun _ => ⟨trivial, nofun⟩, fun _ _ => trivial⟩
  | unrecorded r k delay _ _ => exact ⟨fun _ => ⟨trivial, nofun⟩, fun _ _ => trivial⟩
  | gaveUp r k _ _ => exact ⟨fun _ => ⟨trivial, nofun⟩, fun _ _ => trivial⟩
  | found r k => exact ⟨fun _ => ⟨trivial, nofun⟩, nofun⟩
  | unfound r k _ => exact ⟨fun _ => ⟨trivial, nofun⟩, nofun⟩
  | announced r => exact ⟨fun _ => ⟨trivial, nofun⟩, nofun⟩
  | _ => exact ⟨fun hpast => hpast.elim, nofun⟩

/-! ## Who has put what into the log -/

/-- What is entered is in the log, and the events of a job precede its outcome, which it records
only after it has written them. -/
structure Accounts (n : Node A S B) (l : Ledger A) : Prop where
  events : ∀ i e, (i, e) ∈ l.events → e ∈ n.store.events
  outcomes : ∀ i o, (i, o) ∈ l.outcomes → o ∈ n.store.events ∧ o.payload.outcome?.isSome = true
  past : ∀ i o, (i, o) ∈ l.outcomes → ∃ a, n.jobs[i]? = some a ∧ a.job.phase.PastWriting
  precede : ∀ i e o, (i, e) ∈ l.events → (i, o) ∈ l.outcomes → e.position < o.position

theorem accounts_nothing : Accounts n {} where
  events := nofun
  outcomes := nofun
  past := nofun
  precede _ _ _ he := (List.not_mem_nil he).elim

/-- The log grows, and jobs do not go back. -/
theorem Accounts.frame (h : Accounts n l) (hlog : n.store.events ⊆ n'.store.events)
    (hjobs : ∀ (i : Nat) (a : Assignment A S B), n.jobs[i]? = some a → a.job.phase.PastWriting →
      ∃ a' : Assignment A S B, n'.jobs[i]? = some a' ∧ a'.job.phase.PastWriting) :
    Accounts n' l where
  events i e he := hlog (h.events i e he)
  outcomes i o ho := ⟨hlog (h.outcomes i o ho).1, (h.outcomes i o ho).2⟩
  past i o ho := by
    obtain ⟨a, ha, hpast⟩ := h.past i o ho
    exact hjobs i a ha hpast
  precede := h.precede

theorem outcome?_of_appended {r : ProcessingResult A} {p : Payload A}
    (h : p ∈ n.appended (.record r)) : p.outcome?.isSome = true := by
  unfold appended at h
  split at h
  · rw [List.mem_singleton.mp h]
    rfl
  · cases h

/-- When a job takes a step, every job that is past its writing stays so. -/
theorem Moved.pastWriting (h : Moved n n' i a a') {b : Assignment A S B}
    (hb : n.jobs[k]? = some b) (hpast : b.job.phase.PastWriting) :
    ∃ b' : Assignment A S B, n'.jobs[k]? = some b' ∧ b'.job.phase.PastWriting := by
  by_cases hk : k = i
  · subst hk
    obtain rfl : a = b := Option.some.inj (h.before.symm.trans hb)
    exact ⟨a', h.after, (h.step.advances.pastWriting.1 hpast).1⟩
  · refine ⟨b, ?_, hpast⟩
    rw [h.jobs, List.getElem?_set_ne (Ne.symm hk)]
    exact hb

/-- A step of a job enters its events as long as it has not recorded anything of its outcome. -/
theorem Accounts.turn {log more : List (Event A)} (h : Accounts n l) (hlog : n.store.Holds log)
    (hlog' : n'.store.Holds (log ++ more)) (hmore : more.map Event.payload = n.appended (n.nextAct i))
    (hmoved : Moved n n' i a a') :
    Accounts n' (l.enter i (n.nextAct i) more) := by
  obtain ⟨hstays, hrecords⟩ := hmoved.step.advances.pastWriting
  have hgrows : log ++ more = n'.store.events := hlog'.events_eq.symm
  have hkept : Accounts n' l := by
    refine h.frame ?_ fun k b hb hpast => hmoved.pastWriting hb hpast
    rw [hlog.events_eq, ← hgrows]
    exact List.subset_append_left _ _
  refine ⟨fun k e he => ?_, fun k o ho => ?_, fun k o ho => ?_, fun k e o he ho => ?_⟩
  · rcases Ledger.mem_events_enter he with hold | ⟨-, hmem, -⟩
    · exact hkept.events k e hold
    · exact hgrows ▸ List.mem_append_right log hmem
  · rcases Ledger.mem_outcomes_enter ho with hold | ⟨-, hmem, r, hrecord⟩
    · exact hkept.outcomes k o hold
    · have hpayload := List.mem_map_of_mem (f := Event.payload) hmem
      rw [hmore, hrecord] at hpayload
      exact ⟨hgrows ▸ List.mem_append_right log hmem, outcome?_of_appended hpayload⟩
  · rcases Ledger.mem_outcomes_enter ho with hold | ⟨rfl, -, r, hrecord⟩
    · exact hkept.past k o hold
    · exact ⟨a', hmoved.after, hrecords r hrecord⟩
  · rcases Ledger.mem_events_enter he with hold | ⟨rfl, -, events, hwrite⟩
    · rcases Ledger.mem_outcomes_enter ho with hold' | ⟨-, hmem, -⟩
      · exact hkept.precede k e o hold hold'
      · exact hlog'.numbered.lt_of_append (hlog.events_eq ▸ h.events k e hold) hmem
    · rcases Ledger.mem_outcomes_enter ho with hold' | ⟨-, -, r, hrecord⟩
      · -- It has recorded, so it writes no more events.
        obtain ⟨b, hb, hpast⟩ := h.past k o hold'
        obtain rfl : a = b := Option.some.inj (hmoved.before.symm.trans hb)
        exact absurd hwrite ((hstays hpast).2 events)
      · rw [hwrite] at hrecord
        cases hrecord

/-! ## Everything that goes on -/

/-- What is in the consumer's mailbox is there after a step of a job. -/
theorem Moved.mail (h : Moved n n' i a a') (c : Consumer A) : n'.mail c = n.mail c := by
  rw [Node.mail, Node.mail, h.signalled.outlet]

/-- A step of a job is a run of the node, as far as its read model is concerned, if it keeps
nothing there. -/
theorem Moved.serving [DecidableEq S] (h : Moved n n' i a a')
    (hroom : n.store.length + (n.nextAct i).batch.length < 0x10000000000000000)
    (hmodel : n'.model = n.model) : Relation.ReflTransGen Serving n n' := by
  have huntouched := h.untouched
  have haside {m : Node A S B} (hlock : m.lock = n.lock) (hconsumer : m.consumer = n.consumer)
      (hstreams : m.streams = n.streams) (hlookups : m.lookups = n.lookups)
      (hstore : m.store.After n'.store) (hsame : m.model = n.model) : Serving m n' := by
    refine .aside hstore (hmodel.trans hsame.symm) (by rw [huntouched.lock, hlock])
      (huntouched.consumer.trans hconsumer.symm) (fun c _ => ?_)
      (huntouched.lookups.trans hlookups.symm)
    have houtlet : m.outlet c.stream = n.outlet c.stream := by
      unfold outlet
      rw [hstreams]
    rw [h.mail, Node.mail, Node.mail, houtlet]
  have htouched := h.touched
  generalize n.nextAct i = act at hroom htouched
  have hwrite (hstore : n'.store = (n.store.write act.batch).2) :
      Relation.ReflTransGen Serving n n' :=
    .tail (.single (.write act.batch hroom))
      (haside rfl rfl rfl rfl (by rw [hstore]; exact .refl _) rfl)
  cases act with
  | write events => exact hwrite htouched.1
  | record r => exact hwrite htouched.1
  | keep s page => exact .single (haside rfl rfl rfl rfl (htouched.1 ▸ .refl _) rfl)
  | _ => exact .single (haside rfl rfl rfl rfl htouched.1 rfl)

/-! ## What handlers are answered -/

/-- What a job has read of a stream is of the log, and if the job counts as late, it misses none of
the first `c` events. -/
def HeldAt (p : Projector A S) (late : Nat → Prop) (c : Nat) (log : List (Event A)) (i : Nat)
    (s : StreamId) (page : Page A) : Prop :=
  LookupPhase.Sound p log s (.holding page) ∧
    (late i → LookupPhase.AtLeast p log c s (.holding page))

/-- The first `c` events were applied, and neither the lookups nor the jobs that count as late miss
any of them. -/
structure Footing (p : Projector A S) (sub : Nat) (late asking : Nat → Prop) (c : Nat)
    (n : Node A S B) (t : Traffic A S) : Prop extends Floor p sub late c n t where
  held : n.Held (HeldAt p asking c t.log)

section Footing

variable {p : Projector A S} {sub c : Nat} {late asking : Nat → Prop} {t t' : Traffic A S}

theorem HeldAt.append {log more : List (Event A)} {s : StreamId} {page : Page A}
    (h : HeldAt p asking c log i s page) (hlog : Log.Numbered (log ++ more))
    (hc : c ≤ log.length) : HeldAt p asking c (log ++ more) i s page :=
  ⟨h.1.append hlog, fun hasking => (h.2 hasking).append hc more⟩

/-- What jobs hold was read before the log has grown. -/
theorem Floor.footing (h : Floor p sub late c n' t') (hheld : n'.Held (HeldAt p asking c t.log))
    (hlog : t.log <+: t'.log) (hc : c ≤ t.log.length) : Footing p sub late asking c n' t' := by
  refine { h with held := hheld.mono fun k s page hpage => ?_ }
  obtain ⟨more, hmore⟩ := hlog
  have hnumbered := h.sound.numbered
  rw [← hmore] at hnumbered ⊢
  exact hpage.append hnumbered hc

theorem Footing.within (h : Footing p sub late asking c n t) : c ≤ t.log.length :=
  Nat.le_trans h.reached h.sound.bounded

/-- A handler that is answered misses no event that was applied, if its job counts as late. -/
theorem Footing.reply (h : Footing p sub late asking c n t) (ht : t.Follows p) (hk : asking k)
    {s : StreamId} {answer : Except RuntimeError (Option S)} (hs : p.concerns s = true)
    (hreply : n.reply (n.nextAct k) = some (s, answer)) :
    LookupPhase.AtLeast p t.log c s (.answered answer) := by
  rcases reply_cases hreply with ⟨state, -, hknown, rfl⟩ | ⟨page, hact, rfl⟩
  · rw [h.model] at hknown
    exact ⟨state, rfl, (ht.foldsTo_known hs hknown).of_le h.reached⟩
  · obtain ⟨hsound, hatLeast⟩ := h.held.kept hact
    rw [h.model]
    exact ht.atLeast_digested h.reached hsound (hatLeast hk) (t.model.digested_digest s page)

variable [DecidableEq S]

theorem Footing.job (h : Footing p sub late asking c n t) (hmoved : Moved n n' i a a')
    (hroom : n.store.length + (n.nextAct i).batch.length < 0x10000000000000000) :
    ∃ t', Footing p sub late asking c n' t' := by
  have htouched := hmoved.touched
  have huntouched := hmoved.untouched
  obtain ⟨t', ht', hlog⟩ : ∃ t', Floor p sub late c n' t' ∧ t.log <+: t'.log := by
    cases hact : n.nextAct i with
    | keep s page =>
      rw [hact] at htouched
      have hdigested := n.model.digested_digest s page
      rw [← htouched.2] at hdigested
      exact ⟨_, h.toFloor.digested (h.held.kept hact).1 hdigested htouched.1
        huntouched.consumer huntouched.lock (fun c _ => hmoved.mail c) huntouched.lookups,
        List.prefix_rfl⟩
    | _ =>
      rw [hact] at htouched
      exact h.toFloor.run (hmoved.serving hroom htouched.2)
  refine ⟨t', ht'.footing (h.held.moved hmoved fun s _ hknown => ?_) hlog h.within⟩
  rw [h.model] at hknown
  have hs : p.concerns s = true := h.sound.projector ▸ ReadModel.concerns_of_unknown hknown
  exact ⟨h.sound.sound_readStream h.store hs,
    fun _ => h.sound.atLeast_readStream h.store h.quiet c⟩

theorem Footing.step (h : Footing p sub late asking c n t) (hstep : Serving n n')
    (hadmits : Admits n n') : ∃ t', Footing p sub late asking c n' t' ∧ t.log <+: t'.log := by
  obtain ⟨t', ht', hlog⟩ := h.toFloor.step hstep
  exact ⟨t', ht'.footing (h.held.admits hadmits) hlog h.within, hlog⟩

end Footing

/-! ## Runs -/

/-- A step of a node with its ledger: of a job, of what goes on around the read model and elsewhere,
or of those who listen to the read model's feeds. The mailbox of one subscription to the outcomes is
left to fill. -/
inductive Pipes [DecidableEq S] (sub : Nat) :
    Node A S B × Ledger A → Node A S B × Ledger A → Prop where
  | job {n n' : Node A S B} {l : Ledger A} (i : Nat) (hmove : n.moveJob i = some n')
      (hroom : n.store.length + (n.nextAct i).batch.length < 0x10000000000000000) :
      Pipes sub (n, l) (n', l.enter i (n.nextAct i) (n'.store.events.drop n.store.length))
  /-- The jobs that there are go on by steps of their own, and others may be begun. -/
  | serving {n n' : Node A S B} {l : Ledger A} (hstep : Serving n n')
      (hadmits : Admits n n') : Pipes sub (n, l) (n', l)
  | feeds {n : Node A S B} {l : Ledger A} (changes : Broadcaster (Change A S))
      (outcomes : Broadcaster Outcome)
      (hmailbox : outcomes.mailbox sub = n.model.outcomes.mailbox sub) :
      Pipes sub (n, l) ({ n with model := { n.model with changes, outcomes } }, l)

/-- A node before any of that. Nothing was applied, nobody follows a stream or asks for one, no job
has read anything, and nothing was published to the subscription. -/
structure Opens (p : Projector A S) (sub : Nat) (n : Node A S B) (log : List (Event A)) : Prop where
  store : n.store.Holds log
  pages : 0 < n.store.pageSize
  quiet : n.store.Quiet
  projector : n.model.projector = p
  cache : n.model.cache = Cache.new .unbounded
  consumer : n.consumer = none
  lookups : n.lookups = []
  unread : ∀ i, n.Unread i
  live : (n.model.outcomes.mailbox sub).Live
  unpublished : (n.model.outcomes.mailbox sub).queue = []

def HasPublished (n : Node A S B) (sub : Nat) (o : Event A) : Prop :=
  Log.outcomes (n.store.events.take (o.position.val + 1))
    <+: (n.model.outcomes.mailbox sub).queue

def Unbegun (n : Node A S B) (j : Nat) : Prop :=
  ∀ lookup, n.lookups[j]? = some lookup → lookup.phase = .asked

/-- An answer is the fold of a stream's events up to some point of the log, which is beyond all that
a job has put into that stream. -/
def Shows (p : Projector A S) (n : Node A S B) (l : Ledger A) (i : Nat) (s : StreamId)
    (answer : Except RuntimeError (Option S)) : Prop :=
  ∃ k ≤ n.store.events.length, answer = .ok (p.foldAll none (Log.early n.store.events s k)) ∧
    ∀ e, (i, e) ∈ l.events → e.stream = s → e ∈ Log.early n.store.events s k

variable [DecidableEq S] {p : Projector A S} {sub c : Nat} {late asking : Nat → Prop}
  {t : Traffic A S} {x y : Node A S B × Ledger A}

omit [DecidableEq S] in
theorem Opens.footing {log : List (Event A)} (h : Opens p sub n log) :
    ∃ t, Footing p sub (fun _ => False) (fun _ => False) 0 n t := by
  let t : Traffic A S := { Traffic.start p .unbounded log with model := n.model }
  have hfollows : t.Follows p :=
    (Traffic.follows_start h.store.numbered).rewrite h.projector h.cache
  have hserves : Serves n t := {
    store := h.store
    pages := h.pages
    model := rfl
    holder := by simp only [holderOf, h.consumer]; rfl
    locked := by simp [h.consumer]
    due := by simp [h.consumer]
    lookups := by rw [h.lookups]; exact ⟨id, by simp, by simp⟩ }
  exact ⟨t, { hserves with
    sound := hfollows.toSound
    quiet := h.quiet
    publishes := ⟨h.live, h.unpublished⟩
    follows := fun _ => hfollows
    reached := Nat.zero_le _
    late := fun _ _ _ hlate => hlate.elim
    held := fun i a s page ha hasked => by
      rw [h.unread i a ha] at hasked
      cases hasked }⟩

theorem Pipes.footing (hstep : Pipes sub x y) (h : Footing p sub late asking c x.1 t)
    (hl : Accounts x.1 x.2) : ∃ t', Footing p sub late asking c y.1 t' ∧ Accounts y.1 y.2 ∧
      x.2.outcomes ⊆ y.2.outcomes := by
  cases hstep with
  | job i hmove hroom =>
    obtain ⟨a, ha⟩ := exists_of_moveJob hmove
    obtain ⟨a', hmoved⟩ := moveJob_moved ha hmove
    obtain ⟨t', ht'⟩ := h.job hmoved hroom
    have hlength := ht'.store.numbered.1
    rw [← ht'.store.length_eq] at hlength
    obtain ⟨more, hholds, hmore, -⟩ := hmoved.touched.holds h.store hlength
    refine ⟨t', ht', ?_, Ledger.outcomes_subset_enter⟩
    rw [hholds.events_eq, h.store.length_eq, List.drop_left]
    exact hl.turn h.store hholds hmore hmoved
  | serving hstep hadmits =>
    obtain ⟨t', ht', hlog⟩ := h.step hstep hadmits
    refine ⟨t', ht', hl.frame ?_ fun i a ha hpast => ?_, List.Subset.refl _⟩
    · rw [h.store.events_eq, ht'.store.events_eq]
      exact hlog.subset
    · obtain ⟨a', ha', hsame⟩ := hadmits.spared i a trivial ha
      exact ⟨a', ha', by rw [hsame]; exact hpast⟩
  | feeds changes outcomes hmailbox =>
    exact ⟨_, { h.toFloor.feeds hmailbox with held := h.held },
      ⟨hl.events, hl.outcomes, hl.past, hl.precede⟩, List.Subset.refl _⟩

theorem footing_run (hrun : Relation.ReflTransGen (Pipes sub) x y)
    (h : Footing p sub late asking c x.1 t) (hl : Accounts x.1 x.2) :
    ∃ t', Footing p sub late asking c y.1 t' ∧ Accounts y.1 y.2 ∧
      x.2.outcomes ⊆ y.2.outcomes := by
  induction hrun with
  | refl => exact ⟨t, h, hl, List.Subset.refl _⟩
  | tail _ hstep ih =>
    obtain ⟨u, hu, hlu, hgrows⟩ := ih
    obtain ⟨t', ht', hl', hgrows'⟩ := hstep.footing hu hlu
    exact ⟨t', ht', hl', List.Subset.trans hgrows hgrows'⟩

omit [DecidableEq S] in
/-- What is at or beyond all that was applied when the outcome was published shows the job's
events. -/
theorem shows_of_foldsTo {o : Event A} {s : StreamId} {state : Option S}
    (hlog : n.store.Holds t.log) (hl : Accounts n l) (ho : (i, o) ∈ l.outcomes)
    (hc : o.position.val < c) (h : p.FoldsTo t.log c s state) : Shows p n l i s (.ok state) := by
  obtain ⟨k, hk, hbound, rfl⟩ := h
  rw [Shows, hlog.events_eq]
  refine ⟨k, hbound, rfl, fun e he hs => ?_⟩
  have hmem := hl.events i e he
  rw [hlog.events_eq] at hmem
  have hbefore : e.position.val < o.position.val := hl.precede i e o he ho
  exact (Log.mem_early hlog.numbered).mpr ⟨hmem, hs, by omega⟩

/-- Where no other event of the log records an outcome of that command, the feed has published the
outcome that a job recorded as soon as it has published one of its command. -/
theorem hasPublished_of_mem {log : List (Event A)} {n₀ n₁ : Node A S B} {l₁ : Ledger A}
    (hopens : Opens p sub n₀ log) (hrun : Relation.ReflTransGen (Pipes sub) (n₀, {}) (n₁, l₁))
    {o : Event A} {r : Outcome} (hr : r ∈ (n₁.model.outcomes.mailbox sub).queue)
    (honly : ∀ e ∈ n₁.store.events, ∀ r', e.payload.outcome? = some r' →
      r'.command = r.command → e = o) : HasPublished n₁ sub o := by
  obtain ⟨t₀, ht₀⟩ := hopens.footing
  obtain ⟨t₁, ht₁, -⟩ := footing_run hrun ht₀ accounts_nothing
  rw [ht₁.model] at hr
  obtain ⟨e, happlied, he⟩ := ht₁.publishes.exists_of_mem hr
  have hmem := List.mem_of_mem_take happlied
  rw [ht₁.store.events_eq] at honly
  obtain rfl := honly e hmem r he rfl
  have hbefore := ht₁.store.numbered.lt_of_mem_take happlied
  rw [HasPublished, ht₁.store.events_eq, ht₁.model, ht₁.publishes.queue]
  exact Log.outcomes_take_prefix hbefore

/-- Any number of jobs, a stream that delivers the log to a read model in its order, and lookups, in
any order of their steps, while no read fails. Once the feed of the read model has published the
outcome that a job recorded, every lookup of a stream that begins from then on, whatever is asked
and answered at once, and whatever a handler is answered that has not read the stream before, has
the fold of that stream's events up to some point, and what the job has written of them is among
these. -/
theorem published_outcome_shows {log : List (Event A)} {n₀ n₁ n₂ : Node A S B} {l₁ l₂ : Ledger A}
    (hopens : Opens p sub n₀ log) (hbefore : Relation.ReflTransGen (Pipes sub) (n₀, {}) (n₁, l₁))
    {o : Event A} (ho : (i, o) ∈ l₁.outcomes) (hpublished : HasPublished n₁ sub o)
    (hafter : Relation.ReflTransGen (Pipes sub) (n₁, l₁) (n₂, l₂))
    (hignores : p.IgnoresOutcomes n₂.store.events) {s : StreamId} (hs : p.concerns s = true) :
    Shows p n₂ l₂ i s (n₂.model.get n₂.store s).answer ∧
    (∀ (j : Nat) (lookup : Lookup A S) (answer : Except RuntimeError (Option S)), n₁.Unbegun j →
      n₂.lookups[j]? = some lookup → lookup.stream = s → lookup.phase = .answered answer →
      Shows p n₂ l₂ i s answer) ∧
    ∀ (j : Nat) (answer : Except RuntimeError (Option S)), n₁.Unread j →
      n₂.reply (n₂.nextAct j) = some (s, answer) → Shows p n₂ l₂ i s answer := by
  obtain ⟨t₀, ht₀⟩ := hopens.footing
  obtain ⟨t₁, ht₁, hl₁, -⟩ := footing_run hbefore ht₀ accounts_nothing
  -- The lookups that have not begun and the jobs that have not read count as late from here on. None
  -- has missed anything yet.
  have hlate : Footing p sub n₁.Unbegun n₁.Unread t₁.applied n₁ t₁ :=
    { ht₁ with
      reached := Nat.le_refl _
      late := fun _ j l hj hl _ => by
        rw [hj l hl]
        trivial
      held := fun j a s page ha hasked => ⟨(ht₁.held j a s page ha hasked).1, fun hunread => by
        rw [hunread a ha] at hasked
        cases hasked⟩ }
  obtain ⟨t₂, ht₂, hl₂, hgrows⟩ := footing_run hafter hlate hl₁
  -- The feed publishes what was applied, and the job's events are before its outcome.
  have happlied : o.position.val < t₁.applied := by
    obtain ⟨hmem, hsome⟩ := hl₁.outcomes i o ho
    rw [ht₁.store.events_eq] at hmem
    refine ht₁.publishes.lt_applied (ht₁.store.numbered.getElem? hmem) hsome ?_
    rw [← ht₁.model, ← ht₁.store.events_eq]
    exact hpublished
  rw [ht₂.store.events_eq] at hignores
  have hfollows := ht₂.follows hignores
  refine ⟨?_, fun j lookup answer hj hlookup hstream hphase => ?_, fun j answer hj hreply => ?_⟩
  · obtain ⟨state, hanswer, hfolds⟩ := hfollows.foldsTo_get hs ht₂.store ht₂.quiet
    rw [ht₂.model, hanswer]
    exact shows_of_foldsTo ht₂.store hl₂ (hgrows ho) happlied (hfolds.of_le ht₂.reached)
  · have hatLeast := ht₂.late hignores j lookup hj hlookup (by rw [hstream]; exact hs)
    rw [hphase, hstream] at hatLeast
    obtain ⟨state, rfl, hfolds⟩ := hatLeast
    exact shows_of_foldsTo ht₂.store hl₂ (hgrows ho) happlied hfolds
  · obtain ⟨state, rfl, hfolds⟩ := ht₂.reply hfollows hj hs hreply
    exact shows_of_foldsTo ht₂.store hl₂ (hgrows ho) happlied hfolds

/-- Two commands that note a number under the same topic, with their jobs at these points. -/
def noting (first second : JobPhase Notes.Fact Int64) (log : List (Event Notes.Fact)) :
    Node Notes.Fact Int64 Unit where
  store := { contents := .payloads log, clock := 0 }
  model := { ReadModel.new Notes.projector .unbounded with
    outcomes := Broadcaster.new.subscribe.1 }
  handlers := ⟨[("Note", .shared fun _ => .finish (.handled (.ok [.fact (.noted "a" 2)] "noted")))]⟩
  jobs := [{ job := ⟨⟨.ofNat 1, "Note", ()⟩, true, first⟩, token := .never },
    { job := ⟨⟨.ofNat 2, "Note", ()⟩, true, second⟩, token := .never }]

theorem opens_noting : Opens Notes.projector 0 (noting .received .received []) [] where
  store := ⟨rfl, by decide, by decide⟩
  pages := by decide
  quiet := ⟨rfl, rfl⟩
  projector := rfl
  cache := rfl
  consumer := rfl
  lookups := rfl
  unread i a ha := by
    have hjobs : ∀ a ∈ (noting .received .received []).jobs, a.job.phase.asked? = none := by
      simp [noting, JobPhase.asked?]
    exact hjobs a (List.mem_of_getElem? ha)
  live := ⟨rfl, rfl⟩
  unpublished := rfl

def noted (k : Nat) : ProcessingResult Notes.Fact :=
  .processed (.ofNat k) [.fact (.noted "a" 2)] (.ok "noted")

/-- The events of two commands, and the outcome of the one that was written last. -/
def notedTwice : List (Event Notes.Fact) :=
  [⟨.ofNat 0, 0, .fact (.noted "a" 2), some true⟩, ⟨.ofNat 1, 0, .fact (.noted "a" 2), some false⟩,
    ⟨.ofNat 2, 0, .outcome ⟨.ofNat 1, .ok "noted"⟩, some true⟩]

/-- The second command writes first, then the first one writes and records its outcome. -/
theorem noting_notedTwice :
    Relation.ReflTransGen (Pipes 0) (noting .received .received [], {})
      (noting (.announcing (noted 1)) (.recording (noted 2) 0) notedTwice,
        ⟨[(1, notedTwice[0]), (0, notedTwice[1])], [(0, notedTwice[2])]⟩) := by
  have hstart : Relation.ReflTransGen (Pipes 0) (noting .received .received [], {})
    (noting .received .received [], {}) := .refl
  have hbegun := (hstart.tail (.job 0 rfl (by decide))).tail
    (.job 1 rfl (by decide))
  have hdecided := (hbegun.tail (.job 0 rfl (by decide))).tail
    (.job 1 rfl (by decide))
  have hwritten := (hdecided.tail (.job 1 rfl (by decide))).tail
    (.job 0 rfl (by decide))
  exact hwritten.tail (.job 0 rfl (by decide))

/-- When the outcome of the first command is published, a lookup that begins has what both commands
have written. -/
theorem noted_outcome_shows :
    ∃ n₁ n₂ l, Relation.ReflTransGen (Pipes 0) (noting .received .received [], {}) (n₁, l) ∧
      (0, notedTwice[2]) ∈ l.outcomes ∧ HasPublished n₁ 0 notedTwice[2] ∧ n₁.lookups = [] ∧
      Relation.ReflTransGen (Pipes 0) (n₁, l) (n₂, l) ∧
      n₂.lookups.map (·.phase) = [.answered (.ok (some 4))] ∧
      Shows Notes.projector n₂ l 0 ⟨"Topic", "a"⟩ (.ok (some 4)) := by
  have happlied := ((noting_notedTwice.tail (.serving (.applyNow rfl rfl rfl) (.of_jobs rfl))).tail
    (.serving (.applyNow rfl rfl rfl) (.of_jobs rfl))).tail
    (.serving (.applyNow rfl rfl rfl) (.of_jobs rfl))
  have hhere {x y : Node Notes.Fact Int64 Unit × Ledger Notes.Fact}
      (_ : Relation.ReflTransGen (Pipes 0) x y) : Relation.ReflTransGen (Pipes 0) y y := .refl
  have hlookup := ((hhere happlied).tail (.serving (.lookUp "g" ⟨"Topic", "a"⟩)
    (.of_jobs rfl))).tail (.serving (.lookup (i := 0) rfl) (.of_jobs rfl))
  have honly : ∀ e ∈ notedTwice, e.payload.outcome?.isSome = true → e = notedTwice[2] := by decide
  have hpublished : HasPublished _ 0 notedTwice[2] :=
    hasPublished_of_mem opens_noting happlied (r := ⟨.ofNat 1, .ok "noted"⟩)
      (List.mem_singleton_self _) fun e he o ho _ => honly e he (by rw [ho]; rfl)
  have hshows := published_outcome_shows opens_noting happlied (i := 0) (o := notedTwice[2])
    (List.mem_singleton_self _) hpublished hlookup ?_ (s := ⟨"Topic", "a"⟩) rfl
  · exact ⟨_, _, _, happlied, List.mem_singleton_self _, hpublished, rfl, hlookup, rfl,
      hshows.2.1 0 _ _ (fun _ hnone => by cases hnone) rfl rfl rfl⟩
  · have hall : ∀ e ∈ notedTwice, e.payload.outcome?.isSome = true →
        (Notes.projector (A := Notes.Fact)).concerns e.stream = false := by decide
    intro e he o ho
    exact hall e he (by rw [ho]; rfl)

end Node
end Chronicle
