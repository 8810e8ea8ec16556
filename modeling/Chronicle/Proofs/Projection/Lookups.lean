import Chronicle.Proofs.Projection.Answering
import Chronicle.Proofs.Projection.Publishing
import Chronicle.Proofs.Projection.Reading
import Chronicle.Proofs.Projection.Serving

/-!
# Chronicle.Proofs.Projection.Lookups

What the lookups of a node answer. A lookup that has not begun when the first `c` events of the log
were applied misses none of these, however it is overtaken afterwards: it answers with the fold of
its stream up to that point or a later one (`LookupPhase.AtLeast`). So does what is asked and
answered at once (`foldsTo_get`).
-/

namespace Chronicle

/-! ## One lookup -/

section AtLeast

variable {A S : Type} [Vocabulary A] {p : Projector A S} {log : List (Event A)} {c : Nat}
  {s : StreamId} {phase : LookupPhase A S}

/-- What a lookup has come to misses none of the first `c` events of the log. One that still has to
ask the cache will find them there. -/
def LookupPhase.AtLeast (p : Projector A S) (log : List (Event A)) (c : Nat) (s : StreamId) :
    LookupPhase A S → Prop
  | .asked | .locking _ => True
  | .holding page => ∃ events, page = .ok events ∧ (events = [] → Log.early log s c = [])
  | .answered answer => ∃ state, answer = .ok state ∧ p.FoldsTo log c s state

theorem LookupPhase.AtLeast.append (h : phase.AtLeast p log c s) (hc : c ≤ log.length)
    (more : List (Event A)) : phase.AtLeast p (log ++ more) c s := by
  cases phase with
  | asked => trivial
  | locking x => trivial
  | holding page =>
    obtain ⟨events, hpage, hnone⟩ := h
    refine ⟨events, hpage, fun hevents => ?_⟩
    rw [Log.early_append hc]
    exact hnone hevents
  | answered answer =>
    obtain ⟨state, hanswer, hfolds⟩ := h
    exact ⟨state, hanswer, hfolds.append more⟩

end AtLeast

namespace Traffic

variable {A S : Type} [Vocabulary A] {p : Projector A S} {t : Traffic A S} {s : StreamId} {c : Nat}
  {store : Store A} {page : Page A} {answer : Except RuntimeError (Option S)}
  {model : ReadModel A S}

theorem Follows.rewrite {model : ReadModel A S} (ht : Follows p t)
    (hp : model.projector = t.model.projector) (hcache : model.cache = t.model.cache) :
    Follows p { t with model } where
  toSound := ht.toSound.rewrite hp (by rw [hcache])
  calm := ht.calm
  exact := by
    show model.cache.entries.Exact p t.log
    rw [hcache]
    exact ht.exact
  covers := by
    show model.cache.entries.Covers p t.log t.applied
    rw [hcache]
    exact ht.covers

theorem Sound.page_readStream (ht : Sound p t) (hstore : store.Holds t.log)
    (hquiet : store.Quiet) :
    (store.readStream s Position.last).page = .ok (Log.early t.log s t.log.length) := by
  have hbelow : Log.answered none (Log.below t.log s Position.last)
      = .ok (Log.below t.log s Position.last) := rfl
  rw [hstore.page_readStream, hquiet.2, ← answered_stream ht.numbered hbelow]
  rfl

/-- A read yields what is in the log of a stream. -/
theorem Sound.sound_readStream (ht : Sound p t) (hstore : store.Holds t.log)
    (hs : p.concerns s = true) : LookupPhase.Sound p t.log s
      (.holding (store.readStream s Position.last).page) := by
  refine ⟨hs, fun events hpage => ⟨t.log.length, Nat.le_refl _, ?_⟩⟩
  rw [hstore.page_readStream] at hpage
  exact answered_stream ht.numbered hpage

/-- If all of a stream is read and that is nothing, nothing of it was applied. -/
theorem Sound.atLeast_readStream (ht : Sound p t) (hstore : store.Holds t.log)
    (hquiet : store.Quiet) (c : Nat) : LookupPhase.AtLeast p t.log c s
      (.holding (store.readStream s Position.last).page) := by
  refine ⟨_, ht.page_readStream hstore hquiet, fun hnone => ?_⟩
  refine List.eq_nil_iff_forall_not_mem.mpr fun e he => ?_
  obtain ⟨hmem, hstream, hlt⟩ := (Log.mem_early ht.numbered).mp he
  have hall := (Log.mem_early ht.numbered).mpr ⟨hmem, hstream, ht.numbered.position_lt hmem⟩
  rw [hnone] at hall
  cases hall

/-- What is made of a sound page is exact. -/
theorem Sound.exact_entry (ht : Sound p t) (hpage : LookupPhase.Sound p t.log s (.holding page))
    {events : List (Event A)} {x : Entry S} (hevents : page = .ok events)
    (hx : t.model.projector.entry? events = some x) : x.Exact p t.log s := by
  obtain ⟨n, hn, rfl⟩ := hpage.2 events hevents
  rw [ht.projector] at hx
  exact (entry?_early ht.numbered n hn hx).1

/-- What was read may be kept at any moment, whoever has the lock. -/
theorem Follows.digested (ht : Follows p t)
    (hpage : LookupPhase.Sound p t.log s (.holding page))
    (h : t.model.Digested s page answer model) : Follows p { t with model } := by
  cases h with
  | failed _ _ => exact ht
  | empty _ => exact ht
  | kept events x hevents hx => exact {
      toSound := ht.toSound.rewrite rfl Cache.highWater_keep
      calm := ht.calm
      exact := ht.exact.keep (ht.exact_entry hpage hevents hx)
      covers := ht.covers.keep s x }

/-- If what was read misses none of the first `c` events, then neither does the answer. -/
theorem Follows.atLeast_digested (ht : Follows p t) (hc : c ≤ t.applied)
    (hpage : LookupPhase.Sound p t.log s (.holding page))
    (hatLeast : LookupPhase.AtLeast p t.log c s (.holding page))
    (h : t.model.Digested s page answer model) :
    LookupPhase.AtLeast p t.log c s (.answered answer) := by
  obtain ⟨read, rfl, hnothing⟩ := hatLeast
  cases h with
  | failed failure hfailed => cases hfailed
  | empty hempty =>
    refine ⟨none, rfl, Projector.foldsTo_none (Nat.le_trans hc ht.bounded) (hnothing ?_)⟩
    exact Except.ok.inj hempty
  | kept events x hevents hx =>
    exact ⟨_, rfl, (ht.foldsTo_keep hpage.1 (ht.exact_entry hpage hevents hx)).of_le hc⟩

/-- What is read and answered at once misses nothing that was applied. -/
theorem Follows.foldsTo_get (ht : Follows p t) (hs : p.concerns s = true)
    (hstore : store.Holds t.log) (hquiet : store.Quiet) :
    ∃ state, (t.model.get store s).answer = .ok state ∧ p.FoldsTo t.log t.applied s state := by
  unfold ReadModel.get
  cases hk : t.model.known? s with
  | some state => exact ⟨state, rfl, ht.foldsTo_known hs hk⟩
  | none =>
    exact ht.atLeast_digested (Nat.le_refl _) (ht.sound_readStream hstore hs)
      (ht.atLeast_readStream hstore hquiet _) (t.model.digested_digest s _)

end Traffic

namespace Node

variable {A S B : Type} [Vocabulary A] {n n' : Node A S B} {t t' : Traffic A S}
  {p : Projector A S} {sub c i j : Nat} {l l' : Lookup A S} {phase : LookupPhase A S}

/-- How a step takes a lookup on. -/
inductive Goes (n : Node A S B) (l : Lookup A S) : LookupPhase A S → Prop where
  | known (state : Option S) : l.phase = .asked → n.model.known? l.stream = some state →
      Goes n l (.answered (.ok state))
  | read : l.phase = .asked →
      Goes n l (.holding (n.store.readStream l.stream Position.last).page)
  | made (page : Page A) (x : Entry S) : l.phase = .holding page → Goes n l (.locking x)
  | empty (page : Page A) : l.phase = .holding page →
      (ReadModel.backfilled n.model.projector page).1 = .ok none →
      Goes n l (.answered (.ok none))
  | failed (page : Page A) (failure : RuntimeError) : l.phase = .holding page →
      (ReadModel.backfilled n.model.projector page).1 = .error failure →
      Goes n l (.answered (.error failure))
  /-- It gets in line for the lock. -/
  | waits : Goes n l l.phase
  | kept (x : Entry S) : l.phase = .locking x →
      Goes n l (.answered (.ok (n.model.keep l.stream x).2))

theorem moveLookup_goes (hi : n.lookups[i]? = some l) (h : n.moveLookup i = some n') :
    ∃ phase, Goes n l phase ∧
      ∀ j, n'.lookups[j]? = if j = i then some { l with phase } else n.lookups[j]? := by
  have hput (phase : LookupPhase A S) (j : Nat) :
      (n.lookups.set i { l with phase })[j]? = if j = i then some { l with phase }
        else n.lookups[j]? := getElem?_set_of_getElem? hi _ j
  unfold Node.moveLookup at h
  simp only [hi] at h
  cases hphase : l.phase with
  | asked =>
    simp only [hphase] at h
    cases hk : n.model.known? l.stream with
    | some state =>
      simp only [hk] at h
      cases h
      exact ⟨_, .known state hphase hk, hput _⟩
    | none =>
      simp only [hk] at h
      cases h
      exact ⟨_, .read hphase, hput _⟩
  | holding page =>
    simp only [hphase] at h
    split at h
    · cases h
    · cases hx : (ReadModel.backfilled n.model.projector page).1 with
      | error failure =>
        simp only [hx] at h
        cases h
        exact ⟨_, .failed page failure hphase hx, hput _⟩
      | ok found =>
        cases found with
        | none =>
          simp only [hx] at h
          cases h
          exact ⟨_, .empty page hphase hx, hput _⟩
        | some x =>
          simp only [hx] at h
          cases h
          exact ⟨_, .made page x hphase, hput _⟩
  | locking x =>
    simp only [hphase] at h
    rcases acquire_cases h with ⟨-, rfl⟩ | rfl
    · exact ⟨_, .kept x hphase, hput _⟩
    · refine ⟨_, .waits, fun j => ?_⟩
      by_cases hj : j = i
      · rw [if_pos hj, hj]
        exact hi
      · rw [if_neg hj]
  | answered answer =>
    simp only [hphase] at h
    cases h

/-- A lookup goes on without missing any of the events that were applied. -/
theorem Goes.atLeast (hgoes : Goes n l phase) (hserves : Serves n t) (ht : t.Follows p)
    (hquiet : n.store.Quiet) (hc : c ≤ t.applied) (hs : p.concerns l.stream = true)
    (hexact : ∀ x, l.phase = .locking x → x.Exact p t.log l.stream)
    (hl : l.phase.AtLeast p t.log c l.stream) : phase.AtLeast p t.log c l.stream := by
  have hbounded := ht.bounded
  cases hgoes with
  | known state hphase hk =>
    rw [hserves.model] at hk
    exact ⟨state, rfl, (ht.foldsTo_known hs hk).of_le hc⟩
  | read hphase => exact ht.atLeast_readStream hserves.store hquiet c
  | made page x hphase => trivial
  | empty page hphase hnone =>
    rw [hphase] at hl
    obtain ⟨events, rfl, hempty⟩ := hl
    rw [ReadModel.backfilled] at hnone
    have hevents : events = [] := Projector.entry?_eq_none.mp (Except.ok.inj hnone)
    exact ⟨none, rfl, Projector.foldsTo_none (Nat.le_trans hc hbounded) (hempty hevents)⟩
  | failed page failure hphase hfailed =>
    rw [hphase] at hl
    obtain ⟨events, rfl, -⟩ := hl
    cases hfailed
  | waits => exact hl
  | kept x hphase =>
    refine ⟨_, rfl, ?_⟩
    rw [hserves.model]
    exact (ht.foldsTo_keep hs (hexact x hphase)).of_le hc

variable [DecidableEq S]

theorem lookups_moveConsumer (h : n.moveConsumer = some n') : n'.lookups = n.lookups := by
  unfold Node.moveConsumer at h
  cases hc : n.consumer with
  | none =>
    simp only [hc] at h
    cases h
  | some c =>
    simp only [hc] at h
    cases hphase : c.phase with
    | idle =>
      simp only [hphase] at h
      split at h <;> cases h <;> rfl
    | locking e =>
      simp only [hphase] at h
      rcases acquire_cases h with ⟨-, rfl⟩ | rfl <;> rfl
    | applying e =>
      simp only [hphase] at h
      split at h <;> cases h <;> rfl
    | holding e earlier =>
      simp only [hphase] at h
      split at h <;> cases h
      rfl

/-- A step of the node leaves a lookup alone, begins it, or takes it on. -/
theorem Serving.lookup_cases (hstep : Serving n n') (hj : n'.lookups[j]? = some l') :
    n.lookups[j]? = some l' ∨ l'.phase = .asked ∨
      ∃ l phase, n.lookups[j]? = some l ∧ Goes n l phase ∧ l' = { l with phase } := by
  have halone (h : n'.lookups = n.lookups) : n.lookups[j]? = some l' := by
    rw [← h]
    exact hj
  cases hstep with
  | aside _ _ _ _ _ hlookups => exact .inl (halone hlookups)
  | attach i hnone =>
    refine .inl (halone ?_)
    unfold Node.attach Node.subscribe enlist
    simp only [modifyOutlet, hnone]
    split <;> rfl
  | consumer hmove => exact .inl (halone (lookups_moveConsumer hmove))
  | lookUp name stream =>
    have hlookups : (n.lookUp name stream).lookups = n.lookups ++ [⟨name, stream, .asked⟩] := by
      unfold Node.lookUp enlist
      dsimp only
      split <;> rfl
    rw [hlookups, List.getElem?_append] at hj
    split at hj
    · exact .inl hj
    · rw [List.getElem?_singleton] at hj
      split at hj
      · cases hj
        exact .inr (.inl rfl)
      · cases hj
  | @lookup i _ hmove =>
    obtain ⟨l, hi⟩ : ∃ l, n.lookups[i]? = some l := by
      cases hi : n.lookups[i]? with
      | none => simp [Node.moveLookup, hi] at hmove
      | some l => exact ⟨l, rfl⟩
    obtain ⟨phase, hgoes, hlookups⟩ := moveLookup_goes hi hmove
    rw [hlookups] at hj
    by_cases hji : j = i
    · rw [if_pos hji] at hj
      cases hj
      exact .inr (.inr ⟨l, phase, hji ▸ hi, hgoes, rfl⟩)
    · rw [if_neg hji] at hj
      exact .inl hj
  | _ => exact .inl (halone rfl)

/-! ## All of them -/

/-- A node in which no read fails and the entries are not dropped. What is under way rests on the
log, the feed of outcomes publishes to a subscription, and the entries follow the log unless they
are made of outcomes. -/
structure Keeps (p : Projector A S) (sub : Nat) (n : Node A S B) (t : Traffic A S) : Prop
    extends Serves n t where
  sound : t.Sound p
  quiet : n.store.Quiet
  publishes : t.Publishes sub
  follows : p.IgnoresOutcomes t.log → t.Follows p

theorem Keeps.step (h : Keeps p sub n t) (hstep : Serving n n') :
    ∃ t', Keeps p sub n' t' ∧ t.log <+: t'.log ∧ t.applied ≤ t'.applied := by
  obtain ⟨ms, t', hrun, hserves, hkept⟩ := hstep.simulated h.toServes h.sound
  obtain ⟨hquiet, hms⟩ := hkept h.quiet
  have hreads : ∀ m ∈ ms, m.ReadsAll := fun m hm => (hms m hm).readsAll
  have hgrows := Traffic.log_grows_run hrun
  refine ⟨t', ⟨hserves, h.sound.run hreads hrun, hquiet, h.publishes.run h.sound hreads hrun,
    fun hignores => ?_⟩, hgrows, Traffic.applied_le_run hrun⟩
  exact (h.follows (hignores.of_prefix hgrows)).run hms hrun hignores

/-- The lookups that count as late miss none of the first `c` events. -/
def LateAtLeast (p : Projector A S) (late : Nat → Prop) (c : Nat) (n : Node A S B)
    (log : List (Event A)) : Prop :=
  ∀ j l, late j → n.lookups[j]? = some l → p.concerns l.stream = true →
    l.phase.AtLeast p log c l.stream

theorem Keeps.lateAtLeast {late : Nat → Prop} (h : Keeps p sub n t) (ht : t.Follows p)
    (hstep : Serving n n') (hlog : t.log <+: t'.log) (hc : c ≤ t.applied)
    (hlate : LateAtLeast p late c n t.log) : LateAtLeast p late c n' t'.log := by
  intro j l' hj hl' hs
  obtain ⟨more, hmore⟩ := hlog
  rw [← hmore]
  refine LookupPhase.AtLeast.append ?_ (Nat.le_trans hc ht.bounded) more
  rcases hstep.lookup_cases hl' with hold | hasked | ⟨l, phase, hl, hgoes, rfl⟩
  · exact hlate j l' hj hold hs
  · rw [hasked]
    trivial
  · refine hgoes.atLeast h.toServes ht h.quiet hc hs (fun x hx => ?_) (hlate j l hj hl hs)
    obtain ⟨k, hk, -⟩ := h.lookups.goOn hl (by rw [hx]; nofun)
    rw [hx] at hk
    exact (ht.lookup hk).2

/-- The first `c` events were applied, and the lookups that count as late miss none of them. -/
structure Floor (p : Projector A S) (sub : Nat) (late : Nat → Prop) (c : Nat) (n : Node A S B)
    (t : Traffic A S) : Prop extends Keeps p sub n t where
  reached : c ≤ t.applied
  late : p.IgnoresOutcomes t.log → LateAtLeast p late c n t.log

variable {late : Nat → Prop}

theorem Floor.step (h : Floor p sub late c n t) (hstep : Serving n n') :
    ∃ t', Floor p sub late c n' t' ∧ t.log <+: t'.log := by
  obtain ⟨t', hkeeps, hlog, happlied⟩ := h.toKeeps.step hstep
  refine ⟨t', ⟨hkeeps, Nat.le_trans h.reached happlied, fun hignores => ?_⟩, hlog⟩
  have hbefore := hignores.of_prefix hlog
  exact h.toKeeps.lateAtLeast (h.follows hbefore) hstep hlog h.reached (h.late hbefore)

theorem Floor.run (h : Floor p sub late c n t) (hrun : Relation.ReflTransGen Serving n n') :
    ∃ t', Floor p sub late c n' t' ∧ t.log <+: t'.log := by
  induction hrun with
  | refl => exact ⟨t, h, List.prefix_rfl⟩
  | tail _ hstep ih =>
    obtain ⟨u, hu, hlog⟩ := ih
    obtain ⟨t', ht', hlog'⟩ := hu.step hstep
    exact ⟨t', ht', hlog.trans hlog'⟩

omit [DecidableEq S] in
/-- What was read is kept, at whatever moment. -/
theorem Floor.digested (h : Floor p sub late c n t) {s : StreamId} {page : Page A}
    {answer : Except RuntimeError (Option S)}
    (hpage : LookupPhase.Sound p t.log s (.holding page))
    (hdigested : n.model.Digested s page answer n'.model) (hstore : n'.store = n.store)
    (hconsumer : n'.consumer = n.consumer) (hlock : n'.lock = n.lock)
    (hmail : ∀ c, n.consumer = some c → n'.mail c = n.mail c)
    (hlookups : n'.lookups = n.lookups) :
    Floor p sub late c n' { t with model := n'.model } := by
  have hholds : n'.store.Holds t.log := hstore ▸ h.store
  have hserves : Serves n' { t with model := n'.model } :=
    h.frame List.prefix_rfl hholds (hstore ▸ h.pages) rfl rfl rfl hconsumer (by rw [hlock]) hmail
      (hlookups ▸ h.lookups)
  rw [h.model] at hdigested
  obtain ⟨cache, hmodel, hwater, -⟩ := hdigested.entries
  exact { hserves with
    sound := h.sound.rewrite (by rw [hmodel]) (by rw [hmodel]; exact hwater)
    quiet := hstore ▸ h.quiet
    publishes := h.publishes.frame h.sound.bounded (by rw [hmodel]) rfl List.prefix_rfl
    follows := fun hignores => (h.follows hignores).digested hpage hdigested
    reached := h.reached
    late := fun hignores j l hj hl => h.late hignores j l hj (hlookups ▸ hl) }

omit [DecidableEq S] in
/-- Who listens to the feeds of the read model is of no concern to it. -/
theorem Floor.feeds (h : Floor p sub late c n t) {changes : Broadcaster (Change A S)}
    {outcomes : Broadcaster Outcome}
    (hmailbox : outcomes.mailbox sub = n.model.outcomes.mailbox sub) :
    Floor p sub late c { n with model := { n.model with changes, outcomes } }
      { t with model := { t.model with changes, outcomes } } where
  toServes := { h.toServes with model := by rw [h.model] }
  sound := h.sound.rewrite rfl rfl
  quiet := h.quiet
  publishes := h.publishes.frame h.sound.bounded (by rw [← h.model]; exact hmailbox) rfl
    List.prefix_rfl
  follows hignores := (h.follows hignores).rewrite rfl rfl
  reached := h.reached
  late := h.late

end Node
end Chronicle
