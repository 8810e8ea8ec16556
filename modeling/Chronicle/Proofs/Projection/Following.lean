import Chronicle.Proofs.Projection.Traffic

/-!
# Chronicle.Proofs.Projection.Following

A read model that keeps every entry follows the log. As long as no read fails and nobody drops the
entries, every entry is the fold of its stream up to the entry's position, and no stream that
concerns the projector falls behind the high water (`entries_follow_log`).

What carries it is that a stream without an entry has no event among those that were applied
(`Covers.early_eq_nil`): a live event that finds no entry is then the first of its stream, whatever
its hint says, and a lookup that comes late finds an entry to compare its own with.
-/

namespace Chronicle

/-- The projector is not concerned with any stream of the log that an outcome is recorded in. -/
def Projector.IgnoresOutcomes {A S : Type} [Vocabulary A] (p : Projector A S)
    (log : List (Event A)) : Prop :=
  ∀ e ∈ log, ∀ o, e.payload.outcome? = some o → p.concerns e.stream = false

theorem Projector.IgnoresOutcomes.of_prefix {A S : Type} [Vocabulary A] {p : Projector A S}
    {log log' : List (Event A)} (h : p.IgnoresOutcomes log') (hlog : log <+: log') :
    p.IgnoresOutcomes log :=
  fun e he => h e (hlog.subset he)

theorem Projector.ignoresOutcomes_of_facts {A S : Type} [Vocabulary A] {p : Projector A S}
    {log : List (Event A)} (h : ∀ e ∈ log, e.payload.outcome? = none) : p.IgnoresOutcomes log := by
  intro e he o ho
  rw [h e he] at ho
  cases ho

theorem Log.Numbered.mem_of_lt {A : Type} {log more : List (Event A)}
    (h : Log.Numbered (log ++ more)) {e : Event A} (he : e ∈ log ++ more)
    (hlt : e.position.val < log.length) : e ∈ log := by
  have := h.getElem? he
  rw [List.getElem?_append_left hlt] at this
  exact List.mem_of_getElem? this

/-! ## Entries that follow the log -/

/-- The streams of the first `n` events have entries at or beyond those events. -/
structure Collection.Covers {A S : Type} [Vocabulary A] (p : Projector A S) (log : List (Event A))
    (n : Nat) (c : Collection S) : Prop where
  capacity : c.capacity = none
  covered : ∀ e ∈ log, e.position.val < n → p.concerns e.stream = true →
    ∃ x, c.find? e.stream = some x ∧ e.position ≤ x.position

namespace Collection.Covers

variable {A S : Type} [Vocabulary A] {p : Projector A S} {log : List (Event A)} {n : Nat}
  {c : Collection S}

theorem append {batch : List (Event A)} (hc : Covers p log n c) (hn : n ≤ log.length)
    (h : Log.Numbered (log ++ batch)) : Covers p (log ++ batch) n c where
  capacity := hc.capacity
  covered e he hlt := hc.covered e (h.mem_of_lt he (by omega)) hlt

theorem beyond (hc : Covers p log n c) {s : StreamId} {held : Entry S} (hs : p.concerns s = true)
    (hf : c.find? s = some held) : AtOrBeyond log s n held.position := by
  rintro e he rfl hlt
  obtain ⟨x, hx, hle⟩ := hc.covered e he hlt hs
  rw [hf] at hx
  cases hx
  exact hle

/-- A stream without an entry has none of the first `n` events. -/
theorem early_eq_nil (hc : Covers p log n c) (h : Log.Numbered log) {s : StreamId}
    (hs : p.concerns s = true) (hf : c.find? s = none) : Log.early log s n = [] := by
  rw [List.eq_nil_iff_forall_not_mem]
  intro e he
  obtain ⟨hmem, rfl, hlt⟩ := (Log.mem_early h).mp he
  obtain ⟨x, hx, -⟩ := hc.covered e hmem hlt hs
  rw [hf] at hx
  cases hx

theorem pass (hc : Covers p log n c) (h : Log.Numbered log) {e : Event A} (he : log[n]? = some e)
    (hown : p.concerns e.stream = true →
      ∃ x, c.find? e.stream = some x ∧ e.position ≤ x.position) :
    Covers p log (n + 1) c where
  capacity := hc.capacity
  covered e' he' hlt hs := by
    by_cases heq : e'.position.val = n
    · rw [h.unique he' (List.mem_of_getElem? he) (Position.ext (heq.trans (h.position he).symm))]
        at hs ⊢
      exact hown hs
    · exact hc.covered e' he' (by omega) hs

theorem insert (hc : Covers p log n c) (h : Log.Numbered log) {e : Event A}
    (he : log[n]? = some e) (state : Option S) :
    Covers p log (n + 1) (c.insert e.stream ⟨state, e.position⟩) where
  capacity := capacity_insert.trans hc.capacity
  covered e' he' hlt hs := by
    have hpos := h.position he
    rw [find?_insert hc.capacity]
    by_cases hst : e'.stream = e.stream
    · refine ⟨⟨state, e.position⟩, by rw [if_pos hst], ?_⟩
      show e'.position.val ≤ e.position.val
      omega
    · rw [if_neg hst]
      refine hc.covered e' he' (Nat.lt_of_le_of_ne (Nat.lt_succ_iff.mp hlt) fun heq => hst ?_) hs
      rw [h.unique he' (List.mem_of_getElem? he) (Position.ext (heq.trans hpos.symm))]

/-- Applying the next event, if what its stream held before it is not needed or was read. -/
theorem applied {cache : Cache S} {e : Event A} {earlier : Page A} {c' : Collection S}
    (hc : Covers p log n cache.entries) (h : Log.Numbered log)
    (hq : ∀ o, e.payload.outcome? = some o → p.concerns e.stream = false)
    (he : log[n]? = some e) (hfate : cache.Fate p e earlier c')
    (hread : cache.examine p e = .backfill → ∀ failure, earlier ≠ .error failure) :
    Covers p log (n + 1) c' := by
  cases hfate with
  | outcome o ho =>
    refine hc.pass h he fun hs => ?_
    rw [hq o ho] at hs
    cases hs
  | foreign hf =>
    refine hc.pass h he fun hs => ?_
    rw [hf] at hs
    cases hs
  | known held hf hle => exact hc.pass h he fun _ => ⟨held, hf, hle⟩
  | unread failure _ _ hx hfail => exact absurd hfail (hread hx failure)
  | onto held _ _ _ => exact hc.insert h he _
  | fresh _ _ _ => exact hc.insert h he _
  | backfilled events _ _ _ _ => exact hc.insert h he _

theorem keep {cache : Cache S} (hc : Covers p log n cache.entries) (s : StreamId) (x : Entry S) :
    Covers p log n (cache.keep s x).entries where
  capacity := Cache.capacity_keep.trans hc.capacity
  covered e he hlt hs := by
    obtain ⟨held, hf, hle⟩ := hc.covered e he hlt hs
    obtain ⟨y, hy, hhy⟩ := Cache.find?_keep hc.capacity hf
    exact ⟨y, hy, Nat.le_trans hle hhy⟩

theorem keepLoaded {cache : Cache S} (hc : Covers p log n cache.entries)
    (folded : List (StreamId × Entry S)) : Covers p log n (cache.keepLoaded folded).entries where
  capacity := Cache.capacity_keepLoaded.trans hc.capacity
  covered e he hlt hs := by
    obtain ⟨held, hf, hle⟩ := hc.covered e he hlt hs
    obtain ⟨y, hy, hhy⟩ := Cache.find?_keepLoaded hc.capacity hf
    exact ⟨y, hy, Nat.le_trans hle hhy⟩

end Collection.Covers

def Collection.Exact {A S : Type} [Vocabulary A] (p : Projector A S) (log : List (Event A))
    (c : Collection S) : Prop :=
  ∀ s x, (s, x) ∈ c.entries → x.Exact p log s

namespace Collection.Exact

variable {A S : Type} [Vocabulary A] {p : Projector A S} {log : List (Event A)} {n : Nat}
  {c : Collection S}

theorem append {batch : List (Event A)} (hc : Exact p log c) (h : Log.Numbered (log ++ batch)) :
    Exact p (log ++ batch) c :=
  fun s x hx => (hc s x hx).append h

theorem insert (hc : Exact p log c) {s : StreamId} {x : Entry S} (hx : x.Exact p log s) :
    Exact p log (c.insert s x) := by
  intro s' y hy
  rcases mem_insert hy with ⟨_, hmem⟩ | ⟨rfl, rfl⟩
  · exact hc s' y hmem
  · exact hx

/-- Applying the next event: what it is folded onto has all the earlier events of its stream, if the
entry there misses none of them, if a missing entry means that there are none where it is taken to
mean that, and if a read yields them. -/
theorem applied {cache : Cache S} {e : Event A} {earlier : Page A} {c' : Collection S}
    (hc : Exact p log cache.entries) (h : Log.Numbered log) (he : log[n]? = some e)
    (hfate : cache.Fate p e earlier c')
    (hbeyond : ∀ held, p.concerns e.stream = true → cache.entries.find? e.stream = some held →
      AtOrBeyond log e.stream n held.position)
    (hfresh : p.concerns e.stream = true → cache.entries.find? e.stream = none →
      cache.allLoaded = true ∨ e.firstOfStream = some true → Log.early log e.stream n = [])
    (hread : cache.examine p e = .backfill → ∀ events, earlier = .ok events →
      events = Log.early log e.stream n) : Exact p log c' := by
  cases hfate with
  | outcome _ _ => exact hc
  | foreign _ => exact hc
  | known _ _ _ => exact hc
  | unread _ _ _ _ _ => exact hc
  | onto held hs hf hlt =>
    have hpos : held.position.val < n := by
      rw [← h.position he]
      exact hlt
    exact hc.insert (exact_fold h he
      ((hc _ _ (mem_of_find? hf)).state_eq h hpos (hbeyond held hs hf)))
  | fresh hs hf hfirst =>
    refine hc.insert (exact_fold h he ?_)
    rw [hfresh hs hf hfirst]
    rfl
  | backfilled events _ _ hx hok =>
    refine hc.insert (exact_fold h he ?_)
    rw [hread hx events hok]

theorem keep {cache : Cache S} (hc : Exact p log cache.entries) {s : StreamId} {x : Entry S}
    (hx : x.Exact p log s) : Exact p log (cache.keep s x).entries := by
  intro s' y hy
  rcases Cache.mem_keep hy with hmem | ⟨rfl, rfl⟩
  · exact hc s' y hmem
  · exact hx

theorem keepLoaded {cache : Cache S} (hc : Exact p log cache.entries)
    {folded : List (StreamId × Entry S)} (hfolded : ∀ s x, (s, x) ∈ folded → x.Exact p log s) :
    Exact p log (cache.keepLoaded folded).entries :=
  fun s x hx => (Cache.mem_keepLoaded hx).elim (hc s x) (hfolded s x)

end Collection.Exact

theorem Loading.Folded.exact {A S : Type} [Vocabulary A] {p : Projector A S}
    {log : List (Event A)} {n : Nat} {folded : List (StreamId × Entry S)}
    (h : Loading.Folded p (log.take n) folded) (hlog : Log.Numbered log) (hn : n ≤ log.length)
    {s : StreamId} {x : Entry S} (hx : (s, x) ∈ folded) :
    x.Exact p log s ∧ AtOrBeyond log s n x.position := by
  obtain ⟨hexact, -, hbeyond⟩ := entry?_early hlog n hn ((h s x).mp hx).2
  exact ⟨hexact, hbeyond⟩

/-! ## The read model among all that goes on -/

namespace Traffic

variable {A S : Type} [Vocabulary A] {p : Projector A S} {t t' : Traffic A S}

/-- The entries keep up with the events that were applied. -/
structure Follows (p : Projector A S) (t : Traffic A S) : Prop extends Sound p t where
  /-- No live event is left without what it needs. -/
  calm : ∀ e failure, t.holder ≠ .applying e (.error failure)
  exact : t.model.cache.entries.Exact p t.log
  covers : t.model.cache.entries.Covers p t.log t.applied

theorem follows_start {log : List (Event A)} (h : Log.Numbered log) :
    Follows p (start p .unbounded log) where
  toSound := sound_start h
  calm e failure h := by cases h
  exact s x h := by cases h
  covers := ⟨rfl, fun e _ h => absurd h (Nat.not_lt_zero _)⟩

/-- The event that is applied is the next one, and what its stream held before it was read. -/
theorem Sound.next (ht : Sound p t) {e : Event A} {earlier : Page A}
    (hevent : t.holder = .applying e earlier ∨
      (t.log[t.applied]? = some e ∧ t.model.needsRead e = false)) :
    t.log[t.applied]? = some e ∧ (t.model.cache.examine p e = .backfill →
      t.holder = .applying e earlier ∧
        ∀ events, earlier = .ok events → events = Log.early t.log e.stream t.applied) := by
  rcases hevent with hholder | ⟨he, hno⟩
  · have hsound := ht.holder
    rw [hholder] at hsound
    exact ⟨hsound.1, fun _ => ⟨hholder, hsound.2⟩⟩
  · refine ⟨he, fun hx => ?_⟩
    rw [← ht.projector, ← ReadModel.needsRead_iff, hno] at hx
    cases hx

/-- Every entry is the fold of its stream up to one of the stream's events, and every stream that
concerns the projector has an entry at or beyond each of its events up to the high water. -/
theorem Follows.entries (ht : Follows p t) :
    (∀ s x, (s, x) ∈ t.model.cache.entries.entries →
      x.state = p.foldAll none (Log.upTo t.log s x.position) ∧
        ∃ e ∈ t.log, e.stream = s ∧ e.position = x.position) ∧
    (∀ e ∈ t.log, p.concerns e.stream = true →
      Position.reached t.model.cache.highWater e.position = true →
        ∃ x, t.model.cache.entries.find? e.stream = some x ∧ e.position ≤ x.position) := by
  refine ⟨fun s x hx => ?_, fun e he hs hreached => ?_⟩
  · obtain ⟨hstate, hposition⟩ := ht.exact s x hx
    exact ⟨hstate, hposition⟩
  · exact ht.covers.covered e he ((ht.mark _).mp hreached) hs

variable [DecidableEq S]

theorem calm_step {m : Move A S} (hm : m.Undisturbed) (h : t.step m = some t')
    (hcalm : ∀ e failure, t.holder ≠ .applying e (.error failure)) (e : Event A)
    (failure : ReadFailure) : t'.holder ≠ .applying e (.error failure) := by
  intro hholder
  cases m with
  | deliver fault =>
    cases hm
    simp only [step] at h
    split at h
    · split at h <;> cases h <;> cases hholder
    · cases h
  | page limit fault =>
    simp only [step] at h
    split at h
    · split at h
      · cases h
        simp only [loadedTo] at hholder
        split at hholder <;> cases hholder
      · cases h
    · cases h
  | _ =>
    simp only [step] at h
    (repeat' split at h) <;> cases h <;> first | exact hcalm e failure hholder | cases hholder

theorem Sound.fate (ht : Sound p t) {e : Event A} (he : t.log[t.applied]? = some e)
    (earlier : Page A) :
    t.model.cache.Fate p e earlier (t.finish e earlier).model.cache.entries := by
  have hfate := Cache.apply_fate (p := p) (ht.unreached he) earlier
  rw [← ht.projector, ← ReadModel.cache_apply, ht.projector] at hfate
  exact hfate

theorem Follows.step {m : Move A S} (ht : Follows p t) (hm : m.Undisturbed)
    (h : t.step m = some t') (hq : p.IgnoresOutcomes t'.log) : Follows p t' := by
  have hsound := ht.toSound.step hm.readsAll h
  suffices t'.model.cache.entries.Exact p t'.log ∧
      t'.model.cache.entries.Covers p t'.log t'.applied from
    ⟨hsound, calm_step hm h ht.calm, this.1, this.2⟩
  cases step_written h with
  | nothing hmodel happlied =>
    obtain ⟨batch, hbatch⟩ := log_grows h
    have hnumbered := hsound.numbered
    rw [← hbatch] at hnumbered
    rw [hmodel, happlied, ← hbatch]
    exact ⟨ht.exact.append hnumbered, ht.covers.append ht.bounded hnumbered⟩
  | event e earlier hevent ht' =>
    obtain ⟨he, hread⟩ := ht.next hevent
    have hfate := ht.fate he earlier
    rw [ht'] at hq ⊢
    refine ⟨ht.exact.applied ht.numbered he hfate (fun held => ht.covers.beyond)
      (fun hs hf _ => ht.covers.early_eq_nil ht.numbered hs hf) (fun hx => (hread hx).2), ?_⟩
    refine ht.covers.applied ht.numbered (hq e (List.mem_of_getElem? he)) he hfate
      fun hx failure hfail => ?_
    rw [hfail] at hread
    exact ht.calm e failure (hread hx).1
  | entry i s x hkeep hi hmodel happlied hlog =>
    rw [hmodel, happlied, hlog]
    exact ⟨ht.exact.keep (ht.lookup hi).2, ht.covers.keep s x⟩
  | load folded order hholder hperm hmodel happlied hlog =>
    have hfolded := ht.holder
    rw [hholder] at hfolded
    obtain ⟨n, -, hn, hfolded⟩ := hfolded
    rw [hmodel, happlied, hlog]
    exact ⟨ht.exact.keepLoaded fun s x hx =>
      (hfolded.exact ht.numbered hn (hperm.mem_iff.mp hx)).1, ht.covers.keepLoaded order⟩
  | dropped hinvalidate =>
    rw [hinvalidate] at hm
    exact hm.elim

theorem Follows.run {ms : List (Move A S)} (ht : Follows p t) (hms : ∀ m ∈ ms, m.Undisturbed)
    (h : t.run ms = some t') (hq : p.IgnoresOutcomes t'.log) : Follows p t' := by
  -- the log only grows, so the outcomes were ignored before as well
  suffices p.IgnoresOutcomes t'.log → Follows p t' from this hq
  refine runMoves_induction (P := fun u => p.IgnoresOutcomes u.log → Follows p u)
    (fun _ => ht) (fun {pre m u v} hpre _ hstep hu hq => ?_) h
  have hm := hms m (hpre.subset (by simp))
  exact (hu (hq.of_prefix (log_grows hstep))).step hm hstep hq

/-- A run in which no read fails and the entries are not dropped keeps a read model without a
capacity at the log: in every state that it comes to, whatever the order of its moves, every entry
is the fold of its stream up to one of the stream's events, and every stream that concerns the
projector has an entry at or beyond each of its events up to the high water. -/
theorem entries_follow_log {log : List (Event A)} (hlog : Log.Numbered log) {ms : List (Move A S)}
    (hms : ∀ m ∈ ms, m.Undisturbed) (h : (start p .unbounded log).run ms = some t)
    (hq : p.IgnoresOutcomes t.log) :
    (∀ s x, (s, x) ∈ t.model.cache.entries.entries →
      x.state = p.foldAll none (Log.upTo t.log s x.position) ∧
        ∃ e ∈ t.log, e.stream = s ∧ e.position = x.position) ∧
    (∀ e ∈ t.log, p.concerns e.stream = true →
      Position.reached t.model.cache.highWater e.position = true →
        ∃ x, t.model.cache.entries.find? e.stream = some x ∧ e.position ≤ x.position) := by
  have hfollows : Follows p t := (follows_start hlog).run hms h hq
  exact hfollows.entries

/-- A lookup reads, two events are applied, a load reads on, and the lookup keeps what it read. -/
def lateLookup : List (Move Notes.Fact Int64) :=
  [.ask ⟨"Topic", "a"⟩, .read 0 none, .append [Notes.noted 3 1], .deliver none, .settle, .digest 0,
    .load, .page 1 none, .append [Notes.noted 4 2], .page 5 none, .page 5 none,
    .keepAll [(⟨"Topic", "a"⟩, ⟨some 9, .ofNat 2⟩)], .deliver none, .keep 0, .deliver none]

theorem late_lookup_follows_log :
    ∃ t, (start Notes.projector .unbounded [Notes.noted 2 0]).run lateLookup = some t ∧
      t.model.cache.entries.entries = [(⟨"Topic", "a"⟩, ⟨some 9, .ofNat 2⟩)] ∧
      (∀ s x, (s, x) ∈ t.model.cache.entries.entries →
        x.state = Notes.projector.foldAll none (Log.upTo t.log s x.position) ∧
          ∃ e ∈ t.log, e.stream = s ∧ e.position = x.position) ∧
      (∀ e ∈ t.log, (Notes.projector (A := Notes.Fact)).concerns e.stream = true →
        Position.reached t.model.cache.highWater e.position = true →
          ∃ x, t.model.cache.entries.find? e.stream = some x ∧ e.position ≤ x.position) := by
  have hrun : (start Notes.projector .unbounded [Notes.noted 2 0]).run lateLookup = some _ := rfl
  refine ⟨_, hrun, by decide, entries_follow_log (by decide) ?_ hrun
    (Projector.ignoresOutcomes_of_facts (by decide))⟩
  simp [lateLookup, Move.Undisturbed]

end Traffic
end Chronicle
