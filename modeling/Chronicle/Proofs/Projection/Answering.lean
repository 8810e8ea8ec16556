import Chronicle.Proofs.Projection.Following

/-!
# Chronicle.Proofs.Projection.Answering

What lookups answer while live events are applied. A lookup has three ways to an answer: the stream
is known when it begins, it has read the stream and found it empty, or it keeps an entry and answers
with what the cache holds then (`step_answers`).

The first and the last look at the cache in the moment that they answer, and miss no event that was
applied by then. The second does not look again: an event of the stream that was applied after the
read is missing from its answer, and nothing else ever is (`answers_unless_found_empty`).
-/

namespace Chronicle

variable {A S : Type} [Vocabulary A] {p : Projector A S} {log : List (Event A)} {s : StreamId}

/-- The state is the fold of a stream up to a point of the log, at or beyond its first `n` events. -/
def Projector.FoldsTo (p : Projector A S) (log : List (Event A)) (n : Nat) (s : StreamId)
    (state : Option S) : Prop :=
  ∃ k, n ≤ k ∧ k ≤ log.length ∧ state = p.foldAll none (Log.early log s k)

theorem Projector.FoldsTo.append {n : Nat} {state : Option S} (h : p.FoldsTo log n s state)
    (more : List (Event A)) : p.FoldsTo (log ++ more) n s state := by
  obtain ⟨k, hn, hk, rfl⟩ := h
  refine ⟨k, hn, ?_, by rw [Log.early_append hk]⟩
  rw [List.length_append]
  omega

theorem Projector.FoldsTo.of_le {m n : Nat} {state : Option S} (h : p.FoldsTo log n s state)
    (hmn : m ≤ n) : p.FoldsTo log m s state := by
  obtain ⟨k, hn, hk, rfl⟩ := h
  exact ⟨k, Nat.le_trans hmn hn, hk, rfl⟩

theorem Projector.foldsTo_none {n : Nat} (hn : n ≤ log.length) (h : Log.early log s n = []) :
    p.FoldsTo log n s none :=
  ⟨n, Nat.le_refl n, hn, by rw [h]; rfl⟩

theorem Entry.Exact.foldsTo {x : Entry S} (hx : x.Exact p log s) (h : Log.Numbered log) {n : Nat}
    (hn : n ≤ log.length) (hbeyond : AtOrBeyond log s n x.position) :
    p.FoldsTo log n s x.state := by
  by_cases hlt : x.position.val < n
  · exact ⟨n, Nat.le_refl n, hn, hx.state_eq h hlt hbeyond⟩
  · obtain ⟨e, he, -, hpos⟩ := hx.position
    have hbound := h.position_lt he
    rw [hpos] at hbound
    exact ⟨x.position.val + 1, by omega, hbound, by rw [hx.state, Log.upTo_eq_early h]⟩

/-- An element that an update puts into a list is the one put there. -/
theorem getElem?_set_new {α : Type} {xs : List α} {i j : Nat} {x y : α}
    (h : (xs.set i x)[j]? = some y) (hnew : xs[j]? ≠ some y) : y = x := by
  rw [List.getElem?_set] at h
  split at h
  · split at h
    · exact (Option.some.inj h).symm
    · cases h
  · exact absurd h hnew

namespace Traffic

variable {t t' : Traffic A S} {m : Move A S} {answer : Except RuntimeError (Option S)}

/-! ## What the cache holds -/

theorem Follows.foldsTo_entry (ht : Follows p t) (hs : p.concerns s = true) {x : Entry S}
    (hf : t.model.cache.entries.find? s = some x) : p.FoldsTo t.log t.applied s x.state :=
  (ht.exact s x (Collection.mem_of_find? hf)).foldsTo ht.numbered ht.bounded
    (ht.covers.beyond hs hf)

/-- What is known without a read misses nothing that was applied. -/
theorem Follows.foldsTo_known (ht : Follows p t) (hs : p.concerns s = true) {state : Option S}
    (hk : t.model.known? s = some state) : p.FoldsTo t.log t.applied s state := by
  unfold ReadModel.known? Cache.known? at hk
  cases hf : t.model.cache.entries.find? s with
  | some x =>
    rw [hf] at hk
    cases hk
    exact ht.foldsTo_entry hs hf
  | none =>
    simp only [hf] at hk
    split at hk
    · cases hk
      exact Projector.foldsTo_none ht.bounded (ht.covers.early_eq_nil ht.numbered hs hf)
    · cases hk

/-- What a lookup that keeps its entry answers with misses nothing that was applied. -/
theorem Follows.foldsTo_keep (ht : Follows p t) (hs : p.concerns s = true) {x : Entry S}
    (hx : x.Exact p t.log s) : p.FoldsTo t.log t.applied s (t.model.keep s x).2 := by
  obtain ⟨y, hy, -⟩ := Cache.find?_keep_self (s := s) (e := x) ht.covers.capacity
  have hanswer : (t.model.keep s x).2 = y.state := by
    show (t.model.cache.keep s x).answer s x = _
    rw [Cache.answer, hy]
  rw [hanswer]
  exact (ht.exact.keep hx s y (Collection.mem_of_find? hy)).foldsTo ht.numbered ht.bounded
    ((ht.covers.keep s x).beyond hs hy)

/-! ## How lookups come to their answers -/

/-- The state is the fold of a stream's events up to some position, and no event of the stream up to
the high water is beyond it. -/
def Fresh (p : Projector A S) (t : Traffic A S) (s : StreamId) (state : Option S) : Prop :=
  ∃ k ≤ t.log.length, state = p.foldAll none (Log.early t.log s k) ∧
    ∀ e ∈ t.log, e.stream = s → Position.reached t.model.cache.highWater e.position = true →
      e.position.val < k

theorem Sound.fresh (ht : Sound p t) {state : Option S} (h : p.FoldsTo t.log t.applied s state) :
    Fresh p t s state := by
  obtain ⟨k, hn, hk, hstate⟩ := h
  refine ⟨k, hk, hstate, fun e he hs hreached => ?_⟩
  exact Nat.lt_of_lt_of_le ((ht.mark _).mp hreached) hn

/-- An empty stream is answered as it is, as long as none of its events was applied. -/
theorem Sound.fresh_none (ht : Sound p t)
    (h : ∀ e ∈ t.log, e.stream = s → Position.reached t.model.cache.highWater e.position = false) :
    Fresh p t s none := by
  refine ht.fresh (Projector.foldsTo_none ht.bounded (List.eq_nil_iff_forall_not_mem.mpr ?_))
  intro e he
  obtain ⟨hmem, hs, hlt⟩ := (Log.mem_early ht.numbered).mp he
  have hreached := (ht.mark _).mpr hlt
  rw [h e hmem hs] at hreached
  cases hreached

/-- Between the two states a lookup of the stream comes to its answer. -/
def Answers (t t' : Traffic A S) (s : StreamId) (answer : Except RuntimeError (Option S)) : Prop :=
  ∃ i : Nat, t'.lookups[i]? = some (s, LookupPhase.answered answer) ∧
    t.lookups[i]? ≠ some (s, LookupPhase.answered answer)

/-- The ways in which a move has a lookup answer. -/
inductive Answering (t : Traffic A S) (m : Move A S) (t' : Traffic A S) (s : StreamId) :
    Except RuntimeError (Option S) → Prop where
  /-- The stream is known when the lookup begins. -/
  | known (state : Option S) : m = .ask s → t.model.known? s = some state →
      Answering t m t' s (.ok state)
  /-- What was read makes no entry. -/
  | digested (i : Nat) (page : Page A) (answer : Except RuntimeError (Option S)) : m = .digest i →
      t.lookups[i]? = some (s, .holding page) →
      Traffic.digested t.model.projector page = .answered answer → Answering t m t' s answer
  /-- The lookup keeps its entry. -/
  | kept (i : Nat) (x : Entry S) : m = .keep i → t.lookups[i]? = some (s, .locking x) →
      t'.model = (t.model.keep s x).1 → Answering t m t' s (.ok (t.model.keep s x).2)

omit [Vocabulary A] in
/-- A read ends in an answer at once if it found nothing, or failed. -/
theorem digested_answered {page : Page A} (h : digested p page = .answered answer) :
    (page = .ok [] ∧ answer = .ok none) ∨ ∃ failure, page = .error failure := by
  cases page with
  | error failure => exact .inr ⟨failure, rfl⟩
  | ok events =>
    simp only [digested, ReadModel.backfilled] at h
    cases hx : p.entry? events with
    | some x => rw [hx] at h; cases h
    | none =>
      rw [hx] at h
      cases h
      exact .inl ⟨by rw [Projector.entry?_eq_none.mp hx], rfl⟩

variable [DecidableEq S]

theorem step_answers (h : t.step m = some t') (hans : t.Answers t' s answer) :
    Answering t m t' s answer := by
  obtain ⟨j, hj, hnew⟩ := hans
  cases m with
  | ask s' =>
    cases h
    have hlast : j = t.lookups.length := by
      have hlt := (List.getElem?_eq_some_iff.mp hj).1
      rw [List.length_append, List.length_singleton] at hlt
      by_contra hne
      rw [List.getElem?_append_left (by omega)] at hj
      exact hnew hj
    subst hlast
    rw [List.getElem?_concat_length] at hj
    obtain ⟨rfl, hasked⟩ := Prod.mk.inj (Option.some.inj hj)
    unfold asked at hasked
    split at hasked
    · rename_i state hk
      cases hasked
      exact .known state rfl hk
    · cases hasked
  | read i fault =>
    simp only [step] at h
    split at h
    · cases h
      have heq := getElem?_set_new hj hnew
      cases heq
    · cases h
  | digest i =>
    simp only [step] at h
    split at h
    · rename_i s' page hi
      cases h
      have heq := getElem?_set_new hj hnew
      obtain ⟨rfl, hdigested⟩ := Prod.mk.inj heq
      exact .digested i page answer rfl hi hdigested.symm
    · cases h
  | keep i =>
    simp only [step] at h
    split at h
    · rename_i s' x _ hi
      cases h
      have heq := getElem?_set_new hj hnew
      cases heq
      exact .kept i x rfl hi rfl
    · cases h
  | _ =>
    simp only [step] at h
    (repeat' split at h) <;> cases h <;> exact absurd hj hnew

/-! ## Answers in undisturbed runs -/

/-- No read of a lookup failed. -/
def Unfailing (t : Traffic A S) : Prop :=
  ∀ s failure, (s, LookupPhase.holding (.error failure)) ∉ t.lookups

theorem Unfailing.step (ht : t.Unfailing) (hm : m.Undisturbed) (h : t.step m = some t') :
    t'.Unfailing := by
  intro s failure hmem
  cases m with
  | ask s' =>
    cases h
    rcases List.mem_append.mp hmem with hmem | hmem
    · exact ht s failure hmem
    · rw [List.mem_singleton, Prod.mk.injEq] at hmem
      unfold asked at hmem
      split at hmem <;> cases hmem.2
  | read i fault =>
    cases hm
    simp only [Traffic.step] at h
    split at h
    · cases h
      rcases List.mem_or_eq_of_mem_set hmem with hmem | heq
      · exact ht s failure hmem
      · cases heq
    · cases h
  | digest i =>
    simp only [Traffic.step] at h
    split at h
    · cases h
      rcases List.mem_or_eq_of_mem_set hmem with hmem | heq
      · exact ht s failure hmem
      · unfold digested at heq
        split at heq <;> cases heq
    · cases h
  | keep i =>
    simp only [Traffic.step] at h
    split at h
    · cases h
      rcases List.mem_or_eq_of_mem_set hmem with hmem | heq
      · exact ht s failure hmem
      · cases heq
    · cases h
  | _ =>
    simp only [Traffic.step] at h
    (repeat' split at h) <;> cases h <;> exact ht s failure hmem

theorem Unfailing.run {ms : List (Move A S)} (ht : t.Unfailing) (hms : ∀ m ∈ ms, m.Undisturbed)
    (h : t.run ms = some t') : t'.Unfailing :=
  runMoves_induction ht (fun hpre _ hstep hu => hu.step (hms _ (hpre.subset (by simp))) hstep) h

/-- A lookup has found its stream empty, and before it answers an event of the stream is applied. -/
def FoundEmpty (t : Traffic A S) (m : Move A S) (s : StreamId) : Prop :=
  ∃ i, m = .digest i ∧ t.lookups[i]? = some (s, .holding (.ok [])) ∧
    ∃ e ∈ t.log, e.stream = s ∧ Position.reached t.model.cache.highWater e.position = true

/-- In a run in which no read fails and the entries are not dropped, a lookup answers with the fold
of its stream's events up to a position at or beyond every event of the stream that was applied
until then, unless it has found the stream empty and an event of the stream was applied since. In
that case alone it answers without looking at the cache again, and that there is no projection. -/
theorem answers_unless_found_empty {log : List (Event A)} (hlog : Log.Numbered log)
    {ms : List (Move A S)} (hms : ∀ m ∈ ms, m.Undisturbed)
    (h : (start p .unbounded log).run ms = some t) (hm : m.Undisturbed) (hstep : t.step m = some t')
    (hq : p.IgnoresOutcomes t'.log) (hs : p.concerns s = true) (hans : t.Answers t' s answer) :
    ∃ state, answer = .ok state ∧ (¬ t.FoundEmpty m s → Fresh p t' s state) ∧
      (t.FoundEmpty m s → state = none) := by
  have hbefore : Follows p t :=
    (follows_start hlog).run hms h (hq.of_prefix (log_grows hstep))
  have hafter : Follows p t' := hbefore.step hm hstep hq
  have hunfailing : t.Unfailing := Unfailing.run (fun _ _ hmem => by cases hmem) hms h
  cases step_answers hstep hans with
  | known state hask hk =>
    subst hask
    cases hstep
    refine ⟨state, rfl, fun _ => hafter.fresh (hbefore.foldsTo_known hs hk), ?_⟩
    rintro ⟨i, hi, -⟩
    cases hi
  | digested i page _ hdigest hi hd =>
    obtain ⟨rfl, rfl⟩ | ⟨failure, rfl⟩ := digested_answered hd
    · refine ⟨none, rfl, fun hnot => hafter.fresh_none fun e he hes => ?_, fun _ => rfl⟩
      have hsame : t'.log = t.log ∧ t'.model = t.model := by
        subst hdigest
        simp only [step, hi] at hstep
        cases hstep
        exact ⟨rfl, rfl⟩
      rw [hsame.1] at he
      rw [hsame.2, Bool.eq_false_iff]
      exact fun hreached => hnot ⟨i, hdigest, hi, e, he, hes, hreached⟩
    · exact absurd (List.mem_of_getElem? hi) (hunfailing s failure)
  | kept i x hkeep hi hmodel =>
    obtain ⟨y, hy, -⟩ := Cache.find?_keep_self (s := s) (e := x) hbefore.covers.capacity
    have hheld : t'.model.cache.entries.find? s = some y := by
      rw [hmodel]
      exact hy
    refine ⟨_, rfl, fun _ => hafter.fresh ?_, ?_⟩
    · have hanswer : (t.model.keep s x).2 = y.state := by
        show (t.model.cache.keep s x).answer s x = _
        rw [Cache.answer, hy]
      rw [hanswer]
      exact hafter.foldsTo_entry hs hheld
    · rintro ⟨i', hi', -⟩
      rw [hkeep] at hi'
      cases hi'

/-- A lookup reads one event of its stream, and while it waits a second one is appended and both
are applied. -/
def outrunLookup : List (Move Notes.Fact Int64) :=
  [.ask ⟨"Topic", "a"⟩, .read 0 none, .append [Notes.noted 3 1], .deliver none, .settle,
    .deliver none, .digest 0]

/-- The lookup answers with the sum of both. -/
theorem outrun_lookup_answers :
    ∃ t t', (start Notes.projector .unbounded [Notes.noted 2 0]).run outrunLookup = some t ∧
      t.step (.keep 0) = some t' ∧ t.Answers t' ⟨"Topic", "a"⟩ (.ok (some 5)) ∧
      Fresh Notes.projector t' ⟨"Topic", "a"⟩ (some 5) := by
  have hrun : (start Notes.projector .unbounded [Notes.noted 2 0]).run outrunLookup = some _ := rfl
  refine ⟨_, _, hrun, rfl, ⟨0, rfl, fun h => by cases h⟩, ?_⟩
  obtain ⟨state, hstate, hfresh, -⟩ := answers_unless_found_empty (m := .keep 0) (by decide)
    (by simp [outrunLookup, Move.Undisturbed]) hrun trivial rfl
    (Projector.ignoresOutcomes_of_facts (by decide)) (by decide)
    ⟨0, rfl, fun h => by cases h⟩
  cases hstate
  refine hfresh ?_
  rintro ⟨i, hi, -⟩
  cases hi

/-- A lookup reads its stream while it is empty, and an event of the stream is appended and
applied. -/
def emptyLookup : List (Move Notes.Fact Int64) :=
  [.ask ⟨"Topic", "a"⟩, .read 0 none, .append [Notes.noted 2 0], .deliver none, .settle]

/-- The lookup answers that there is no projection, although the cache holds one by then. -/
theorem empty_lookup_misses_applied_event :
    (∀ m ∈ emptyLookup ++ [.digest 0], m.Undisturbed) ∧
    Notes.projector (A := Notes.Fact).concerns ⟨"Topic", "a"⟩ = true ∧
    ∃ t t', (start Notes.projector .unbounded []).run emptyLookup = some t ∧
      t.step (.digest 0) = some t' ∧ Notes.projector.IgnoresOutcomes t'.log ∧
      t'.model.cache.entries.entries = [(⟨"Topic", "a"⟩, ⟨some 2, .ofNat 0⟩)] ∧
      t.Answers t' ⟨"Topic", "a"⟩ (.ok none) ∧ ¬ Fresh Notes.projector t' ⟨"Topic", "a"⟩ none := by
  refine ⟨by simp [emptyLookup, Move.Undisturbed], by decide, _, _, rfl, rfl,
    Projector.ignoresOutcomes_of_facts (by decide), by decide, ⟨0, rfl, fun h => by cases h⟩, ?_⟩
  rintro ⟨k, hk, hstate, hreached⟩
  have hpos : 0 < k := hreached (Notes.noted 2 0) (by decide) rfl (by decide)
  have hone : k = 1 := Nat.le_antisymm hk hpos
  subst hone
  exact absurd hstate (by decide)

end Traffic
end Chronicle
