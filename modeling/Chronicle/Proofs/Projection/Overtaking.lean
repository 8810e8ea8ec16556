import Chronicle.Proofs.Projection.Following

/-!
# Chronicle.Proofs.Projection.Overtaking

Lookups that live events overtake. A lookup reads its stream, and while it waits a live event of the
stream is applied. If the stream's entry is gone by then (it was dropped, or evicted, or the live
event could not read what it needed), nothing keeps the lookup from storing what it read. Its entry
is behind the high water, and the next live event of the stream is folded onto a state that misses
an event.

Nothing else puts an entry behind: the entries are abreast of the live events in every state of a
run exactly if no lookup of the run keeps its entry after such an event (`never_behind_iff`).
-/

namespace Chronicle

/-! ## Entries abreast of the live events -/

namespace Collection

variable {S : Type} {c : Collection S} {s t : StreamId} {e x : Entry S}

def Distinct (c : Collection S) : Prop := c.entries.Pairwise fun a b => a.1 ≠ b.1

theorem Distinct.find? (hc : c.Distinct) (h : (s, x) ∈ c.entries) : c.find? s = some x :=
  lookup_of_mem hc h

theorem Distinct.insert (hc : c.Distinct) : (c.insert s e).Distinct := by
  have hrewritten : ((c.entries.filter fun held => held.1 != s) ++ [(s, e)]).Pairwise
      fun a b => a.1 ≠ b.1 := by
    refine List.pairwise_append.mpr ⟨hc.sublist List.filter_sublist, List.pairwise_singleton _ _, ?_⟩
    intro a ha b hb
    rw [List.mem_singleton] at hb
    rw [hb]
    simpa using (List.mem_filter.mp ha).2
  unfold Distinct
  rw [Collection.insert]
  cases c.capacity with
  | none => exact hrewritten
  | some n => exact hrewritten.sublist (List.drop_sublist _ _)

end Collection

/-- No entry is behind the first `n` events of its stream. -/
structure Collection.Abreast {A S : Type} [Vocabulary A] (p : Projector A S) (log : List (Event A))
    (n : Nat) (c : Collection S) : Prop where
  distinct : c.Distinct
  concerned : ∀ s x, (s, x) ∈ c.entries → p.concerns s = true
  beyond : ∀ s x, (s, x) ∈ c.entries → AtOrBeyond log s n x.position

namespace Collection.Abreast

variable {A S : Type} [Vocabulary A] {p : Projector A S} {log : List (Event A)} {n : Nat}
  {c : Collection S}

theorem of_entries_eq_nil (h : c.entries = []) : Abreast p log n c where
  distinct := by
    rw [Distinct, h]
    exact List.Pairwise.nil
  concerned s x hx := by
    rw [h] at hx
    cases hx
  beyond s x hx := by
    rw [h] at hx
    cases hx

theorem append {batch : List (Event A)} (hc : Abreast p log n c) (hn : n ≤ log.length)
    (h : Log.Numbered (log ++ batch)) : Abreast p (log ++ batch) n c where
  distinct := hc.distinct
  concerned := hc.concerned
  beyond s x hx e he hs hlt := hc.beyond s x hx e (h.mem_of_lt he (by omega)) hs hlt

theorem pass (hc : Abreast p log n c) (h : Log.Numbered log) {e : Event A} (he : log[n]? = some e)
    (hown : ∀ x, (e.stream, x) ∈ c.entries → e.position ≤ x.position) :
    Abreast p log (n + 1) c where
  distinct := hc.distinct
  concerned := hc.concerned
  beyond s x hx e' he' hs hlt := by
    by_cases heq : e'.position.val = n
    · have hsame := h.unique he' (List.mem_of_getElem? he)
        (Position.ext (heq.trans (h.position he).symm))
      subst hsame hs
      exact hown x hx
    · exact hc.beyond s x hx e' he' hs (by omega)

theorem insert (hc : Abreast p log n c) {s : StreamId} {x : Entry S} (hs : p.concerns s = true)
    (hx : AtOrBeyond log s n x.position) : Abreast p log n (c.insert s x) where
  distinct := hc.distinct.insert
  concerned s' y hy := by
    rcases mem_insert hy with ⟨_, hmem⟩ | ⟨rfl, rfl⟩
    · exact hc.concerned s' y hmem
    · exact hs
  beyond s' y hy := by
    rcases mem_insert hy with ⟨_, hmem⟩ | ⟨rfl, rfl⟩
    · exact hc.beyond s' y hmem
    · exact hx

theorem insert_next (hc : Abreast p log n c) (h : Log.Numbered log) {e : Event A}
    (he : log[n]? = some e) (hs : p.concerns e.stream = true) (state : Option S) :
    Abreast p log (n + 1) (c.insert e.stream ⟨state, e.position⟩) where
  distinct := hc.distinct.insert
  concerned s y hy := by
    rcases mem_insert hy with ⟨_, hmem⟩ | ⟨rfl, rfl⟩
    · exact hc.concerned s y hmem
    · exact hs
  beyond s y hy e' he' hs' hlt := by
    have hpos := h.position he
    rcases mem_insert hy with ⟨hne, hmem⟩ | ⟨rfl, rfl⟩
    · refine hc.beyond s y hmem e' he' hs'
        (Nat.lt_of_le_of_ne (Nat.lt_succ_iff.mp hlt) fun heq => hne ?_)
      rw [← hs', h.unique he' (List.mem_of_getElem? he) (Position.ext (heq.trans hpos.symm))]
    · show e'.position.val ≤ e.position.val
      omega

/-- Applying the next event, whatever its read came to. -/
theorem applied {cache : Cache S} {e : Event A} {earlier : Page A} {c' : Collection S}
    (hc : Abreast p log n cache.entries) (h : Log.Numbered log)
    (hq : ∀ o, e.payload.outcome? = some o → p.concerns e.stream = false)
    (he : log[n]? = some e) (hfate : cache.Fate p e earlier c') : Abreast p log (n + 1) c' := by
  cases hfate with
  | outcome o ho =>
    refine hc.pass h he fun x hx => ?_
    have hs := hc.concerned _ x hx
    rw [hq o ho] at hs
    cases hs
  | foreign hf =>
    refine hc.pass h he fun x hx => ?_
    have hs := hc.concerned _ x hx
    rw [hf] at hs
    cases hs
  | known held hf hle =>
    refine hc.pass h he fun x hx => ?_
    rw [hc.distinct.find? hx] at hf
    cases hf
    exact hle
  | unread failure _ hf _ _ => exact hc.pass h he fun x hx => absurd hx (not_mem_of_find? hf)
  | onto held hs _ _ => exact hc.insert_next h he hs _
  | fresh hs _ _ => exact hc.insert_next h he hs _
  | backfilled events hs _ _ _ => exact hc.insert_next h he hs _

/-- A lookup's entry is not behind if the stream has an entry: only a newer one takes its place. -/
theorem keep {cache : Cache S} (hc : Abreast p log n cache.entries) {s : StreamId} {x : Entry S}
    (hs : p.concerns s = true)
    (hx : cache.entries.find? s = none → AtOrBeyond log s n x.position) :
    Abreast p log n (cache.keep s x).entries := by
  rcases Cache.keep_cases cache s x with ⟨hk, hnew⟩ | ⟨hk, _⟩
  · rw [hk]
    refine hc.insert hs ?_
    cases hf : cache.entries.find? s with
    | none => exact hx hf
    | some held =>
      intro e he hes hlt
      exact Nat.le_trans (hc.beyond s held (mem_of_find? hf) e he hes hlt)
        (Nat.le_of_lt (hnew held hf))
  · rw [hk]
    exact hc

theorem keepLoaded {cache : Cache S} (hc : Abreast p log n cache.entries)
    {folded : List (StreamId × Entry S)} (hfolded : ∀ s x, (s, x) ∈ folded →
      p.concerns s = true ∧ AtOrBeyond log s n x.position) :
    Abreast p log n (cache.keepLoaded folded).entries := by
  show Abreast p log n (folded.foldl (fun c entry => c.keep entry.1 entry.2) cache).entries
  induction folded generalizing cache with
  | nil => exact hc
  | cons entry rest ih =>
    obtain ⟨hs, hx⟩ := hfolded entry.1 entry.2 List.mem_cons_self
    exact ih (hc.keep hs fun _ => hx) fun s x hmem => hfolded s x (List.mem_cons_of_mem _ hmem)

end Collection.Abreast

/-! ## Lookups that are overtaken -/

namespace Traffic

variable {A S : Type} [Vocabulary A]

def NeverBehind (t : Traffic A S) : Prop :=
  ∀ s x, (s, x) ∈ t.model.cache.entries.entries → ∀ e ∈ t.log, e.stream = s →
    Position.reached t.model.cache.highWater e.position = true → e.position ≤ x.position

/-- A lookup is about to keep an entry for a stream that has none, and a later event of the stream
was applied already. -/
def Overtaken (t : Traffic A S) (m : Move A S) : Prop :=
  ∃ i s x, m = .keep i ∧ t.lookups[i]? = some (s, .locking x) ∧
    t.model.cache.entries.find? s = none ∧
    ∃ e ∈ t.log, e.stream = s ∧ Position.reached t.model.cache.highWater e.position = true ∧
      x.position < e.position

/-- The entries are abreast of the events that were applied, and can be written. -/
structure Abreast (p : Projector A S) (t : Traffic A S) : Prop extends Sound p t where
  roomy : t.model.cache.entries.Roomy
  abreast : t.model.cache.entries.Abreast p t.log t.applied

variable {p : Projector A S} {t t' : Traffic A S}

theorem abreast_start {c : Collection S} (hc : c.Roomy) (hnil : c.entries = [])
    {log : List (Event A)} (h : Log.Numbered log) : Abreast p (start p c log) where
  toSound := sound_start h
  roomy := hc
  abreast := .of_entries_eq_nil hnil

theorem Abreast.neverBehind (ht : Abreast p t) : NeverBehind t :=
  fun s x hx e he hs hreached => ht.abreast.beyond s x hx e he hs ((ht.mark _).mp hreached)

variable [DecidableEq S]

theorem roomy_step {m : Move A S} (ht : t.model.cache.entries.Roomy) (h : t.step m = some t') :
    t'.model.cache.entries.Roomy := by
  have hcapacity : t'.model.cache.entries.capacity = t.model.cache.entries.capacity := by
    cases step_written h with
    | nothing hmodel _ => rw [hmodel]
    | event e earlier _ ht' =>
      rw [ht']
      show (t.model.apply e earlier).1.cache.entries.capacity = _
      rw [ReadModel.cache_apply, Cache.capacity_apply]
    | entry i s x _ _ hmodel _ _ =>
      rw [hmodel]
      exact Cache.capacity_keep
    | load folded order _ _ hmodel _ _ =>
      rw [hmodel]
      exact Cache.capacity_keepLoaded
    | dropped _ hmodel _ _ => rw [hmodel]; rfl
  intro n hn
  rw [hcapacity] at hn
  exact ht n hn

/-- Only the late entry of a lookup puts an entry behind. -/
theorem Abreast.step {m : Move A S} (ht : Abreast p t) (hm : m.ReadsAll) (h : t.step m = some t')
    (hq : p.IgnoresOutcomes t'.log) (hno : ¬ t.Overtaken m) : Abreast p t' := by
  have hsound := ht.toSound.step hm h
  suffices t'.model.cache.entries.Abreast p t'.log t'.applied from
    ⟨hsound, roomy_step ht.roomy h, this⟩
  cases step_written h with
  | nothing hmodel happlied =>
    obtain ⟨batch, hbatch⟩ := log_grows h
    have hnumbered := hsound.numbered
    rw [← hbatch] at hnumbered
    rw [hmodel, happlied, ← hbatch]
    exact ht.abreast.append ht.bounded hnumbered
  | event e earlier hevent ht' =>
    obtain ⟨he, -⟩ := ht.next hevent
    have hfate := ht.fate he earlier
    rw [ht'] at hq ⊢
    exact ht.abreast.applied ht.numbered (hq e (List.mem_of_getElem? he)) he hfate
  | entry i s x hkeep hi hmodel happlied hlog =>
    rw [hmodel, happlied, hlog]
    refine ht.abreast.keep (ht.lookup hi).1 fun hf e he hs hlt => ?_
    refine Nat.le_of_not_lt fun hlate => hno ?_
    exact ⟨i, s, x, hkeep, hi, hf, e, he, hs, (ht.mark _).mpr hlt, hlate⟩
  | load folded order hholder hperm hmodel happlied hlog =>
    have hfolded := ht.holder
    rw [hholder] at hfolded
    obtain ⟨n, hle, hn, hfolded⟩ := hfolded
    rw [hmodel, happlied, hlog]
    refine ht.abreast.keepLoaded fun s x hx => ?_
    have hmem := hperm.mem_iff.mp hx
    refine ⟨((hfolded s x).mp hmem).1, fun e he hs hlt => ?_⟩
    exact (hfolded.exact ht.numbered hn hmem).2 e he hs (Nat.lt_of_lt_of_le hlt hle)
  | dropped hinvalidate hmodel happlied hlog =>
    rw [hmodel, happlied, hlog]
    exact .of_entries_eq_nil rfl

theorem Overtaken.behind {m : Move A S} (hover : t.Overtaken m)
    (hroomy : t.model.cache.entries.Roomy) (h : t.step m = some t') : ¬ NeverBehind t' := by
  obtain ⟨i, s, x, rfl, hi, hf, e, he, hs, hreached, hlt⟩ := hover
  intro hnever
  simp only [step, hi] at h
  split at h
  · rename_i hholder hi'
    cases hi'
    cases h
    refine absurd (hnever s x ?_ e he hs ?_) (Nat.not_le_of_lt hlt)
    · show (s, x) ∈ (t.model.cache.keep s x).entries.entries
      rw [Cache.keep, hf]
      exact Collection.mem_insert_self hroomy
    · show Position.reached (t.model.cache.keep s x).highWater e.position = true
      rw [Cache.highWater_keep]
      exact hreached
  · cases h

/-- No lookup of the run is overtaken by the time it keeps its entry. -/
def NoneOvertaken (t : Traffic A S) (ms : List (Move A S)) : Prop :=
  ∀ pre m u, pre ++ [m] <+: ms → t.run pre = some u → ¬ u.Overtaken m

theorem Abreast.run {ms : List (Move A S)} (ht : Abreast p t) (hms : ∀ m ∈ ms, m.ReadsAll)
    (hno : t.NoneOvertaken ms) (h : t.run ms = some t') (hq : p.IgnoresOutcomes t'.log) :
    Abreast p t' := by
  refine runMoves_induction (P := fun u => p.IgnoresOutcomes u.log → Abreast p u)
    (fun _ => ht) (fun {pre m u v} hpre hu hstep habreast hq => ?_) h hq
  have hm := hms m (hpre.subset (by simp))
  exact (habreast (hq.of_prefix (log_grows hstep))).step hm hstep hq (hno pre m u hpre hu)

/-! ## What live events are folded onto -/

end Traffic

/-- A load that reached the log's end before it kept its entries covers what was applied. -/
theorem Collection.Covers.of_loaded {A S : Type} [Vocabulary A] {p : Projector A S}
    {log : List (Event A)} {n k : Nat} {cache : Cache S} {folded order : List (StreamId × Entry S)}
    (hc : cache.entries.capacity = none) (h : Log.Numbered log)
    (hfolded : Loading.Folded p (log.take k) folded) (hle : n ≤ k) (hk : k ≤ log.length)
    (hperm : order.Perm folded) : (cache.keepLoaded order).entries.Covers p log n where
  capacity := Cache.capacity_keepLoaded.trans hc
  covered e he hlt hs := by
    cases hx : p.entry? (Log.early log e.stream k) with
    | none =>
      have hearly : e ∈ Log.early log e.stream k := (Log.mem_early h).mpr ⟨he, rfl, by omega⟩
      rw [Projector.entry?_eq_none.mp hx] at hearly
      cases hearly
    | some x =>
      obtain ⟨-, -, hbeyond⟩ := entry?_early h k hk hx
      have hmem : (e.stream, x) ∈ order :=
        hperm.mem_iff.mpr ((hfolded e.stream x).mpr ⟨hs, hx⟩)
      obtain ⟨y, hy, hxy⟩ := Cache.find?_keepLoaded_mem hc hmem
      exact ⟨y, hy, Nat.le_trans (hbeyond e he rfl (by omega)) hxy⟩

namespace Traffic

variable {A S : Type} [Vocabulary A] {p : Projector A S} {t t' : Traffic A S}

/-- The entries are exact and abreast, and after everything was loaded a missing entry means that
the stream has no event yet. -/
structure Faithful (p : Projector A S) (t : Traffic A S) : Prop extends Abreast p t where
  exact : t.model.cache.entries.Exact p t.log
  whole : t.model.cache.allLoaded = true → t.model.cache.entries.Covers p t.log t.applied

theorem faithful_start {c : Collection S} (hc : c.Roomy) (hnil : c.entries = [])
    {log : List (Event A)} (h : Log.Numbered log) : Faithful p (start p c log) where
  toAbreast := abreast_start hc hnil h
  exact s x hx := by
    have : (s, x) ∈ c.entries := hx
    rw [hnil] at this
    cases this
  whole hall := by cases hall

variable [DecidableEq S]

theorem Faithful.step {m : Move A S} (ht : Faithful p t) (hm : m.ReadsAll)
    (h : t.step m = some t') (hq : p.IgnoresOutcomes t'.log) (hh : Log.Hinted t'.log)
    (hno : ¬ t.Overtaken m) : Faithful p t' := by
  have habreast := ht.toAbreast.step hm h hq hno
  suffices t'.model.cache.entries.Exact p t'.log ∧ (t'.model.cache.allLoaded = true →
      t'.model.cache.entries.Covers p t'.log t'.applied) from ⟨habreast, this.1, this.2⟩
  cases step_written h with
  | nothing hmodel happlied =>
    obtain ⟨batch, hbatch⟩ := log_grows h
    have hnumbered := habreast.numbered
    rw [← hbatch] at hnumbered
    rw [hmodel, happlied, ← hbatch]
    exact ⟨ht.exact.append hnumbered, fun hall => (ht.whole hall).append ht.bounded hnumbered⟩
  | event e earlier hevent ht' =>
    obtain ⟨he, hread⟩ := ht.next hevent
    have hfate := ht.fate he earlier
    have hall : t'.model.cache.allLoaded = t.model.cache.allLoaded := by
      rw [ht']
      show (t.model.apply e earlier).1.cache.allLoaded = _
      rw [ReadModel.cache_apply, Cache.allLoaded_apply]
    rw [hall]
    rw [ht'] at hq hh ⊢
    refine ⟨ht.exact.applied ht.numbered he hfate
      (fun held _ hf => ht.abreast.beyond _ _ (Collection.mem_of_find? hf))
      (fun hs hf hfirst => ?_) (fun hx => (hread hx).2), fun hall => ?_⟩
    · rcases hfirst with hall | hfirst
      · exact (ht.whole hall).early_eq_nil ht.numbered hs hf
      · exact hh.early_eq_nil ht.numbered he hfirst
    · refine (ht.whole hall).applied ht.numbered (hq e (List.mem_of_getElem? he)) he hfate
        fun hx => ?_
      have hspec := Cache.examine_spec t.model.cache p e
      rw [hx] at hspec
      rw [hspec.2.2] at hall
      cases hall
  | entry i s x hkeep hi hmodel happlied hlog =>
    rw [hmodel, happlied, hlog]
    refine ⟨ht.exact.keep (ht.lookup hi).2, fun hall => ?_⟩
    have hsame : (t.model.cache.keep s x).allLoaded = true := hall
    rw [Cache.allLoaded_keep] at hsame
    exact (ht.whole hsame).keep s x
  | load folded order hholder hperm hmodel happlied hlog =>
    have hfolded := ht.holder
    rw [hholder] at hfolded
    obtain ⟨n, hle, hn, hfolded⟩ := hfolded
    rw [hmodel, happlied, hlog]
    refine ⟨ht.exact.keepLoaded fun s x hx =>
      (hfolded.exact ht.numbered hn (hperm.mem_iff.mp hx)).1, fun hall => ?_⟩
    refine .of_loaded ?_ ht.numbered hfolded hle hn hperm
    have hretains : (t.model.cache.keepLoaded order).entries.retainsAll = true := hall
    unfold Collection.retainsAll at hretains
    rw [Cache.capacity_keepLoaded] at hretains
    simpa using hretains
  | dropped hinvalidate hmodel happlied hlog =>
    rw [hmodel, happlied, hlog]
    refine ⟨fun s x hx => ?_, fun hall => ?_⟩
    · cases hx
    · cases hall

theorem Faithful.run {ms : List (Move A S)} (ht : Faithful p t) (hms : ∀ m ∈ ms, m.ReadsAll)
    (hno : t.NoneOvertaken ms) (h : t.run ms = some t') (hq : p.IgnoresOutcomes t'.log)
    (hh : Log.Hinted t'.log) : Faithful p t' := by
  refine runMoves_induction
    (P := fun u => p.IgnoresOutcomes u.log → Log.Hinted u.log → Faithful p u)
    (fun _ _ => ht) (fun {pre m u v} hpre hu hstep hfaithful hq hh => ?_) h hq hh
  have hlog := log_grows hstep
  refine (hfaithful (hq.of_prefix hlog) ?_).step (hms m (hpre.subset (by simp))) hstep hq hh
    (hno pre m u hpre hu)
  exact fun e he hfirst e' he' => hh e (hlog.subset he) hfirst e' (hlog.subset he')

/-- In a run of a read model, whatever its collection, no entry ever is behind the high water exactly
if no lookup is overtaken. In such a run over a log with true hints, what the next live event is
folded onto has every earlier event of its stream. -/
theorem never_behind_iff {c : Collection S} (hc : c = .unbounded ∨ ∃ k, c = .bounded k)
    {log : List (Event A)} (hlog : Log.Numbered log) {ms : List (Move A S)}
    (hms : ∀ m ∈ ms, m.ReadsAll) (h : (start p c log).run ms = some t)
    (hq : p.IgnoresOutcomes t.log) :
    ((∀ pre u, pre <+: ms → (start p c log).run pre = some u → NeverBehind u) ↔
      (start p c log).NoneOvertaken ms) ∧
    ((start p c log).NoneOvertaken ms → Log.Hinted t.log →
      ∀ e x, t.log[t.applied]? = some e →
        t.model.cache.entries.find? e.stream = some x → x.position < e.position →
          x.state = p.foldAll none (Log.below t.log e.stream e.position)) := by
  have hroomy : c.Roomy := by
    rcases hc with rfl | ⟨k, rfl⟩
    · exact Collection.roomy_unbounded
    · exact Collection.roomy_bounded k
  have hnil : c.entries = [] := by
    rcases hc with rfl | ⟨k, rfl⟩ <;> rfl
  refine ⟨⟨fun hnever pre m u hpre hu hover => ?_, fun hno pre u hpre hu => ?_⟩,
    fun hno hh e x he hf hlt => ?_⟩
  · -- the state after the overtaken move has an entry that is behind
    obtain ⟨rest, rfl⟩ := hpre
    obtain ⟨v, hv, -⟩ := runMoves_append.mp h
    obtain ⟨u', hu', hm⟩ := runMoves_concat.mp hv
    obtain rfl : u = u' := Option.some.inj (hu.symm.trans hu')
    have hroomy' : u.model.cache.entries.Roomy :=
      runMoves_induction (P := fun u => u.model.cache.entries.Roomy) hroomy
        (fun _ _ hm ht => roomy_step ht hm) hu
    exact hover.behind hroomy' hm (hnever _ v (List.prefix_append _ _) hv)
  · obtain ⟨rest, rfl⟩ := hpre
    obtain ⟨u', hu', hrest⟩ := runMoves_append.mp h
    obtain rfl : u = u' := Option.some.inj (hu.symm.trans hu')
    refine Abreast.neverBehind ((abreast_start hroomy hnil hlog).run ?_ ?_ hu
      (hq.of_prefix (log_grows_run hrest)))
    · exact fun m hm => hms m (List.mem_append_left _ hm)
    · exact fun pre' m v hpre' => hno pre' m v (hpre'.trans (List.prefix_append _ _))
  · have ht := (faithful_start hroomy hnil hlog).run hms hno h hq hh
    have hpos := ht.numbered.position he
    have hx := Collection.mem_of_find? hf
    rw [Log.below_eq_early ht.numbered, hpos]
    refine (ht.exact _ _ hx).state_eq ht.numbered ?_ (ht.abreast.beyond _ _ hx)
    rw [← hpos]
    exact hlt

/-- A live event cannot read what it needs, and a lookup reads again. -/
def readAgain : List (Move Notes.Fact Int64) :=
  [.deliver (some (.temporary "busy")), .settle, .ask ⟨"Topic", "a"⟩, .read 0 none,
    .append [Notes.noted 3 1], .invalidate, .digest 0, .keep 0]

theorem read_again_never_behind :
    ∃ t, (start Notes.projector (.bounded 1) [Notes.noted 2 0]).run readAgain = some t ∧
      (∀ pre u, pre <+: readAgain →
        (start Notes.projector (.bounded 1) [Notes.noted 2 0]).run pre = some u → NeverBehind u) ∧
      ∀ e x, t.log[t.applied]? = some e →
        t.model.cache.entries.find? e.stream = some x → x.position < e.position →
          x.state = Notes.projector.foldAll none (Log.below t.log e.stream e.position) := by
  have hrun : (start Notes.projector (.bounded 1) [Notes.noted 2 0]).run readAgain = some _ := rfl
  have hno : (start Notes.projector (.bounded 1) [Notes.noted 2 0]).NoneOvertaken readAgain := by
    rintro pre m u hpre hu ⟨i, s, x, rfl, hi, -, e, he, -, hreached, hlt⟩
    -- the entry is kept with the last move, and has the only event that was applied
    have hsplit : pre ++ [.keep i] <+: readAgain.dropLast ++ [.keep 0] := hpre
    rcases List.prefix_concat_iff.mp hsplit with hlast | hearlier
    · obtain ⟨rfl, hkeep⟩ := List.append_inj' hlast rfl
      cases hkeep
      cases hu
      cases hi
      have hmem : e ∈ [Notes.noted 2 0, Notes.noted 3 1] := he
      simp only [List.mem_cons, List.not_mem_nil, or_false] at hmem
      rcases hmem with rfl | rfl
      · exact absurd hlt (by decide)
      · exact absurd hreached (by decide)
    · have := hearlier.subset (List.mem_append_right pre (List.mem_singleton_self _))
      simp [readAgain] at this
  obtain ⟨hiff, hfold⟩ := never_behind_iff (.inr ⟨1, rfl⟩) (by decide)
    (by simp [readAgain, Move.ReadsAll]) hrun (Projector.ignoresOutcomes_of_facts (by decide))
  exact ⟨_, hrun, hiff.mpr hno, hfold hno (by decide)⟩

/-- A lookup reads, a second event is appended, both are applied, the entries are dropped, and the
lookup keeps what it read. -/
def overtakenLookup : List (Move Notes.Fact Int64) :=
  [.ask ⟨"Topic", "a"⟩, .read 0 none, .append [Notes.noted 3 1], .deliver none, .settle,
    .deliver none, .invalidate, .digest 0, .keep 0]

/-- The entry is behind, and the third event is folded onto it: the sum is six and not nine. -/
theorem overtaken_lookup_behind :
    (∀ m ∈ overtakenLookup, m.ReadsAll) ∧
    (∃ t, (start Notes.projector .unbounded [Notes.noted 2 0]).run overtakenLookup = some t ∧
      Notes.projector.IgnoresOutcomes t.log ∧ ¬ NeverBehind t) ∧
    ∃ t, (start Notes.projector .unbounded [Notes.noted 2 0]).run
        (overtakenLookup ++ [.append [Notes.noted 4 2], .deliver none]) = some t ∧
      t.model.cache.entries.entries = [(⟨"Topic", "a"⟩, ⟨some 6, .ofNat 2⟩)] ∧
      Notes.projector.foldAll none (Log.upTo t.log ⟨"Topic", "a"⟩ (.ofNat 2)) = some 9 := by
  refine ⟨by simp [overtakenLookup, Move.ReadsAll], ⟨_, rfl, ?_, fun hnever => ?_⟩, _, rfl,
    by decide, by decide⟩
  · exact Projector.ignoresOutcomes_of_facts (by decide)
  · have hbehind :=
      hnever ⟨"Topic", "a"⟩ ⟨some 2, .ofNat 0⟩ (by decide) (Notes.noted 3 1) (by decide) rfl
        (by decide)
    exact absurd hbehind (by decide)

end Traffic
end Chronicle
