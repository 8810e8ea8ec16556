import Mathlib.Data.List.Dedup
import Mathlib.Data.List.Perm.Subperm
import Chronicle.Proofs.Projection.Sessions

/-!
# Chronicle.Proofs.Projection.Evicting

Every projection at once, from a collection that may have to drop some. A load keeps what it has
folded entry by entry and answers with what the cache holds then. Whatever was done before, no entry
is older than the log by then (`Session.Settled.answered_loaded`), but an entry that a later one has
evicted is missing from the answer. As long as the collection has room for the streams of the log
that concern the projector nothing is ever evicted, and if it has none for those with a projection
the answer is never complete (`Session.getAll_complete_with_room`).
-/

namespace Chronicle

/-! ## Room -/

namespace Collection

variable {S : Type} {c : Collection S} {s t : StreamId} {e x : Entry S} {streams : List StreamId}

def Within (c : Collection S) : Prop := ∀ n, c.capacity = some n → c.entries.length ≤ n

theorem Within.insert : (c.insert s e).Within := by
  intro n hn
  rw [capacity_insert] at hn
  rw [Collection.insert, hn]
  show (List.drop _ _).length ≤ n
  rw [List.length_drop]
  omega

/-- The entries are of these streams, each of which has room. -/
structure Fits (streams : List StreamId) (c : Collection S) : Prop where
  distinct : c.Distinct
  among : ∀ s x, (s, x) ∈ c.entries → s ∈ streams
  room : ∀ n, c.capacity = some n → streams.length ≤ n

theorem Fits.insert (hc : c.Fits streams) (hs : s ∈ streams) : (c.insert s e).Fits streams where
  distinct := hc.distinct.insert
  among t x hx := by
    rcases mem_insert hx with ⟨-, hmem⟩ | ⟨rfl, -⟩
    · exact hc.among t x hmem
    · exact hs
  room n hn := hc.room n (capacity_insert.symm.trans hn)

/-- With room for its stream, writing an entry evicts none. -/
theorem Fits.mem_insert_iff (hc : c.Fits streams) (hs : s ∈ streams) :
    (t, x) ∈ (c.insert s e).entries ↔ (t ≠ s ∧ (t, x) ∈ c.entries) ∨ (t = s ∧ x = e) := by
  rw [Collection.insert]
  cases hcapacity : c.capacity with
  | none => exact mem_rewritten
  | some n =>
    have hdistinct : ((c.entries.filter fun held => held.1 != s) ++ [(s, e)]).map Prod.fst
        |>.Nodup := by
      have hunbounded : (Collection.insert { c with capacity := none } s e).Distinct :=
        Distinct.insert (c := { c with capacity := none }) hc.distinct
      exact List.pairwise_map.mpr hunbounded
    have hsubset : ((c.entries.filter fun held => held.1 != s) ++ [(s, e)]).map Prod.fst
        ⊆ streams := by
      intro t ht
      obtain ⟨⟨t', y⟩, hmem, rfl⟩ := List.mem_map.mp ht
      rcases mem_rewritten.mp hmem with ⟨-, hheld⟩ | ⟨rfl, -⟩
      · exact hc.among _ y hheld
      · exact hs
    have hlength := (hdistinct.subperm hsubset).length_le
    rw [List.length_map] at hlength
    have hroom := hc.room n hcapacity
    have hnone : ((c.entries.filter fun held => held.1 != s) ++ [(s, e)]).length - n = 0 := by
      omega
    simp only [hnone, List.drop_zero]
    exact mem_rewritten

end Collection

namespace Cache

variable {S : Type} {c : Cache S} {s t : StreamId} {e x y : Entry S} {streams : List StreamId}
  {folded : List (StreamId × Entry S)}

theorem within_keep (h : c.entries.Within) : (c.keep s e).entries.Within := by
  rcases keep_cases c s e with ⟨hk, -⟩ | ⟨hk, -⟩ <;> rw [hk]
  · exact .insert
  · exact h

theorem within_keepLoaded (h : c.entries.Within) : (c.keepLoaded folded).entries.Within := by
  show (folded.foldl (fun c entry => c.keep entry.1 entry.2) c).entries.Within
  induction folded generalizing c with
  | nil => exact h
  | cons entry rest ih => exact ih (within_keep h)

theorem fits_keep (h : c.entries.Fits streams) (hs : s ∈ streams) :
    (c.keep s e).entries.Fits streams := by
  rcases keep_cases c s e with ⟨hk, -⟩ | ⟨hk, -⟩ <;> rw [hk]
  · exact h.insert hs
  · exact h

/-- With room, keeping an entry takes no stream's entry away, and its own stream has one then. -/
theorem held_keep (h : c.entries.Fits streams) (hs : s ∈ streams)
    (hheld : (∃ x, (t, x) ∈ c.entries.entries) ∨ t = s) :
    ∃ x, (t, x) ∈ (c.keep s e).entries.entries := by
  rcases keep_cases c s e with ⟨hk, -⟩ | ⟨hk, held, hf, -⟩ <;> rw [hk]
  · by_cases ht : t = s
    · exact ⟨e, (h.mem_insert_iff hs).mpr (.inr ⟨ht, rfl⟩)⟩
    · obtain ⟨x, hx⟩ := hheld.resolve_right ht
      exact ⟨x, (h.mem_insert_iff hs).mpr (.inl ⟨ht, hx⟩)⟩
  · rcases hheld with hheld | rfl
    · exact hheld
    · exact ⟨held, Collection.mem_of_find? hf⟩

theorem held_keepLoaded (h : c.entries.Fits streams)
    (hfolded : ∀ s x, (s, x) ∈ folded → s ∈ streams)
    (hheld : (∃ x, (t, x) ∈ c.entries.entries) ∨ ∃ x, (t, x) ∈ folded) :
    ∃ x, (t, x) ∈ (c.keepLoaded folded).entries.entries := by
  show ∃ x, (t, x) ∈ (folded.foldl (fun c entry => c.keep entry.1 entry.2) c).entries.entries
  induction folded generalizing c with
  | nil => exact hheld.resolve_right nofun
  | cons entry rest ih =>
    have hs := hfolded entry.1 entry.2 List.mem_cons_self
    refine ih (fits_keep h hs) (fun s x hx => hfolded s x (List.mem_cons_of_mem _ hx)) ?_
    rcases hheld with hheld | ⟨x, hx⟩
    · exact .inl (held_keep h hs (.inl hheld))
    · rcases List.mem_cons.mp hx with rfl | hx
      · exact .inl (held_keep h hs (.inr rfl))
      · exact .inr ⟨x, hx⟩

/-- An entry that was just kept, or given up for a newer one, is not ahead of what is held. -/
theorem beyond_keep (h : c.entries.Distinct) (hx : (s, x) ∈ (c.keep s y).entries.entries) :
    y.position ≤ x.position := by
  rcases keep_cases c s y with ⟨hk, -⟩ | ⟨hk, held, hf, hold⟩ <;> rw [hk] at hx
  · rcases Collection.mem_insert hx with ⟨hne, -⟩ | ⟨-, rfl⟩
    · exact absurd rfl hne
    · exact Nat.le_refl _
  · rw [h.find? hx] at hf
    cases hf
    exact Nat.le_of_not_lt hold

/-- After a load, an entry is not behind the one that was folded for its stream. -/
theorem beyond_keepLoaded (h : c.entries.Distinct)
    (hfolded : ∀ s x y, (s, x) ∈ folded → (s, y) ∈ folded → x = y) (hy : (s, y) ∈ folded)
    (hx : (s, x) ∈ (c.keepLoaded folded).entries.entries) : y.position ≤ x.position := by
  replace hx : (s, x) ∈
      (folded.foldl (fun c entry => c.keep entry.1 entry.2) c).entries.entries := hx
  induction folded generalizing c with
  | nil => cases hy
  | cons entry rest ih =>
    rcases List.mem_cons.mp hy with rfl | hlater
    · have hx' : (s, x) ∈ (rest.foldl (fun c entry => c.keep entry.1 entry.2)
          (c.keep s y)).entries.entries := hx
      rcases mem_keepAll hx' with hkept | hrest
      · exact beyond_keep h hkept
      · rw [hfolded s y x List.mem_cons_self (List.mem_cons_of_mem _ hrest)]
        exact Nat.le_refl _
    · exact ih (distinct_keep h)
        (fun s x y hx hy => hfolded s x y (List.mem_cons_of_mem _ hx) (List.mem_cons_of_mem _ hy))
        hlater hx

end Cache

/-! ## The projections of a log -/

section Projections

variable {A S : Type} [Vocabulary A] {p : Projector A S} {log : List (Event A)}

/-- The projection of a stream over a whole log. -/
def Projector.projection (p : Projector A S) (log : List (Event A)) (s : StreamId) : Option S :=
  p.foldAll none (log.filter fun e => e.stream == s)

def Projector.streamsIn (p : Projector A S) (log : List (Event A)) : List StreamId :=
  ((log.map Event.stream).filter p.concerns).dedup

/-- Those of them that have a projection. -/
def Projector.projectedIn (p : Projector A S) (log : List (Event A)) : List StreamId :=
  (p.streamsIn log).filter fun s => (p.projection log s).isSome

theorem Projector.mem_streamsIn {s : StreamId} :
    s ∈ p.streamsIn log ↔ p.concerns s = true ∧ ∃ e ∈ log, e.stream = s := by
  rw [streamsIn, List.mem_dedup, List.mem_filter, List.mem_map, and_comm]

theorem Projector.exists_event {s : StreamId} {v : S} (h : p.projection log s = some v) :
    ∃ e ∈ log, e.stream = s := by
  cases hevents : log.filter fun e => e.stream == s with
  | nil =>
    rw [projection, hevents] at h
    cases h
  | cons e rest =>
    have he : e ∈ log.filter fun e => e.stream == s := by
      rw [hevents]
      exact List.mem_cons_self
    obtain ⟨hmem, hs⟩ := List.mem_filter.mp he
    exact ⟨e, hmem, by simpa using hs⟩

theorem Projector.mem_projectedIn {s : StreamId} (hs : p.concerns s = true)
    (h : (p.projection log s).isSome = true) : s ∈ p.projectedIn log := by
  obtain ⟨v, hv⟩ := Option.isSome_iff_exists.mp h
  exact List.mem_filter.mpr ⟨mem_streamsIn.mpr ⟨hs, exists_event hv⟩, h⟩

/-- An event changes the projection of its own stream. -/
theorem Projector.projection_concat {e : Event A} {s : StreamId} :
    p.projection (log ++ [e]) s =
      if e.stream = s then p.fold (p.projection log s) e else p.projection log s := by
  unfold projection
  rw [List.filter_append]
  by_cases hs : e.stream = s
  · rw [if_pos hs, List.filter_cons_of_pos (by simp [hs]), List.filter_nil, foldAll_append]
  · rw [if_neg hs, List.filter_cons_of_neg (by simpa using hs), List.filter_nil, List.append_nil]

theorem Loading.exists_entriesOf {s : StreamId} (h : s ∈ p.streamsIn log) :
    ∃ x, (s, x) ∈ entriesOf p log := by
  obtain ⟨hs, e, he, hes⟩ := Projector.mem_streamsIn.mp h
  cases hx : p.entry? (log.filter fun e => e.stream == s) with
  | none =>
    have hmem : e ∈ log.filter fun e => e.stream == s := List.mem_filter.mpr ⟨he, by simp [hes]⟩
    rw [Projector.entry?_eq_none.mp hx] at hmem
    cases hmem
  | some x => exact ⟨x, (folded_entriesOf log s x).mpr ⟨hs, hx⟩⟩

theorem Loading.mem_streamsIn {s : StreamId} {x : Entry S} (hx : (s, x) ∈ entriesOf p log) :
    s ∈ p.streamsIn log := by
  obtain ⟨hs, hentry⟩ := (folded_entriesOf log s x).mp hx
  obtain ⟨e, he, -⟩ := Option.map_eq_some_iff.mp hentry
  obtain ⟨hmem, hes⟩ := List.mem_filter.mp (List.mem_of_getLast? he)
  exact Projector.mem_streamsIn.mpr ⟨hs, e, hmem, by simpa using hes⟩

/-- An exact entry that misses no event of the log is the stream's projection. -/
theorem Entry.Exact.eq_projection {s : StreamId} {x : Entry S} (hx : x.Exact p log s)
    (h : Log.Numbered log) (hbeyond : AtOrBeyond log s log.length x.position) :
    x.state = p.projection log s := by
  obtain ⟨e, he, -, hposition⟩ := hx.position
  have hlt := h.position_lt he
  rw [hposition] at hlt
  rw [hx.state_eq h hlt hbeyond, Log.early_of_length_le (Nat.le_refl _)]
  rfl

/-- Where the applied event was covered already, no entry is written. -/
theorem Collection.Covers.fate_eq {cache : Cache S} {m : Nat} {e : Event A} {earlier : Page A}
    {c' : Collection S} (hc : cache.entries.Covers p log m) (he : e ∈ log)
    (hlt : e.position.val < m) (hfate : cache.Fate p e earlier c') : c' = cache.entries := by
  cases hfate with
  | outcome _ _ => rfl
  | foreign _ => rfl
  | known _ _ _ => rfl
  | unread _ _ _ _ _ => rfl
  | onto held hs hf hbefore =>
    obtain ⟨x, hx, hle⟩ := hc.covered e he hlt hs
    rw [hf] at hx
    cases hx
    exact absurd hbefore (Nat.not_lt_of_le hle)
  | fresh hs hf _ =>
    obtain ⟨x, hx, -⟩ := hc.covered e he hlt hs
    rw [hf] at hx
    cases hx
  | backfilled _ hs hf _ _ =>
    obtain ⟨x, hx, -⟩ := hc.covered e he hlt hs
    rw [hf] at hx
    cases hx

theorem Cache.Fate.within {cache : Cache S} {e : Event A} {earlier : Page A} {c' : Collection S}
    (h : cache.entries.Within) (hfate : cache.Fate p e earlier c') : c'.Within := by
  cases hfate with
  | onto _ _ _ _ => exact .insert
  | fresh _ _ _ => exact .insert
  | backfilled _ _ _ _ _ => exact .insert
  | _ => exact h

/-- Of a log that stays as it is, the entries are within the capacity, and those of the whole log
after everything was loaded. -/
structure Cache.Settled (p : Projector A S) (log : List (Event A)) (capacity : Option Nat)
    (c : Cache S) : Prop where
  capacity : c.entries.capacity = capacity
  within : c.entries.Within
  complete : c.allLoaded = true → c.entries.Covers p log log.length

namespace Cache.Settled

variable {capacity : Option Nat} {c : Cache S}

theorem keep (h : c.Settled p log capacity) (s : StreamId) (x : Entry S) :
    (c.keep s x).Settled p log capacity where
  capacity := Cache.capacity_keep.trans h.capacity
  within := Cache.within_keep h.within
  complete hall := (h.complete (Cache.allLoaded_keep.symm.trans hall)).keep s x

theorem keepLoaded (h : c.Settled p log capacity) (hlog : Log.Numbered log)
    {folded : List (StreamId × Entry S)} (hfolded : Loading.Folded p log folded) :
    (c.keepLoaded folded).Settled p log capacity where
  capacity := Cache.capacity_keepLoaded.trans h.capacity
  within := Cache.within_keepLoaded h.within
  complete hall := .of_allLoaded hlog hfolded hall

theorem apply [DecidableEq S] (h : c.Settled p log capacity) {e : Event A} (he : e ∈ log)
    (hlt : e.position.val < log.length)
    (hunreached : Position.reached c.highWater e.position = false) (earlier : Page A) :
    (c.apply p e earlier).1.Settled p log capacity where
  capacity := (Cache.capacity_apply earlier).trans h.capacity
  within := (Cache.apply_fate hunreached earlier).within h.within
  complete hall := by
    rw [Cache.allLoaded_apply] at hall
    rw [(h.complete hall).fate_eq he hlt (Cache.apply_fate hunreached earlier)]
    exact h.complete hall

end Cache.Settled

end Projections

/-! ## Sessions over a log that stays as it is -/

/-- A lookup, a load, or a live event. -/
def Operation.Serves {A : Type} : Operation A → Prop
  | .get _ | .getAll _ | .apply => True
  | _ => False

namespace Session

variable {A S : Type} [Vocabulary A] {p : Projector A S} {log : List (Event A)}
  {t t' : Session A S} {capacity : Option Nat}

/-- No read fails, and the cache is settled. -/
structure Settled (p : Projector A S) (log : List (Event A)) (capacity : Option Nat)
    (t : Session A S) : Prop extends Current p log t where
  quiet : t.store.Quiet
  cache : t.model.cache.Settled p log capacity

theorem Settled.of_start {c : Collection S} (hc : c.Roomy) (hnil : c.entries = [])
    {store : Store A} (h : store.Keeps log) (hsize : 0 < store.pageSize) (hquiet : store.Quiet) :
    Settled p log c.capacity (start p c store) where
  toCurrent := .of_start hc hnil h hsize (by rw [hquiet.1]; nofun)
  quiet := hquiet
  cache :=
    { capacity := rfl
      within := fun n _ => by
        show c.entries.length ≤ n
        rw [hnil]
        exact Nat.zero_le n
      complete := nofun }

variable [DecidableEq S]

theorem Settled.step {op : Operation A} (ht : Settled p log capacity t) (hop : op.Serves)
    (h : t.step op = some t') (hq : p.IgnoresOutcomes (log.take t'.applied)) :
    Settled p log capacity t' := by
  have hnumbered := ht.keeps.numbered
  cases op with
  | get s =>
    have hafter : t.store.After (t.model.get t.store s).store := ReadModel.after_get
    have hgot := ReadModel.got_get (m := t.model) ht.keeps s
    have hstep := h
    cases h
    refine ⟨ht.stay hstep hafter hq, hafter.quiet ht.quiet, ?_⟩
    show (t.model.get t.store s).model.cache.Settled p log capacity
    generalize (t.model.get t.store s).model = model, (t.model.get t.store s).answer = answer
      at hgot
    cases hgot with
    | known state _ => exact ht.cache
    | failed failure _ => exact ht.cache
    | read _ hdigested =>
      cases hdigested with
      | kept events x _ _ => exact ht.cache.keep s x
      | _ => exact ht.cache
  | getAll order =>
    have hafter : t.store.After (t.model.getAllIn (Loading.arranged order) t.store).store :=
      ReadModel.after_getAllIn
    have hloaded := ReadModel.loadedAll_getAllIn (m := t.model) (Loading.arranged order) ht.keeps
      ht.sized ht.faults
    have hstep := h
    cases h
    refine ⟨ht.stay hstep hafter hq, hafter.quiet ht.quiet, ?_⟩
    show (t.model.getAllIn (Loading.arranged order) t.store).model.cache.Settled p log capacity
    generalize (t.model.getAllIn (Loading.arranged order) t.store).model = model,
      (t.model.getAllIn (Loading.arranged order) t.store).answer = answer at hloaded
    cases hloaded with
    | kept _ =>
      rw [ht.projector]
      exact ht.cache.keepLoaded hnumbered
        ((Loading.folded_entriesOf log).arranged (Loading.arranges_arranged order))
    | _ => exact ht.cache
  | apply =>
    have hstep := h
    simp only [Session.step] at h
    split at h
    · rename_i e he
      have hafter : t.store.After (t.model.applyNow t.store e).store := ReadModel.after_applyNow
      cases h
      refine ⟨ht.stay hstep hafter hq, hafter.quiet ht.quiet, ?_⟩
      show (t.model.applyNow t.store e).model.cache.Settled p log capacity
      rw [ht.keeps.events_eq] at he
      obtain ⟨earlier, hmodel, -⟩ := ReadModel.applyNow_model (m := t.model) ht.keeps he
      rw [hmodel, ReadModel.cache_apply, ht.projector]
      have hmem := List.mem_of_getElem? he
      exact ht.cache.apply hmem (hnumbered.position_lt hmem) (ht.unreached he) earlier
    · cases h
  | _ => exact hop.elim

theorem Settled.run {ops : List (Operation A)} (ht : Settled p log capacity t)
    (hops : ∀ op ∈ ops, op.Serves) (h : t.run ops = some t')
    (hq : p.IgnoresOutcomes (log.take t'.applied)) : Settled p log capacity t' := by
  suffices p.IgnoresOutcomes (log.take t'.applied) → Settled p log capacity t' from this hq
  refine runMoves_induction
    (P := fun u => p.IgnoresOutcomes (log.take u.applied) → Settled p log capacity u)
    (fun _ => ht) (fun {pre op u v} hpre _ hstep hu hq => ?_) h
  have hop := hops op (hpre.subset (by simp))
  refine (hu (hq.of_prefix ?_)).step hop hstep hq
  exact List.take_prefix_take_left (applied_le hstep)

/-! ## The answer -/

/-- What is held when everything is answered: no entry is behind the log, and every stream of the
log that concerns the projector has one if there is room for all of them. -/
structure Answered (p : Projector A S) (log : List (Event A)) (c : Cache S) : Prop where
  within : c.entries.Within
  exact : c.entries.Exact p log
  abreast : c.entries.Abreast p log log.length
  held : (∀ n, c.entries.capacity = some n → (p.streamsIn log).length ≤ n) →
    ∀ s ∈ p.streamsIn log, ∃ x, (s, x) ∈ c.entries.entries

omit [DecidableEq S] in
/-- After everything was loaded, the entries are those of the whole log already. -/
theorem Settled.answered_known (ht : Settled p log capacity t)
    (hall : t.model.cache.allLoaded = true) : Answered p log t.model.cache where
  within := ht.cache.within
  exact := ht.exact
  abreast :=
    { distinct := ht.abreast.distinct
      concerned := ht.abreast.concerned
      beyond := fun s x hx => (ht.cache.complete hall).beyond (ht.abreast.concerned s x hx)
        (ht.abreast.distinct.find? hx) }
  held _ s hs := by
    obtain ⟨hconcerns, e, he, rfl⟩ := Projector.mem_streamsIn.mp hs
    obtain ⟨x, hx, -⟩ :=
      (ht.cache.complete hall).covered e he (ht.keeps.numbered.position_lt he) hconcerns
    exact ⟨x, Collection.mem_of_find? hx⟩

omit [DecidableEq S] in
/-- A load brings every entry up to the log, and evicts none if there is room for all. -/
theorem Settled.answered_loaded (ht : Settled p log capacity t)
    {folded : List (StreamId × Entry S)} (horder : folded.Perm (Loading.entriesOf p log)) :
    Answered p log (t.model.cache.keepLoaded folded) := by
  have hnumbered := ht.keeps.numbered
  have hloaded : ∀ s x, (s, x) ∈ folded ↔ (s, x) ∈ Loading.entriesOf p log :=
    fun s x => horder.mem_iff
  have hold : ∀ s x, (s, x) ∈ t.model.cache.entries.entries → s ∈ p.streamsIn log := by
    intro s x hx
    obtain ⟨-, e, he, hes, -⟩ := ht.exact s x hx
    exact Projector.mem_streamsIn.mpr ⟨ht.abreast.concerned s x hx, e, he, hes⟩
  have hall : ∀ s x, (s, x) ∈ (t.model.cache.keepLoaded folded).entries.entries →
      s ∈ p.streamsIn log :=
    fun s x hx => (Cache.mem_keepLoaded hx).elim (hold s x) fun hx =>
      Loading.mem_streamsIn ((hloaded s x).mp hx)
  exact {
    within := Cache.within_keepLoaded ht.cache.within
    exact := ht.exact.keepLoaded fun s x hx =>
      (Loading.entriesOf_exact hnumbered ((hloaded s x).mp hx)).2.1
    abreast :=
      { distinct := Cache.distinct_keepLoaded ht.abreast.distinct
        concerned := fun s x hx => (Projector.mem_streamsIn.mp (hall s x hx)).1
        beyond := fun s x hx e he hes hlt => by
          obtain ⟨y, hy⟩ := Loading.exists_entriesOf (hall s x hx)
          have hyx := Cache.beyond_keepLoaded ht.abreast.distinct
            (fun s x y hx hy => (Loading.folded_entriesOf log).unique ((hloaded s x).mp hx)
              ((hloaded s y).mp hy)) ((hloaded s y).mpr hy) hx
          exact Nat.le_trans ((Loading.entriesOf_exact hnumbered hy).2.2 e he hes hlt) hyx }
    held := fun hroom s hs => by
      rw [Cache.capacity_keepLoaded] at hroom
      exact Cache.held_keepLoaded ⟨ht.abreast.distinct, hold, hroom⟩
        (fun s x hx => Loading.mem_streamsIn ((hloaded s x).mp hx))
        (.inr ((Loading.exists_entriesOf hs).imp fun x hx => (hloaded s x).mpr hx)) }

omit [DecidableEq S] in
/-- A projection is answered exactly if its stream has an entry. -/
theorem Answered.mem_states {c : Cache S} (h : Answered p log c) (hlog : Log.Numbered log)
    {s : StreamId} {v : S} :
    (s, v) ∈ c.states ↔ p.projection log s = some v ∧ ∃ x, (s, x) ∈ c.entries.entries := by
  have hstate : ∀ x, (s, x) ∈ c.entries.entries → x.state = p.projection log s :=
    fun x hx => (h.exact s x hx).eq_projection hlog (h.abreast.beyond s x hx)
  rw [Cache.mem_states]
  constructor
  · rintro ⟨x, hx, hv⟩
    exact ⟨(hstate x hx).symm.trans hv, x, hx⟩
  · rintro ⟨hv, x, hx⟩
    exact ⟨x, hx, (hstate x hx).trans hv⟩

omit [DecidableEq S] in
/-- An answer has room for no more streams than the collection. -/
theorem Answered.exists_missing {c : Cache S} (h : Answered p log c) {n : Nat}
    (hn : c.entries.capacity = some n) (hlack : n < (p.projectedIn log).length) :
    ∃ s ∈ p.projectedIn log, ∀ v, (s, v) ∉ c.states := by
  -- Else every stream with a projection would be among those of the answer.
  by_contra hnone
  have hsubset : p.projectedIn log ⊆ c.states.map Prod.fst := by
    intro s hs
    by_contra hmissing
    exact hnone ⟨s, hs, fun v hv => hmissing (List.mem_map_of_mem hv)⟩
  have hnodup : (p.projectedIn log).Nodup := (List.nodup_dedup _).filter _
  have hle := (hnodup.subperm hsubset).length_le
  rw [List.length_map] at hle
  have hheld : c.states.length ≤ n :=
    Nat.le_trans (List.length_filterMap_le _ _) (h.within n hn)
  omega

omit [DecidableEq S] in
theorem Settled.getAllIn_answered (ht : Settled p log capacity t)
    {arrange : List (StreamId × Entry S) → List (StreamId × Entry S)}
    (harrange : Loading.Arranges arrange) : ∃ cache : Cache S,
    (t.model.getAllIn arrange t.store).answer = .ok cache.states ∧
      cache.entries.capacity = capacity ∧ Answered p log cache := by
  have hloaded := ReadModel.loadedAll_getAllIn (m := t.model) arrange ht.keeps ht.sized ht.faults
  generalize (t.model.getAllIn arrange t.store).answer = answer,
    (t.model.getAllIn arrange t.store).model = model at hloaded
  cases hloaded with
  | known hall => exact ⟨_, rfl, ht.cache.capacity, ht.answered_known hall⟩
  | failed q failure hfault =>
    rw [ht.quiet.1] at hfault
    cases hfault
  | kept _ =>
    rw [ht.projector]
    exact ⟨_, rfl, Cache.capacity_keepLoaded.trans ht.cache.capacity,
      ht.answered_loaded (harrange _)⟩

/-- What a read model answers with when it is asked for every projection, after lookups, loads and
live events in any order over a log that stays as it is, with any collection and any size of pages,
and whatever order its load keeps the entries in. Every stream is answered at most once, and only
with its projection over the whole log. If the collection has room for every stream of the log that
concerns the projector, no projection is missing. If there are more projections than it has room
for, one is missing. -/
theorem getAll_complete_with_room {c : Collection S} (hc : c = .unbounded ∨ ∃ k, c = .bounded k)
    {store : Store A} (hstart : store.Keeps log) (hsize : 0 < store.pageSize)
    (hquiet : store.Quiet) {ops : List (Operation A)} (hops : ∀ op ∈ ops, op.Serves)
    (h : (start p c store).run ops = some t) (hq : p.IgnoresOutcomes (log.take t.applied))
    {arrange : List (StreamId × Entry S) → List (StreamId × Entry S)}
    (harrange : Loading.Arranges arrange) :
    ∃ all, (t.model.getAllIn arrange t.store).answer = .ok all ∧
      (all.Pairwise fun a b => a.1 ≠ b.1) ∧
      (∀ s v, (s, v) ∈ all → p.concerns s = true ∧ p.projection log s = some v) ∧
      ((∀ n, c.capacity = some n → (p.streamsIn log).length ≤ n) →
        ∀ s v, p.concerns s = true → p.projection log s = some v → (s, v) ∈ all) ∧
      ∀ n, c.capacity = some n → n < (p.projectedIn log).length →
        ∃ s ∈ p.projectedIn log, ∀ v, (s, v) ∉ all := by
  obtain ⟨hroomy, hnil⟩ := Collection.roomy_of_new hc
  have ht : Settled p log c.capacity t :=
    (Settled.of_start hroomy hnil hstart hsize hquiet).run hops h hq
  obtain ⟨cache, hanswer, hcapacity, hanswered⟩ := ht.getAllIn_answered harrange
  have hmem : ∀ s v, (s, v) ∈ cache.states ↔
      p.projection log s = some v ∧ ∃ x, (s, x) ∈ cache.entries.entries :=
    fun s v => hanswered.mem_states ht.keeps.numbered
  refine ⟨_, hanswer, Cache.distinct_states hanswered.abreast.distinct, fun s v hv => ?_,
    fun hroom s v hs hv => ?_, fun n hn => hanswered.exists_missing (hcapacity.trans hn)⟩
  · obtain ⟨hv, x, hx⟩ := (hmem s v).mp hv
    exact ⟨hanswered.abreast.concerned s x hx, hv⟩
  · rw [← hcapacity] at hroom
    have hstream := Projector.mem_streamsIn.mpr ⟨hs, Projector.exists_event hv⟩
    exact (hmem s v).mpr ⟨hv, hanswered.held hroom s hstream⟩

def twoTopics : Store Notes.Fact :=
  ((Store.ofPayloads 0).write [.fact (.noted "a" 2), .fact (.noted "b" 7)]).2

theorem keeps_twoTopics : twoTopics.Keeps twoTopics.events :=
  Store.Holds.keeps ⟨rfl, by decide, by decide⟩

/-- A collection with room for two topics answers with both. -/
theorem getAll_two_topics :
    ∃ t all, (start Notes.projector (.bounded 2) twoTopics).run
        [.get ⟨"Topic", "b"⟩, .apply, .getAll, .apply] = some t ∧
      (t.model.getAll t.store).answer = .ok all ∧
      (⟨"Topic", "a"⟩, 2) ∈ all ∧ (⟨"Topic", "b"⟩, 7) ∈ all := by
  have hrun : (start Notes.projector (.bounded 2) twoTopics).run
      [.get ⟨"Topic", "b"⟩, .apply, .getAll, .apply] = some _ := rfl
  obtain ⟨all, hanswer, -, -, hcomplete, -⟩ := getAll_complete_with_room (.inr ⟨2, rfl⟩)
    keeps_twoTopics (by decide) ⟨rfl, rfl⟩ (by simp [Operation.Serves]) hrun
    (Projector.ignoresOutcomes_of_facts (by decide)) Loading.arranges_id
  have hroom : ∀ n, (Collection.bounded 2 : Collection Int64).capacity = some n →
      ((Notes.projector (A := Notes.Fact)).streamsIn twoTopics.events).length ≤ n := by
    rintro n ⟨⟩
    decide
  exact ⟨_, all, hrun, hanswer, hcomplete hroom _ _ (by decide) (by decide),
    hcomplete hroom _ _ (by decide) (by decide)⟩

/-- One with room for one topic evicts the first of the two that it has just loaded, and does not
answer with its projection. -/
theorem getAll_evicts_projection :
    twoTopics.Keeps twoTopics.events ∧ twoTopics.Quiet ∧
      Notes.projector.IgnoresOutcomes twoTopics.events ∧
      (Notes.projector (A := Notes.Fact)).concerns ⟨"Topic", "a"⟩ = true ∧
      Notes.projector.projection twoTopics.events ⟨"Topic", "a"⟩ = some 2 ∧
      ∃ t, (start Notes.projector (.bounded 1) twoTopics).run [.get ⟨"Topic", "a"⟩] = some t ∧
        (t.model.getAll t.store).answer = .ok [(⟨"Topic", "b"⟩, 7)] :=
  ⟨keeps_twoTopics, ⟨rfl, rfl⟩, Projector.ignoresOutcomes_of_facts (by decide), by decide, by decide,
    _, rfl, rfl⟩

end Session

end Chronicle
