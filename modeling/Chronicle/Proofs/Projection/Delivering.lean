import Chronicle.Proofs.Projection.Sessions

/-!
# Chronicle.Proofs.Projection.Delivering

A whole log, delivered event by event to a read model that keeps every entry, against the same log
loaded at once. The read model starts with nothing, or with what a load of a beginning of the log
has left.

What carries the comparison is said of one stream at a time (`ReadModel.Reflects`): its entry is the
fold of the stream's events among those that were loaded or delivered so far. A delivered event
keeps that (`Reflects.step`), whichever way the cache takes with it, as long as an outcome that is
delivered in the stream would have left the state as it is: outcomes are never folded when they are
delivered, while a load and a read of the stream fold them like any other event
(`delivery_differs_from_load`).
-/

namespace Chronicle

variable {A S : Type} [Vocabulary A] {p : Projector A S} {log : List (Event A)} {s : StreamId}

/-- The first events of a stream are the same in every beginning of the log that has them. -/
theorem Log.early_take {n k : Nat} (h : n ≤ k) : early (log.take k) s n = early log s n := by
  rw [early, List.take_take, Nat.min_eq_left h, early]

namespace Cache

/-- The projection that a cache lists for a stream is the state of its entry. -/
theorem lookup_states {c : Cache S} (h : c.entries.Distinct) (s : StreamId) :
    c.states.lookup s = (c.entries.find? s).bind (·.state) := by
  have hdistinct := distinct_states h
  cases hstate : (c.entries.find? s).bind (·.state) with
  | some v =>
    obtain ⟨x, hx, hv⟩ := Option.bind_eq_some_iff.mp hstate
    exact lookup_of_mem hdistinct (mem_states.mpr ⟨x, Collection.mem_of_find? hx, hv⟩)
  | none =>
    cases hlookup : c.states.lookup s with
    | none => rfl
    | some v =>
      -- a projection that is listed has an entry that says so
      obtain ⟨x, hx, hv⟩ := mem_states.mp (mem_of_lookup hlookup)
      rw [h.find? hx] at hstate
      exact absurd (hv.symm.trans hstate) (Option.some_ne_none v)

/-! ## What a load leaves -/

/-- What a load of a log leaves in an empty cache that keeps every entry. -/
def loaded (p : Projector A S) (log : List (Event A)) : Cache S :=
  (new .unbounded).keepLoaded (Loading.entriesOf p log)

theorem distinct_loaded : (loaded p log).entries.Distinct :=
  distinct_keepLoaded (c := new .unbounded) .nil

@[simp] theorem highWater_loaded : (loaded p log).highWater = none := highWater_keepLoaded

@[simp] theorem capacity_loaded : (loaded p log).entries.capacity = none := capacity_keepLoaded

theorem find?_loaded (s : StreamId) : (loaded p log).entries.find? s
    = if p.concerns s then p.entry? (log.filter fun e => e.stream == s) else none := by
  have hfolded : Loading.Folded p log (Loading.entriesOf p log) := Loading.folded_entriesOf log
  have hmem {x : Entry S} : (s, x) ∈ (loaded p log).entries.entries ↔ p.concerns s = true ∧
      p.entry? (log.filter fun e => e.stream == s) = some x :=
    (mem_keepLoaded_new hfolded).trans (hfolded s x)
  cases hfind : (loaded p log).entries.find? s with
  | some x =>
    obtain ⟨hs, hx⟩ := hmem.mp (Collection.mem_of_find? hfind)
    rw [if_pos hs, hx]
  | none =>
    by_cases hs : p.concerns s = true
    · rw [if_pos hs]
      cases hx : p.entry? (log.filter fun e => e.stream == s) with
      | none => rfl
      | some x => exact absurd (hmem.mpr ⟨hs, hx⟩) (Collection.not_mem_of_find? hfind)
    · rw [if_neg hs]

/-- The projection of every stream is listed. -/
theorem lookup_loaded (s : StreamId) : (loaded p log).states.lookup s
    = if p.concerns s then p.foldAll none (log.filter fun e => e.stream == s) else none := by
  rw [lookup_states distinct_loaded, find?_loaded]
  split
  · exact Projector.entry?_state _
  · rfl

end Cache

/-- A read model that has loaded a log for the first time. -/
theorem ReadModel.loaded_new {store : Store A} (h : store.Keeps log) (hsize : 0 < store.pageSize)
    (hfaults : ∀ q f, (q, f) ∈ store.readFaults → f.isTemporary = true)
    {all : List (StreamId × S)} (hall : ((new p .unbounded).getAll store).answer = .ok all) :
    ((new p .unbounded).getAll store).model
      = { new p .unbounded with cache := Cache.loaded p log } := by
  have hloaded := loadedAll_getAllIn (m := new p .unbounded) id h hsize hfaults
  unfold getAll at hall ⊢
  rw [hall] at hloaded
  generalize ((new p .unbounded).getAllIn id store).model = model at hloaded
  cases hloaded with
  | known hknown => cases hknown
  | kept _ => rfl

/-! ## One stream -/

/-- What is held of a stream after the first `n` events of a log were delivered, with the first
`loaded` events loaded before that: their fold, and no event that is yet to come. -/
structure Collection.Reflects (p : Projector A S) (log : List (Event A)) (s : StreamId)
    (loaded n : Nat) (c : Collection S) : Prop where
  capacity : c.capacity = none
  state : p.concerns s = true →
    (c.find? s).bind (·.state) = p.foldAll none (Log.early log s (max loaded n))
  foreign : p.concerns s = false → c.find? s = none
  behind : ∀ x, c.find? s = some x → x.position.val < max loaded n
  abreast : ∀ x, c.find? s = some x → AtOrBeyond log s loaded x.position
  missing : p.concerns s = true → c.find? s = none → Log.early log s loaded = []

namespace Collection.Reflects

variable {c c' : Collection S} {loaded n : Nat} {e : Event A}

theorem of_new : Reflects p log s 0 0 unbounded where
  capacity := rfl
  state _ := rfl
  foreign _ := rfl
  behind x hx := by cases hx
  abreast x hx := by cases hx
  missing _ _ := rfl

theorem of_loaded (h : Log.Numbered log) (hlen : loaded ≤ log.length) :
    Reflects p log s loaded 0 (Cache.loaded p (log.take loaded)).entries := by
  have hfind : (Cache.loaded p (log.take loaded)).entries.find? s
      = if p.concerns s then p.entry? (Log.early log s loaded) else none := Cache.find?_loaded s
  have hentry : ∀ x, (Cache.loaded p (log.take loaded)).entries.find? s = some x →
      x.position.val < loaded ∧ AtOrBeyond log s loaded x.position := by
    intro x hx
    rw [hfind] at hx
    split at hx
    · exact (entry?_early h loaded hlen hx).2
    · cases hx
  refine ⟨Cache.capacity_loaded, fun hs => ?_, fun hs => ?_, fun x hx => ?_,
    fun x hx => (hentry x hx).2, fun hs hnone => ?_⟩
  · rw [hfind, if_pos hs, Projector.entry?_state, Nat.max_zero]
  · rw [hfind, if_neg (by simp [hs])]
  · rw [Nat.max_zero]
    exact (hentry x hx).1
  · rw [hfind, if_pos hs] at hnone
    exact Projector.entry?_eq_none.mp hnone

/-- An event that leaves what is held of the stream, and what the stream folds to, as it was. -/
theorem pass (hc : Reflects p log s loaded n c) (hcapacity : c'.capacity = none)
    (hfind : c'.find? s = c.find? s)
    (hfold : p.concerns s = true → p.foldAll none (Log.early log s (max loaded (n + 1)))
      = p.foldAll none (Log.early log s (max loaded n))) :
    Reflects p log s loaded (n + 1) c' where
  capacity := hcapacity
  state hs := by rw [hfind, hfold hs, hc.state hs]
  foreign hs := by rw [hfind, hc.foreign hs]
  behind x hx := by
    have := hc.behind x (hfind ▸ hx)
    omega
  abreast x hx := hc.abreast x (hfind ▸ hx)
  missing hs hnone := hc.missing hs (hfind ▸ hnone)

/-- An event of the stream that none of what was loaded has is folded onto all that was before
it. -/
theorem fold (hc : Reflects p log s loaded n c) (h : Log.Numbered log) (he : log[n]? = some e)
    (hes : e.stream = s) (hs : p.concerns s = true) (hn : loaded ≤ n) {state : Option S}
    (hstate : state = p.foldAll none (Log.early log s n)) :
    Reflects p log s loaded (n + 1) (c.insert s ⟨p.fold state e, e.position⟩) := by
  have hposition := h.position he
  have hfind : (c.insert s ⟨p.fold state e, e.position⟩).find? s
      = some ⟨p.fold state e, e.position⟩ := by
    rw [find?_insert hc.capacity, if_pos rfl]
  refine ⟨capacity_insert.trans hc.capacity, fun _ => ?_, fun hs' => ?_, fun x hx => ?_,
    fun x hx => ?_, fun _ hnone => ?_⟩
  · rw [hfind, Nat.max_eq_right (Nat.le_succ_of_le hn), Log.early_succ he, if_pos hes,
      Projector.foldAll_append, ← hstate]
    rfl
  · rw [hs] at hs'
    cases hs'
  · rw [hfind] at hx
    cases hx
    show e.position.val < _
    omega
  · rw [hfind] at hx
    cases hx
    intro e' _ _ hlt
    show e'.position.val ≤ e.position.val
    omega
  · rw [hfind] at hnone
    cases hnone

/-- An event of the stream that has no entry is none of what was loaded. -/
theorem unloaded (hc : Reflects p log s loaded n c) (h : Log.Numbered log) (he : log[n]? = some e)
    (hes : e.stream = s) (hs : p.concerns s = true) (hnone : c.find? s = none) : loaded ≤ n := by
  refine Nat.le_of_not_lt fun hlt => ?_
  have hmem : e ∈ Log.early log s loaded := by
    refine (Log.mem_early h).mpr ⟨List.mem_of_getElem? he, hes, ?_⟩
    rw [h.position he]
    exact hlt
  rw [hc.missing hs hnone] at hmem
  cases hmem

/-- A live event leaves its stream as if it had been loaded with the others, and all other streams
alone. If it is an outcome, then it is left out. -/
theorem applied {cache : Cache S} {earlier : Page A}
    (hc : Reflects p log s loaded n cache.entries) (h : Log.Numbered log) (he : log[n]? = some e)
    (hfate : cache.Fate p e earlier c')
    (hread : cache.examine p e = .backfill → earlier = .ok (Log.early log e.stream n))
    (hinert : e.stream = s → loaded ≤ n → ∀ o, e.payload.outcome? = some o →
      ∀ state, p.fold state e = state) : Reflects p log s loaded (n + 1) c' := by
  have hposition := h.position he
  by_cases hes : e.stream = s
  · subst hes
    -- an event that was loaded adds nothing to the fold
    have hloaded (hlt : n < loaded) : Log.early log e.stream (max loaded (n + 1))
        = Log.early log e.stream (max loaded n) := by
      rw [Nat.max_eq_left hlt, Nat.max_eq_left (Nat.le_of_lt hlt)]
    have hmax (hn : loaded ≤ n) : max loaded n = n := Nat.max_eq_right hn
    cases hfate with
    | outcome o ho =>
      refine hc.pass hc.capacity rfl fun _ => ?_
      by_cases hlt : n < loaded
      · rw [hloaded hlt]
      · have hn := Nat.le_of_not_lt hlt
        rw [hmax hn, Nat.max_eq_right (Nat.le_succ_of_le hn), Log.early_succ he, if_pos rfl,
          Projector.foldAll_append, hinert rfl hn o ho]
    | foreign hs =>
      refine hc.pass hc.capacity rfl fun hs' => ?_
      rw [hs] at hs'
      cases hs'
    | known held hf hle =>
      refine hc.pass hc.capacity rfl fun _ => ?_
      have hbehind := hc.behind held hf
      have hlt : n < loaded := by
        have : e.position.val ≤ held.position.val := hle
        omega
      rw [hloaded hlt]
    | unread failure _ _ hx hfail =>
      rw [hread hx] at hfail
      cases hfail
    | onto held hs hf hlt =>
      have hn : loaded ≤ n := by
        refine Nat.le_of_not_lt fun hlt' => Nat.not_lt_of_le ?_ hlt
        exact hc.abreast held hf e (List.mem_of_getElem? he) rfl (hposition ▸ hlt')
      have hstate := hc.state hs
      rw [hf, hmax hn] at hstate
      exact hc.fold h he rfl hs hn hstate
    | fresh hs hf _ =>
      have hn := hc.unloaded h he rfl hs hf
      have hstate := hc.state hs
      rw [hf, hmax hn] at hstate
      exact hc.fold h he rfl hs hn hstate
    | backfilled events hs hf hx hok =>
      rw [hread hx] at hok
      cases hok
      exact hc.fold h he rfl hs (hc.unloaded h he rfl hs hf) rfl
  · have hother : Log.early log s (max loaded (n + 1)) = Log.early log s (max loaded n) := by
      by_cases hlt : n < loaded
      · rw [Nat.max_eq_left hlt, Nat.max_eq_left (Nat.le_of_lt hlt)]
      · have hn := Nat.le_of_not_lt hlt
        rw [Nat.max_eq_right hn, Nat.max_eq_right (Nat.le_succ_of_le hn), Log.early_succ he,
          if_neg hes, List.append_nil]
    have hfold : p.concerns s = true → p.foldAll none (Log.early log s (max loaded (n + 1)))
        = p.foldAll none (Log.early log s (max loaded n)) := fun _ => by rw [hother]
    have hinsert (state : Option S) : Reflects p log s loaded (n + 1)
        (cache.entries.insert e.stream ⟨p.fold state e, e.position⟩) :=
      hc.pass (capacity_insert.trans hc.capacity)
        (by rw [find?_insert hc.capacity, if_neg (Ne.symm hes)]) hfold
    cases hfate with
    | outcome _ _ => exact hc.pass hc.capacity rfl hfold
    | foreign _ => exact hc.pass hc.capacity rfl hfold
    | known _ _ _ => exact hc.pass hc.capacity rfl hfold
    | unread _ _ _ _ _ => exact hc.pass hc.capacity rfl hfold
    | onto held _ _ _ => exact hinsert held.state
    | fresh _ _ _ => exact hinsert none
    | backfilled events _ _ _ _ => exact hinsert _

end Collection.Reflects

/-! ## One delivery after another -/

namespace ReadModel

variable [DecidableEq S] {m : ReadModel A S} {store : Store A} {e : Event A} {loaded n : Nat}

def follow (m : ReadModel A S) : List (Store A × Event A) → ReadModel A S
  | [] => m
  | (store, e) :: rest => (m.applyNow store e).model.follow rest

/-- Deliveries of a log in its order. When an event comes, the store holds the log as far as that
event at least, and reads of streams do not fail. -/
structure Delivers (log : List (Event A)) (deliveries : List (Store A × Event A)) : Prop where
  events : deliveries.map Prod.snd = log
  stores : ∀ n (store : Store A) e, deliveries[n]? = some (store, e) →
    store.streamFaults = [] ∧ ∃ k, n < k ∧ store.Keeps (log.take k)

/-- The first `n` events of a log were delivered to a read model that keeps every entry, and were
loaded as far as `loaded` before that. -/
structure Abreast (p : Projector A S) (log : List (Event A)) (s : StreamId) (loaded n : Nat)
    (m : ReadModel A S) : Prop where
  projector : m.projector = p
  mark : ∀ q, Position.reached m.cache.highWater q = true ↔ q.val < n
  reflects : m.cache.entries.Reflects p log s loaded n

/-- A live event that takes a read of its stream is applied with all that the stream has before
it. -/
theorem applyNow_reading {k : Nat} (h : store.Keeps (log.take k)) (hq : store.streamFaults = [])
    (he : log[n]? = some e) (hn : n < k) :
    ∃ earlier, (m.applyNow store e).model = (m.apply e earlier).1 ∧
      (m.cache.examine m.projector e = .backfill → earlier = .ok (Log.early log e.stream n)) := by
  have he' : (log.take k)[n]? = some e := by rw [List.getElem?_take_of_lt hn, he]
  unfold applyNow
  by_cases hneeds : m.needsRead e = true
  · rw [if_pos hneeds]
    refine ⟨_, rfl, fun _ => ?_⟩
    rw [h.page_readStream, hq, Log.below_eq_early h.numbered, h.numbered.position he',
      Log.early_take (Nat.le_of_lt hn)]
    rfl
  · rw [if_neg hneeds]
    exact ⟨.ok [], rfl, fun hx => absurd (needsRead_iff.mpr hx) hneeds⟩

theorem Abreast.step (hm : Abreast p log s loaded n m) (h : Log.Numbered log)
    (he : log[n]? = some e) {k : Nat} (hn : n < k) (hstore : store.Keeps (log.take k))
    (hq : store.streamFaults = [])
    (hinert : e.stream = s → loaded ≤ n → ∀ o, e.payload.outcome? = some o →
      ∀ state, p.fold state e = state) :
    Abreast p log s loaded (n + 1) (m.applyNow store e).model := by
  obtain ⟨earlier, hmodel, hread⟩ := applyNow_reading (m := m) hstore hq he hn
  have hposition := h.position he
  have hunreached : Position.reached m.cache.highWater e.position = false := by
    rw [Bool.eq_false_iff]
    intro hreached
    have := (hm.mark _).mp hreached
    omega
  have hcache : (m.apply e earlier).1.cache = (m.cache.apply p e earlier).1 := by
    rw [cache_apply, hm.projector]
  rw [hm.projector] at hread
  rw [hmodel]
  refine ⟨(projector_apply _).trans hm.projector, fun q => ?_, ?_⟩
  · rw [hcache, Cache.reached_apply hunreached, hm.mark]
    have : q ≤ e.position ↔ q.val ≤ n := by
      show q.val ≤ e.position.val ↔ _
      rw [hposition]
    rw [this]
    omega
  · rw [hcache]
    exact hm.reflects.applied h he (Cache.apply_fate hunreached earlier) hread hinert

/-- The rest of the deliveries, of which the first `n` were made. -/
theorem Abreast.follow (h : Log.Numbered log) {deliveries : List (Store A × Event A)}
    (hd : Delivers log deliveries)
    (hinert : ∀ e ∈ log, e.stream = s → loaded ≤ e.position.val → ∀ o,
      e.payload.outcome? = some o → ∀ state, p.fold state e = state) :
    ∀ {rest : List (Store A × Event A)} {n : Nat} {m : ReadModel A S},
      rest = deliveries.drop n → Abreast p log s loaded n m →
        Abreast p log s loaded (n + rest.length) (m.follow rest) := by
  intro rest
  induction rest with
  | nil => intro n m _ hm; exact hm
  | cons delivery rest ih =>
    obtain ⟨store, e⟩ := delivery
    intro n m hrest hm
    have hat : deliveries[n]? = some (store, e) := by
      rw [← List.head?_drop, ← hrest]
      rfl
    obtain ⟨hq, k, hn, hstore⟩ := hd.stores n store e hat
    have he : log[n]? = some e := by
      rw [← hd.events, List.getElem?_map, hat]
      rfl
    have hstep := hm.step h he hn hstore hq fun hes hle =>
      hinert e (List.mem_of_getElem? he) hes (by rw [h.position he]; exact hle)
    have htail : rest = deliveries.drop (n + 1) := by
      rw [← List.tail_drop, ← hrest]
      rfl
    have := ih htail hstep
    rw [List.length_cons, Nat.add_comm rest.length 1, ← Nat.add_assoc]
    exact this

/-- A read model that has nothing, or what a load of the first events of a log has left. -/
inductive Starts (p : Projector A S) (log : List (Event A)) : Nat → ReadModel A S → Prop where
  | empty : Starts p log 0 (new p .unbounded)
  | loaded (n : Nat) (store : Store A) (all : List (StreamId × S)) : n ≤ log.length →
      store.Keeps (log.take n) → 0 < store.pageSize →
      (∀ q f, (q, f) ∈ store.readFaults → f.isTemporary = true) →
      ((new p .unbounded).getAll store).answer = .ok all →
      Starts p log n ((new p .unbounded).getAll store).model

omit [DecidableEq S] in
theorem Starts.abreast (hm : Starts p log loaded m) (h : Log.Numbered log) :
    Abreast p log s loaded 0 m := by
  have hmark (c : Cache S) (hc : c.highWater = none) (q : Position) :
      Position.reached c.highWater q = true ↔ q.val < 0 := by
    simp [hc, Position.reached]
  cases hm with
  | empty => exact ⟨rfl, hmark _ rfl, .of_new⟩
  | loaded _ store all hlen hstore hsize hfaults hall =>
    rw [loaded_new hstore hsize hfaults hall]
    exact ⟨rfl, hmark _ Cache.highWater_loaded, .of_loaded h hlen⟩

omit [DecidableEq S] in
/-- What a lookup answers when the whole log was delivered or loaded is what is held, also where it
has to read. -/
theorem Abreast.get (hm : Abreast p log s loaded n m) (h : store.Keeps log)
    (hq : store.streamFaults = []) (hn : log.length ≤ max loaded n) :
    (m.get store s).answer = .ok ((m.cache.entries.find? s).bind (·.state)) := by
  have hgot := got_get (m := m) h s
  rw [hq] at hgot
  have hfold (hs : p.concerns s = true) :
      (m.cache.entries.find? s).bind (·.state) = p.foldAll none (Log.early log s log.length) := by
    rw [hm.reflects.state hs, Log.early_of_length_le hn, Log.early_of_length_le (Nat.le_refl _)]
  generalize (m.get store s).answer = answer, (m.get store s).model = model at hgot
  cases hgot with
  | known state hknown =>
    unfold known? Cache.known? at hknown
    cases hf : m.cache.entries.find? s with
    | some x =>
      rw [hf] at hknown
      cases hknown
      rfl
    | none =>
      simp only [hf] at hknown
      split at hknown <;> cases hknown
      rfl
  | failed failure hfault => cases hfault
  | read hknown hdigested =>
    have hs := concerns_of_unknown hknown
    rw [hm.projector] at hs
    cases hdigested with
    | failed failure hpage => cases hpage
    | empty hempty =>
      rw [hfold hs, Except.ok.inj hempty]
      rfl
    | kept events x hpage hx =>
      rw [hm.projector, ← Except.ok.inj hpage] at hx
      have hnone : m.cache.entries.find? s = none := by
        unfold known? Cache.known? at hknown
        cases hf : m.cache.entries.find? s with
        | some held => rw [hf] at hknown; cases hknown
        | none => rfl
      have hkept : (m.keep s x).2 = x.state := by
        show (m.cache.keep s x).answer s x = x.state
        rw [Cache.keep, hnone, Cache.answer, Collection.find?_insert hm.reflects.capacity, if_pos rfl]
      rw [hkept, hfold hs, ← Projector.entry?_state, hx]
      rfl

/-- A whole log that was delivered event by event, to a read model that keeps every entry and has
nothing or what a load of a beginning of the log has left, has come to what a new read model loads
from it at once, in every stream in which each outcome that was not loaded before leaves the state
as it is. -/
theorem delivered_as_loaded (hm : Starts p log loaded m) (hstore : store.Keeps log)
    (hsize : 0 < store.pageSize) (hreads : store.readFaults = [])
    (hstreams : store.streamFaults = []) {deliveries : List (Store A × Event A)}
    (hd : Delivers log deliveries) :
    ∃ all, ((new p .unbounded).getAll store).answer = .ok all ∧
      (all.Pairwise fun a b => a.1 ≠ b.1) ∧
      ∀ s, (∀ e ∈ log, e.stream = s → loaded ≤ e.position.val → ∀ o,
          e.payload.outcome? = some o → ∀ state, p.fold state e = state) →
        ((m.follow deliveries).cache.entries.find? s).bind (·.state) = all.lookup s ∧
        ((m.follow deliveries).get store s).answer = .ok (all.lookup s) := by
  have hnumbered := hstore.numbered
  have hload := Loading.load_quiet (p := p) (hstore.files.decodes.numbered hnumbered) hsize hreads
  have hbegins : store.contents.failure? 0 = none := by
    rw [← Option.not_isSome_iff_eq_none, Contents.failure?_isSome, hstore.files.decodes.slots_eq]
    simp
  rw [hbegins, hstore.events_eq] at hload
  have hunloaded : (new p .unbounded : ReadModel A S).cache.allLoaded = false := rfl
  have hanswer : ((new p .unbounded).getAll store).answer = .ok (Cache.loaded p log).states :=
    (getAllIn_of_ok hunloaded hload id).1
  refine ⟨_, hanswer, Cache.distinct_states Cache.distinct_loaded, fun s hinert => ?_⟩
  have hlength : deliveries.length = log.length := by
    rw [← hd.events, List.length_map]
  have hfollowed := (hm.abreast (s := s) hnumbered).follow hnumbered hd hinert
    (List.drop_zero (l := deliveries)).symm
  rw [Nat.zero_add, hlength] at hfollowed
  have hstate : ((m.follow deliveries).cache.entries.find? s).bind (·.state)
      = (Cache.loaded p log).states.lookup s := by
    rw [Cache.lookup_loaded]
    by_cases hs : p.concerns s = true
    · rw [if_pos hs, hfollowed.reflects.state hs, Log.early_of_length_le (Nat.le_max_right _ _)]
    · rw [if_neg hs, hfollowed.reflects.foreign (by simpa using hs)]
      rfl
  exact ⟨hstate, by rw [hfollowed.get hstore hstreams (Nat.le_max_right _ _), hstate]⟩

def deliveriesOf (store : Store A) : List (Store A × Event A) := store.events.map (store, ·)

/-- Counts the outcomes of every command. -/
def outcomeCount : Projector Notes.Fact Int64 where
  concerns s := s.isOf Outcome.category
  fold state _ := some (state.getD 0 + 1)

/-- Commands that have ended, the first `count` of them. -/
def ended (count : Nat) : Store Notes.Fact :=
  ((Store.ofPayloads 0).write ([.outcome ⟨.ofNat 1, .ok "done"⟩,
    .outcome ⟨.ofNat 2, .ok "done"⟩].take count)).2

theorem keeps_ended {count : Nat} (h : count = 1 ∨ count = 2) :
    (ended count).Keeps ((ended 2).events.take count) := by
  rcases h with rfl | rfl <;> exact ⟨⟨rfl, rfl⟩, by decide, by decide⟩

theorem starts_ended :
    Starts outcomeCount (ended 2).events 1 ((new outcomeCount .unbounded).getAll (ended 1)).model :=
  .loaded 1 (ended 1) _ (by decide) (keeps_ended (.inl rfl)) (by decide) nofun rfl

theorem delivers_ended : Delivers (ended 2).events (deliveriesOf (ended 2)) where
  events := rfl
  stores n store e h := by
    have hmem := List.mem_of_getElem? h
    obtain ⟨_, -, hstore⟩ := List.mem_map.mp hmem
    cases hstore
    refine ⟨rfl, 2, (List.getElem?_eq_some_iff.mp h).1, keeps_ended (.inr rfl)⟩

/-- The outcome that was loaded before all are delivered counts. -/
theorem ended_delivered_as_loaded :
    ∃ all, ((new outcomeCount .unbounded).getAll (ended 2)).answer = .ok all ∧
      all.lookup (Outcome.streamOf (.ofNat 1)) = some 1 ∧
      ((((new outcomeCount .unbounded).getAll (ended 1)).model.follow
        (deliveriesOf (ended 2))).get (ended 2) (Outcome.streamOf (.ofNat 1))).answer
          = .ok (all.lookup (Outcome.streamOf (.ofNat 1))) := by
  obtain ⟨all, hall, -, hsame⟩ := delivered_as_loaded starts_ended
    (keeps_ended (.inr rfl)) (by decide) rfl rfl delivers_ended
  have hfirst : ∀ e ∈ (ended 2).events, e.stream = Outcome.streamOf (.ofNat 1) →
      e.position.val < 1 := by decide
  refine ⟨all, hall, ?_, (hsame _ fun e he hes hle => ?_).2⟩
  · cases hall
    decide
  · exact absurd (hfirst e he hes) (Nat.not_lt_of_le hle)

/-- A topic's number that is kept under another topic, for which there is one as well. -/
def misfiled : Store Notes.Fact where
  contents := .records ⟨[("Noted.v1", ⟨.fact .noted, "Noted"⟩)]⟩
    [⟨.ofNat 0, 0, ⟨"Topic", "a"⟩, true, "Noted.v1",
        [1, 0, 0, 0, 0, 0, 0, 0, 99, 5, 0, 0, 0, 0, 0, 0, 0]⟩,
      ⟨.ofNat 1, 0, ⟨"Topic", "b"⟩, true, "Noted.v1",
        [1, 0, 0, 0, 0, 0, 0, 0, 98, 1, 0, 0, 0, 0, 0, 0, 0]⟩,
      ⟨.ofNat 2, 0, ⟨"Topic", "b"⟩, false, "Noted.v1",
        [1, 0, 0, 0, 0, 0, 0, 0, 97, 2, 0, 0, 0, 0, 0, 0, 0]⟩]
  clock := 0

/-- Where a load counts an outcome, a delivery leaves it out. And where a record is kept under a
stream that is not its event's, a delivery folds it into the one and a load into the other. -/
theorem delivery_differs_from_load :
    (∃ all, ((new outcomeCount .unbounded).getAll (ended 2)).answer = .ok all ∧
      all.lookup (Outcome.streamOf (.ofNat 2)) = some 1 ∧
      ((((new outcomeCount .unbounded).getAll (ended 1)).model.follow
        (deliveriesOf (ended 2))).get (ended 2) (Outcome.streamOf (.ofNat 2))).answer
          = .ok none) ∧
    ∃ all, ((new Notes.projector .unbounded).getAll misfiled).answer = .ok all ∧
      all.lookup ⟨"Topic", "a"⟩ = some 2 ∧
      (((new Notes.projector .unbounded).follow (deliveriesOf misfiled)).get misfiled
        ⟨"Topic", "a"⟩).answer = .ok (some 7) := by
  exact ⟨⟨_, rfl, by decide, rfl⟩, _, rfl, by decide, rfl⟩

end ReadModel
end Chronicle
