import Chronicle.Proofs.Log.Filing
import Chronicle.Proofs.Projection.Answering
import Chronicle.Proofs.Projection.Loading
import Chronicle.Proofs.Projection.Reading
import Mathlib.Data.List.Sort

/-!
# Chronicle.Proofs.Projection.Sessions

A read model whose operations follow one another, each taken when the one before it has come to its
end. The log grows in between, entries are evicted and dropped, and reads are made to fail for now.

* `Got`, `Applied`, `LoadedAll`: what one operation does to the read model, given the log.
* `Session.Current`: the entries are exact and not behind the events that were applied, and where
  everything was loaded a stream without an entry has no event among those. Every operation keeps
  that, for every collection (`Current.step`).

Where a stream has no entry although its events were applied, because the entry was evicted or
dropped or because an event could not read what it needed, the next operation on the stream finds
that out and reads the log: nothing is ever folded onto a gap (`Session.stays_exact`).
-/

namespace Chronicle

variable {A S : Type} [Vocabulary A] {p : Projector A S} {log : List (Event A)}

/-! ## Single operations -/

/-- What a lookup comes to, and what it leaves. -/
inductive ReadModel.Got (m : ReadModel A S) (log : List (Event A)) (fault : Option ReadFailure)
    (s : StreamId) : Except RuntimeError (Option S) → ReadModel A S → Prop where
  | known (state : Option S) : m.known? s = some state → Got m log fault s (.ok state) m
  | failed (failure : ReadFailure) : fault = some failure →
      Got m log fault s (.error (.read failure)) m
  | read {answer : Except RuntimeError (Option S)} {m' : ReadModel A S} : m.known? s = none →
      m.Digested s (.ok (Log.early log s log.length)) answer m' → Got m log fault s answer m'

theorem Log.Numbered.below_last_eq (h : Log.Numbered log) (s : StreamId) :
    Log.below log s Position.last = Log.early log s log.length := by
  have := h.1
  rw [Log.below_eq_early h, Log.early_of_length_le (Nat.le_refl _), Log.early_of_length_le]
  show log.length ≤ 0xffffffffffffffff
  omega

namespace ReadModel

variable {m : ReadModel A S} {store : Store A}

theorem got_get (h : store.Keeps log) (s : StreamId) :
    m.Got log store.streamFaults.head? s (m.get store s).answer (m.get store s).model := by
  unfold get
  cases hknown : m.known? s with
  | some state => exact .known state hknown
  | none =>
    have hpage : (store.readStream s Position.last).page = _ := h.page_readStream
    rw [h.numbered.below_last_eq] at hpage
    dsimp only
    rw [hpage]
    cases hfault : store.streamFaults.head? with
    | some failure => exact .failed failure rfl
    | none => exact .read hknown (m.digested_digest s _)

/-- A projection up to a bound is not kept, unless the bound bounds nothing. -/
theorem got_getUpTo (h : store.Keeps log) (s : StreamId) (bound : Position) :
    (m.getUpTo store s bound).model = m ∨
      m.Got log store.streamFaults.head? s (m.getUpTo store s bound).answer
        (m.getUpTo store s bound).model := by
  unfold getUpTo
  by_cases hlast : bound.isLast = true
  · rw [if_pos hlast]
    exact .inr (got_get h s)
  · rw [if_neg hlast]
    exact .inl rfl

theorem Got.of_error {m' : ReadModel A S} {fault : Option ReadFailure} {s : StreamId}
    {error : RuntimeError} (h : m.Got log fault s (.error error) m') :
    m' = m ∧ ∃ failure, fault = some failure ∧ error = .read failure := by
  cases h with
  | failed failure hfault => exact ⟨rfl, failure, hfault, rfl⟩
  | read _ hdigested =>
    cases hdigested with
    | failed failure hpage => cases hpage

/-- What loading everything comes to, and what it leaves. -/
inductive LoadedAll (m : ReadModel A S) (log : List (Event A))
    (faults : List (Position × ReadFailure))
    (arrange : List (StreamId × Entry S) → List (StreamId × Entry S)) :
    Except RuntimeError (List (StreamId × S)) → ReadModel A S → Prop where
  | known : m.cache.allLoaded = true → LoadedAll m log faults arrange (.ok m.cache.states) m
  | failed (q : Position) (failure : ReadFailure) : (q, failure) ∈ faults →
      LoadedAll m log faults arrange (.error (.read failure)) m
  | kept : m.cache.allLoaded = false →
      LoadedAll m log faults arrange
        (.ok (m.cache.keepLoaded (arrange (Loading.entriesOf m.projector log))).states)
        { m with cache := m.cache.keepLoaded (arrange (Loading.entriesOf m.projector log)) }

variable {arrange : List (StreamId × Entry S) → List (StreamId × Entry S)}

theorem LoadedAll.of_error {m' : ReadModel A S} {faults : List (Position × ReadFailure)}
    {error : RuntimeError} (h : m.LoadedAll log faults arrange (.error error) m') : m' = m := by
  cases h with
  | failed q failure hfault => rfl

theorem loadedAll_getAllIn (arrange : List (StreamId × Entry S) → List (StreamId × Entry S))
    (h : store.Keeps log) (hsize : 0 < store.pageSize)
    (hfaults : ∀ q f, (q, f) ∈ store.readFaults → f.isTemporary = true) :
    m.LoadedAll log store.readFaults arrange (m.getAllIn arrange store).answer
      (m.getAllIn arrange store).model := by
  cases hall : m.cache.allLoaded with
  | true =>
    rw [getAllIn_of_allLoaded hall arrange]
    exact .known hall
  | false =>
    have hnumbered := h.files.decodes.numbered h.numbered
    have hout := (Loading.load_ends (p := m.projector) hnumbered hsize hfaults).2
    have hbegins : store.contents.failure? 0 = none := by
      rw [← Option.not_isSome_iff_eq_none, Contents.failure?_isSome, h.files.decodes.slots_eq]
      simp
    generalize hload : (Loading.load m.projector store).outcome = outcome at hout
    cases hout with
    | whole _ =>
      rw [← Store.events_eq_reduceOption, h.events_eq] at hload
      obtain ⟨hanswer, hmodel⟩ := getAllIn_of_ok hall hload arrange
      rw [hanswer, hmodel]
      exact .kept hall
    | headless failure hhead => rw [hbegins] at hhead; cases hhead
    | fault q failure hfault =>
      obtain ⟨hanswer, hmodel⟩ := getAllIn_of_error hall hload arrange
      rw [hanswer, hmodel]
      exact .failed q failure hfault

variable [DecidableEq S]

/-- A live event is applied with what its stream held before it, if that takes a read. -/
theorem applyNow_model (h : store.Keeps log) {n : Nat} {e : Event A} (he : log[n]? = some e) :
    ∃ earlier, (m.applyNow store e).model = (m.apply e earlier).1 ∧
      (m.cache.examine m.projector e = .backfill → ∀ events, earlier = .ok events →
        events = Log.early log e.stream n) := by
  unfold applyNow
  by_cases hneeds : m.needsRead e = true
  · rw [if_pos hneeds]
    refine ⟨_, rfl, fun _ events hpage => ?_⟩
    rw [h.page_readStream] at hpage
    cases hfault : store.streamFaults.head? with
    | some failure => rw [hfault] at hpage; cases hpage
    | none =>
      rw [hfault] at hpage
      cases hpage
      rw [Log.below_eq_early h.numbered, h.numbered.position he]
  · rw [if_neg hneeds]
    refine ⟨.ok [], rfl, fun hx => ?_⟩
    rw [← needsRead_iff] at hx
    exact absurd hx hneeds

end ReadModel

/-! ## Exact and abreast -/

theorem Collection.Covers.of_le {c : Collection S} {m n : Nat} (hc : c.Covers p log n)
    (hmn : m ≤ n) : c.Covers p log m where
  capacity := hc.capacity
  covered e he hlt := hc.covered e he (Nat.lt_of_lt_of_le hlt hmn)

/-- After everything was loaded, every stream of the log that concerns the projector is covered. -/
theorem Collection.Covers.of_allLoaded {cache : Cache S} {folded : List (StreamId × Entry S)}
    (h : Log.Numbered log) (hfolded : Loading.Folded p log folded)
    (hall : (cache.keepLoaded folded).allLoaded = true) :
    (cache.keepLoaded folded).entries.Covers p log log.length := by
  rw [← List.take_length (l := log)] at hfolded
  refine .of_loaded ?_ h hfolded (Nat.le_refl _) (Nat.le_refl _) (.refl _)
  have hretains : (cache.keepLoaded folded).entries.retainsAll = true := hall
  unfold Collection.retainsAll at hretains
  rw [Cache.capacity_keepLoaded] at hretains
  simpa using hretains

structure Session (A S : Type) [Vocabulary A] where
  store : Store A
  model : ReadModel A S
  /-- How many events of the log were applied. -/
  applied : Nat := 0

namespace Session

def start (p : Projector A S) (entries : Collection S) (store : Store A) : Session A S :=
  { store, model := .new p entries }

/-- The entries are exact, and not behind the events that were applied. After everything was loaded
a missing entry means that the stream has no event among those. -/
structure Current (p : Projector A S) (log : List (Event A)) (t : Session A S) : Prop where
  keeps : t.store.Keeps log
  sized : 0 < t.store.pageSize
  faults : ∀ q f, (q, f) ∈ t.store.readFaults → f.isTemporary = true
  projector : t.model.projector = p
  bounded : t.applied ≤ log.length
  mark : ∀ q, Position.reached t.model.cache.highWater q = true ↔ q.val < t.applied
  roomy : t.model.cache.entries.Roomy
  exact : t.model.cache.entries.Exact p log
  abreast : t.model.cache.entries.Abreast p log t.applied
  whole : t.model.cache.allLoaded = true → t.model.cache.entries.Covers p log t.applied

namespace Current

variable {t t' : Session A S}

theorem of_start {c : Collection S} (hc : c.Roomy) (hnil : c.entries = []) {store : Store A}
    (h : store.Keeps log) (hsize : 0 < store.pageSize)
    (hfaults : ∀ q f, (q, f) ∈ store.readFaults → f.isTemporary = true) :
    Current p log (start p c store) where
  keeps := h
  sized := hsize
  faults := hfaults
  projector := rfl
  bounded := Nat.zero_le _
  mark q := by simp [start, ReadModel.new, Cache.new, Position.reached]
  roomy := hc
  exact s x hx := by
    have : (s, x) ∈ c.entries := hx
    rw [hnil] at this
    cases this
  abreast := .of_entries_eq_nil hnil
  whole hall := by cases hall

/-- Reads change nothing but what is to fail. -/
theorem reading (ht : Current p log t) {store : Store A} (h : t.store.After store) :
    Current p log { t with store } where
  keeps := ht.keeps.after h
  sized := by
    show 0 < store.pageSize
    rw [h.pageSize]
    exact ht.sized
  faults q f hf := ht.faults q f (h.faults hf)
  projector := ht.projector
  bounded := ht.bounded
  mark := ht.mark
  roomy := ht.roomy
  exact := ht.exact
  abreast := ht.abreast
  whole := ht.whole

theorem growing (ht : Current p log t) {store : Store A} {more : List (Event A)}
    (h : store.Keeps (log ++ more)) (hsize : store.pageSize = t.store.pageSize)
    (hfaults : store.readFaults = t.store.readFaults) :
    Current p (log ++ more) { t with store } where
  keeps := h
  sized := by
    show 0 < store.pageSize
    rw [hsize]
    exact ht.sized
  faults q f hf := ht.faults q f (hfaults ▸ hf)
  projector := ht.projector
  bounded := by
    show t.applied ≤ (log ++ more).length
    have := ht.bounded
    rw [List.length_append]
    omega
  mark := ht.mark
  roomy := ht.roomy
  exact := ht.exact.append h.numbered
  abreast := ht.abreast.append ht.bounded h.numbered
  whole hall := (ht.whole hall).append ht.bounded h.numbered

/-- What is found in the log of a stream has every event of the stream that was applied. -/
theorem found (ht : Current p log t) {s : StreamId} {x : Entry S}
    (hx : p.entry? (Log.early log s log.length) = some x) :
    x.Exact p log s ∧ AtOrBeyond log s t.applied x.position := by
  obtain ⟨hexact, -, hbeyond⟩ := entry?_early ht.keeps.numbered log.length (Nat.le_refl _) hx
  exact ⟨hexact, fun e he hs hlt => hbeyond e he hs (Nat.lt_of_lt_of_le hlt ht.bounded)⟩

/-- The entries are written, and what was applied stays as it is. -/
theorem writing (ht : Current p log t) {model : ReadModel A S} (hp : model.projector = p)
    (hw : model.cache.highWater = t.model.cache.highWater)
    (hc : model.cache.entries.capacity = t.model.cache.entries.capacity)
    (hexact : model.cache.entries.Exact p log)
    (habreast : model.cache.entries.Abreast p log t.applied)
    (hwhole : model.cache.allLoaded = true → model.cache.entries.Covers p log t.applied) :
    Current p log { t with model } where
  keeps := ht.keeps
  sized := ht.sized
  faults := ht.faults
  projector := hp
  bounded := ht.bounded
  mark q := by
    show Position.reached model.cache.highWater q = true ↔ _
    rw [hw]
    exact ht.mark q
  roomy n hn := ht.roomy n (hc.symm.trans hn)
  exact := hexact
  abreast := habreast
  whole := hwhole

/-- What was read may be kept whatever is known of the stream by now. -/
theorem digested (ht : Current p log t) {s : StreamId} (hs : p.concerns s = true)
    {answer : Except RuntimeError (Option S)} {model : ReadModel A S}
    (h : t.model.Digested s (.ok (Log.early log s log.length)) answer model) :
    Current p log { t with model } := by
  cases h with
  | failed _ _ => exact ht
  | empty _ => exact ht
  | kept events x hpage hx =>
    rw [ht.projector, ← Except.ok.inj hpage] at hx
    obtain ⟨hexact, hbeyond⟩ := ht.found hx
    refine ht.writing ht.projector Cache.highWater_keep Cache.capacity_keep (ht.exact.keep hexact)
      (ht.abreast.keep hs fun _ => hbeyond) fun hall => ?_
    exact (ht.whole (Cache.allLoaded_keep.symm.trans hall)).keep s x

theorem got (ht : Current p log t) {fault : Option ReadFailure} {s : StreamId}
    {answer : Except RuntimeError (Option S)} {model : ReadModel A S}
    (h : t.model.Got log fault s answer model) : Current p log { t with model } := by
  cases h with
  | known state _ => exact ht
  | failed failure _ => exact ht
  | read hknown hdigested =>
    exact ht.digested (ht.projector ▸ ReadModel.concerns_of_unknown hknown) hdigested

theorem loadedAll (ht : Current p log t) {faults : List (Position × ReadFailure)}
    {arrange : List (StreamId × Entry S) → List (StreamId × Entry S)}
    (harrange : Loading.Arranges arrange)
    {answer : Except RuntimeError (List (StreamId × S))} {model : ReadModel A S}
    (h : t.model.LoadedAll log faults arrange answer model) : Current p log { t with model } := by
  cases h with
  | known _ => exact ht
  | failed q failure _ => exact ht
  | kept _ =>
    rw [ht.projector]
    have hnumbered := ht.keeps.numbered
    have hfolded := (Loading.folded_entriesOf (p := p) log).arranged harrange
    have hexact := fun s x (hx : (s, x) ∈ arrange (Loading.entriesOf p log)) =>
      Loading.entriesOf_exact hnumbered ((harrange _).mem_iff.mp hx)
    refine ht.writing rfl Cache.highWater_keepLoaded Cache.capacity_keepLoaded
      (ht.exact.keepLoaded fun s x hx => (hexact s x hx).2.1)
      (ht.abreast.keepLoaded fun s x hx => ?_)
      fun hall => (Collection.Covers.of_allLoaded hnumbered hfolded hall).of_le ht.bounded
    obtain ⟨hs, -, hbeyond⟩ := hexact s x hx
    exact ⟨hs, fun e he hes hlt => hbeyond e he hes (Nat.lt_of_lt_of_le hlt ht.bounded)⟩

/-- What is known without a read has every event that was applied. -/
theorem foldsTo_known (ht : Current p log t) {s : StreamId} (hs : p.concerns s = true)
    {state : Option S} (hk : t.model.known? s = some state) : p.FoldsTo log t.applied s state := by
  unfold ReadModel.known? Cache.known? at hk
  cases hf : t.model.cache.entries.find? s with
  | some x =>
    rw [hf] at hk
    cases hk
    have hx := Collection.mem_of_find? hf
    exact (ht.exact s x hx).foldsTo ht.keeps.numbered ht.bounded (ht.abreast.beyond s x hx)
  | none =>
    simp only [hf, ht.projector, hs, Bool.not_true, Bool.or_false] at hk
    split at hk
    · rename_i hall
      cases hk
      exact Projector.foldsTo_none ht.bounded
        ((ht.whole hall).early_eq_nil ht.keeps.numbered hs hf)
    · cases hk

theorem foldsTo_digested (ht : Current p log t) {s : StreamId} (hs : p.concerns s = true)
    {state : Option S} {model : ReadModel A S}
    (h : t.model.Digested s (.ok (Log.early log s log.length)) (.ok state) model) :
    p.FoldsTo log t.applied s state := by
  have hkept := ht.digested hs h
  cases h with
  | empty hempty =>
    exact ⟨log.length, ht.bounded, Nat.le_refl _, by rw [Except.ok.inj hempty]; rfl⟩
  | kept events x hpage hx =>
    rw [ht.projector, ← Except.ok.inj hpage] at hx
    obtain ⟨hexact, hbeyond⟩ := ht.found hx
    show p.FoldsTo log t.applied s ((t.model.cache.keep s x).answer s x)
    unfold Cache.answer
    cases hf : (t.model.cache.keep s x).entries.find? s with
    | none => exact hexact.foldsTo ht.keeps.numbered ht.bounded hbeyond
    | some y =>
      have hy := Collection.mem_of_find? hf
      exact (hkept.exact s y hy).foldsTo ht.keeps.numbered ht.bounded (hkept.abreast.beyond s y hy)

theorem foldsTo_got (ht : Current p log t) {s : StreamId} (hs : p.concerns s = true)
    {fault : Option ReadFailure} {state : Option S} {model : ReadModel A S}
    (h : t.model.Got log fault s (.ok state) model) : p.FoldsTo log t.applied s state := by
  cases h with
  | known _ hk => exact ht.foldsTo_known hs hk
  | read _ hdigested => exact ht.foldsTo_digested hs hdigested

variable [DecidableEq S]

omit [DecidableEq S] in
theorem unreached (ht : Current p log t) {e : Event A} (he : log[t.applied]? = some e) :
    Position.reached t.model.cache.highWater e.position = false := by
  rw [Bool.eq_false_iff]
  intro hreached
  have := (ht.mark _).mp hreached
  rw [ht.keeps.numbered.position he] at this
  omega

theorem applying (ht : Current p log t) {e : Event A} (he : log[t.applied]? = some e)
    (hq : ∀ o, e.payload.outcome? = some o → p.concerns e.stream = false) {earlier : Page A}
    (hread : t.model.cache.examine p e = .backfill → ∀ events, earlier = .ok events →
      events = Log.early log e.stream t.applied) :
    Current p log { t with model := (t.model.apply e earlier).1, applied := t.applied + 1 } := by
  have hnumbered := ht.keeps.numbered
  have hposition := hnumbered.position he
  have hunreached := ht.unreached he
  have hfate := Cache.apply_fate (p := p) hunreached earlier
  have hcache : (t.model.apply e earlier).1.cache = (t.model.cache.apply p e earlier).1 := by
    rw [ReadModel.cache_apply, ht.projector]
  rw [← hcache] at hfate
  exact {
    keeps := ht.keeps
    sized := ht.sized
    faults := ht.faults
    projector := (ReadModel.projector_apply _).trans ht.projector
    bounded := (List.getElem?_eq_some_iff.mp he).1
    mark := fun q => by
      show Position.reached (t.model.apply e earlier).1.cache.highWater q = true ↔
        q.val < t.applied + 1
      rw [hcache, Cache.reached_apply hunreached, ht.mark]
      have : q ≤ e.position ↔ q.val ≤ t.applied := by
        show q.val ≤ e.position.val ↔ _
        rw [hposition]
      rw [this]
      omega
    roomy := fun n hn => by
      have hn : (t.model.apply e earlier).1.cache.entries.capacity = some n := hn
      rw [hcache, Cache.capacity_apply] at hn
      exact ht.roomy n hn
    exact := ht.exact.applied hnumbered he hfate
      (fun held _ hf => ht.abreast.beyond _ _ (Collection.mem_of_find? hf))
      (fun hs hf hfirst => hfirst.elim
        (fun hall => (ht.whole hall).early_eq_nil hnumbered hs hf)
        fun hfirst => ht.keeps.hinted.early_eq_nil hnumbered he hfirst) hread
    abreast := ht.abreast.applied hnumbered hq he hfate
    whole := fun hall => by
      have hall : (t.model.apply e earlier).1.cache.allLoaded = true := hall
      rw [hcache, Cache.allLoaded_apply] at hall
      refine (ht.whole hall).applied hnumbered hq he hfate fun hx => ?_
      -- after everything was loaded no event needs a read
      have hspec := Cache.examine_spec t.model.cache p e
      rw [hx] at hspec
      rw [hspec.2.2] at hall
      cases hall }

end Current

end Session

/-! ## Operations -/

/-- The entries with those of the streams in `order` first, in that order. -/
def Loading.arranged (order : List StreamId) (folded : List (StreamId × Entry S)) :
    List (StreamId × Entry S) :=
  folded.insertionSort fun a b => order.idxOf a.1 ≤ order.idxOf b.1

theorem Loading.arranges_arranged (order : List StreamId) :
    Arranges (arranged order : List (StreamId × Entry S) → List (StreamId × Entry S)) :=
  List.perm_insertionSort _

/-- Every order of entries is that of their streams. -/
theorem Loading.arranged_eq {folded order : List (StreamId × Entry S)}
    (hdistinct : (order.map Prod.fst).Nodup) (h : order.Perm folded) :
    arranged (order.map Prod.fst) folded = order := by
  let index (s : StreamId) : Nat := (order.map Prod.fst).idxOf s
  have hindices : (order.map Prod.fst).Pairwise fun s t => index s ≤ index t := by
    rw [List.pairwise_iff_getElem]
    intro i j hi hj hij
    simp only [index, hdistinct.idxOf_getElem]
    exact Nat.le_of_lt hij
  rw [List.pairwise_map] at hindices
  have hperm := (arranges_arranged (order.map Prod.fst) folded).trans h.symm
  refine hperm.eq_of_pairwise (fun a b ha hb hab hba => ?_) (List.pairwise_insertionSort _ _)
    hindices
  have ha : a ∈ order := hperm.mem_iff.mp ha
  have hstream : a.1 = b.1 :=
    (List.idxOf_inj (List.mem_map_of_mem ha)).mp (Nat.le_antisymm hab hba)
  exact List.inj_on_of_nodup_map hdistinct ha hb hstream

/-- What is done with a read model and its log, one after another. -/
inductive Operation (A : Type) where
  | write (batch : List (Payload A))
  /-- The next read from a position is to fail for now. -/
  | failRead (q : Position) (reason : String)
  /-- The next read of a stream is to fail. -/
  | failStream (failure : ReadFailure)
  | failWrites (count : Nat)
  /-- The next live event is applied. -/
  | apply
  | get (s : StreamId)
  | getUpTo (s : StreamId) (bound : Position)
  /-- A load keeps its entries in the order of their streams that is given, and that may be any
  (`Loading.arranged_eq`). -/
  | getAll (order : List StreamId := [])
  | invalidate

namespace Session

variable [DecidableEq S]

/-- Takes over what an operation left. -/
def after {R : Type} (t : Session A S) (served : Served A S R) : Session A S :=
  { t with store := served.store, model := served.model }

def step (t : Session A S) : Operation A → Option (Session A S)
  | .write batch => some { t with store := (t.store.write batch).2 }
  | .failRead q reason => some { t with store := t.store.failReadFrom q (.temporary reason) }
  | .failStream failure => some { t with store := t.store.failStreamRead failure }
  | .failWrites count => some { t with store := t.store.failWrites count }
  | .apply =>
    match t.store.events[t.applied]? with
    | some e => some { t.after (t.model.applyNow t.store e) with applied := t.applied + 1 }
    | none => none
  | .get s => some (t.after (t.model.get t.store s))
  | .getUpTo s bound => some (t.after (t.model.getUpTo t.store s bound))
  | .getAll order => some (t.after (t.model.getAllIn (Loading.arranged order) t.store))
  | .invalidate => some { t with model := t.model.invalidate }

abbrev run (t : Session A S) (ops : List (Operation A)) : Option (Session A S) :=
  runMoves step t ops

variable {t t' : Session A S}

theorem applied_le {op : Operation A} (h : t.step op = some t') : t.applied ≤ t'.applied := by
  cases op with
  | apply =>
    simp only [step] at h
    split at h
    · cases h
      exact Nat.le_succ _
    · cases h
  | _ =>
    cases h
    exact Nat.le_refl _

namespace Current

/-- Where an operation leaves a log that can be decoded, it met one, of which that is a
continuation. Every operation keeps the entries exact and abreast. -/
theorem step {op : Operation A} {log' : List (Event A)} (h : t.step op = some t')
    (hfiles : t'.store.contents.Files log') (hroom : log'.length < 0x10000000000000000)
    (hq : p.IgnoresOutcomes (log'.take t'.applied)) :
    ∃ log, log <+: log' ∧ t.store.contents.Files log ∧
      (Current p log t → Current p log' t') := by
  -- an operation that does not write leaves the log as it was
  have hstay : t'.store.contents = t.store.contents → (Current p log' t → Current p log' t') →
      ∃ log, log <+: log' ∧ t.store.contents.Files log ∧
        (Current p log t → Current p log' t') := by
    intro hcontents hkept
    rw [hcontents] at hfiles
    exact ⟨log', List.prefix_rfl, hfiles, hkept⟩
  cases op with
  | write batch =>
    cases h
    obtain ⟨log, ⟨more, rfl⟩, hlog, hwritten⟩ := Store.files_of_write hfiles
    refine ⟨log, List.prefix_append _ _, hlog, fun ht => ?_⟩
    obtain ⟨hnumbered, hhinted⟩ := hwritten hroom ht.keeps.numbered ht.keeps.hinted
    have hreads := Store.write_reads (s := t.store) batch
    exact ht.growing ⟨hfiles, hnumbered, hhinted⟩ hreads.1 hreads.2.1
  | failRead q reason =>
    cases h
    refine hstay rfl fun ht => { ht with
      keeps := ⟨hfiles, ht.keeps.numbered, ht.keeps.hinted⟩
      faults := fun q' f hf => ?_ }
    rcases List.mem_append.mp hf with hold | hnew
    · exact ht.faults q' f hold
    · cases List.mem_singleton.mp hnew
      rfl
  | failStream failure =>
    cases h
    exact hstay rfl fun ht =>
      { ht with keeps := ⟨hfiles, ht.keeps.numbered, ht.keeps.hinted⟩ }
  | failWrites count =>
    cases h
    exact hstay rfl fun ht =>
      { ht with keeps := ⟨hfiles, ht.keeps.numbered, ht.keeps.hinted⟩ }
  | apply =>
    simp only [Session.step] at h
    split at h
    · rename_i e he
      cases h
      have hafter : t.store.After (t.model.applyNow t.store e).store := ReadModel.after_applyNow
      refine hstay hafter.contents fun ht => ?_
      rw [ht.keeps.events_eq] at he
      obtain ⟨earlier, hmodel, hread⟩ := ReadModel.applyNow_model (m := t.model) ht.keeps he
      rw [ht.projector] at hread
      have hmem : e ∈ log'.take (t.applied + 1) := by
        rw [List.take_add_one, he]
        exact List.mem_append_right _ List.mem_cons_self
      have happlied := ht.applying he (fun o ho => hq e hmem o ho) hread
      rw [← hmodel] at happlied
      exact happlied.reading hafter
    · cases h
  | get s =>
    cases h
    have hafter : t.store.After (t.model.get t.store s).store := ReadModel.after_get
    exact hstay hafter.contents fun ht =>
      (ht.got (ReadModel.got_get ht.keeps s)).reading hafter
  | getUpTo s bound =>
    cases h
    have hafter : t.store.After (t.model.getUpTo t.store s bound).store := ReadModel.after_getUpTo
    refine hstay hafter.contents fun ht => ?_
    rcases ReadModel.got_getUpTo (m := t.model) ht.keeps s bound with hsame | hgot
    · show Current p log' { t with
        store := (t.model.getUpTo t.store s bound).store
        model := (t.model.getUpTo t.store s bound).model }
      rw [hsame]
      exact ht.reading hafter
    · exact (ht.got hgot).reading hafter
  | getAll order =>
    cases h
    have hafter : t.store.After (t.model.getAllIn (Loading.arranged order) t.store).store :=
      ReadModel.after_getAllIn
    exact hstay hafter.contents fun ht => (ht.loadedAll (Loading.arranges_arranged order)
      (ReadModel.loadedAll_getAllIn _ ht.keeps ht.sized ht.faults)).reading hafter
  | invalidate =>
    cases h
    exact hstay rfl fun ht =>
      ht.writing ht.projector rfl rfl (fun s x hx => by cases hx) (.of_entries_eq_nil rfl) nofun

/-- An operation that does not write meets the log that it leaves. -/
theorem stay {op : Operation A} (ht : Current p log t) (h : t.step op = some t')
    (hafter : t.store.After t'.store) (hq : p.IgnoresOutcomes (log.take t'.applied)) :
    Current p log t' := by
  have hfiles : t'.store.contents.Files log := hafter.contents ▸ ht.keeps.files
  obtain ⟨log₀, -, hfiles₀, hkept⟩ := step h hfiles ht.keeps.numbered.1 hq
  obtain rfl := hfiles₀.decodes.unique ht.keeps.files.decodes
  exact hkept ht

theorem run {ops : List (Operation A)} (ht : Current p log t) (h : t.run ops = some t')
    {log' : List (Event A)} (hfiles : t'.store.contents.Files log')
    (hroom : log'.length < 0x10000000000000000) (hq : p.IgnoresOutcomes (log'.take t'.applied)) :
    Current p log' t' := by
  -- the log at the end tells what it was before every operation
  suffices ∀ log, t'.store.contents.Files log → log.length < 0x10000000000000000 →
      p.IgnoresOutcomes (log.take t'.applied) → Current p log t' from this log' hfiles hroom hq
  refine runMoves_induction (P := fun u => ∀ log, u.store.contents.Files log →
    log.length < 0x10000000000000000 → p.IgnoresOutcomes (log.take u.applied) → Current p log u)
    (fun log₀ hfiles₀ _ _ => ?_) (fun {pre op u v} _ _ hstep hu log₁ hfiles₁ hroom₁ hq₁ => ?_) h
  · rw [← ht.keeps.files.decodes.unique hfiles₀.decodes]
    exact ht
  · obtain ⟨log₀, ⟨more, rfl⟩, hfiles₀, hkept⟩ := step hstep hfiles₁ hroom₁ hq₁
    rw [List.length_append] at hroom₁
    refine hkept (hu log₀ hfiles₀ (by omega) (hq₁.of_prefix ?_))
    refine List.IsPrefix.trans ?_ (List.take_prefix_take_left (applied_le hstep))
    rw [List.take_append]
    exact List.prefix_append _ _

end Current

/-- In a session with any collection, after whatever operations, with whatever reads made to fail
for now: every entry is the fold of its stream's events up to its position, and not behind any of
them up to the high water. A lookup fails with its read, or answers with the fold of a beginning of
the stream that has every event up to the high water. A lookup or a load that fails changes
nothing. -/
theorem stays_exact {c : Collection S} (hc : c = .unbounded ∨ ∃ k, c = .bounded k)
    {store : Store A} {log₀ : List (Event A)} (hstart : store.Keeps log₀)
    (hsize : 0 < store.pageSize)
    (hfaults : ∀ q f, (q, f) ∈ store.readFaults → f.isTemporary = true)
    {ops : List (Operation A)} {t : Session A S} (h : (start p c store).run ops = some t)
    (hfiles : t.store.contents.Files log) (hroom : log.length < 0x10000000000000000)
    (hq : p.IgnoresOutcomes log) :
    (∀ s x, (s, x) ∈ t.model.cache.entries.entries →
      x.state = p.foldAll none (Log.upTo log s x.position) ∧
      (∃ e ∈ log, e.stream = s ∧ e.position = x.position) ∧
      ∀ e ∈ log, e.stream = s → Position.reached t.model.cache.highWater e.position = true →
        e.position ≤ x.position) ∧
    (∀ s, p.concerns s = true →
      (∃ failure, t.store.streamFaults.head? = some failure ∧
        (t.model.get t.store s).answer = .error (.read failure)) ∨
      ∃ n ≤ log.length,
        (t.model.get t.store s).answer = .ok (p.foldAll none (Log.early log s n)) ∧
        ∀ e ∈ log, e.stream = s → Position.reached t.model.cache.highWater e.position = true →
          e.position.val < n) ∧
    (∀ s error, (t.model.get t.store s).answer = .error error →
      (t.model.get t.store s).model = t.model) ∧
    (∀ s bound error, (t.model.getUpTo t.store s bound).answer = .error error →
      (t.model.getUpTo t.store s bound).model = t.model) ∧
    (∀ error, (t.model.getAll t.store).answer = .error error →
      (t.model.getAll t.store).model = t.model) := by
  obtain ⟨hroomy, hnil⟩ := Collection.roomy_of_new hc
  have ht : Current p log t :=
    (Current.of_start hroomy hnil hstart hsize hfaults).run h hfiles hroom
      (hq.of_prefix (List.take_prefix _ _))
  refine ⟨fun s x hx => ?_, fun s hs => ?_, fun s error herror => ?_,
    fun s bound error herror => ?_, fun error herror => ?_⟩
  · obtain ⟨hstate, hposition⟩ := ht.exact s x hx
    exact ⟨hstate, hposition, fun e he hes hreached =>
      ht.abreast.beyond s x hx e he hes ((ht.mark _).mp hreached)⟩
  · have hgot := ReadModel.got_get (m := t.model) ht.keeps s
    cases hanswer : (t.model.get t.store s).answer with
    | error error =>
      rw [hanswer] at hgot
      obtain ⟨-, failure, hfault, rfl⟩ := hgot.of_error
      exact .inl ⟨failure, hfault, rfl⟩
    | ok state =>
      rw [hanswer] at hgot
      obtain ⟨n, hn, hlength, rfl⟩ := ht.foldsTo_got hs hgot
      exact .inr ⟨n, hlength, rfl, fun e he hes hreached =>
        Nat.lt_of_lt_of_le ((ht.mark _).mp hreached) hn⟩
  · have hgot := ReadModel.got_get (m := t.model) ht.keeps s
    rw [herror] at hgot
    exact hgot.of_error.1
  · rcases ReadModel.got_getUpTo (m := t.model) ht.keeps s bound with hsame | hgot
    · exact hsame
    · rw [herror] at hgot
      exact hgot.of_error.1
  · have hloaded := ReadModel.loadedAll_getAllIn (m := t.model) id ht.keeps ht.sized ht.faults
    rw [show (t.model.getAllIn id t.store).answer = _ from herror] at hloaded
    exact hloaded.of_error

/-- Two topics take turns in a collection that holds one entry. An event cannot read what it needs,
a load cannot read on, another keeps the later topic first, and everything is dropped. -/
def unsteady : List (Operation Notes.Fact) :=
  [.write [.fact (.noted "a" 2), .fact (.noted "b" 7)], .get ⟨"Topic", "a"⟩, .apply, .apply,
    .write [.fact (.noted "a" 3)], .failStream (.temporary "busy"), .apply,
    .failRead (.ofNat 0) "busy", .getAll, .getAll [⟨"Topic", "b"⟩],
    .write [.fact (.noted "a" 4)], .invalidate, .getUpTo ⟨"Topic", "a"⟩ (.ofNat 2),
    .apply, .get ⟨"Topic", "b"⟩]

/-- The sum of the first topic is made from the log again. -/
theorem unsteady_stays_exact :
    ∃ t, (start Notes.projector (.bounded 1) (Store.ofPayloads 0)).run unsteady = some t ∧
      t.model.cache.entries.entries = [(⟨"Topic", "b"⟩, ⟨some 7, .ofNat 1⟩)] ∧
      (∃ n ≤ 4, (t.model.get t.store ⟨"Topic", "a"⟩).answer
        = .ok (Notes.projector.foldAll none (Log.early t.store.events ⟨"Topic", "a"⟩ n)) ∧
        ∀ e ∈ t.store.events, e.stream = ⟨"Topic", "a"⟩ →
          Position.reached t.model.cache.highWater e.position = true → e.position.val < n) ∧
      (t.model.get t.store ⟨"Topic", "a"⟩).answer = .ok (some 9) := by
  have hrun : (start Notes.projector (.bounded 1) (Store.ofPayloads 0)).run unsteady = some _ := rfl
  have hempty : (Store.ofPayloads 0 : Store Notes.Fact).Keeps [] :=
    ⟨⟨rfl, rfl⟩, by decide, by decide⟩
  obtain ⟨-, hget, -⟩ := stays_exact (.inr ⟨1, rfl⟩) hempty (by decide) nofun hrun ⟨rfl, rfl⟩
    (by decide) (Projector.ignoresOutcomes_of_facts (by decide))
  rcases hget ⟨"Topic", "a"⟩ (by decide) with ⟨failure, hfault, -⟩ | hanswer
  · cases hfault
  · exact ⟨_, hrun, by decide, hanswer, rfl⟩

end Session
end Chronicle
