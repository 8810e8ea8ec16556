import Chronicle.Proofs.Projection.Retaining

/-!
# Chronicle.Proofs.Projection.Upkeep

The calls of a read model whose cache keeps every entry, one after another. A load reads page after
page while the log grows, and so it has seen the log up to where its last page was empty. Live
events are applied in order, or again, or from further on where nothing is missed by that.

Once everything was loaded, no call reads the log, and none but a live event writes to the cache
(`Upkeep.Orderly.quiet_run`).
-/

namespace Chronicle

variable {A S : Type} [Vocabulary A] {p : Projector A S}

/-! ## Calls -/

/-- Whether an operation leaves the read model alone, so that it can go on beside a load. -/
def Operation.spares {A : Type} : Operation A → Bool
  | .write _ | .failRead _ _ | .failStream _ | .failWrites _ => true
  | _ => false

inductive Call (A : Type) where
  | does (op : Operation A)
  /-- Applies the event numbered `j`, which was applied before or is further on. -/
  | deliver (j : Nat)
  /-- Asks for every projection. -/
  | load
  /-- The load that is under way reads on. At the end it keeps its entries in an order as
  `Operation.getAll` does. -/
  | page (order : List StreamId := [])

/-- Neither a lookup of a beginning of a stream, which always reads, nor the end of all entries. -/
def Call.Serves {A : Type} : Call A → Prop
  | .does (.getUpTo _ _) | .does .invalidate => False
  | _ => True

/-- Whether a call applies a live event. -/
def Call.applies {A : Type} : Call A → Bool
  | .does .apply | .deliver _ => true
  | _ => false

structure Upkeep (A S : Type) [Vocabulary A] where
  session : Session A S
  /-- The load that is under way. -/
  loading : Option (Loading S) := none
  /-- Where the log ended when everything was loaded, until the entries are dropped. -/
  seen : Option Nat := none

namespace Upkeep

variable {u u' : Upkeep A S}

def start (p : Projector A S) (store : Store A) : Upkeep A S :=
  { session := .start p .unbounded store }

/-- How much of the log the cache is to answer for: what was loaded and what was applied. -/
def extent (u : Upkeep A S) : Nat := max (u.seen.getD 0) u.session.applied

/-- Where the loaded part of the log ends after an operation. -/
def seenAfter (u : Upkeep A S) : Operation A → Option Nat
  | .getAll order =>
    match (u.session.model.getAllIn (Loading.arranged order) u.session.store).answer with
    | .ok _ => some (u.seen.getD u.session.store.length)
    | .error _ => u.seen
  | .invalidate => none
  | _ => u.seen

/-- Whether applying the event numbered `j` passes over nothing: every event before it was loaded or
applied, or the cache holds nothing yet that the events before it could be missing from. -/
def deliverable (u : Upkeep A S) (j : Nat) : Bool :=
  decide (j ≤ u.extent) || (u.seen.isNone && u.session.model.cache.entries.entries.isEmpty)

/-- What the page that a load has read does to it. At the end of the log its entries are kept. -/
def turnPage (u : Upkeep A S) (l : Loading S) (order : List StreamId) : Upkeep A S :=
  let reading := u.session.store.readFrom l.cursor
  let u := { u with session := { u.session with store := reading.store } }
  match Loading.advance u.session.model.projector l reading.page with
  | .more l => { u with loading := some l }
  | .failed _ => { u with loading := none }
  | .complete l =>
    let cache := u.session.model.cache.keepLoaded (Loading.arranged order l.folded)
    let model := { u.session.model with cache }
    { session := { u.session with model }, loading := none, seen := some u.session.store.length }

variable [DecidableEq S]

def step (u : Upkeep A S) : Call A → Option (Upkeep A S)
  | .does op =>
    if u.loading.isNone || op.spares then
      (u.session.step op).map fun session => { u with session, seen := u.seenAfter op }
    else none
  | .deliver j =>
    match u.session.store.events[j]? with
    | some e =>
      if u.loading.isNone && u.deliverable j then
        some { u with
          session := { u.session.after (u.session.model.applyNow u.session.store e) with
            applied := max u.session.applied (j + 1) } }
      else none
    | none => none
  | .load =>
    if u.loading.isSome then none
    else if u.session.model.cache.allLoaded then some u
    else some { u with loading := some {} }
  | .page order => u.loading.map fun l => u.turnPage l order

/-- What a call that is taken does. -/
inductive Takes (u : Upkeep A S) : Call A → Upkeep A S → Prop where
  | does {op : Operation A} {session : Session A S}
      (hfree : (u.loading.isNone || op.spares) = true)
      (hsession : u.session.step op = some session) :
      Takes u (.does op) { u with session, seen := u.seenAfter op }
  | deliver {j : Nat} {e : Event A} (hidle : u.loading = none)
      (he : u.session.store.events[j]? = some e) (hdeliverable : u.deliverable j = true) :
      Takes u (.deliver j) { u with
        session := { u.session.after (u.session.model.applyNow u.session.store e) with
          applied := max u.session.applied (j + 1) } }
  /-- Everything is loaded already. -/
  | known (hidle : u.loading = none) (hall : u.session.model.cache.allLoaded = true) :
      Takes u .load u
  | load (hidle : u.loading = none) (hall : u.session.model.cache.allLoaded = false) :
      Takes u .load { u with loading := some {} }
  | page {l : Loading S} {order : List StreamId} (hl : u.loading = some l) :
      Takes u (.page order) (u.turnPage l order)

theorem takes_of_step {call : Call A} (h : u.step call = some u') : u.Takes call u' := by
  cases call with
  | does op =>
    simp only [step] at h
    split at h
    · rename_i hfree
      obtain ⟨session, hsession, rfl⟩ := Option.map_eq_some_iff.mp h
      exact .does hfree hsession
    · cases h
  | deliver j =>
    simp only [step] at h
    split at h
    · rename_i e he
      split at h
      · rename_i hfree
        cases h
        rw [Bool.and_eq_true, Option.isNone_iff_eq_none] at hfree
        exact .deliver hfree.1 he hfree.2
      · cases h
    · cases h
  | load =>
    simp only [step] at h
    split at h
    · cases h
    · rename_i hloading
      have hidle := Option.not_isSome_iff_eq_none.mp hloading
      split at h
      · rename_i hall
        cases h
        exact .known hidle hall
      · rename_i hall
        cases h
        exact .load hidle (Bool.eq_false_iff.mpr hall)
  | page order =>
    obtain ⟨l, hl, rfl⟩ := Option.map_eq_some_iff.mp h
    exact .page hl

abbrev run (u : Upkeep A S) (calls : List (Call A)) : Option (Upkeep A S) := runMoves step u calls

/-! ## No call reads -/

/-- The cache keeps every entry, and knows whether everything was loaded. -/
structure Orderly (u : Upkeep A S) : Prop where
  unlimited : u.session.model.cache.entries.capacity = none
  known : u.session.model.cache.allLoaded = u.seen.isSome
  idle : u.loading.isSome = true → u.seen = none

omit [DecidableEq S] in
theorem orderly_start {store : Store A} : Orderly (start p store) := ⟨rfl, rfl, nofun⟩

namespace Orderly

omit [DecidableEq S] in
/-- The entries are written, and whether everything was loaded stays as it is. -/
theorem writing (hu : Orderly u) {session : Session A S}
    (hc : session.model.cache.entries.capacity = u.session.model.cache.entries.capacity)
    (hall : session.model.cache.allLoaded = u.session.model.cache.allLoaded) :
    Orderly { u with session } :=
  ⟨hc.trans hu.unlimited, hall.trans hu.known, hu.idle⟩

omit [DecidableEq S] in
theorem keeping (hu : Orderly u) {s : StreamId} {model : ReadModel A S} {store : Store A}
    (h : model = u.session.model ∨ ∃ x, model = (u.session.model.keep s x).1) :
    Orderly { u with session := { u.session with model, store } } := by
  rcases h with rfl | ⟨x, rfl⟩
  · exact hu.writing rfl rfl
  · exact hu.writing Cache.capacity_keep Cache.allLoaded_keep

theorem applying (hu : Orderly u) (e : Event A) (applied : Nat) :
    Orderly { u with session :=
      { u.session.after (u.session.model.applyNow u.session.store e) with applied } } := by
  obtain ⟨earlier, hmodel⟩ : ∃ earlier,
      (u.session.model.applyNow u.session.store e).model
        = (u.session.model.apply e earlier).1 := by
    unfold ReadModel.applyNow
    split
    · exact ⟨_, rfl⟩
    · exact ⟨.ok [], rfl⟩
  refine hu.writing ?_ ?_
  · show (u.session.model.applyNow u.session.store e).model.cache.entries.capacity = _
    rw [hmodel, ReadModel.cache_apply, Cache.capacity_apply]
  · show (u.session.model.applyNow u.session.store e).model.cache.allLoaded = _
    rw [hmodel, ReadModel.cache_apply, Cache.allLoaded_apply]

omit [DecidableEq S] in
theorem allLoaded_keepLoaded (hu : Orderly u) (folded : List (StreamId × Entry S)) :
    (u.session.model.cache.keepLoaded folded).allLoaded = true := by
  show (u.session.model.cache.keepLoaded folded).entries.retainsAll = true
  rw [Collection.retainsAll, Cache.capacity_keepLoaded, hu.unlimited]
  rfl

omit [DecidableEq S] in
/-- Loading everything at once. -/
theorem loading (hu : Orderly u) (hidle : u.loading.isNone = true) (order : List StreamId) :
    Orderly { u with
      session := u.session.after (u.session.model.getAllIn (Loading.arranged order) u.session.store)
      seen := u.seenAfter (.getAll order) } := by
  have hbusy : u.loading.isSome = true → u.seenAfter (.getAll order) = none := by
    rw [← Option.not_isSome, Bool.not_eq_true'] at hidle
    rw [hidle]
    nofun
  cases hall : u.session.model.cache.allLoaded with
  | true =>
    have hseen := hu.known
    rw [hall] at hseen
    simp only [seenAfter, Session.after, ReadModel.getAllIn_of_allLoaded hall] at hbusy ⊢
    exact ⟨hu.unlimited, hall, hbusy⟩
  | false =>
    cases hload : (Loading.load u.session.model.projector u.session.store).outcome with
    | ok folded =>
      obtain ⟨hanswer, hmodel⟩ := ReadModel.getAllIn_of_ok hall hload (Loading.arranged order)
      simp only [seenAfter, Session.after, hanswer, hmodel] at hbusy ⊢
      exact ⟨Cache.capacity_keepLoaded.trans hu.unlimited, hu.allLoaded_keepLoaded _, hbusy⟩
    | error failure =>
      obtain ⟨hanswer, hmodel⟩ := ReadModel.getAllIn_of_error hall hload (Loading.arranged order)
      simp only [seenAfter, Session.after, hanswer, hmodel] at hbusy ⊢
      exact ⟨hu.unlimited, hu.known, hbusy⟩

theorem step {call : Call A} (hu : Orderly u) (h : u.step call = some u') : Orderly u' := by
  cases takes_of_step h with
  | @does op session hfree hsession =>
    cases op with
    | apply =>
      simp only [Session.step] at hsession
      split at hsession
      · cases hsession
        exact hu.applying _ _
      · cases hsession
    | get s =>
      cases hsession
      exact hu.keeping ReadModel.model_get
    | getUpTo s bound =>
      cases hsession
      exact hu.keeping ReadModel.model_getUpTo
    | getAll order =>
      cases hsession
      exact hu.loading ((Bool.or_false _).symm.trans hfree) order
    | invalidate =>
      cases hsession
      exact ⟨hu.unlimited, rfl, fun _ => rfl⟩
    | _ =>
      cases hsession
      exact hu.writing rfl rfl
  | deliver _ _ _ => exact hu.applying _ _
  | known _ _ => exact hu
  | load _ hall =>
    refine ⟨hu.unlimited, hu.known, fun _ => ?_⟩
    have hnone := hu.known
    rw [hall] at hnone
    exact Option.not_isSome_iff_eq_none.mp (by rw [← hnone]; exact Bool.false_ne_true)
  | page hl =>
    have hbusy {seen : Option Nat} : (none : Option (Loading S)).isSome = true → seen = none :=
      fun h => absurd h Bool.false_ne_true
    unfold turnPage
    dsimp only
    split
    · exact ⟨hu.unlimited, hu.known, fun _ => hu.idle (Option.isSome_of_eq_some hl)⟩
    · exact ⟨hu.unlimited, hu.known, hbusy⟩
    · exact ⟨Cache.capacity_keepLoaded.trans hu.unlimited, hu.allLoaded_keepLoaded _, hbusy⟩

end Orderly

omit [DecidableEq S] in
theorem Orderly.allLoaded (hu : Orderly u) {k : Nat} (h : u.seen = some k) :
    u.session.model.cache.allLoaded = true := by
  rw [hu.known, h]
  rfl

/-- Reads have been made of the log only as often as before. -/
def Unread (u u' : Upkeep A S) : Prop :=
  u'.session.store.reads = u.session.store.reads ∧
    u'.session.store.streamReads = u.session.store.streamReads

/-- Once everything was loaded, no call reads the log, and none but a live event writes to the
cache. -/
theorem Orderly.quiet {call : Call A} (hu : Orderly u) {k : Nat} (hk : u.seen = some k)
    (hcall : call.Serves) (h : u.step call = some u') :
    u'.seen = some k ∧ u.Unread u' ∧
      (call.applies = false → u'.session.model = u.session.model) := by
  have hall := hu.allLoaded hk
  cases takes_of_step h with
  | @does op session hfree hsession =>
    cases op with
    | write batch =>
      cases hsession
      exact ⟨hk, Store.unread_write batch, fun _ => rfl⟩
    | apply =>
      simp only [Session.step] at hsession
      split at hsession
      · cases hsession
        refine ⟨hk, ?_, fun h => absurd h.symm Bool.false_ne_true⟩
        simp only [Unread, Session.after, ReadModel.store_applyNow hall, and_self]
      · cases hsession
    | get s =>
      cases hsession
      obtain ⟨state, hstate⟩ := ReadModel.exists_known hall s
      simp only [Unread, Session.after, ReadModel.get_of_known hstate, and_self, implies_true,
        and_true]
      exact hk
    | getAll order =>
      cases hsession
      simp only [Unread, seenAfter, Session.after, ReadModel.getAllIn_of_allLoaded hall, and_self,
        hk, Option.getD_some, implies_true]
    | getUpTo s bound => exact hcall.elim
    | invalidate => exact hcall.elim
    | _ =>
      cases hsession
      exact ⟨hk, ⟨rfl, rfl⟩, fun _ => rfl⟩
  | deliver _ _ _ =>
    refine ⟨hk, ?_, fun h => absurd h.symm Bool.false_ne_true⟩
    simp only [Unread, Session.after, ReadModel.store_applyNow hall, and_self]
  | known _ _ => exact ⟨hk, ⟨rfl, rfl⟩, fun _ => rfl⟩
  | load _ hunloaded => cases hunloaded.symm.trans hall
  | page hl =>
    rw [hu.idle (Option.isSome_of_eq_some hl)] at hk
    cases hk

theorem Orderly.quiet_run {calls : List (Call A)} (hu : Orderly u) {k : Nat}
    (hk : u.seen = some k) (hcalls : ∀ call ∈ calls, call.Serves) (h : u.run calls = some u') :
    u'.seen = some k ∧ u.Unread u' ∧
      ((∀ call ∈ calls, call.applies = false) → u'.session.model = u.session.model) := by
  refine (runMoves_induction (P := fun v => Orderly v ∧ v.seen = some k ∧ u.Unread v ∧
    ((∀ call ∈ calls, call.applies = false) → v.session.model = u.session.model))
    ⟨hu, hk, ⟨rfl, rfl⟩, fun _ => rfl⟩ (fun {pre call v w} hpre _ hstep hv => ?_) h).2
  obtain ⟨hv, hseen, hunread, hsame⟩ := hv
  have hmem : call ∈ calls := hpre.subset (by simp)
  obtain ⟨hseen', hunread', hsame'⟩ := hv.quiet hseen (hcalls call hmem) hstep
  exact ⟨hv.step hstep, hseen', ⟨hunread'.1.trans hunread.1, hunread'.2.trans hunread.2⟩,
    fun happlies => (hsame' (happlies call hmem)).trans (hsame happlies)⟩

end Upkeep
end Chronicle
