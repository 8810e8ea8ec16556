import Chronicle.Proofs.Log.Storing
import Chronicle.Proofs.Projection.Traffic

/-!
# Chronicle.Proofs.Projection.Performing

What a read model does at once, taking the store, is a run of a `Traffic` (`Traffic.Performs`): a
lookup, a projection up to a bound, loading everything, a live event.

A load reads on as long as there is fuel. There is enough to read to the end: each read but the last
moves the cursor on or uses up a failure (`Loading.advance_less`).
-/

namespace Chronicle

/-- The loads differ in their notes at most. -/
structure Loading.Like {S : Type} (l l' : Loading S) : Prop where
  cursor : l'.cursor = l.cursor
  readAny : l'.readAny = l.readAny
  folded : l'.folded = l.folded

namespace Loading

variable {A S : Type} [Vocabulary A] {p : Projector A S} {l l' : Loading S}

theorem Like.foldEvent (h : Like l l') (e : Event A) :
    Like (l.foldEvent p e) (l'.foldEvent p e) := by
  unfold Loading.foldEvent
  by_cases hc : p.concerns e.stream = true
  · simp only [hc, if_true, h.folded]
    exact ⟨h.cursor, h.readAny, rfl⟩
  · simp only [hc, if_false, Bool.false_eq_true]
    exact h

theorem Like.foldl (events : List (Event A)) :
    ∀ {l l' : Loading S}, Like l l' →
      Like (events.foldl (Loading.foldEvent p) l) (events.foldl (Loading.foldEvent p) l') := by
  induction events with
  | nil => exact id
  | cons e rest ih => exact fun h => ih (h.foldEvent e)

/-- What like loads make of a page. -/
inductive Progress.Like : Progress S → Progress S → Prop where
  | more {l l' : Loading S} : Loading.Like l l' → Like (.more l) (.more l')
  | complete {l l' : Loading S} : Loading.Like l l' → Like (.complete l) (.complete l')
  | failed (failure : ReadFailure) : Like (.failed failure) (.failed failure)

theorem Like.advance (h : Like l l') (page : Page A) :
    (Loading.advance p l page).Like (Loading.advance p l' page) := by
  cases page with
  | ok events =>
    simp only [Loading.advance]
    cases events.getLast? with
    | none => exact .complete ⟨h.cursor, rfl, h.folded⟩
    | some last => exact .more (Like.foldl events ⟨rfl, rfl, h.folded⟩)
  | error failure =>
    cases failure with
    | temporary reason => exact .failed _
    | permanent reason =>
      simp only [Loading.advance, h.readAny]
      cases l.readAny with
      | true => exact .more ⟨congrArg Position.next h.cursor, rfl, h.folded⟩
      | false => exact .failed _

theorem advance_ok_cursor {log : List (Event A)} (h : Log.Numbered log) {n : Nat} {l₁ : Loading S}
    (hadvance : Loading.advance p l (.ok (Log.page log l.cursor n)) = .more l₁) :
    log.length - l₁.cursor.val < log.length - l.cursor.val := by
  simp only [Loading.advance] at hadvance
  cases hlast : (Log.page log l.cursor n).getLast? with
  | none =>
    simp only [hlast] at hadvance
    cases hadvance
  | some last =>
    simp only [hlast] at hadvance
    cases hadvance
    rw [foldl_cursor]
    have hnext := (Log.page_last h hlast).2
    have hpage : 0 < (Log.page log l.cursor n).length := by
      refine List.length_pos_iff.mpr fun hnil => ?_
      rw [hnil] at hlast
      cases hlast
    have hlength : (Log.page log l.cursor n).length ≤ log.length - l.cursor.val := by
      rw [Log.page, List.length_take, List.length_drop]
      omega
    show log.length - last.position.next.val < _
    omega

theorem advance_error_cursor {failure : ReadFailure} {l₁ : Loading S}
    (hadvance : Loading.advance p l (.error failure : Page A) = .more l₁) :
    l₁.cursor = l.cursor.next := by
  cases failure with
  | temporary reason => cases hadvance
  | permanent reason =>
    simp only [Loading.advance] at hadvance
    split at hadvance
    · cases hadvance
      rfl
    · cases hadvance

end Loading

namespace Traffic

variable {A S : Type} [Vocabulary A] [DecidableEq S] {t t' t'' : Traffic A S}
  {ms ms' : List (Move A S)}

theorem run_append (h : t.run ms = some t') (h' : t'.run ms' = some t'') :
    t.run (ms ++ ms') = some t'' :=
  runMoves_append.mpr ⟨t', h, h'⟩

theorem run_cons {m : Move A S} (h : t.step m = some t') (h' : t'.run ms = some t'') :
    t.run (m :: ms) = some t'' := by
  have hsingle : t.run [m] = some t' := runMoves_singleton.trans h
  exact run_append hsingle h'

end Traffic

/-- A read after which a load goes on leaves less of the log to read, or fewer failures to meet. -/
theorem Loading.advance_less {A S : Type} [Vocabulary A] {p : Projector A S} {store : Store A}
    {log : List (Event A)} (h : store.Holds log) {l l₁ : Loading S}
    (hadvance : Loading.advance p l (store.readFrom l.cursor).page = .more l₁) :
    log.length - l₁.cursor.val + (store.readFrom l.cursor).store.readFaults.length
      < log.length - l.cursor.val + store.readFaults.length := by
  have hpage := h.page_readFrom (p := l.cursor)
  cases hfault : Store.takeFault l.cursor store.readFaults with
  | none =>
    have hfaults : (store.readFrom l.cursor).store.readFaults = store.readFaults := by
      simp only [Store.readFrom, hfault]
    rw [hfault] at hpage
    rw [hpage] at hadvance
    have := advance_ok_cursor h.numbered hadvance
    rw [hfaults]
    omega
  | some found =>
    have hfaults : (store.readFrom l.cursor).store.readFaults = found.2 := by
      simp only [Store.readFrom, hfault]
    rw [hfault] at hpage
    rw [hpage] at hadvance
    have hcursor : l.cursor.val ≤ l.cursor.next.val := Position.le_next _
    have : store.readFaults.length = found.2.length + 1 := (Store.takeFault_perm hfault).length_eq
    rw [hfaults, advance_error_cursor hadvance]
    omega

def Loading.leaves {A S : Type} : Except ReadFailure (List (StreamId × Entry S)) → Holder A S
  | .ok folded => .loaded folded
  | .error _ => .nobody

/-- The reads of a load, one after another. There is fuel for all of them. -/
theorem Loading.run_traffic {A S : Type} [Vocabulary A] [DecidableEq S] :
    ∀ {fuel : Nat} {store : Store A} {notes : List Note} {l l' : Loading S} {t : Traffic A S},
      store.Holds t.log → 0 < store.pageSize → t.holder = .loading l' → Like l l' →
      t.log.length - l.cursor.val + store.readFaults.length < fuel →
      store.After (Loading.run t.model.projector fuel store notes l).store ∧
        ∃ ms, t.run ms = some { t with
            holder := leaves (Loading.run t.model.projector fuel store notes l).outcome } ∧
          (store.Quiet → ∀ m ∈ ms, m.Undisturbed) := by
  intro fuel
  induction fuel with
  | zero => intro store notes l l' t _ _ _ _ hfuel; omega
  | succ fuel ih =>
    intro store notes l l' t hstore hsize hholder hlike hfuel
    have hafter := store.after_readFrom (p := l.cursor)
    have hpage := hstore.page_readFrom (p := l.cursor)
    have hfault : store.Quiet → (Store.takeFault l.cursor store.readFaults).map Prod.fst = none := by
      intro hquiet
      rw [hquiet.1]
      rfl
    generalize (Store.takeFault l.cursor store.readFaults).map Prod.fst = fault at hpage hfault
    have hstep : t.step (.page store.pageSize fault) = some { t with
        holder := Traffic.loadedTo t.model.projector l' (store.readFrom l.cursor).page } := by
      simp only [Traffic.step, hholder, hsize, if_true, hlike.cursor, hpage]
    have hundisturbed : store.Quiet → (Move.page store.pageSize fault : Move A S).Undisturbed :=
      hfault
    have hlike' : Like { l with notes := [] } l' := ⟨hlike.cursor, hlike.readAny, hlike.folded⟩
    have hadvance := hlike'.advance (p := t.model.projector) (store.readFrom l.cursor).page
    unfold Traffic.loadedTo at hstep
    simp only [Loading.run]
    generalize ha : Loading.advance t.model.projector { l with notes := [] }
      (store.readFrom l.cursor).page = progress at hadvance
    generalize Loading.advance t.model.projector l' (store.readFrom l.cursor).page = progress'
      at hadvance hstep
    cases hadvance with
    | @more l₁ l₁' hlike₁ =>
      have hless : t.log.length - l₁.cursor.val
          + (store.readFrom l.cursor).store.readFaults.length < fuel := by
        have hless := advance_less (l := { l with notes := [] }) hstore ha
        dsimp only at hless
        omega
      obtain ⟨hafter₁, ms, hrun, hms⟩ := ih (t := { t with holder := .loading l₁' })
        (hstore.after hafter) (hafter.pageSize ▸ hsize) rfl hlike₁ hless
      exact ⟨hafter.trans hafter₁, .page store.pageSize fault :: ms, Traffic.run_cons hstep hrun,
        fun hq => List.forall_mem_cons.mpr ⟨hundisturbed hq, hms (hafter.quiet hq)⟩⟩
    | @complete l₁ l₁' hlike₁ =>
      simp only [hlike₁.folded] at hstep
      exact ⟨hafter, [.page store.pageSize fault], runMoves_singleton.trans hstep,
        fun hq => List.forall_mem_singleton.mpr (hundisturbed hq)⟩
    | failed failure =>
      exact ⟨hafter, [.page store.pageSize fault], runMoves_singleton.trans hstep,
        fun hq => List.forall_mem_singleton.mpr (hundisturbed hq)⟩

/-! ## At once -/

/-- What is done at once with the read model of a traffic is a run of the traffic, which applies so
many live events. -/
def Traffic.Performs {A S R : Type} [Vocabulary A] [DecidableEq S] (t : Traffic A S)
    (store : Store A) (served : Served A S R) (count : Nat) : Prop :=
  store.After served.store ∧ ∃ ms more,
    t.run ms = some { t with
      model := served.model, applied := t.applied + count, lookups := t.lookups ++ more } ∧
    (store.Quiet → ∀ m ∈ ms, m.Undisturbed)

section Performs

variable {A S : Type} [Vocabulary A] [DecidableEq S] {t : Traffic A S} {store : Store A}

/-- A lookup that has read does the rest at once. -/
theorem Traffic.run_digest {i : Nat} {stream : StreamId} {page : Page A}
    (hat : t.lookups[i]? = some (stream, .holding page)) (hnobody : t.holder = .nobody) :
    ∃ ms, t.run ms = some { t with
        model := (t.model.digest stream page).2.1
        lookups := t.lookups.set i (stream, .answered (t.model.digest stream page).1) } ∧
      ∀ m ∈ ms, m.Undisturbed := by
  have hput (phase phase' : LookupPhase A S) : (t.putLookup i stream phase).putLookup i stream phase'
      = t.putLookup i stream phase' := by
    simp only [Traffic.putLookup, List.set_set]
  have hdigest : t.step (.digest i)
      = some (t.putLookup i stream (Traffic.digested t.model.projector page)) := by
    simp only [Traffic.step, hat]
  unfold Traffic.digested at hdigest
  unfold ReadModel.digest
  generalize ReadModel.backfilled t.model.projector page = found at hdigest ⊢
  obtain ⟨entry, notes⟩ := found
  cases entry with
  | error failure => exact ⟨[.digest i], runMoves_singleton.trans hdigest, by simp [Move.Undisturbed]⟩
  | ok found =>
    cases found with
    | none => exact ⟨[.digest i], runMoves_singleton.trans hdigest, by simp [Move.Undisturbed]⟩
    | some x =>
      have hkeep : (t.putLookup i stream (.locking x)).step (.keep i) = some
          { t.putLookup i stream (.answered (.ok (t.model.keep stream x).2)) with
            model := (t.model.keep stream x).1 } := by
        have hlocking : (t.putLookup i stream (.locking x)).lookups[i]?
            = some (stream, .locking x) := by
          rw [Traffic.putLookup, List.getElem?_set_self (List.getElem?_eq_some_iff.mp hat).1]
        have hholder : (t.putLookup i stream (.locking x)).holder = .nobody := hnobody
        simp only [Traffic.step, hholder, hlocking, hput]
        rfl
      exact ⟨[.digest i, .keep i], Traffic.run_cons hdigest (runMoves_singleton.trans hkeep),
        by simp [Move.Undisturbed]⟩

/-- A lookup of a stream that the cache does not know begins and reads. -/
theorem Traffic.run_read (h : store.Holds t.log) {stream : StreamId}
    (hknown : t.model.known? stream = none) :
    ∃ ms, t.run ms = some { t with lookups := t.lookups ++
        [(stream, .holding (store.readStream stream Position.last).page)] } ∧
      (store.Quiet → ∀ m ∈ ms, m.Undisturbed) := by
  have hpage : (store.readStream stream Position.last).page = _ := h.page_readStream
  have hask : t.step (.ask stream)
      = some { t with lookups := t.lookups ++ [(stream, .asked)] } := by
    simp only [Traffic.step, Traffic.asked, hknown]
  have hread : ({ t with lookups := t.lookups ++ [(stream, .asked)] } : Traffic A S).step
      (.read t.lookups.length store.streamFaults.head?) = some { t with
        lookups := t.lookups ++ [(stream,
          .holding (store.readStream stream Position.last).page)] } := by
    simp [Traffic.step, Traffic.putLookup, hpage]
  refine ⟨_, Traffic.run_cons hask (runMoves_singleton.trans hread), fun hq => ?_⟩
  have hfault : store.streamFaults.head? = none := by
    rw [hq.2]
    rfl
  simp [Move.Undisturbed, hfault]

theorem Traffic.performs_get (h : store.Holds t.log) (hnobody : t.holder = .nobody)
    (stream : StreamId) : t.Performs store (t.model.get store stream) 0 := by
  unfold ReadModel.get
  cases hknown : t.model.known? stream with
  | some state =>
    refine ⟨.refl store, [.ask stream], [(stream, .answered (.ok state))], ?_, fun _ =>
      List.forall_mem_singleton.mpr trivial⟩
    refine runMoves_singleton.trans ?_
    simp only [Traffic.step, Traffic.asked, hknown, Nat.add_zero]
  | none =>
    obtain ⟨ms, hread, hms⟩ := Traffic.run_read h hknown
    have hafter : store.After (store.readStream stream Position.last).store :=
      Store.after_readStream
    dsimp only
    generalize store.readStream stream Position.last = reading at hread hafter ⊢
    have hat : (t.lookups ++ [(stream, .holding reading.page)])[t.lookups.length]?
        = some (stream, .holding reading.page) := List.getElem?_concat_length
    obtain ⟨ms', hdigest, hms'⟩ := Traffic.run_digest
      (t := { t with lookups := t.lookups ++ [(stream, .holding reading.page)] }) hat hnobody
    refine ⟨hafter, _, [(stream, .answered (t.model.digest stream reading.page).1)],
      Traffic.run_append hread (hdigest.trans ?_),
      fun hq => List.forall_mem_append.mpr ⟨hms hq, hms'⟩⟩
    simp

theorem Traffic.performs_getUpTo (h : store.Holds t.log) (hnobody : t.holder = .nobody)
    (stream : StreamId) (bound : Position) :
    t.Performs store (t.model.getUpTo store stream bound) 0 := by
  unfold ReadModel.getUpTo
  by_cases hlast : bound.isLast = true
  · rw [if_pos hlast]
    exact performs_get h hnobody stream
  · rw [if_neg hlast]
    refine ⟨Store.after_readStream, [.glance stream bound], [], ?_, fun _ =>
      List.forall_mem_singleton.mpr trivial⟩
    refine runMoves_singleton.trans ?_
    simp only [Traffic.step, hlast, List.append_nil, Nat.add_zero]
    rfl

theorem Traffic.performs_getAllIn (h : store.Holds t.log) (hsize : 0 < store.pageSize)
    (hnobody : t.holder = .nobody)
    {arrange : List (StreamId × Entry S) → List (StreamId × Entry S)}
    (harrange : Loading.Arranges arrange) :
    t.Performs store (t.model.getAllIn arrange store) 0 := by
  unfold ReadModel.getAllIn
  by_cases hall : t.model.cache.allLoaded = true
  · rw [if_pos hall]
    refine ⟨.refl store, [], [], ?_, fun _ => nofun⟩
    rw [List.append_nil]
    rfl
  · rw [if_neg hall]
    have hload : t.step .load = some { t with holder := .loading {} } := by
      simp only [Traffic.step, hnobody, hall]
      rfl
    have hfuel : t.log.length - Position.zero.val + store.readFaults.length
        < Loading.pages store := by
      rw [Loading.pages, h.length_eq]
      show t.log.length - 0 + _ < _
      omega
    obtain ⟨hafter, ms, hrun, hms⟩ : store.After (Loading.load t.model.projector store).store ∧
        ∃ ms, Traffic.run { t with holder := .loading {} } ms = some { t with
            holder := Loading.leaves (Loading.load t.model.projector store).outcome } ∧
          (store.Quiet → ∀ m ∈ ms, m.Undisturbed) :=
      Loading.run_traffic (t := { t with holder := .loading {} }) h hsize rfl ⟨rfl, rfl, rfl⟩ hfuel
    have hrun := Traffic.run_cons hload hrun
    dsimp only
    generalize Loading.load t.model.projector store = loaded at hafter hrun ⊢
    obtain ⟨outcome, notes, after⟩ := loaded
    cases outcome with
    | error failure =>
      have hholder : ({ t with holder := .nobody } : Traffic A S) = t := by rw [← hnobody]
      refine ⟨hafter, .load :: ms, [], ?_, fun hq => List.forall_mem_cons.mpr ⟨trivial, hms hq⟩⟩
      rw [hrun, List.append_nil]
      exact congrArg some hholder
    | ok folded =>
      let order := arrange folded
      have hkeep : ({ t with holder := .loaded folded } : Traffic A S).step (.keepAll order) =
          some { t with
            model := { t.model with cache := t.model.cache.keepLoaded order }
            holder := .nobody } := by
        simp only [Traffic.step, order, harrange folded, if_true]
      refine ⟨hafter, (.load :: ms) ++ [.keepAll order], [], ?_, fun hq => ?_⟩
      · rw [List.append_nil]
        refine (Traffic.run_append hrun (runMoves_singleton.trans hkeep)).trans ?_
        rw [← hnobody]
        rfl
      · exact List.forall_mem_append.mpr ⟨List.forall_mem_cons.mpr ⟨trivial, hms hq⟩,
          List.forall_mem_singleton.mpr trivial⟩

theorem Traffic.performs_applyNow (h : store.Holds t.log) (hnobody : t.holder = .nobody)
    {e : Event A} (he : t.log[t.applied]? = some e) :
    t.Performs store (t.model.applyNow store e) 1 := by
  have hfinish : ∀ earlier, t.finish e earlier = { t with
      model := (t.model.apply e earlier).1, applied := t.applied + 1 } := by
    intro earlier
    rw [Traffic.finish, ← hnobody]
  unfold ReadModel.applyNow
  by_cases hneeds : t.model.needsRead e = true
  · rw [if_pos hneeds]
    have hpage : (store.readStream e.stream e.position).page = _ := h.page_readStream
    let earlier := (store.readStream e.stream e.position).page
    have hdeliver : t.step (.deliver store.streamFaults.head?) =
        some { t with holder := .applying e earlier } := by
      simp only [Traffic.step, hnobody, he, hneeds, if_true, earlier, hpage]
    have hsettle : ({ t with holder := .applying e earlier } : Traffic A S).step .settle =
        some (t.finish e earlier) := rfl
    refine ⟨Store.after_readStream, [.deliver store.streamFaults.head?, .settle], [], ?_, ?_⟩
    · rw [List.append_nil]
      refine (Traffic.run_cons hdeliver (runMoves_singleton.trans hsettle)).trans ?_
      rw [hfinish]
    · intro hq
      refine List.forall_mem_cons.mpr ⟨?_, List.forall_mem_singleton.mpr trivial⟩
      show store.streamFaults.head? = none
      rw [hq.2]
      rfl
  · rw [if_neg hneeds]
    have hdeliver : t.step (.deliver none) = some (t.finish e (.ok [])) := by
      simp only [Traffic.step, hnobody, he, hneeds, Bool.false_eq_true, if_false]
    refine ⟨.refl store, [.deliver none], [], ?_, fun _ => List.forall_mem_singleton.mpr rfl⟩
    rw [List.append_nil]
    refine (runMoves_singleton.trans hdeliver).trans ?_
    rw [hfinish]

end Performs

end Chronicle
