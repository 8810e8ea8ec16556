import Chronicle.Notes
import Chronicle.Proofs.Log.Skipping
import Chronicle.Proofs.Projection.Overtaking

/-!
# Chronicle.Proofs.Projection.Loading

Loads and how they end. A load reads page after page, with nothing that counts the pages
(`Loading.Ends`); the reads that `Loading.load` allows for are enough (`run_ends`).

What carries a load is that it has folded every event among the slots in front of its cursor, each
once and in order (`Loading.Skims`). So it comes to the same whatever the size of the pages
(`Loading.ComesTo`): unless a read is made to fail, it fails for good if the first record cannot be
decoded, and else it folds every event of the log.
-/

namespace Chronicle

variable {A S : Type} [Vocabulary A] {p : Projector A S}

namespace Loading

/-- The entries that a load folds from these events. -/
def entriesOf (p : Projector A S) (events : List (Event A)) : List (StreamId × Entry S) :=
  (events.foldl (foldEvent p) {}).folded

theorem folded_foldl (events : List (Event A)) : ∀ {l l' : Loading S}, l.folded = l'.folded →
    (events.foldl (foldEvent p) l).folded = (events.foldl (foldEvent p) l').folded := by
  induction events with
  | nil => exact id
  | cons e rest ih =>
    intro l l' h
    refine ih ?_
    rw [foldEvent, foldEvent, h]
    split <;> first | rfl | exact h

theorem folded_append {events more : List (Event A)} {l : Loading S}
    (h : l.folded = entriesOf p events) :
    (more.foldl (foldEvent p) l).folded = entriesOf p (events ++ more) := by
  rw [entriesOf, List.foldl_append]
  exact folded_foldl more h

theorem folded_entriesOf (events : List (Event A)) : Folded p events (entriesOf p events) := by
  have hsound : Sound p ([] : List (Event A)) ({} : Loading S) := sound_new
  exact hsound.2.foldl events

theorem readAny_foldl (events : List (Event A)) :
    ∀ l : Loading S, (events.foldl (foldEvent p) l).readAny = l.readAny := by
  induction events with
  | nil => intro l; rfl
  | cons e rest ih =>
    intro l
    rw [List.foldl_cons, ih, foldEvent]
    split <;> rfl

/-! ## One read -/

/-- Every event in front of the cursor is folded, and nothing else. A load that has read anything
could read the first slot. -/
structure Skims (p : Projector A S) (c : Contents A) (l : Loading S) : Prop where
  bounded : l.cursor.val ≤ c.slots.length
  folded : l.folded = entriesOf p (c.slots.take l.cursor.val).reduceOption
  unread : l.readAny = false → l.cursor.val = 0
  begun : l.readAny = true → c.failure? 0 = none

theorem skims_new (c : Contents A) : Skims p c {} where
  bounded := Nat.zero_le _
  folded := rfl
  unread _ := rfl
  begun h := by cases h

namespace Skims

variable {c : Contents A} {l : Loading S}

theorem begins (hl : Skims p c l) (h : c.failure? l.cursor.val = none) : c.failure? 0 = none := by
  cases hread : l.readAny with
  | true => exact hl.begun hread
  | false =>
    rw [hl.unread hread] at h
    exact h

/-- A load that has come to the end has folded every event. -/
theorem whole (hl : Skims p c l) (h : c.slots.length ≤ l.cursor.val) :
    l.folded = entriesOf p c.slots.reduceOption := by
  rw [hl.folded, List.take_of_length_le h]

theorem skip (hl : Skims p c l) (h : c.Numbered) (hread : l.readAny = true)
    (hempty : c.slots[l.cursor.val]? = some none) {notes : List Note} :
    Skims p c { l with cursor := l.cursor.next, readAny := true, notes } ∧
      l.cursor.val < l.cursor.next.val := by
  have hlt := (List.getElem?_eq_some_iff.mp hempty).1
  have hnext : l.cursor.next.val = l.cursor.val + 1 := by
    have hroom := h.1
    rw [← Contents.length_slots] at hroom
    exact Position.val_next (by omega)
  refine ⟨⟨?_, ?_, nofun, fun _ => hl.begun hread⟩, by omega⟩
  · show l.cursor.next.val ≤ _
    omega
  · show l.folded = _
    rw [hnext, List.take_add_one, hempty, List.reduceOption_append, hl.folded]
    exact congrArg (entriesOf p) (List.append_nil _).symm

theorem fold {events : List (Event A)} {next : Position} (hl : Skims p c l)
    (hfull : c.failure? l.cursor.val = none) (hlt : l.cursor < next)
    (hnext : next.val ≤ c.slots.length)
    (htake : (c.slots.take next.val).reduceOption
      = (c.slots.take l.cursor.val).reduceOption ++ events) :
    Skims p c (events.foldl (foldEvent p) { l with cursor := next, readAny := true }) ∧
      l.cursor.val < (events.foldl (foldEvent p)
        { l with cursor := next, readAny := true }).cursor.val := by
  refine ⟨⟨?_, ?_, ?_, fun _ => hl.begins hfull⟩, ?_⟩
  · rw [foldl_cursor]
    exact hnext
  · rw [foldl_cursor, htake]
    exact folded_append hl.folded
  · rw [readAny_foldl]
    nofun
  · rw [foldl_cursor]
    exact hlt

end Skims

/-- What a load of a log comes to. -/
inductive ComesTo (p : Projector A S) (store : Store A) :
    Except ReadFailure (List (StreamId × Entry S)) → Prop where
  | whole : store.contents.failure? 0 = none →
      ComesTo p store (.ok (entriesOf p store.contents.slots.reduceOption))
  /-- The first record cannot be decoded. -/
  | headless (failure : ReadFailure) : store.contents.failure? 0 = some failure →
      ComesTo p store (.error failure)
  /-- A read is made to fail. -/
  | fault (q : Position) (failure : ReadFailure) : (q, failure) ∈ store.readFaults →
      ComesTo p store (.error failure)

theorem ComesTo.of_after {store store' : Store A}
    {outcome : Except ReadFailure (List (StreamId × Entry S))} (h : store.After store')
    (hout : ComesTo p store' outcome) : ComesTo p store outcome := by
  cases hout with
  | whole hhead => rw [h.contents] at hhead ⊢; exact .whole hhead
  | headless failure hhead => rw [h.contents] at hhead; exact .headless failure hhead
  | fault q failure hfault => exact .fault q failure (h.faults hfault)

variable {store : Store A} {l : Loading S}

/-- What one read does to a load: it gets on, or it ends. -/
theorem Skims.advance (h : store.contents.Numbered) (hsize : 0 < store.pageSize)
    (hfaults : ∀ q f, (q, f) ∈ store.readFaults → f.isTemporary = true)
    (hl : Skims p store.contents l) :
    (∃ l', Loading.advance p l (store.readFrom l.cursor).page = .more l' ∧
      Skims p store.contents l' ∧ l.cursor.val < l'.cursor.val) ∨
    (∃ l', Loading.advance p l (store.readFrom l.cursor).page = .complete l' ∧
      ComesTo p store (.ok l'.folded)) ∨
    (∃ failure, Loading.advance p l (store.readFrom l.cursor).page = .failed failure ∧
      ComesTo p store (.error failure)) := by
  cases hfault : Store.takeFault l.cursor store.readFaults with
  | some found =>
    have hmem : (l.cursor, found.1) ∈ store.readFaults :=
      (Store.takeFault_perm hfault).mem_iff.mpr List.mem_cons_self
    have hpage : (store.readFrom l.cursor).page = .error found.1 := by
      simp only [Store.readFrom, hfault]
    rw [hpage]
    cases hfailure : found.1 with
    | permanent reason =>
      have htemporary := hfaults _ _ hmem
      rw [hfailure] at htemporary
      cases htemporary
    | temporary reason =>
      rw [hfailure] at hmem
      exact .inr (.inr ⟨_, rfl, .fault _ _ hmem⟩)
  | none =>
    have hyields := Store.yields_readFrom h hsize hfault
    generalize (store.readFrom l.cursor).page = page at hyields
    cases hyields with
    | empty failure hempty =>
      obtain ⟨reason, rfl⟩ := Contents.permanent_of_failure? hempty
      simp only [Loading.advance]
      cases hread : l.readAny with
      | false =>
        rw [hl.unread hread] at hempty
        exact .inr (.inr ⟨_, rfl, .headless _ hempty⟩)
      | true =>
        have hslot := Contents.failure?_isSome.mp (Option.isSome_of_eq_some hempty)
        exact .inl ⟨_, rfl, hl.skip h hread hslot⟩
    | behind hend =>
      have hfull : store.contents.failure? l.cursor.val = none := by
        rw [← Option.not_isSome_iff_eq_none, Contents.failure?_isSome,
          List.getElem?_eq_none_iff.mpr hend]
        exact (Option.some_ne_none none).symm
      refine .inr (.inl ⟨_, rfl, ?_⟩)
      show ComesTo p store (.ok l.folded)
      rw [hl.whole hend]
      exact .whole (hl.begins hfull)
    | events events last hfull hlast hlt hnext htake =>
      simp only [Loading.advance, hlast]
      exact .inl ⟨_, rfl, hl.fold hfull hlt hnext htake⟩

/-! ## All reads -/

/-- A load that reads on until it ends, however many pages that takes, and what it comes to. -/
inductive Ends (p : Projector A S) : Store A → List Note → Loading S → Result A S → Prop where
  | more {store : Store A} {notes : List Note} {l l' : Loading S} {result : Result A S} :
      Loading.advance p { l with notes := [] } (store.readFrom l.cursor).page = .more l' →
      Ends p (store.readFrom l.cursor).store
        (notes ++ (store.readFrom l.cursor).notes ++ l'.notes) l' result →
      Ends p store notes l result
  | complete {store : Store A} {notes : List Note} {l l' : Loading S} :
      Loading.advance p { l with notes := [] } (store.readFrom l.cursor).page = .complete l' →
      Ends p store notes l ⟨.ok l'.folded, notes ++ (store.readFrom l.cursor).notes ++ l'.notes,
        (store.readFrom l.cursor).store⟩
  | failed {store : Store A} {notes : List Note} {l : Loading S} {failure : ReadFailure} :
      Loading.advance p { l with notes := [] } (store.readFrom l.cursor).page = .failed failure →
      Ends p store notes l ⟨.error failure, notes ++ (store.readFrom l.cursor).notes,
        (store.readFrom l.cursor).store⟩

/-- With a read for every slot that is left, and one more, a load ends. -/
theorem run_ends {fuel : Nat} : ∀ {store : Store A} {notes : List Note} {l : Loading S},
    store.contents.Numbered → 0 < store.pageSize →
      (∀ q f, (q, f) ∈ store.readFaults → f.isTemporary = true) →
      Skims p store.contents l → store.contents.slots.length - l.cursor.val < fuel →
        Ends p store notes l (run p fuel store notes l) ∧
          ComesTo p store (run p fuel store notes l).outcome := by
  induction fuel with
  | zero => intro store notes l _ _ _ _ hfuel; omega
  | succ fuel ih =>
    intro store notes l h hsize hfaults hl hfuel
    have hafter := store.after_readFrom (p := l.cursor)
    have hl' : Skims p store.contents { l with notes := [] } :=
      ⟨hl.bounded, hl.folded, hl.unread, hl.begun⟩
    simp only [run]
    rcases hl'.advance h hsize hfaults with ⟨l₁, hadv, hl₁, hlt⟩ | ⟨l₁, hadv, hout⟩ |
      ⟨failure, hadv, hout⟩
    · rw [hadv]
      have hbounded := hl₁.bounded
      dsimp only at hlt ⊢
      obtain ⟨hends, hout⟩ := @ih (store.readFrom l.cursor).store
        (notes ++ (store.readFrom l.cursor).notes ++ l₁.notes) l₁
        (by rw [hafter.contents]; exact h) (by rw [hafter.pageSize]; exact hsize)
        (fun q f hf => hfaults q f (hafter.faults hf)) (by rw [hafter.contents]; exact hl₁)
        (by rw [hafter.contents]; omega)
      exact ⟨.more hadv hends, hout.of_after hafter⟩
    · rw [hadv]
      exact ⟨.complete hadv, hout⟩
    · rw [hadv]
      exact ⟨.failed hadv, hout⟩

theorem load_ends (h : store.contents.Numbered) (hsize : 0 < store.pageSize)
    (hfaults : ∀ q f, (q, f) ∈ store.readFaults → f.isTemporary = true) :
    Ends p store [] {} (load p store) ∧ ComesTo p store (load p store).outcome := by
  refine run_ends h hsize hfaults (skims_new _) ?_
  rw [Contents.length_slots]
  show store.length - 0 < store.length + store.readFaults.length + 1
  omega

/-- What a load of a log comes to if no read is made to fail, whatever the size of its pages. -/
theorem load_quiet (h : store.contents.Numbered) (hsize : 0 < store.pageSize)
    (hquiet : store.readFaults = []) :
    (load p store).outcome = match store.contents.failure? 0 with
      | some failure => .error failure
      | none => .ok (entriesOf p store.events) := by
  have hout := (load_ends (p := p) h hsize (by rw [hquiet]; nofun)).2
  generalize (load p store).outcome = outcome at hout
  cases hout with
  | whole hhead => rw [hhead, Store.events_eq_reduceOption]
  | headless failure hhead => rw [hhead]
  | fault q failure hfault => rw [hquiet] at hfault; cases hfault

/-! ## What was folded -/

section Folded

variable {events : List (Event A)} {folded : List (StreamId × Entry S)} {s : StreamId}

theorem Folded.state_eq (h : Folded p events folded) {x : Entry S} (hx : (s, x) ∈ folded) :
    x.state = p.foldAll none (events.filter fun e => e.stream == s) := by
  rw [← Projector.entry?_state, ((h s x).mp hx).2]
  rfl

theorem Folded.unique (h : Folded p events folded) {x y : Entry S} (hx : (s, x) ∈ folded)
    (hy : (s, y) ∈ folded) : x = y :=
  Option.some.inj (((h s x).mp hx).2.symm.trans ((h s y).mp hy).2)

theorem Folded.mem_some (h : Folded p events folded) {v : S} :
    (∃ x, (s, x) ∈ folded ∧ x.state = some v) ↔ p.concerns s = true ∧
      p.foldAll none (events.filter fun e => e.stream == s) = some v := by
  constructor
  · rintro ⟨x, hx, hv⟩
    rw [h.state_eq hx] at hv
    exact ⟨((h s x).mp hx).1, hv⟩
  · rintro ⟨hs, hv⟩
    rw [← Projector.entry?_state] at hv
    obtain ⟨x, hx, hstate⟩ := Option.bind_eq_some_iff.mp hv
    exact ⟨x, (h s x).mpr ⟨hs, hx⟩, hstate⟩

end Folded

/-- The entries of a whole log are exact, and miss none of its events. -/
theorem entriesOf_exact {log : List (Event A)} (h : Log.Numbered log) {s : StreamId} {x : Entry S}
    (hx : (s, x) ∈ entriesOf p log) :
    p.concerns s = true ∧ x.Exact p log s ∧ AtOrBeyond log s log.length x.position := by
  obtain ⟨hs, hentry⟩ := (folded_entriesOf log s x).mp hx
  rw [← Log.early_of_length_le (Nat.le_refl _)] at hentry
  obtain ⟨hexact, -, hbeyond⟩ := entry?_early h log.length (Nat.le_refl _) hentry
  exact ⟨hs, hexact, hbeyond⟩

end Loading

/-! ## What a cache answers with -/

namespace Cache

variable {c : Cache S} {s : StreamId}

theorem mem_states {v : S} :
    (s, v) ∈ c.states ↔ ∃ x, (s, x) ∈ c.entries.entries ∧ x.state = some v := by
  rw [states, List.mem_filterMap]
  constructor
  · rintro ⟨⟨s', x⟩, hx, hv⟩
    obtain ⟨v', hstate, heq⟩ := Option.map_eq_some_iff.mp hv
    cases heq
    exact ⟨x, hx, hstate⟩
  · rintro ⟨x, hx, hstate⟩
    exact ⟨(s, x), hx, by rw [hstate]; rfl⟩

theorem distinct_states (h : c.entries.Distinct) : c.states.Pairwise fun a b => a.1 ≠ b.1 := by
  refine h.filterMap _ fun a a' hne b hb b' hb' => ?_
  obtain ⟨v, -, rfl⟩ := Option.map_eq_some_iff.mp hb
  obtain ⟨v', -, rfl⟩ := Option.map_eq_some_iff.mp hb'
  exact hne

/-- An empty cache without a capacity keeps what a load has folded, and nothing else. -/
theorem mem_keepLoaded_new {events : List (Event A)} {folded : List (StreamId × Entry S)}
    (h : Loading.Folded p events folded) {x : Entry S} :
    (s, x) ∈ ((new .unbounded : Cache S).keepLoaded folded).entries.entries ↔ (s, x) ∈ folded := by
  have hkept : ∀ {y : Entry S},
      (s, y) ∈ ((new .unbounded : Cache S).keepLoaded folded).entries.entries →
        (s, y) ∈ folded := by
    intro y hy
    rcases mem_keepLoaded hy with hnone | hmem
    · cases hnone
    · exact hmem
  refine ⟨hkept, fun hx => ?_⟩
  obtain ⟨y, hy, -⟩ := find?_keepLoaded_mem (c := new .unbounded) rfl hx
  have hmem := Collection.mem_of_find? hy
  rw [h.unique hx (hkept hmem)]
  exact hmem

theorem distinct_keep {x : Entry S} (h : c.entries.Distinct) :
    (c.keep s x).entries.Distinct := by
  rcases keep_cases c s x with ⟨hk, -⟩ | ⟨hk, -⟩ <;> rw [hk]
  · exact h.insert
  · exact h

theorem distinct_keepLoaded {folded : List (StreamId × Entry S)} (h : c.entries.Distinct) :
    (c.keepLoaded folded).entries.Distinct := by
  show (folded.foldl (fun c entry => c.keep entry.1 entry.2) c).entries.Distinct
  induction folded generalizing c with
  | nil => exact h
  | cons entry rest ih => exact ih (distinct_keep h)

end Cache

namespace ReadModel

variable {m : ReadModel A S} {store : Store A}

theorem getAllIn_of_allLoaded (h : m.cache.allLoaded = true)
    (arrange : List (StreamId × Entry S) → List (StreamId × Entry S)) :
    m.getAllIn arrange store = ⟨.ok m.cache.states, m, store, []⟩ := by
  simp only [getAllIn, h, if_true]

theorem getAllIn_of_ok (h : m.cache.allLoaded = false) {folded : List (StreamId × Entry S)}
    (hload : (Loading.load m.projector store).outcome = .ok folded)
    (arrange : List (StreamId × Entry S) → List (StreamId × Entry S)) :
    (m.getAllIn arrange store).answer = .ok (m.cache.keepLoaded (arrange folded)).states ∧
      (m.getAllIn arrange store).model
        = { m with cache := m.cache.keepLoaded (arrange folded) } := by
  simp only [getAllIn, h, hload, Bool.false_eq_true, if_false, and_self]

theorem getAllIn_of_error (h : m.cache.allLoaded = false) {failure : ReadFailure}
    (hload : (Loading.load m.projector store).outcome = .error failure)
    (arrange : List (StreamId × Entry S) → List (StreamId × Entry S)) :
    (m.getAllIn arrange store).answer = .error (.read failure) ∧
      (m.getAllIn arrange store).model = m := by
  simp only [getAllIn, h, hload, Bool.false_eq_true, if_false, and_self]

/-- What a fresh read model answers with when it is asked for every projection of a log of records,
of which some cannot be decoded. The load ends. It fails for good exactly if the first record cannot
be decoded, and then changes nothing. Else the answer has the fold of every stream's events, of
those that can be decoded, wherever there is one. The size of the pages makes no difference. -/
theorem getAll_new_of_records {registry : Registry A} {kept : List Record} {store : Store A}
    (hkept : store.contents = .records registry kept) (hroom : kept.length < 0x10000000000000000)
    (hpositions : kept.map (fun r => r.position.val) = List.range kept.length)
    (hquiet : store.readFaults = []) (hsize : 0 < store.pageSize) :
    Loading.Ends p store [] {} (Loading.load p store) ∧
    (((∃ reason, ((new p .unbounded).getAll store).answer
          = .error (.read (.permanent reason))) ∧
        ((new p .unbounded).getAll store).model = new p .unbounded) ↔
      ∃ first, kept.head? = some first ∧ registry.decodeRecord? first = none) ∧
    ((∀ first, kept.head? = some first → registry.decodeRecord? first ≠ none) →
      ∃ all, ((new p .unbounded).getAll store).answer = .ok all ∧
        (all.Pairwise fun a b => a.1 ≠ b.1) ∧
        ∀ s v, (s, v) ∈ all ↔ p.concerns s = true ∧
          p.foldAll none ((kept.filterMap registry.decodeRecord?).filter fun e => e.stream == s)
            = some v) ∧
    ∀ n, 0 < n → ((new p .unbounded).getAll { store with pageSize := n }).answer
      = ((new p .unbounded).getAll store).answer := by
  have hnumbered : store.contents.Numbered := by
    rw [hkept]
    exact ⟨hroom, hpositions⟩
  have hunloaded : (new p .unbounded : ReadModel A S).cache.allLoaded = false := rfl
  have hload := Loading.load_quiet (p := p) hnumbered hsize hquiet
  -- a first record that cannot be decoded is what a read from zero fails at
  have hhead : (store.contents.failure? 0).isSome = true ↔
      ∃ first, kept.head? = some first ∧ registry.decodeRecord? first = none := by
    rw [Contents.failure?_isSome, hkept, Contents.slots, List.getElem?_map, ← List.head?_eq_getElem?,
      Option.map_eq_some_iff]
  have hfaults : ∀ q f, (q, f) ∈ store.readFaults → f.isTemporary = true := by
    intro q f hf
    rw [hquiet] at hf
    cases hf
  unfold getAll
  refine ⟨(Loading.load_ends hnumbered hsize hfaults).1, ?_, fun hdecoded => ?_, fun n hn => ?_⟩
  · rw [← hhead]
    cases hfailure : store.contents.failure? 0 with
    | none =>
      rw [hfailure] at hload
      obtain ⟨hanswer, -⟩ := getAllIn_of_ok hunloaded hload id
      rw [hanswer]
      constructor
      · rintro ⟨⟨reason, herror⟩, -⟩
        cases herror
      · intro hnone
        cases hnone
    | some failure =>
      rw [hfailure] at hload
      obtain ⟨reason, rfl⟩ := Contents.permanent_of_failure? hfailure
      obtain ⟨hanswer, hmodel⟩ := getAllIn_of_error hunloaded hload id
      exact ⟨fun _ => rfl, fun _ => ⟨⟨reason, hanswer⟩, hmodel⟩⟩
  · have hbegins : store.contents.failure? 0 = none := by
      rw [← Option.not_isSome_iff_eq_none, hhead]
      rintro ⟨first, hfirst, hnone⟩
      exact hdecoded first hfirst hnone
    rw [hbegins] at hload
    obtain ⟨hanswer, -⟩ := getAllIn_of_ok hunloaded hload id
    refine ⟨_, hanswer, Cache.distinct_states (Cache.distinct_keepLoaded .nil), fun s v => ?_⟩
    have hfolded := Loading.folded_entriesOf (p := p) store.events
    have hevents : store.events = kept.filterMap registry.decodeRecord? := by
      rw [Store.events, hkept]
    rw [← hevents, ← hfolded.mem_some, Cache.mem_states]
    exact exists_congr fun x => and_congr_left fun _ => Cache.mem_keepLoaded_new hfolded
  · have hload' := Loading.load_quiet (p := p)
      (show ({ store with pageSize := n } : Store A).contents.Numbered from hnumbered) hn hquiet
    cases hfailure : store.contents.failure? 0 with
    | none =>
      rw [hfailure] at hload hload'
      rw [(getAllIn_of_ok hunloaded hload id).1,
        (getAllIn_of_ok hunloaded hload' id).1]
      rfl
    | some failure =>
      rw [hfailure] at hload hload'
      rw [(getAllIn_of_error hunloaded hload id).1,
        (getAllIn_of_error hunloaded hload' id).1]

/-- Three records, of which the second is under a tag that nothing is bound to. -/
def holed : Store Notes.Fact where
  contents := .records ⟨[("Noted.v1", ⟨.fact .noted, "Noted"⟩)]⟩
    [⟨.ofNat 0, 0, ⟨"Topic", "a"⟩, true, "Noted.v1",
        [1, 0, 0, 0, 0, 0, 0, 0, 97, 2, 0, 0, 0, 0, 0, 0, 0]⟩,
      ⟨.ofNat 1, 0, ⟨"Topic", "a"⟩, false, "Gone.v1", []⟩,
      ⟨.ofNat 2, 0, ⟨"Topic", "a"⟩, false, "Noted.v1",
        [1, 0, 0, 0, 0, 0, 0, 0, 97, 3, 0, 0, 0, 0, 0, 0, 0]⟩]
  pageSize := 2
  clock := 0

theorem getAll_new_holed :
    Loading.Ends Notes.projector holed [] {} (Loading.load Notes.projector holed) ∧
    ∃ all, ((new Notes.projector .unbounded).getAll holed).answer = .ok all ∧
      (⟨"Topic", "a"⟩, 5) ∈ all := by
  obtain ⟨hends, -, hanswer, -⟩ := getAll_new_of_records (p := Notes.projector)
    (show holed.contents = .records _ _ from rfl) (by decide) (by decide) rfl (by decide)
  obtain ⟨all, hall, -, hmem⟩ := hanswer (by rintro first ⟨⟩; exact nofun)
  exact ⟨hends, all, hall, (hmem _ _).mpr ⟨by decide, rfl⟩⟩

end ReadModel
end Chronicle
