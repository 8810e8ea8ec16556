import Chronicle.Node.Schedule
import Chronicle.Proofs.Projection.Applying
import Chronicle.Proofs.Projection.Reading

/-!
# Chronicle.Proofs.Projection.Founding

Where projections come from. If the read model has a projection of a stream, an event of that stream
in the log has created it (`Founded`). That needs neither reads that succeed, nor events that come
in their order, nor entries that are kept: every way of writing an entry folds events of its stream
onto a state that was founded before, or onto none.
-/

namespace Chronicle

/-! ## Folding -/

section Folding

variable {A S : Type} [Vocabulary A] {p : Projector A S} {log more : List (Event A)}
  {s : StreamId} {state : Option S} {e : Event A} {events : List (Event A)}

namespace Projector

/-- An event of the log has created the projection of a stream. -/
def Founded (p : Projector A S) (log : List (Event A)) (s : StreamId) : Prop :=
  ∃ e ∈ log, e.stream = s ∧ (p.fold none e).isSome = true

/-- The state of a stream, if it is a projection at all, was founded. -/
def Founds (p : Projector A S) (log : List (Event A)) (s : StreamId) (state : Option S) : Prop :=
  state.isSome = true → p.Founded log s

theorem Founded.append (h : p.Founded log s) : p.Founded (log ++ more) s := by
  obtain ⟨e, he, hcreates⟩ := h
  exact ⟨e, List.mem_append_left _ he, hcreates⟩

theorem Founds.append (h : p.Founds log s state) : p.Founds (log ++ more) s state :=
  fun hsome => (h hsome).append

theorem founds_none : p.Founds log s none := nofun

theorem Founds.fold (h : p.Founds log s state) (he : e ∈ log) (hs : e.stream = s) :
    p.Founds log s (p.fold state e) := by
  intro hsome
  cases state with
  | none => exact ⟨e, he, hs, hsome⟩
  | some v => exact h rfl

theorem Founds.foldAll (h : p.Founds log s state) (hevents : ∀ e ∈ events, e ∈ log ∧ e.stream = s) :
    p.Founds log s (p.foldAll state events) := by
  induction events generalizing state with
  | nil => exact h
  | cons e rest ih =>
    obtain ⟨⟨he, hs⟩, hrest⟩ := List.forall_mem_cons.mp hevents
    exact ih (h.fold he hs) hrest

theorem founds_entry? {x : Entry S} (hx : p.entry? events = some x)
    (hevents : ∀ e ∈ events, e ∈ log ∧ e.stream = s) : p.Founds log s x.state := by
  obtain ⟨last, -, rfl⟩ := Option.map_eq_some_iff.mp hx
  exact founds_none.foldAll hevents

end Projector

/-- What a read of a stream yields is of the log and of that stream. -/
def ReadsFrom (log : List (Event A)) (s : StreamId) (page : Page A) : Prop :=
  ∀ events, page = .ok events → ∀ e ∈ events, e ∈ log ∧ e.stream = s

theorem ReadsFrom.append {page : Page A} (h : ReadsFrom log s page) :
    ReadsFrom (log ++ more) s page := by
  intro events hpage e he
  obtain ⟨hmem, hs⟩ := h events hpage e he
  exact ⟨List.mem_append_left _ hmem, hs⟩

theorem readsFrom_readStream {store : Store A} (hstore : store.Holds log) {bound : Position} :
    ReadsFrom log s (store.readStream s bound).page :=
  fun _ hpage _ he => Store.mem_of_readStream hstore.contents hpage he

end Folding

/-! ## The read model -/

section Reads

variable {A S : Type} [Vocabulary A] {p : Projector A S} {log more : List (Event A)}
  {c : Cache S} {s : StreamId} {state : Option S} {x : Entry S} {e : Event A} {store : Store A}

namespace Cache

/-- The projections of the cache were founded. -/
def Grounded (p : Projector A S) (log : List (Event A)) (c : Cache S) : Prop :=
  ∀ s x, (s, x) ∈ c.entries.entries → p.Founds log s x.state

theorem Grounded.append (h : c.Grounded p log) : c.Grounded p (log ++ more) :=
  fun s x hx => (h s x hx).append

theorem Grounded.known (h : c.Grounded p log) (hk : c.known? p s = some state) :
    p.Founds log s state := by
  unfold known? at hk
  cases hf : c.entries.find? s with
  | some held =>
    simp only [hf] at hk
    cases hk
    exact h s held (Collection.mem_of_find? hf)
  | none =>
    simp only [hf] at hk
    split at hk <;> cases hk
    exact Projector.founds_none

theorem Grounded.keep (h : c.Grounded p log) (hx : p.Founds log s x.state) :
    (c.keep s x).Grounded p log := by
  intro t y hy
  rcases mem_keep hy with hold | ⟨rfl, rfl⟩
  · exact h t y hold
  · exact hx

theorem Grounded.answer (h : c.Grounded p log) (hx : p.Founds log s x.state) :
    p.Founds log s (c.answer s x) := by
  unfold Cache.answer
  cases hf : c.entries.find? s with
  | some held => exact h s held (Collection.mem_of_find? hf)
  | none => exact hx

theorem Grounded.insert (h : c.Grounded p log) (hx : p.Founds log s x.state) {t : StreamId}
    {y : Entry S} (hy : (t, y) ∈ (c.entries.insert s x).entries) : p.Founds log t y.state := by
  rcases Collection.mem_insert hy with ⟨-, hold⟩ | ⟨rfl, rfl⟩
  · exact h t y hold
  · exact hx

theorem grounded_invalidate : c.invalidate.Grounded p log := by
  intro s x hx
  cases hx

/-- However stale the cache or what was read for it, a live event of the log keeps it grounded. -/
theorem Grounded.apply [DecidableEq S] (h : c.Grounded p log) (he : e ∈ log) {earlier : Page A}
    (hearlier : ReadsFrom log e.stream earlier) : (c.apply p e earlier).1.Grounded p log := by
  cases hreached : Position.reached c.highWater e.position with
  | true =>
    have hstale : c.examine p e = .stale := by
      rw [examine, if_pos hreached]
    simp only [Cache.apply, hstale]
    exact h
  | false =>
    have hfate := apply_fate (p := p) hreached earlier
    intro s x hx
    generalize (c.apply p e earlier).1.entries = entries at hfate hx
    cases hfate with
    | onto held _ hf _ =>
      exact h.insert ((h e.stream held (Collection.mem_of_find? hf)).fold he rfl) hx
    | fresh _ _ _ => exact h.insert (Projector.founds_none.fold he rfl) hx
    | backfilled events _ _ _ hpage =>
      have hstate : p.Founds log e.stream (p.foldAll none events) :=
        Projector.founds_none.foldAll (hearlier events hpage)
      exact h.insert (hstate.fold he rfl) hx
    | _ => exact h s x hx

theorem Grounded.keepLoaded (h : c.Grounded p log) {folded : List (StreamId × Entry S)}
    (hfolded : ∀ s x, (s, x) ∈ folded → p.Founds log s x.state) :
    (c.keepLoaded folded).Grounded p log := by
  intro s x hx
  rcases mem_keepLoaded hx with hold | hnew
  · exact h s x hold
  · exact hfolded s x hnew

end Cache

namespace Loading

/-- What was folded so far was founded. -/
def Grounded (p : Projector A S) (log : List (Event A)) (l : Loading S) : Prop :=
  ∀ s x, (s, x) ∈ l.folded → p.Founds log s x.state

theorem Grounded.foldEvent {l : Loading S} (h : l.Grounded p log) (he : e ∈ log) :
    (foldEvent p l e).Grounded p log := by
  unfold Loading.foldEvent
  dsimp only
  split
  · intro s x hx
    rcases mem_rewritten.mp hx with ⟨-, hold⟩ | ⟨rfl, rfl⟩
    · exact h s x hold
    · refine Projector.Founds.fold ?_ he rfl
      cases hl : l.folded.lookup e.stream with
      | none => exact Projector.founds_none
      | some held => exact h e.stream held (mem_of_lookup hl)
  · exact h

theorem Grounded.foldl {events : List (Event A)} (hevents : events ⊆ log) :
    ∀ {l : Loading S}, l.Grounded p log → (events.foldl (Loading.foldEvent p) l).Grounded p log := by
  induction events with
  | nil => exact id
  | cons e rest ih =>
    intro l h
    obtain ⟨he, hrest⟩ := List.cons_subset.mp hevents
    exact ih hrest (h.foldEvent he)

/-- What a load keeps was founded, whatever part of the log it was able to read. -/
theorem Grounded.run {folded : List (StreamId × Entry S)} : ∀ {fuel : Nat} {store : Store A}
    {notes : List Note} {l : Loading S}, store.Holds log → l.Grounded p log →
    (run p fuel store notes l).outcome = .ok folded →
    ∀ s x, (s, x) ∈ folded → p.Founds log s x.state := by
  intro fuel
  induction fuel with
  | zero =>
    intro store notes l _ h hrun
    cases hrun
    exact h
  | succ fuel ih =>
    intro store notes l hstore h hrun
    have hpage := hstore.page_readFrom (p := l.cursor)
    simp only [Loading.run] at hrun
    split at hrun
    · rename_i l' hmore
      refine ih (hstore.after Store.after_readFrom) ?_ hrun
      unfold advance at hmore
      split at hmore
      · rename_i events hevents
        rw [hevents] at hpage
        split at hmore <;> cases hmore
        refine Grounded.foldl (fun e he => ?_) h
        cases hfault : Store.takeFault l.cursor store.readFaults with
        | some found =>
          rw [hfault] at hpage
          cases hpage
        | none =>
          rw [hfault] at hpage
          cases hpage
          exact List.mem_of_mem_drop (List.mem_of_mem_take he)
      · split at hmore <;> cases hmore
        exact h
      · cases hmore
    · rename_i l' hcomplete
      unfold advance at hcomplete
      (repeat' split at hcomplete) <;> cases hcomplete
      cases hrun
      exact h
    · cases hrun

end Loading

namespace ReadModel

variable {m : ReadModel A S}

/-- What is made of a page is founded, and what is kept of it. -/
theorem grounded_digest (h : m.cache.Grounded m.projector log) {page : Page A}
    (hpage : ReadsFrom log s page) :
    (m.digest s page).2.1.cache.Grounded m.projector log ∧
      ∀ state, (m.digest s page).1 = .ok state → m.projector.Founds log s state := by
  have hdigested := m.digested_digest s page
  generalize (m.digest s page).1 = answer, (m.digest s page).2.1 = model at hdigested ⊢
  cases hdigested with
  | failed failure _ => exact ⟨h, nofun⟩
  | empty _ =>
    refine ⟨h, fun state hanswer => ?_⟩
    cases hanswer
    exact Projector.founds_none
  | kept events x hevents hx =>
    have hfounds := Projector.founds_entry? hx (hpage events hevents)
    refine ⟨h.keep hfounds, fun state hanswer => ?_⟩
    cases hanswer
    exact (h.keep hfounds).answer hfounds

/-- What is answered is founded, and what is kept. -/
theorem grounded_get (h : m.cache.Grounded m.projector log) (hstore : store.Holds log) :
    (m.get store s).model.cache.Grounded m.projector log ∧
      ∀ state, (m.get store s).answer = .ok state → m.projector.Founds log s state := by
  unfold get
  cases hk : m.known? s with
  | some state =>
    refine ⟨h, fun state' hanswer => ?_⟩
    cases hanswer
    exact h.known hk
  | none => exact grounded_digest h (readsFrom_readStream hstore)

theorem grounded_getUpTo (h : m.cache.Grounded m.projector log) (hstore : store.Holds log)
    {bound : Position} : (m.getUpTo store s bound).model.cache.Grounded m.projector log := by
  unfold getUpTo
  split
  · exact (grounded_get h hstore).1
  · exact h

theorem grounded_getAllIn (h : m.cache.Grounded m.projector log) (hstore : store.Holds log)
    {arrange : List (StreamId × Entry S) → List (StreamId × Entry S)}
    (harrange : Loading.Arranges arrange) :
    (m.getAllIn arrange store).model.cache.Grounded m.projector log := by
  unfold getAllIn
  split
  · exact h
  · dsimp only
    cases hloaded : (Loading.load m.projector store).outcome with
    | error failure => exact h
    | ok folded =>
      have hnew : Loading.Grounded m.projector log ({} : Loading S) := by
        intro s x hx
        cases hx
      exact h.keepLoaded fun s x hx =>
        hnew.run hstore hloaded s x ((harrange folded).mem_iff.mp hx)

theorem grounded_apply [DecidableEq S] (h : m.cache.Grounded m.projector log) (he : e ∈ log)
    {earlier : Page A} (hearlier : ReadsFrom log e.stream earlier) :
    (m.apply e earlier).1.cache.Grounded m.projector log := by
  have hcache := h.apply he hearlier
  unfold apply announce
  dsimp only
  split <;> exact hcache

end ReadModel

end Reads

end Chronicle
