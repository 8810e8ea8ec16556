import Chronicle.Node.Basic
import Chronicle.Proofs.Projection.Applying
import Chronicle.Proofs.Running

/-!
# Chronicle.Proofs.Projection.Traffic

A read model with everything that can go on around it at once: the log grows, live events are
applied one after another, streams are looked up, everything is loaded, the entries are dropped.

A `Move` is one step of one of these, and a run takes moves in any order. What holds the lock keeps
the others from writing (`Holder`); reads take no lock. A lookup reads in one move and keeps what it
found in a later one, and anything may come in between. Reads may fail.

* `Sound`: what is under way rests on what the log holds. Every move keeps that (`Sound.step`).
* `Written`: the ways in which a move writes to the cache (`step_written`).
-/

namespace Chronicle

inductive Holder (A S : Type) where
  | nobody
  /-- A live event is being applied, and what its stream held before it was read. -/
  | applying (e : Event A) (earlier : Page A)
  | loading (l : Loading S)
  /-- The log was read to its end. -/
  | loaded (folded : List (StreamId × Entry S))

structure Traffic (A S : Type) where
  log : List (Event A)
  model : ReadModel A S
  /-- How many events of the log were applied. -/
  applied : Nat := 0
  holder : Holder A S := .nobody
  /-- The lookups that were begun, each with its stream. -/
  lookups : List (StreamId × LookupPhase A S) := []

inductive Move (A S : Type) where
  | append (batch : List (Event A))
  /-- The next live event takes the lock; it is applied at once unless that takes a read. -/
  | deliver (fault : Option ReadFailure)
  /-- The live event that was waiting for its read is applied. -/
  | settle
  /-- A lookup begins. -/
  | ask (s : StreamId)
  | read (i : Nat) (fault : Option ReadFailure)
  /-- A lookup folds what it has read. -/
  | digest (i : Nat)
  /-- A lookup keeps its entry and answers. -/
  | keep (i : Nat)
  /-- Loading everything begins. -/
  | load
  /-- A load reads a page of at most so many events. -/
  | page (limit : Nat) (fault : Option ReadFailure)
  /-- A load keeps its entries, in an order of its own. -/
  | keepAll (order : List (StreamId × Entry S))
  /-- A projection is made from the log below a bound, and not kept. -/
  | glance (s : StreamId) (bound : Position)
  | invalidate

namespace Traffic

variable {A S : Type} [Vocabulary A] [DecidableEq S]

def start (p : Projector A S) (entries : Collection S) (log : List (Event A)) : Traffic A S :=
  { log, model := .new p entries }

def putLookup (t : Traffic A S) (i : Nat) (s : StreamId) (phase : LookupPhase A S) : Traffic A S :=
  { t with lookups := t.lookups.set i (s, phase) }

def finish (t : Traffic A S) (e : Event A) (earlier : Page A) : Traffic A S :=
  { t with model := (t.model.apply e earlier).1, applied := t.applied + 1, holder := .nobody }

/-- How a lookup begins. -/
def asked (m : ReadModel A S) (s : StreamId) : LookupPhase A S :=
  match m.known? s with
  | some state => .answered (.ok state)
  | none => .asked

/-- What a lookup does with its page. -/
def digested (p : Projector A S) (page : Page A) : LookupPhase A S :=
  match (ReadModel.backfilled p page).1 with
  | .ok (some x) => .locking x
  | .ok none => .answered (.ok none)
  | .error failure => .answered (.error failure)

/-- What a load does with its page. -/
def loadedTo (p : Projector A S) (l : Loading S) (page : Page A) : Holder A S :=
  match Loading.advance p l page with
  | .more l => .loading l
  | .complete l => .loaded l.folded
  | .failed _ => .nobody

def step (t : Traffic A S) : Move A S → Option (Traffic A S)
  | .append batch =>
    if Log.Numbered (t.log ++ batch) then some { t with log := t.log ++ batch } else none
  | .deliver fault =>
    match t.holder, t.log[t.applied]? with
    | .nobody, some e =>
      if t.model.needsRead e then
        let earlier := Log.answered fault (Log.below t.log e.stream e.position)
        some { t with holder := .applying e earlier }
      else some (t.finish e (.ok []))
    | _, _ => none
  | .settle =>
    match t.holder with
    | .applying e earlier => some (t.finish e earlier)
    | _ => none
  | .ask s => some { t with lookups := t.lookups ++ [(s, asked t.model s)] }
  | .read i fault =>
    match t.lookups[i]? with
    | some (s, .asked) =>
      some (t.putLookup i s (.holding (Log.answered fault (Log.below t.log s Position.last))))
    | _ => none
  | .digest i =>
    match t.lookups[i]? with
    | some (s, .holding page) => some (t.putLookup i s (digested t.model.projector page))
    | _ => none
  | .keep i =>
    match t.holder, t.lookups[i]? with
    | .nobody, some (s, .locking x) =>
      let (model, state) := t.model.keep s x
      some { t.putLookup i s (.answered (.ok state)) with model }
    | _, _ => none
  | .load =>
    match t.holder with
    | .nobody => some (if t.model.cache.allLoaded then t else { t with holder := .loading {} })
    | _ => none
  | .page limit fault =>
    match t.holder with
    | .loading l =>
      if 0 < limit then
        let page := Log.answered fault (Log.page t.log l.cursor limit)
        some { t with holder := loadedTo t.model.projector l page }
      else none
    | _ => none
  | .keepAll order =>
    match t.holder with
    | .loaded folded =>
      if order.Perm folded then
        let cache := t.model.cache.keepLoaded order
        some { t with model := { t.model with cache }, holder := .nobody }
      else none
    | _ => none
  | .glance _ bound => if bound.isLast then none else some t
  | .invalidate =>
    match t.holder with
    | .nobody => some { t with model := t.model.invalidate }
    | _ => none

abbrev run (t : Traffic A S) (ms : List (Move A S)) : Option (Traffic A S) := runMoves step t ms

theorem log_grows {t t' : Traffic A S} {m : Move A S} (h : t.step m = some t') :
    t.log <+: t'.log := by
  cases m <;> simp only [step] at h <;> (repeat' split at h) <;> cases h <;>
    first | exact List.prefix_rfl | exact List.prefix_append _ _

theorem log_grows_run {t t' : Traffic A S} {ms : List (Move A S)} (h : t.run ms = some t') :
    t.log <+: t'.log :=
  runMoves_induction (P := fun u => t.log <+: u.log) List.prefix_rfl
    (fun _ _ hm ht => ht.trans (log_grows hm)) h

end Traffic

theorem ReadModel.concerns_of_unknown {A S : Type} {m : ReadModel A S} {s : StreamId}
    (h : m.known? s = none) :
    m.projector.concerns s = true := by
  unfold ReadModel.known? Cache.known? at h
  cases hf : m.cache.entries.find? s with
  | some x => simp [hf] at h
  | none =>
    simp only [hf] at h
    split at h
    · cases h
    · rename_i hc
      simp only [Bool.or_eq_true, not_or, Bool.not_eq_true', Bool.not_eq_false] at hc
      exact hc.2

/-! ## What is under way -/

section Soundness

variable {A S : Type} [Vocabulary A]

/-- A lookup's page and its entry are what the log holds, or held, of the stream. -/
def LookupPhase.Sound (p : Projector A S) (log : List (Event A)) (s : StreamId) :
    LookupPhase A S → Prop
  | .asked => p.concerns s = true
  | .holding page => p.concerns s = true ∧
      ∀ events, page = .ok events → ∃ n ≤ log.length, events = Log.early log s n
  | .locking x => p.concerns s = true ∧ x.Exact p log s
  | .answered _ => True

/-- What the holder of the lock has read rests on the log, of which `applied` events were applied. -/
def Holder.Sound (p : Projector A S) (log : List (Event A)) (applied : Nat) : Holder A S → Prop
  | .nobody => True
  | .applying e earlier => log[applied]? = some e ∧
      ∀ events, earlier = .ok events → events = Log.early log e.stream applied
  | .loading l => Loading.Sound p log l
  | .loaded folded => ∃ n, applied ≤ n ∧ n ≤ log.length ∧ Loading.Folded p (log.take n) folded

theorem LookupPhase.Sound.append {p : Projector A S} {log batch : List (Event A)} {s : StreamId}
    {phase : LookupPhase A S} (hlog : Log.Numbered (log ++ batch)) (h : phase.Sound p log s) :
    phase.Sound p (log ++ batch) s := by
  cases phase with
  | asked => exact h
  | holding page =>
    refine ⟨h.1, fun events hpage => ?_⟩
    obtain ⟨n, hn, rfl⟩ := h.2 events hpage
    exact ⟨n, by rw [List.length_append]; omega, (Log.early_append hn).symm⟩
  | locking x => exact ⟨h.1, h.2.append hlog⟩
  | answered _ => trivial

theorem Holder.Sound.append {p : Projector A S} {log batch : List (Event A)} {applied : Nat}
    {holder : Holder A S} (happlied : applied ≤ log.length) (h : holder.Sound p log applied) :
    holder.Sound p (log ++ batch) applied := by
  cases holder with
  | nobody => trivial
  | applying e earlier =>
    refine ⟨?_, fun events hpage => ?_⟩
    · rw [List.getElem?_append_left (List.getElem?_eq_some_iff.mp h.1).1]
      exact h.1
    · rw [Log.early_append happlied]
      exact h.2 events hpage
  | loading l =>
    refine ⟨?_, ?_⟩
    · have := h.1
      rw [List.length_append]
      omega
    · rw [List.take_append_of_le_length h.1]
      exact h.2
  | loaded folded =>
    obtain ⟨n, hle, hn, hfolded⟩ := h
    refine ⟨n, hle, by rw [List.length_append]; omega, ?_⟩
    rw [List.take_append_of_le_length hn]
    exact hfolded

/-- What is under way around a read model rests on what the log holds, and the high water is at the
last event that was applied. -/
structure Traffic.Sound (p : Projector A S) (t : Traffic A S) : Prop where
  numbered : Log.Numbered t.log
  projector : t.model.projector = p
  bounded : t.applied ≤ t.log.length
  mark : ∀ q, Position.reached t.model.cache.highWater q = true ↔ q.val < t.applied
  holder : t.holder.Sound p t.log t.applied
  lookups : ∀ s phase, (s, phase) ∈ t.lookups → phase.Sound p t.log s

end Soundness

/-- The move does not pass over a position that a load could not read. -/
def Move.ReadsAll {A S : Type} : Move A S → Prop
  | .page _ (some (.permanent _)) => False
  | _ => True

/-- The move meets no failing read and does not drop the entries. -/
def Move.Undisturbed {A S : Type} : Move A S → Prop
  | .deliver fault | .read _ fault | .page _ fault => fault = none
  | .invalidate => False
  | _ => True

theorem Move.Undisturbed.readsAll {A S : Type} {m : Move A S} (h : m.Undisturbed) : m.ReadsAll := by
  cases m with
  | page limit fault => cases h; trivial
  | _ => trivial

namespace Traffic

variable {A S : Type} [Vocabulary A] {p : Projector A S} {t t' : Traffic A S}

theorem sound_start {entries : Collection S} {log : List (Event A)} (h : Log.Numbered log) :
    Sound p (start p entries log) where
  numbered := h
  projector := rfl
  bounded := Nat.zero_le _
  mark q := by simp [start, ReadModel.new, Cache.new, Position.reached]
  holder := trivial
  lookups s phase h := by cases h

namespace Sound

theorem append {batch : List (Event A)} (ht : Sound p t) (h : Log.Numbered (t.log ++ batch)) :
    Sound p { t with log := t.log ++ batch } where
  numbered := h
  projector := ht.projector
  bounded := by
    show t.applied ≤ (t.log ++ batch).length
    have := ht.bounded
    rw [List.length_append]
    omega
  mark := ht.mark
  holder := ht.holder.append ht.bounded
  lookups s phase hmem := (ht.lookups s phase hmem).append h

theorem unreached (ht : Sound p t) {e : Event A} (he : t.log[t.applied]? = some e) :
    Position.reached t.model.cache.highWater e.position = false := by
  rw [Bool.eq_false_iff]
  intro h
  have := (ht.mark _).mp h
  rw [ht.numbered.position he] at this
  omega

theorem putLookup {i : Nat} {s : StreamId} {phase : LookupPhase A S} (ht : Sound p t)
    (h : phase.Sound p t.log s) : Sound p (t.putLookup i s phase) where
  numbered := ht.numbered
  projector := ht.projector
  bounded := ht.bounded
  mark := ht.mark
  holder := ht.holder
  lookups s' phase' hmem := by
    rcases List.mem_or_eq_of_mem_set hmem with hmem | heq
    · exact ht.lookups s' phase' hmem
    · cases heq
      exact h

theorem hold {holder : Holder A S} (ht : Sound p t) (h : holder.Sound p t.log t.applied) :
    Sound p { t with holder } where
  numbered := ht.numbered
  projector := ht.projector
  bounded := ht.bounded
  mark := ht.mark
  holder := h
  lookups := ht.lookups

/-- Entries may be written at any time, as long as the high water stays. -/
theorem rewrite {model : ReadModel A S} (ht : Sound p t) (hp : model.projector = t.model.projector)
    (hw : model.cache.highWater = t.model.cache.highWater) : Sound p { t with model } where
  numbered := ht.numbered
  projector := hp.trans ht.projector
  bounded := ht.bounded
  mark q := by
    show Position.reached model.cache.highWater q = true ↔ _
    rw [hw]
    exact ht.mark q
  holder := ht.holder
  lookups := ht.lookups

theorem lookup {i : Nat} {s : StreamId} {phase : LookupPhase A S} (ht : Sound p t)
    (h : t.lookups[i]? = some (s, phase)) : phase.Sound p t.log s :=
  ht.lookups s phase (List.mem_of_getElem? h)

theorem asked (ht : Sound p t) (s : StreamId) : (asked t.model s).Sound p t.log s := by
  rw [Traffic.asked]
  cases hk : t.model.known? s with
  | some state => trivial
  | none =>
    have := ReadModel.concerns_of_unknown hk
    rw [ht.projector] at this
    exact this

theorem digested {s : StreamId} {page : Page A} (ht : Sound p t) (hs : p.concerns s = true)
    (hpage : ∀ events, page = .ok events → ∃ n ≤ t.log.length, events = Log.early t.log s n) :
    (Traffic.digested t.model.projector page).Sound p t.log s := by
  rw [ht.projector]
  cases page with
  | error failure => trivial
  | ok events =>
    obtain ⟨n, hn, rfl⟩ := hpage events rfl
    simp only [Traffic.digested, ReadModel.backfilled]
    cases hx : p.entry? (Log.early t.log s n) with
    | none => trivial
    | some x => exact ⟨hs, (entry?_early ht.numbered n hn hx).1⟩

/-- A load goes on soundly whatever its read comes to, unless a position is passed over. -/
theorem loadedTo {l : Loading S} {limit : Nat} {fault : Option ReadFailure} (ht : Sound p t)
    (hl : t.holder = .loading l) (hlimit : 0 < limit)
    (hm : (Move.page limit fault : Move A S).ReadsAll) :
    (Traffic.loadedTo t.model.projector l
      (Log.answered fault (Log.page t.log l.cursor limit))).Sound p t.log t.applied := by
  have hsound : Loading.Sound p t.log l := by
    have := ht.holder
    rw [hl] at this
    exact this
  rw [ht.projector]
  cases fault with
  | none =>
    rcases hsound.advance ht.numbered hlimit with ⟨l', hadv, hl'⟩ | ⟨l', hadv, hl'⟩
    · simp only [Traffic.loadedTo, Log.answered, hadv]
      exact hl'
    · simp only [Traffic.loadedTo, Log.answered, hadv]
      refine ⟨t.log.length, ht.bounded, Nat.le_refl _, ?_⟩
      rw [List.take_length]
      exact hl'
  | some failure =>
    cases failure with
    | temporary reason => trivial
    | permanent reason => exact hm.elim

end Sound

/-- Why a read of what a stream held before a live event yields what was early. -/
theorem answered_below {fault : Option ReadFailure} (h : Log.Numbered t.log) {e : Event A}
    (he : t.log[t.applied]? = some e) {events : List (Event A)}
    (hpage : Log.answered fault (Log.below t.log e.stream e.position) = .ok events) :
    events = Log.early t.log e.stream t.applied := by
  cases fault with
  | some failure => cases hpage
  | none =>
    cases hpage
    rw [Log.below_eq_early h, h.position he]

theorem answered_stream {fault : Option ReadFailure} (h : Log.Numbered t.log) {s : StreamId}
    {events : List (Event A)}
    (hpage : Log.answered fault (Log.below t.log s Position.last) = .ok events) :
    events = Log.early t.log s t.log.length := by
  cases fault with
  | some failure => cases hpage
  | none =>
    cases hpage
    have := h.1
    rw [Log.below_eq_early h, Log.early_of_length_le (Nat.le_refl _), Log.early_of_length_le]
    show t.log.length ≤ 0xffffffffffffffff
    omega

variable [DecidableEq S]

theorem Sound.finish (ht : Sound p t) {e : Event A} (he : t.log[t.applied]? = some e)
    (earlier : Page A) : Sound p (t.finish e earlier) where
  numbered := ht.numbered
  projector := by
    show (t.model.apply e earlier).1.projector = p
    rw [ReadModel.projector_apply, ht.projector]
  bounded := (List.getElem?_eq_some_iff.mp he).1
  mark q := by
    show Position.reached (t.model.apply e earlier).1.cache.highWater q = true ↔
      q.val < t.applied + 1
    rw [ReadModel.cache_apply, Cache.reached_apply (ht.unreached he), ht.mark]
    have hq : q ≤ e.position ↔ q.val ≤ t.applied := by
      show q.val ≤ e.position.val ↔ _
      rw [ht.numbered.position he]
    rw [hq]
    omega
  holder := trivial
  lookups := ht.lookups

theorem Sound.step (ht : Sound p t) {m : Move A S} (hm : m.ReadsAll) (h : t.step m = some t') :
    Sound p t' := by
  cases m with
  | append batch =>
    simp only [Traffic.step] at h
    split at h
    · rename_i hlog
      cases h
      exact ht.append hlog
    · cases h
  | deliver fault =>
    simp only [Traffic.step] at h
    split at h
    · rename_i e _ he
      split at h
      · cases h
        exact ht.hold ⟨he, fun events hpage => answered_below ht.numbered he hpage⟩
      · cases h
        exact ht.finish he _
    · cases h
  | settle =>
    simp only [Traffic.step] at h
    split at h
    · rename_i e earlier hholder
      cases h
      have := ht.holder
      rw [hholder] at this
      exact ht.finish this.1 _
    · cases h
  | ask s =>
    cases h
    refine ⟨ht.numbered, ht.projector, ht.bounded, ht.mark, ht.holder, fun s' phase hmem => ?_⟩
    rcases List.mem_append.mp hmem with hmem | hmem
    · exact ht.lookups s' phase hmem
    · rw [List.mem_singleton] at hmem
      cases hmem
      exact ht.asked s
  | read i fault =>
    simp only [Traffic.step] at h
    split at h
    · rename_i s hi
      cases h
      refine ht.putLookup ⟨ht.lookup hi, fun events hpage => ?_⟩
      exact ⟨_, Nat.le_refl _, answered_stream ht.numbered hpage⟩
    · cases h
  | digest i =>
    simp only [Traffic.step] at h
    split at h
    · rename_i s page hi
      cases h
      have hphase := ht.lookup hi
      exact ht.putLookup (ht.digested hphase.1 hphase.2)
    · cases h
  | keep i =>
    simp only [Traffic.step] at h
    split at h
    · rename_i s x _ _
      cases h
      have hanswered (answer : Except RuntimeError (Option S)) :
          LookupPhase.Sound p t.log s (.answered answer) := trivial
      exact (ht.putLookup (hanswered _)).rewrite rfl Cache.highWater_keep
    · cases h
  | load =>
    simp only [Traffic.step] at h
    split at h
    · cases h
      split
      · exact ht
      · exact ht.hold Loading.sound_new
    · cases h
  | page limit fault =>
    simp only [Traffic.step] at h
    split at h
    · rename_i l hholder
      split at h
      · rename_i hlimit
        cases h
        exact ht.hold (ht.loadedTo hholder hlimit hm)
      · cases h
    · cases h
  | keepAll order =>
    simp only [Traffic.step] at h
    split at h
    · split at h
      · cases h
        have hfree : Holder.Sound p t.log t.applied .nobody := trivial
        exact (ht.hold hfree).rewrite rfl Cache.highWater_keepLoaded
      · cases h
    · cases h
  | glance s bound =>
    simp only [Traffic.step] at h
    split at h
    · cases h
    · cases h
      exact ht
  | invalidate =>
    simp only [Traffic.step] at h
    split at h
    · cases h
      exact ht.rewrite rfl rfl
    · cases h

theorem Sound.run {ms : List (Move A S)} (ht : Sound p t) (hms : ∀ m ∈ ms, m.ReadsAll)
    (h : t.run ms = some t') : Sound p t' :=
  runMoves_induction ht
    (fun {pre m _ _} hpre _ hstep hu => hu.step (hms m (hpre.subset (by simp))) hstep) h

/-! ## What is written -/

/-- What a move does to the read model. -/
inductive Written (t : Traffic A S) (m : Move A S) (t' : Traffic A S) : Prop where
  | nothing : t'.model = t.model → t'.applied = t.applied → Written t m t'
  /-- A live event is applied, after a read if it needs one. -/
  | event (e : Event A) (earlier : Page A) :
      t.holder = .applying e earlier ∨
        (t.log[t.applied]? = some e ∧ t.model.needsRead e = false) →
      t' = t.finish e earlier → Written t m t'
  /-- A lookup keeps its entry. -/
  | entry (i : Nat) (s : StreamId) (x : Entry S) : m = .keep i →
      t.lookups[i]? = some (s, .locking x) → t'.model = (t.model.keep s x).1 →
      t'.applied = t.applied → t'.log = t.log → Written t m t'
  /-- A load keeps its entries. -/
  | load (folded order : List (StreamId × Entry S)) : t.holder = .loaded folded →
      order.Perm folded → t'.model = { t.model with cache := t.model.cache.keepLoaded order } →
      t'.applied = t.applied → t'.log = t.log → Written t m t'
  | dropped : m = .invalidate → t'.model = t.model.invalidate → t'.applied = t.applied →
      t'.log = t.log → Written t m t'

theorem step_written {m : Move A S} (h : t.step m = some t') : Written t m t' := by
  cases m with
  | append batch => simp only [step] at h; split at h <;> cases h; exact .nothing rfl rfl
  | deliver fault =>
    simp only [step] at h
    split at h
    · rename_i e _ he
      split at h
      · cases h; exact .nothing rfl rfl
      · rename_i hread
        cases h
        exact .event e _ (.inr ⟨he, by simpa using hread⟩) rfl
    · cases h
  | settle =>
    simp only [step] at h
    split at h
    · rename_i e earlier hholder
      cases h
      exact .event e earlier (.inl hholder) rfl
    · cases h
  | ask s => cases h; exact .nothing rfl rfl
  | read i fault => simp only [step] at h; split at h <;> cases h; exact .nothing rfl rfl
  | digest i => simp only [step] at h; split at h <;> cases h; exact .nothing rfl rfl
  | keep i =>
    simp only [step] at h
    split at h
    · rename_i s x _ hi
      cases h
      exact .entry i s x rfl hi rfl rfl rfl
    · cases h
  | load =>
    simp only [step] at h
    split at h
    · cases h; split <;> exact .nothing rfl rfl
    · cases h
  | page limit fault =>
    simp only [step] at h
    split at h
    · split at h <;> cases h; exact .nothing rfl rfl
    · cases h
  | keepAll order =>
    simp only [step] at h
    split at h
    · rename_i folded hholder
      split at h
      · rename_i hperm
        cases h
        exact .load folded order hholder hperm rfl rfl rfl
      · cases h
    · cases h
  | glance s bound => simp only [step] at h; split at h <;> cases h; exact .nothing rfl rfl
  | invalidate =>
    simp only [step] at h
    split at h
    · cases h; exact .dropped rfl rfl rfl rfl
    · cases h

end Traffic
end Chronicle
