import Chronicle.Projection.ReadModel
import Chronicle.Proofs.Log.Recalling
import Chronicle.Proofs.Projection.Folding

/-!
# Chronicle.Proofs.Projection.Reading

What a read model does to the store that it reads from. Whichever operation it is, nothing but the
failures that are to come can be different afterwards (`Store.After`). It keeps its projector. What
a lookup makes of what it has read is said once (`Digested`).
-/

namespace Chronicle

variable {A S : Type} [Vocabulary A]

theorem Loading.after_run {p : Projector A S} : ∀ {fuel : Nat} {store : Store A} {notes : List Note}
    {l : Loading S}, store.After (run p fuel store notes l).store := by
  intro fuel
  induction fuel with
  | zero => intro store notes l; exact .refl store
  | succ fuel ih =>
    intro store notes l
    simp only [run]
    split
    · exact Store.after_readFrom.trans ih
    · exact Store.after_readFrom
    · exact Store.after_readFrom

theorem Loading.writeFaults_run {p : Projector A S} {fuel : Nat} {store : Store A}
    {notes : List Note} {l : Loading S} :
    (run p fuel store notes l).store.writeFaults = store.writeFaults := by
  induction fuel generalizing store notes l with
  | zero => rfl
  | succ fuel ih =>
    simp only [run]
    split
    · rw [ih, Store.writeFaults_readFrom]
    · exact Store.writeFaults_readFrom _
    · exact Store.writeFaults_readFrom _

namespace ReadModel

variable {m : ReadModel A S} {store : Store A}

theorem after_get {s : StreamId} : store.After (m.get store s).store := by
  unfold get
  cases m.known? s with
  | some state => exact .refl store
  | none => exact Store.after_readStream

/-- What a lookup makes of what it has read of its stream, and what it leaves. -/
inductive Digested (m : ReadModel A S) (s : StreamId) (page : Page A) :
    Except RuntimeError (Option S) → ReadModel A S → Prop where
  | failed (failure : ReadFailure) : page = .error failure →
      Digested m s page (.error (.read failure)) m
  | empty : page = .ok [] → Digested m s page (.ok none) m
  | kept (events : List (Event A)) (x : Entry S) : page = .ok events →
      m.projector.entry? events = some x → Digested m s page (.ok (m.keep s x).2) (m.keep s x).1

omit [Vocabulary A] in
theorem digested_digest (m : ReadModel A S) (s : StreamId) (page : Page A) :
    m.Digested s page (m.digest s page).1 (m.digest s page).2.1 := by
  cases page with
  | error failure => exact .failed failure rfl
  | ok events =>
    simp only [digest, backfilled]
    cases hx : m.projector.entry? events with
    | none => exact .empty (congrArg Except.ok (Projector.entry?_eq_none.mp hx))
    | some x => exact .kept events x rfl hx

omit [Vocabulary A] in
/-- Only entries change. -/
theorem Digested.entries {m' : ReadModel A S} {s : StreamId} {page : Page A}
    {answer : Except RuntimeError (Option S)} (h : m.Digested s page answer m') :
    ∃ cache, m' = { m with cache } ∧ cache.highWater = m.cache.highWater ∧
      cache.entries.capacity = m.cache.entries.capacity := by
  cases h with
  | kept events x _ _ => exact ⟨_, rfl, Cache.highWater_keep, Cache.capacity_keep⟩
  | _ => exact ⟨_, rfl, rfl, rfl⟩

omit [Vocabulary A] in
theorem projector_digest {s : StreamId} {page : Page A} :
    (m.digest s page).2.1.projector = m.projector := by
  obtain ⟨cache, hmodel, -⟩ := (m.digested_digest s page).entries
  rw [hmodel]

theorem projector_get {s : StreamId} : (m.get store s).model.projector = m.projector := by
  unfold get
  cases m.known? s with
  | some state => rfl
  | none => exact projector_digest

theorem writeFaults_get {s : StreamId} :
    (m.get store s).store.writeFaults = store.writeFaults := by
  unfold get
  cases m.known? s with
  | some state => rfl
  | none => exact Store.writeFaults_readStream _ _

theorem contents_get {s : StreamId} : (m.get store s).store.contents = store.contents :=
  after_get.contents

theorem after_getUpTo {s : StreamId} {bound : Position} :
    store.After (m.getUpTo store s bound).store := by
  unfold getUpTo
  split
  · exact after_get
  · exact Store.after_readStream

theorem projector_getUpTo {s : StreamId} {bound : Position} :
    (m.getUpTo store s bound).model.projector = m.projector := by
  unfold getUpTo
  split
  · exact projector_get
  · rfl

section Loads

variable {arrange : List (StreamId × Entry S) → List (StreamId × Entry S)}

theorem after_getAllIn : store.After (m.getAllIn arrange store).store := by
  unfold getAllIn
  split
  · exact .refl store
  · dsimp only
    split <;> exact Loading.after_run

theorem writeFaults_getAllIn :
    (m.getAllIn arrange store).store.writeFaults = store.writeFaults := by
  unfold getAllIn
  split
  · rfl
  · dsimp only
    split <;> exact Loading.writeFaults_run

theorem projector_getAllIn : (m.getAllIn arrange store).model.projector = m.projector := by
  unfold getAllIn
  split
  · rfl
  · dsimp only
    split <;> rfl

end Loads

variable [DecidableEq S]

theorem after_applyNow {e : Event A} : store.After (m.applyNow store e).store := by
  unfold applyNow
  split
  · exact Store.after_readStream
  · exact .refl store

end ReadModel
end Chronicle
