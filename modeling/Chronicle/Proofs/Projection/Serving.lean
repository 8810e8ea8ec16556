import Chronicle.Node.Reads
import Chronicle.Proofs.Feed.Delivery
import Chronicle.Proofs.Projection.Following
import Chronicle.Proofs.Projection.Performing
import Mathlib.Logic.Relation

/-!
# Chronicle.Proofs.Projection.Serving

A node's steps around its read model are moves of a `Traffic`: those of the consumer, of lookups, of
everything that is done at once, and writes. What holds in every state of the traffic therefore
holds of the node (`Serves.run`), as that its entries follow the log (`entries_of_serving`).

A lookup of the node that was asked for and has not begun is none of the traffic yet, and what is
done at once adds lookups to the traffic that the node does not list; `Tracks` says which of them are
the same.
-/

namespace Chronicle

/-! ## Lookups -/

/-- Every lookup that has begun is somewhere among those of a traffic. -/
def Tracks {A S : Type} (ls : List (Lookup A S)) (ts : List (StreamId × LookupPhase A S)) : Prop :=
  ∃ place : Nat → Nat,
    (∀ i j l l', ls[i]? = some l → ls[j]? = some l' → l.phase ≠ .asked → l'.phase ≠ .asked →
      place i = place j → i = j) ∧
    ∀ i l, ls[i]? = some l → l.phase ≠ .asked → ts[place i]? = some (l.stream, l.phase)

section Tracks

variable {A S : Type} {ls : List (Lookup A S)} {ts : List (StreamId × LookupPhase A S)} {i : Nat}
  {l : Lookup A S} {phase : LookupPhase A S}

theorem Tracks.more (h : Tracks ls ts) (more : List (StreamId × LookupPhase A S)) :
    Tracks ls (ts ++ more) := by
  obtain ⟨place, hinj, hat⟩ := h
  refine ⟨place, hinj, fun i l hi hbegun => ?_⟩
  have := hat i l hi hbegun
  rw [List.getElem?_append_left (List.getElem?_eq_some_iff.mp this).1]
  exact this

/-- A lookup that has not begun is not among them. -/
theorem Tracks.wait (h : Tracks ls ts) (hl : l.phase = .asked) : Tracks (ls ++ [l]) ts := by
  obtain ⟨place, hinj, hat⟩ := h
  have hold : ∀ {i : Nat} {l' : Lookup A S}, (ls ++ [l])[i]? = some l' → l'.phase ≠ .asked →
      ls[i]? = some l' := by
    intro i l' hi hbegun
    rw [List.getElem?_append] at hi
    split at hi
    · exact hi
    · rw [List.getElem?_singleton] at hi
      split at hi
      · cases hi
        exact absurd hl hbegun
      · cases hi
  exact ⟨place, fun i j l₁ l₂ h₁ h₂ hb₁ hb₂ => hinj i j l₁ l₂ (hold h₁ hb₁) (hold h₂ hb₂) hb₁ hb₂,
    fun i l' hi hbegun => hat i l' (hold hi hbegun) hbegun⟩

theorem getElem?_set_of_getElem? (hi : ls[i]? = some l) (l' : Lookup A S) (j : Nat) :
    (ls.set i l')[j]? = if j = i then some l' else ls[j]? := by
  rw [List.getElem?_set]
  by_cases hj : j = i
  · rw [if_pos hj.symm, if_pos hj, if_pos (List.getElem?_eq_some_iff.mp hi).1]
  · rw [if_neg fun hij => hj hij.symm, if_neg hj]

theorem Tracks.start (h : Tracks ls ts) (hi : ls[i]? = some l) :
    Tracks (ls.set i { l with phase }) (ts ++ [(l.stream, phase)]) := by
  obtain ⟨place, hinj, hat⟩ := h
  have hplace : ∀ {j : Nat} {l' : Lookup A S}, ls[j]? = some l' → l'.phase ≠ .asked →
      place j < ts.length := fun hj hbegun =>
    (List.getElem?_eq_some_iff.mp (hat _ _ hj hbegun)).1
  refine ⟨fun j => if j = i then ts.length else place j, ?_, ?_⟩
  · intro j k l₁ l₂ hj hk hb₁ hb₂ hsame
    rw [getElem?_set_of_getElem? hi] at hj hk
    by_cases hji : j = i
    · by_cases hki : k = i
      · rw [hji, hki]
      · rw [if_neg hki] at hk
        simp only [hji, hki, if_true, if_false] at hsame
        have := hplace hk hb₂
        omega
    · rw [if_neg hji] at hj
      by_cases hki : k = i
      · simp only [hji, hki, if_true, if_false] at hsame
        have := hplace hj hb₁
        omega
      · rw [if_neg hki] at hk
        simp only [hji, hki, if_false] at hsame
        exact hinj j k l₁ l₂ hj hk hb₁ hb₂ hsame
  · intro j l' hj hbegun
    rw [getElem?_set_of_getElem? hi] at hj
    by_cases hji : j = i
    · rw [if_pos hji] at hj
      cases hj
      simp [hji]
    · rw [if_neg hji] at hj
      simp only [hji, if_false]
      rw [List.getElem?_append_left (hplace hj hbegun)]
      exact hat j l' hj hbegun

theorem Tracks.goOn (h : Tracks ls ts) (hi : ls[i]? = some l) (hl : l.phase ≠ .asked) :
    ∃ k, ts[k]? = some (l.stream, l.phase) ∧
      ∀ phase, Tracks (ls.set i { l with phase }) (ts.set k (l.stream, phase)) := by
  obtain ⟨place, hinj, hat⟩ := h
  refine ⟨place i, hat i l hi hl, fun phase => ⟨place, ?_, ?_⟩⟩
  · intro j k l₁ l₂ hj hk hb₁ hb₂ hsame
    have hbefore : ∀ {j : Nat} {l' : Lookup A S}, (ls.set i { l with phase })[j]? = some l' →
        l'.phase ≠ .asked → ∃ l₀, ls[j]? = some l₀ ∧ l₀.phase ≠ .asked := by
      intro j l' hj hbegun
      rw [getElem?_set_of_getElem? hi] at hj
      by_cases hji : j = i
      · exact ⟨l, by rw [hji, hi], hl⟩
      · rw [if_neg hji] at hj
        exact ⟨l', hj, hbegun⟩
    obtain ⟨l₁', hj', hb₁'⟩ := hbefore hj hb₁
    obtain ⟨l₂', hk', hb₂'⟩ := hbefore hk hb₂
    exact hinj j k l₁' l₂' hj' hk' hb₁' hb₂' hsame
  · intro j l' hj hbegun
    rw [getElem?_set_of_getElem? hi] at hj
    have hlt := (List.getElem?_eq_some_iff.mp (hat i l hi hl)).1
    by_cases hji : j = i
    · rw [if_pos hji] at hj
      cases hj
      rw [hji, List.getElem?_set_self hlt]
    · rw [if_neg hji] at hj
      rw [List.getElem?_set_ne]
      · exact hat j l' hj hbegun
      · exact fun hsame => hji (hinj i j l l' hi hj hl hbegun hsame).symm

end Tracks

/-! ## The node -/

namespace Node

variable {A S B : Type} [Vocabulary A]

def pending : ConsumerPhase A → List (Event A)
  | .idle => []
  | .locking e | .applying e | .holding e _ => [e]

def mail (n : Node A S B) (c : Consumer A) : List (Event A) :=
  ((n.outlet c.stream).mailbox c.subscription).queue

def holderOf (n : Node A S B) : Holder A S :=
  match n.consumer with
  | some c =>
    match c.phase with
    | .holding e earlier => .applying e earlier
    | _ => .nobody
  | none => .nobody

/-- The node is a traffic: the same log and read model, the consumer about to apply the events in
their order, and every lookup that has begun, somewhere among those of the traffic. -/
structure Serves (n : Node A S B) (t : Traffic A S) : Prop where
  store : n.store.Holds t.log
  pages : 0 < n.store.pageSize
  model : n.model = t.model
  holder : t.holder = n.holderOf
  locked : ∀ c, n.consumer = some c →
    (∃ e, c.phase = .applying e ∨ ∃ earlier, c.phase = .holding e earlier) →
      n.lock.holder = some .consumer
  due : ∀ c, n.consumer = some c →
    pending c.phase ++ n.mail c <+: t.log.drop t.applied
  lookups : Tracks n.lookups t.lookups

variable {n n' : Node A S B} {t t' : Traffic A S}

theorem mail_modifyOutlet {c : Consumer A} {f : Broadcaster (Event A) → Broadcaster (Event A)}
    (h : n.streams[c.stream]? ≠ none) : (n.modifyOutlet c.stream f).mail c
      = ((f (n.outlet c.stream)).mailbox c.subscription).queue := by
  obtain ⟨s, hs⟩ := Option.ne_none_iff_exists'.mp h
  rw [mail, outlet_modifyOutlet_self hs]

/-- A step that leaves the consumer and the lock alone. -/
theorem Serves.frame (h : Serves n t) (hlog : t.log <+: t'.log) (hstore : n'.store.Holds t'.log)
    (hpages : 0 < n'.store.pageSize) (hmodel : n'.model = t'.model) (hholder : t'.holder = t.holder)
    (happlied : t'.applied = t.applied) (hconsumer : n'.consumer = n.consumer)
    (hlock : n'.lock.holder = n.lock.holder)
    (hmail : ∀ c, n.consumer = some c → n'.mail c = n.mail c)
    (hlookups : Tracks n'.lookups t'.lookups) : Serves n' t' where
  store := hstore
  pages := hpages
  model := hmodel
  holder := by
    rw [hholder, h.holder, holderOf, holderOf, hconsumer]
  locked c hc hphase := by
    rw [hconsumer] at hc
    rw [hlock]
    exact h.locked c hc hphase
  due c hc := by
    rw [hconsumer] at hc
    rw [hmail c hc, happlied]
    obtain ⟨more, hmore⟩ := hlog
    refine (h.due c hc).trans ?_
    rw [← hmore, List.drop_append]
    exact List.prefix_append _ _
  lookups := hlookups

/-- While the consumer does not hold the lock, nobody holds the lock of the traffic. -/
theorem Serves.nobody (h : Serves n t) (hlock : n.lock.holder ≠ some .consumer) :
    t.holder = .nobody := by
  rw [h.holder, holderOf]
  cases hc : n.consumer with
  | none => rfl
  | some c =>
    dsimp only
    split
    · rename_i e earlier hphase
      exact absurd (h.locked c hc ⟨e, .inr ⟨earlier, hphase⟩⟩) hlock
    · rfl

theorem acquire_cases {task : TaskId} {taken : Node A S B → Node A S B}
    (h : n.acquire task taken = some n') :
    n.lock.holder = none ∧ n' = taken { n with lock := n.lock.take task } ∨
      n' = { n with lock := n.lock.enqueue task } := by
  unfold acquire at h
  by_cases hgrants : n.lock.grants task = true
  · rw [if_pos hgrants] at h
    cases h
    exact .inl ⟨Option.isNone_iff_eq_none.mp (Bool.and_eq_true_iff.mp hgrants).1, rfl⟩
  · rw [if_neg hgrants] at h
    split at h
    · cases h
    · cases h
      exact .inr rfl

theorem Serves.publish (h : Serves n t) {c : Consumer A} (hc : n.consumer = some c) {e : Event A}
    (he : t.log[t.applied + (pending c.phase ++ n.mail c).length]? = some e) :
    Serves (n.modifyOutlet c.stream fun outlet => (outlet.publish e).1) t := by
  refine { h with due := ?_ }
  intro c' hc'
  have hsame : c' = c := Option.some.inj ((show n.consumer = some c' from hc').symm.trans hc)
  subst hsame
  have hdue := h.due c' hc
  by_cases hstream : n.streams[c'.stream]? = none
  · have hnothing : n.modifyOutlet c'.stream (fun outlet => (outlet.publish e).1) = n := by
      rw [modifyOutlet, List.modify_eq_self]
      exact List.getElem?_eq_none_iff.mp hstream
    rw [hnothing]
    exact hdue
  · rw [mail_modifyOutlet hstream, Broadcaster.mailbox_publish, Mailbox.deliver]
    split
    · obtain ⟨more, hmore⟩ := hdue
      have hhead : more.head? = some e := by
        have hdrop := congrArg (List.drop (pending c'.phase ++ n.mail c').length) hmore
        rw [List.drop_left, List.drop_drop] at hdrop
        rw [hdrop, List.head?_drop]
        exact he
      obtain ⟨rest, rfl⟩ : ∃ rest, more = e :: rest := List.head?_eq_some_iff.mp hhead
      refine ⟨rest, ?_⟩
      rw [← hmore]
      simp [mail]
    · exact hdue

/-- A consumer begins to follow a stream, where there was none. -/
theorem Serves.attach (h : Serves n t) (hnone : n.consumer = none) (i : Nat) :
    Serves (n.attach i) t := by
  have hholder := h.holder
  simp only [holderOf, hnone] at hholder
  let c : Consumer A := { stream := i, subscription := (n.outlet i).subscribe.2 }
  have hconsumer : (n.attach i).consumer = some c := by
    unfold Node.attach Node.subscribe enlist
    simp only [modifyOutlet, hnone]
    split <;> rfl
  have hsame : (n.attach i).store = n.store ∧ (n.attach i).model = n.model ∧
      (n.attach i).lookups = n.lookups ∧
      (n.attach i).streams = (n.modifyOutlet i fun _ => (n.outlet i).subscribe.1).streams := by
    unfold Node.attach Node.subscribe enlist
    simp only [modifyOutlet, hnone]
    split <;> exact ⟨rfl, rfl, rfl, rfl⟩
  obtain ⟨hstore, hmodel, hlookups, hstreams⟩ := hsame
  have hmail : (n.attach i).mail c = [] := by
    have houtlet : (n.attach i).outlet c.stream
        = (n.modifyOutlet c.stream fun _ => (n.outlet i).subscribe.1).outlet c.stream := by
      rw [outlet, outlet, hstreams]
    rw [mail, houtlet, ← mail]
    by_cases hstream : n.streams[c.stream]? = none
    · rw [mail, outlet, modifyOutlet, List.getElem?_modify, hstream]
      rfl
    · rw [mail_modifyOutlet hstream, Broadcaster.mailbox_subscribe]
      rfl
  exact {
    store := hstore ▸ h.store
    pages := hstore ▸ h.pages
    model := hmodel.trans h.model
    holder := by simp only [hholder, holderOf, hconsumer, c]
    locked := by
      intro c' hc' hphase
      cases hconsumer.symm.trans hc'
      obtain ⟨e, happlying | ⟨earlier, hholding⟩⟩ := hphase
      · cases happlying
      · cases hholding
    due := by
      intro c' hc'
      cases hconsumer.symm.trans hc'
      rw [hmail]
      exact List.nil_prefix
    lookups := hlookups ▸ h.lookups }

def applied (n : Node A S B) : Nat :=
  match n.model.cache.highWater with
  | some q => q.val + 1
  | none => 0

theorem Serves.applied_eq {p : Projector A S} (h : Serves n t) (hsound : t.Sound p) :
    n.applied = t.applied := by
  have hmark := hsound.mark
  rw [applied, h.model]
  cases hw : t.model.cache.highWater with
  | none =>
    have := (hmark Position.zero).mpr
    rw [hw] at this
    by_contra hne
    exact absurd (this (Nat.pos_of_ne_zero (Ne.symm hne))) nofun
  | some q =>
    have hq := (hmark q).mp (by rw [hw, Position.reached, decide_eq_true_eq]; exact Nat.le_refl _)
    have hbound := hsound.bounded
    have hlength := hsound.numbered.1
    by_contra hne
    have hlt : q.val + 1 < t.applied := by
      simp only at hne
      omega
    have hnext : q.next.val = q.val + 1 := Position.val_next (by omega)
    have hreached := (hmark q.next).mpr (by omega)
    rw [hw, Position.reached, decide_eq_true_eq] at hreached
    have : q.next.val ≤ q.val := hreached
    omega

theorem serves_new {store : Store A} {p : Projector A S} {entries : Collection S}
    {log : List (Event A)} (hstore : store.Holds log) (hpages : 0 < store.pageSize) :
    Serves (new store p entries : Node A S B) (Traffic.start p entries log) where
  store := hstore
  pages := hpages
  model := rfl
  holder := rfl
  locked := nofun
  due := nofun
  lookups := ⟨id, fun _ _ _ _ _ _ _ _ => id, nofun⟩

variable [DecidableEq S]

/-- A step of the node is a run of the traffic, in which no read fails if none is to fail. -/
def Simulated (n n' : Node A S B) (t : Traffic A S) : Prop :=
  ∃ ms t', t.run ms = some t' ∧ Serves n' t' ∧
    (n.store.Quiet → n'.store.Quiet ∧ ∀ m ∈ ms, m.Undisturbed)

theorem Serves.lookUp (h : Serves n t) (name : String) (stream : StreamId) :
    Simulated n (n.lookUp name stream) t := by
  refine ⟨[], t, runMoves_nil.mpr rfl, ?_, fun hq => ⟨?_, by simp⟩⟩
  · unfold Node.lookUp enlist
    dsimp only
    split <;> exact h.frame List.prefix_rfl h.store h.pages h.model rfl rfl rfl rfl
      (fun _ _ => rfl) (h.lookups.wait rfl)
  · unfold Node.lookUp enlist
    dsimp only
    split <;> exact hq

/-- A lookup that was asked for answers from the cache, or reads its stream. -/
theorem Serves.moveLookup_asked (h : Serves n t) {i : Nat} {l : Lookup A S}
    (hi : n.lookups[i]? = some l) (hl : l.phase = .asked) (hmove : n.moveLookup i = some n') :
    Simulated n n' t := by
  unfold Node.moveLookup at hmove
  simp only [hi, hl] at hmove
  cases hknown : n.model.known? l.stream with
  | some state =>
    simp only [hknown] at hmove
    cases hmove
    have hasked : Traffic.asked t.model l.stream = .answered (.ok state) := by
      rw [Traffic.asked, ← h.model, hknown]
    refine ⟨[.ask l.stream], _, runMoves_singleton.trans rfl, ?_, fun hq => ⟨hq, ?_⟩⟩
    · rw [hasked]
      exact h.frame List.prefix_rfl h.store h.pages h.model rfl rfl rfl rfl (fun _ _ => rfl)
        (h.lookups.start hi)
    · exact List.forall_mem_singleton.mpr trivial
  | none =>
    simp only [hknown] at hmove
    cases hmove
    have hafter : n.store.After (n.store.readStream l.stream Position.last).store :=
      Store.after_readStream
    rw [h.model] at hknown
    obtain ⟨ms, hrun, hms⟩ := Traffic.run_read h.store hknown
    refine ⟨ms, _, hrun, ?_, fun hq => ⟨hafter.quiet hq, hms hq⟩⟩
    exact h.frame List.prefix_rfl (h.store.after hafter) (hafter.pageSize ▸ h.pages) h.model rfl
      rfl rfl rfl (fun _ _ => rfl) (h.lookups.start hi)

theorem Serves.moveLookup_holding (h : Serves n t) {i : Nat} {l : Lookup A S} {page : Page A}
    (hi : n.lookups[i]? = some l) (hl : l.phase = .holding page)
    (hmove : n.moveLookup i = some n') : Simulated n n' t := by
  obtain ⟨k, hk, htracks⟩ := h.lookups.goOn hi (by rw [hl]; nofun)
  rw [hl] at hk
  have hstep : t.step (.digest k) = some
      (t.putLookup k l.stream (Traffic.digested n.model.projector page)) := by
    simp only [Traffic.step, hk, h.model]
  have hframe : ∀ {n' : Node A S B}, n'.store = n.store → n'.model = n.model →
      n'.consumer = n.consumer → n'.lock.holder = n.lock.holder →
      (∀ c, n.consumer = some c → n'.mail c = n.mail c) →
      n'.lookups = n.lookups.set i { l with phase := Traffic.digested n.model.projector page } →
      Serves n' (t.putLookup k l.stream (Traffic.digested n.model.projector page)) := by
    intro n' hstore hmodel hconsumer hlock hmail hlookups
    refine h.frame List.prefix_rfl (hstore ▸ h.store) (hstore ▸ h.pages) (hmodel.trans h.model)
      rfl rfl hconsumer hlock hmail ?_
    rw [hlookups]
    exact htracks _
  unfold Node.moveLookup at hmove
  simp only [hi, hl] at hmove
  unfold Traffic.digested at hstep hframe
  split at hmove
  · cases hmove
  · generalize ReadModel.backfilled n.model.projector page = entry at hmove hstep hframe
    obtain ⟨entry, notes⟩ := entry
    dsimp only at hmove hstep hframe
    refine ⟨[.digest k], _, runMoves_singleton.trans hstep, ?_, fun hq => ?_⟩
    · split at hmove <;> cases hmove <;> exact hframe rfl rfl rfl rfl (fun _ _ => rfl) rfl
    · refine ⟨?_, List.forall_mem_singleton.mpr trivial⟩
      split at hmove <;> cases hmove <;> exact hq

/-- A lookup waits for the lock, or keeps its entry and answers. -/
theorem Serves.moveLookup_locking (h : Serves n t) {i : Nat} {l : Lookup A S} {x : Entry S}
    (hi : n.lookups[i]? = some l) (hl : l.phase = .locking x)
    (hmove : n.moveLookup i = some n') : Simulated n n' t := by
  unfold Node.moveLookup at hmove
  simp only [hi, hl] at hmove
  rcases acquire_cases hmove with ⟨hfree, rfl⟩ | rfl
  · obtain ⟨k, hk, htracks⟩ := h.lookups.goOn hi (by rw [hl]; nofun)
    rw [hl] at hk
    have hnobody : t.holder = .nobody := h.nobody (by rw [hfree]; nofun)
    have hstep : t.step (.keep k) = some { t.putLookup k l.stream
        (.answered (.ok (n.model.keep l.stream x).2)) with
          model := (n.model.keep l.stream x).1 } := by
      simp only [Traffic.step, hnobody, hk, h.model]
    exact ⟨[.keep k], _, runMoves_singleton.trans hstep,
      h.frame List.prefix_rfl h.store h.pages rfl rfl rfl rfl hfree.symm (fun _ _ => rfl)
        (htracks _),
      fun hq => ⟨hq, List.forall_mem_singleton.mpr trivial⟩⟩
  · exact ⟨[], t, runMoves_nil.mpr rfl,
      h.frame List.prefix_rfl h.store h.pages h.model rfl rfl rfl rfl (fun _ _ => rfl) h.lookups,
      fun hq => ⟨hq, by simp⟩⟩

theorem Serves.moveLookup (h : Serves n t) {i : Nat} (hmove : n.moveLookup i = some n') :
    Simulated n n' t := by
  cases hi : n.lookups[i]? with
  | none =>
    simp only [Node.moveLookup, hi] at hmove
    cases hmove
  | some l =>
    cases hl : l.phase with
    | asked => exact h.moveLookup_asked hi hl hmove
    | holding page => exact h.moveLookup_holding hi hl hmove
    | locking x => exact h.moveLookup_locking hi hl hmove
    | answered answer =>
      simp only [Node.moveLookup, hi, hl] at hmove
      cases hmove

/-- A consumer that has nothing in hand takes the next event of its mailbox, unless the stream has
ended. -/
theorem moveConsumer_idle_cases {c : Consumer A} (hc : n.consumer = some c)
    (hphase : c.phase = .idle) (hmove : n.moveConsumer = some n') :
    ((n.outlet c.stream).mailbox c.subscription).linked = false ∧
        n' = { n with consumer := none }.dismiss .consumer ∨
      ∃ e rest left, n.mail c = e :: rest ∧
        n' = (n.modifyOutlet c.stream fun _ => left).putConsumer { c with phase := .locking e } ∧
        (n'.outlet c.stream).mailbox c.subscription
          = { (n.outlet c.stream).mailbox c.subscription with queue := rest } := by
  unfold Node.moveConsumer at hmove
  simp only [hc, hphase] at hmove
  cases hqueue : ((n.outlet c.stream).mailbox c.subscription).queue with
  | nil =>
    rw [Broadcaster.receive_of_nil hqueue] at hmove
    cases hlinked : ((n.outlet c.stream).mailbox c.subscription).linked with
    | true =>
      rw [if_pos hlinked] at hmove
      cases hmove
    | false =>
      rw [if_neg (Bool.eq_false_iff.mp hlinked)] at hmove
      cases hmove
      exact .inl ⟨rfl, rfl⟩
  | cons e rest =>
    have hreceive := Broadcaster.receive_of_cons hqueue
    generalize (n.outlet c.stream).receive c.subscription = received at hmove hreceive
    obtain ⟨left, receipt⟩ := received
    obtain ⟨rfl, hmailbox⟩ := hreceive
    cases hmove
    obtain ⟨s, hs⟩ : ∃ s, n.streams[c.stream]? = some s := by
      refine Option.ne_none_iff_exists'.mp fun hnone => ?_
      rw [outlet, hnone] at hqueue
      cases hqueue
    have houtlet := outlet_modifyOutlet_self (f := fun _ => left) hs
    refine .inr ⟨e, rest, left, hqueue, rfl, ?_⟩
    show ((n.modifyOutlet c.stream fun _ => left).outlet c.stream).mailbox c.subscription = _
    rw [houtlet, hmailbox]

theorem Serves.moveConsumer_idle (h : Serves n t) {c : Consumer A} (hc : n.consumer = some c)
    (hphase : c.phase = .idle) (hmove : n.moveConsumer = some n') : Serves n' t := by
  have hdue := h.due c hc
  have hholder := h.holder
  simp only [hphase, pending, List.nil_append] at hdue
  simp only [holderOf, hc, hphase] at hholder
  rcases moveConsumer_idle_cases hc hphase hmove with ⟨-, rfl⟩ | ⟨e, rest, left, hmail, rfl, hleft⟩
  · exact { h with
      holder := hholder
      locked := nofun
      due := nofun }
  · exact { h with
      holder := hholder
      locked := by
        rintro _ ⟨⟩ ⟨e', hlocking | ⟨earlier, hlocking⟩⟩ <;> cases hlocking
      due := by
        rintro _ ⟨⟩
        rw [mail, hleft]
        rw [hmail] at hdue
        exact hdue }

/-- The consumer waits for the lock, or takes it. -/
theorem Serves.moveConsumer_locking (h : Serves n t) {c : Consumer A} {e : Event A}
    (hc : n.consumer = some c) (hphase : c.phase = .locking e)
    (hmove : n.moveConsumer = some n') : Serves n' t := by
  have hdue := h.due c hc
  have hholder := h.holder
  simp only [hphase, pending] at hdue
  simp only [holderOf, hc, hphase] at hholder
  unfold Node.moveConsumer at hmove
  simp only [hc, hphase] at hmove
  rcases acquire_cases hmove with ⟨_, rfl⟩ | rfl
  · exact { h with
      holder := hholder
      locked := fun _ _ _ => rfl
      due := by
        rintro _ ⟨⟩
        exact hdue }
  · exact h.frame List.prefix_rfl h.store h.pages h.model rfl rfl rfl rfl (fun _ _ => rfl) h.lookups

theorem Serves.finishApply (h : Serves n t) {c : Consumer A} (hc : n.consumer = some c)
    {e : Event A} (hpending : pending c.phase = [e]) (earlier : Page A) :
    Serves (n.finishApply c e earlier) (t.finish e earlier) := by
  have hdue := h.due c hc
  rw [hpending] at hdue
  refine ⟨h.store, h.pages, ?_, rfl, ?_, ?_, h.lookups⟩
  · show (n.model.apply e earlier).1 = (t.model.apply e earlier).1
    rw [h.model]
  · rintro _ ⟨⟩ ⟨e', happlying | ⟨page, hholding⟩⟩
    · cases happlying
    · cases hholding
  · rintro _ ⟨⟩
    exact (Log.next_of_prefix_drop hdue).2

/-- The consumer has the lock: it applies its event, or reads what that takes. -/
theorem Serves.moveConsumer_applying (h : Serves n t) {c : Consumer A} {e : Event A}
    (hc : n.consumer = some c) (hphase : c.phase = .applying e)
    (hmove : n.moveConsumer = some n') : Simulated n n' t := by
  have hdue := h.due c hc
  have hholder := h.holder
  have hpending : pending c.phase = [e] := by rw [hphase, pending]
  rw [hpending] at hdue
  simp only [holderOf, hc, hphase] at hholder
  have hnext : t.log[t.applied]? = some e := (Log.next_of_prefix_drop hdue).1
  unfold Node.moveConsumer at hmove
  simp only [hc, hphase] at hmove
  by_cases hneeds : n.model.needsRead e = true
  · simp only [hneeds, if_true] at hmove
    cases hmove
    have hafter : n.store.After (n.store.readStream e.stream e.position).store :=
      Store.after_readStream
    have hpage : (n.store.readStream e.stream e.position).page = _ := h.store.page_readStream
    have hstep : t.step (.deliver n.store.streamFaults.head?) = some { t with
        holder := .applying e (n.store.readStream e.stream e.position).page } := by
      simp only [Traffic.step, hholder, hnext, ← h.model, hneeds, if_true, hpage]
    refine ⟨[.deliver n.store.streamFaults.head?], _, runMoves_singleton.trans hstep, ?_,
      fun hq => ⟨hafter.quiet hq, List.forall_mem_singleton.mpr ?_⟩⟩
    · exact {
        store := h.store.after hafter
        pages := hafter.pageSize ▸ h.pages
        model := h.model
        holder := rfl
        locked := by
          rintro _ ⟨⟩ _
          exact h.locked c hc ⟨e, .inl hphase⟩
        due := by
          rintro _ ⟨⟩
          exact hdue
        lookups := h.lookups }
    · show n.store.streamFaults.head? = none
      rw [hq.2]
      rfl
  · simp only [hneeds] at hmove
    cases hmove
    have hstep : t.step (.deliver none) = some (t.finish e (.ok [])) := by
      simp only [Traffic.step, hholder, hnext, ← h.model, hneeds, Bool.false_eq_true, if_false]
    exact ⟨[.deliver none], _, runMoves_singleton.trans hstep, h.finishApply hc hpending _,
      fun hq => ⟨hq, List.forall_mem_singleton.mpr rfl⟩⟩

theorem Serves.moveConsumer_holding (h : Serves n t) {c : Consumer A} {e : Event A}
    {earlier : Page A} (hc : n.consumer = some c) (hphase : c.phase = .holding e earlier)
    (hmove : n.moveConsumer = some n') : Simulated n n' t := by
  have hholder := h.holder
  have hpending : pending c.phase = [e] := by rw [hphase, pending]
  simp only [holderOf, hc, hphase] at hholder
  unfold Node.moveConsumer at hmove
  simp only [hc, hphase] at hmove
  split at hmove
  · cases hmove
  · cases hmove
    have hstep : t.step .settle = some (t.finish e earlier) := by
      simp only [Traffic.step, hholder]
    exact ⟨[.settle], _, runMoves_singleton.trans hstep, h.finishApply hc hpending _,
      fun hq => ⟨hq, List.forall_mem_singleton.mpr trivial⟩⟩

theorem Serves.moveConsumer (h : Serves n t) (hmove : n.moveConsumer = some n') :
    Simulated n n' t := by
  cases hc : n.consumer with
  | none =>
    simp only [Node.moveConsumer, hc] at hmove
    cases hmove
  | some c =>
    have hstutter : Serves n' t → n'.store = n.store → Simulated n n' t := fun hserves hstore =>
      ⟨[], t, runMoves_nil.mpr rfl, hserves, fun hq => ⟨hstore ▸ hq, by simp⟩⟩
    cases hphase : c.phase with
    | idle =>
      refine hstutter (h.moveConsumer_idle hc hphase hmove) ?_
      simp only [Node.moveConsumer, hc, hphase] at hmove
      split at hmove <;> cases hmove <;> rfl
    | locking e =>
      refine hstutter (h.moveConsumer_locking hc hphase hmove) ?_
      simp only [Node.moveConsumer, hc, hphase] at hmove
      rcases acquire_cases hmove with ⟨_, rfl⟩ | rfl <;> rfl
    | applying e => exact h.moveConsumer_applying hc hphase hmove
    | holding e earlier => exact h.moveConsumer_holding hc hphase hmove

theorem Serves.write (h : Serves n t) {batch : List (Payload A)}
    (hroom : n.store.length + batch.length < 0x10000000000000000) :
    Simulated n (n.write batch).2 t := by
  rw [h.store.length_eq] at hroom
  obtain ⟨more, hholds, _⟩ := h.store.write hroom
  have hstep : t.step (.append more) = some { t with log := t.log ++ more } := by
    simp only [Traffic.step, hholds.numbered, if_true]
  obtain ⟨hpages, hreads, hstreams⟩ := Store.write_reads batch
  refine ⟨[.append more], _, runMoves_singleton.trans hstep, ?_, fun hq => ⟨?_, ?_⟩⟩
  · exact h.frame (List.prefix_append _ _) hholds (Nat.lt_of_lt_of_eq h.pages hpages.symm) h.model
      rfl rfl rfl rfl (fun _ _ => rfl) h.lookups
  · exact ⟨hreads.trans hq.1, hstreams.trans hq.2⟩
  · exact List.forall_mem_singleton.mpr trivial

/-- What is done at once with the read model. Live events are applied at once only where no consumer
applies them. -/
theorem Serves.serve {R : Type} (h : Serves n t)
    {f : ReadModel A S → Store A → Served A S R} {count : Nat}
    (hcount : count = 0 ∨ n.consumer = none)
    (hperforms : t.Performs n.store (f t.model n.store) count) :
    Simulated n (n.serve f).2 t := by
  obtain ⟨hafter, ms, more, hrun, hms⟩ := hperforms
  rw [← h.model] at hafter hrun
  refine ⟨ms, _, hrun, ?_, fun hq => ⟨hafter.quiet hq, hms hq⟩⟩
  exact {
    store := h.store.after hafter
    pages := hafter.pageSize ▸ h.pages
    model := rfl
    holder := h.holder
    locked := h.locked
    due := by
      intro c hc
      rcases hcount with rfl | hnone
      · exact h.due c hc
      · exact absurd (hnone.symm.trans hc) nofun
    lookups := h.lookups.more more }

theorem Serves.invalidate (h : Serves n t) (hfree : n.lock.holder = none) :
    ∃ t', t.step .invalidate = some t' ∧ Serves { n with model := n.model.invalidate } t' := by
  have hnobody : t.holder = .nobody := h.nobody (by rw [hfree]; nofun)
  refine ⟨{ t with model := t.model.invalidate }, by simp only [Traffic.step, hnobody], ?_⟩
  exact h.frame List.prefix_rfl h.store h.pages (congrArg ReadModel.invalidate h.model) rfl rfl rfl
    rfl (fun _ _ => rfl) h.lookups

/-! ## Runs -/

/-- A step of a node around its read model, or of what goes on elsewhere. The consumer's stream
publishes the events of the log in their order, and the entries are not dropped. -/
inductive Serving (n : Node A S B) : Node A S B → Prop where
  /-- Anything may happen elsewhere. -/
  | aside {n' : Node A S B} (hstore : n.store.After n'.store) (hmodel : n'.model = n.model)
      (hlock : n'.lock.holder = n.lock.holder) (hconsumer : n'.consumer = n.consumer)
      (hmail : ∀ c, n.consumer = some c → n'.mail c = n.mail c)
      (hlookups : n'.lookups = n.lookups) : Serving n n'
  | write (batch : List (Payload A))
      (hroom : n.store.length + batch.length < 0x10000000000000000) : Serving n (n.write batch).2
  | attach (i : Nat) (hnone : n.consumer = none) : Serving n (n.attach i)
  | publish {c : Consumer A} {e : Event A} (hc : n.consumer = some c)
      (he : n.store.events[n.applied + (pending c.phase ++ n.mail c).length]? = some e) :
      Serving n (n.modifyOutlet c.stream fun outlet => (outlet.publish e).1)
  | consumer {n' : Node A S B} (hmove : n.moveConsumer = some n') : Serving n n'
  | lookUp (name : String) (stream : StreamId) : Serving n (n.lookUp name stream)
  | lookup {i : Nat} {n' : Node A S B} (hmove : n.moveLookup i = some n') : Serving n n'
  | get (hfree : n.lock.holder = none) (stream : StreamId) :
      Serving n (n.serve fun m store => m.get store stream).2
  | getUpTo (hfree : n.lock.holder = none) (stream : StreamId) (bound : Position) :
      Serving n (n.serve fun m store => m.getUpTo store stream bound).2
  | getAll (hfree : n.lock.holder = none)
      {arrange : List (StreamId × Entry S) → List (StreamId × Entry S)}
      (harrange : Loading.Arranges arrange) : Serving n (n.serve (ReadModel.getAllIn arrange)).2
  | applyNow {e : Event A} (hfree : n.lock.holder = none) (hnone : n.consumer = none)
      (he : n.store.events[n.applied]? = some e) :
      Serving n (n.serve fun m store => m.applyNow store e).2

theorem Serving.simulated {p : Projector A S} (hstep : Serving n n') (h : Serves n t)
    (hsound : t.Sound p) : Simulated n n' t := by
  have hstutter : Serves n' t → n.store.After n'.store → Simulated n n' t := fun hserves hafter =>
    ⟨[], t, runMoves_nil.mpr rfl, hserves, fun hq => ⟨hafter.quiet hq, by simp⟩⟩
  have hnobody : n.lock.holder = none → t.holder = .nobody := fun hfree =>
    h.nobody (by rw [hfree]; nofun)
  cases hstep with
  | aside hstore hmodel hlock hconsumer hmail hlookups =>
    exact hstutter (h.frame List.prefix_rfl (h.store.after hstore) (hstore.pageSize ▸ h.pages)
      (hmodel.trans h.model) rfl rfl hconsumer hlock hmail (hlookups ▸ h.lookups)) hstore
  | write batch hroom => exact h.write hroom
  | attach i hnone =>
    refine hstutter (h.attach hnone i) ?_
    have hstore : (n.attach i).store = n.store := by
      unfold Node.attach Node.subscribe enlist
      simp only [modifyOutlet, hnone]
      split <;> rfl
    rw [hstore]
    exact .refl _
  | publish hc he =>
    rw [h.store.events_eq, h.applied_eq hsound] at he
    exact hstutter (h.publish hc he) (.refl _)
  | consumer hmove => exact h.moveConsumer hmove
  | lookUp name stream => exact h.lookUp name stream
  | lookup hmove => exact h.moveLookup hmove
  | get hfree stream => exact h.serve (.inl rfl) (t.performs_get h.store (hnobody hfree) stream)
  | getUpTo hfree stream bound =>
    exact h.serve (.inl rfl) (t.performs_getUpTo h.store (hnobody hfree) stream bound)
  | getAll hfree harrange =>
    exact h.serve (.inl rfl) (t.performs_getAllIn h.store h.pages (hnobody hfree) harrange)
  | applyNow hfree hnone he =>
    rw [h.store.events_eq, h.applied_eq hsound] at he
    exact h.serve (.inr hnone) (t.performs_applyNow h.store (hnobody hfree) he)

/-- A run of a node in which no read fails is an undisturbed run of the traffic. -/
theorem Serves.run {p : Projector A S} (h : Serves n t) (hsound : t.Sound p)
    (hquiet : n.store.Quiet) (hrun : Relation.ReflTransGen Serving n n') :
    ∃ ms t', t.run ms = some t' ∧ Serves n' t' ∧ ∀ m ∈ ms, m.Undisturbed := by
  suffices ∃ ms t', t.run ms = some t' ∧ Serves n' t' ∧ (∀ m ∈ ms, m.Undisturbed) ∧
      t'.Sound p ∧ n'.store.Quiet by
    obtain ⟨ms, t', hms, hserves, hundisturbed, _⟩ := this
    exact ⟨ms, t', hms, hserves, hundisturbed⟩
  induction hrun with
  | refl => exact ⟨[], t, runMoves_nil.mpr rfl, h, by simp, hsound, hquiet⟩
  | tail _ hstep ih =>
    obtain ⟨ms, t', hms, hserves, hundisturbed, hsound', hquiet'⟩ := ih
    obtain ⟨ms', t'', hms', hserves', hkept⟩ := hstep.simulated hserves hsound'
    obtain ⟨hquiet'', hundisturbed'⟩ := hkept hquiet'
    refine ⟨ms ++ ms', t'', Traffic.run_append hms hms', hserves', ?_, ?_, hquiet''⟩
    · exact List.forall_mem_append.mpr ⟨hundisturbed, hundisturbed'⟩
    · exact hsound'.run (fun m hm => (hundisturbed' m hm).readsAll) hms'

/-- The read model of a node follows its log: its entries are folds of their streams, and none is
behind the live events that were applied. -/
theorem entries_of_serving {store : Store A} {p : Projector A S} {log : List (Event A)}
    (hstore : store.Holds log) (hpages : 0 < store.pageSize) (hquiet : store.Quiet)
    (hrun : Relation.ReflTransGen Serving (new store p .unbounded : Node A S B) n)
    (hignores : p.IgnoresOutcomes n.store.events) :
    (∀ s x, (s, x) ∈ n.model.cache.entries.entries →
      x.state = p.foldAll none (Log.upTo n.store.events s x.position) ∧
        ∃ e ∈ n.store.events, e.stream = s ∧ e.position = x.position) ∧
    (∀ e ∈ n.store.events, p.concerns e.stream = true →
      Position.reached n.model.cache.highWater e.position = true →
        ∃ x, n.model.cache.entries.find? e.stream = some x ∧ e.position ≤ x.position) := by
  have hstart : (new store p .unbounded : Node A S B).Serves (.start p .unbounded log) :=
    serves_new hstore hpages
  obtain ⟨ms, t, hms, hserves, hundisturbed⟩ :=
    hstart.run (Traffic.sound_start hstore.numbered) hquiet hrun
  rw [hserves.store.events_eq] at hignores
  have hfollows : t.Follows p :=
    (Traffic.follows_start hstore.numbered).run hundisturbed hms hignores
  rw [hserves.store.events_eq, hserves.model]
  exact hfollows.entries

end Node

end Chronicle
