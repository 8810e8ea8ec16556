import Chronicle.Proofs.Projection.Upkeep

/-!
# Chronicle.Proofs.Projection.Remembering

What a read model answers with after everything was loaded, whatever came before and whatever comes
after it until the entries are dropped (`Upkeep.answers_from_memory`).

Every call keeps the entries exact and abreast of the live events, as in any session. The load adds
that they are those of the events that it has seen or that were applied, whichever end is later
(`Upkeep.Sound`). A live event below that end finds its entry there already (`Sound.next`), whether
the live events come to it one by one or pass over those before it (`Sound.skipTo`), and one at the
end is the first that the cache has nothing of.
-/

namespace Chronicle

variable {A S : Type} [Vocabulary A] {p : Projector A S} {log : List (Event A)}

namespace Upkeep

variable {u u' : Upkeep A S} [DecidableEq S]

/-! ## What is retained -/

/-- The entries are exact, a load under way has folded the log up to its cursor, and once everything
was loaded the entries are those of the events that were loaded or applied. -/
structure Sound (p : Projector A S) (log : List (Event A)) (u : Upkeep A S) : Prop
    extends Orderly u where
  current : Session.Current p log u.session
  load : ∀ l, u.loading = some l → Loading.Sound p log l
  loaded : u.seen.isSome = true → u.session.model.cache.entries.Retains p log u.extent

namespace Sound

omit [DecidableEq S] in
theorem of_start {store : Store A} (h : store.Keeps log) (hsize : 0 < store.pageSize)
    (hfaults : ∀ q f, (q, f) ∈ store.readFaults → f.isTemporary = true) :
    Sound p log (start p store) where
  toOrderly := orderly_start
  current := .of_start Collection.roomy_unbounded rfl h hsize hfaults
  load := nofun
  loaded := nofun

omit [DecidableEq S] in
/-- What is retained of a log is retained of a continuation. -/
theorem retains_append (hu : Sound p log u) {more : List (Event A)}
    (h : Log.Numbered (log ++ more)) (hseen : u.seen.isSome = true) :
    u.session.model.cache.entries.Retains p (log ++ more) u.extent :=
  (hu.loaded hseen).append h

/-- The next live event. Below the end of the loaded part its entry is there already, and at or
beyond that end it is the first that the cache has nothing of. -/
theorem next (hu : Sound p log u) (hq : p.IgnoresOutcomes log) {session : Session A S}
    (h : u.session.step .apply = some session) : Sound p log { u with session } := by
  have hnumbered := hu.current.keeps.numbered
  have hstep := h
  simp only [Session.step] at h
  split at h
  · rename_i e he
    have hafter : u.session.store.After (u.session.model.applyNow u.session.store e).store :=
      ReadModel.after_applyNow
    have horderly := hu.toOrderly.applying e (u.session.applied + 1)
    cases h
    refine ⟨horderly, hu.current.stay hstep hafter (hq.of_prefix (List.take_prefix _ _)), hu.load,
      fun hseen => ?_⟩
    rw [hu.current.keeps.events_eq] at he
    obtain ⟨earlier, hmodel, -⟩ :=
      ReadModel.applyNow_model (m := u.session.model) hu.current.keeps he
    have hfate := Cache.apply_fate (p := p) (hu.current.unreached he) earlier
    have hall : u.session.model.cache.allLoaded = true := hu.known.trans hseen
    have hmem := List.mem_of_getElem? he
    have hretains := hu.loaded hseen
    show (u.session.model.applyNow u.session.store e).model.cache.entries.Retains p log
      (max (u.seen.getD 0) (u.session.applied + 1))
    rw [hmodel, ReadModel.cache_apply, hu.current.projector]
    by_cases hlt : u.session.applied < u.seen.getD 0
    · have hextent : u.extent = u.seen.getD 0 := Nat.max_eq_left (Nat.le_of_lt hlt)
      rw [hextent] at hretains
      rw [Nat.max_eq_left hlt, hretains.toCovers.fate_eq hmem ?_ hfate]
      · exact hretains
      · rw [hnumbered.position he]
        exact hlt
    · have hextent : u.extent = u.session.applied := Nat.max_eq_right (Nat.le_of_not_lt hlt)
      rw [hextent] at hretains
      rw [Nat.max_eq_right (by omega)]
      exact hretains.applied hnumbered hall (hq e hmem) he hfate
  · cases h

omit [DecidableEq S] in
/-- Live events go on further along if nothing is missed by that. -/
theorem skipTo (hu : Sound p log u) {j : Nat} (hj : u.session.applied ≤ j) (hlt : j ≤ log.length)
    (hdeliverable : u.deliverable j = true) :
    Sound p log { u with session := u.session.skipTo j } := by
  have hroom := hu.current.keeps.numbered.1
  unfold deliverable at hdeliverable
  rw [Bool.or_eq_true, decide_eq_true_eq, Bool.and_eq_true] at hdeliverable
  -- either the entries are those of more than the first `j` events, or there are none
  have habreast : u.session.model.cache.entries.Abreast p log j ∧ (u.seen.isSome = true →
      u.session.model.cache.entries.Covers p log j ∧ max (u.seen.getD 0) j = u.extent) := by
    have hold := hu.current.abreast
    cases hseen : u.seen with
    | some k =>
      have hextent : u.extent = max k u.session.applied := by rw [extent, hseen]; rfl
      have hle : j ≤ u.extent := hdeliverable.resolve_right (by rw [hseen]; exact nofun)
      have hcovers := (hu.loaded (by rw [hseen]; rfl)).toCovers.of_le hle
      refine ⟨⟨hold.distinct, hold.concerned, fun s x hx => ?_⟩, fun _ => ⟨hcovers, ?_⟩⟩
      · exact hcovers.beyond (hold.concerned s x hx) (hold.distinct.find? hx)
      · rw [hextent] at hle ⊢
        show max k j = max k u.session.applied
        omega
    | none =>
      have hextent : u.extent = u.session.applied := by
        rw [extent, hseen]
        exact Nat.max_eq_right (Nat.zero_le _)
      refine ⟨?_, nofun⟩
      rcases hdeliverable with hle | ⟨-, hnil⟩
      · rw [hextent] at hle
        rwa [Nat.le_antisymm hle hj]
      · exact .of_entries_eq_nil (List.isEmpty_iff.mp hnil)
  exact {
    unlimited := hu.unlimited
    known := hu.known
    idle := hu.idle
    current :=
      { hu.current with
        bounded := hlt
        mark := fun q => Position.reached_before (by omega)
        abreast := habreast.1
        whole := fun hall => (habreast.2 (hu.known.symm.trans hall)).1 }
    load := hu.load
    loaded := fun hseen => by
      show u.session.model.cache.entries.Retains p log (max (u.seen.getD 0) j)
      rw [(habreast.2 hseen).2]
      exact hu.loaded hseen }

/-- An event that is applied again changes nothing, and one further on is applied like the next. -/
theorem deliver (hu : Sound p log u) (hq : p.IgnoresOutcomes log) {j : Nat} {e : Event A}
    (he : u.session.store.events[j]? = some e) (hdeliverable : u.deliverable j = true) :
    Sound p log { u with
      session := { u.session.after (u.session.model.applyNow u.session.store e) with
        applied := max u.session.applied (j + 1) } } := by
  have hnumbered := hu.current.keeps.numbered
  have hevents := he
  rw [hu.current.keeps.events_eq] at he
  have hposition := hnumbered.position he
  by_cases hlt : j < u.session.applied
  · have hreached : Position.reached u.session.model.cache.highWater e.position = true := by
      rw [hu.current.mark, hposition]
      exact hlt
    rw [ReadModel.applyNow_stale hreached, Nat.max_eq_left hlt]
    exact hu
  · have hj : u.session.applied ≤ j := Nat.le_of_not_lt hlt
    have hbound : j < log.length := (List.getElem?_eq_some_iff.mp he).1
    have hroom := hnumbered.1
    have hskipped := hu.skipTo hj (Nat.le_of_lt hbound) hdeliverable
    have hunreached : Position.reached u.session.model.cache.highWater e.position = false := by
      rw [Bool.eq_false_iff, Ne, hu.current.mark, hposition]
      exact hlt
    have hsame : (u.session.skipTo j).model.applyNow u.session.store e
        = u.session.model.applyNow u.session.store e := by
      refine ReadModel.applyNow_highWater hunreached ?_
      rw [Bool.eq_false_iff, Ne, Position.reached_before (by omega), hposition]
      exact Nat.lt_irrefl j
    have hnext : (u.session.skipTo j).step .apply = some
        { u.session.after (u.session.model.applyNow u.session.store e) with
          applied := j + 1 } := by
      rw [← hsame]
      simp only [Session.step, Session.skipTo, hevents]
      rfl
    rw [Nat.max_eq_right (Nat.le_succ_of_le hj)]
    exact hskipped.next hq hnext

omit [DecidableEq S] in
/-- A load that found the log's end. -/
theorem complete (hu : Sound p log u) (folded : List (StreamId × Entry S))
    (hfolded : Loading.Folded p log folded) :
    Sound p log { u with
      session := { u.session with
        model := { u.session.model with cache := u.session.model.cache.keepLoaded folded } }
      loading := none
      seen := some u.session.store.length } := by
  have hnumbered := hu.current.keeps.numbered
  have hretains := Collection.Retains.of_loaded hu.unlimited hnumbered hu.current.exact hfolded
  have hlength : u.session.store.length = log.length := hu.current.keeps.files.decodes.length_eq
  have hbounded := hu.current.bounded
  rw [← List.take_length (l := log)] at hfolded
  have hfound : ∀ s x, (s, x) ∈ folded → x.Exact p log s ∧ AtOrBeyond log s log.length x.position :=
    fun s x hx => hfolded.exact hnumbered (Nat.le_refl _) hx
  exact {
    unlimited := Cache.capacity_keepLoaded.trans hu.unlimited
    known := hu.allLoaded_keepLoaded folded
    idle := nofun
    current := hu.current.writing hu.current.projector Cache.highWater_keepLoaded
      Cache.capacity_keepLoaded (hu.current.exact.keepLoaded fun s x hx => (hfound s x hx).1)
      (hu.current.abreast.keepLoaded fun s x hx => ⟨((hfolded s x).mp hx).1,
        fun e he hes hlt => (hfound s x hx).2 e he hes (by omega)⟩)
      fun _ => hretains.toCovers.of_le hbounded
    load := nofun
    loaded := fun _ => by
      show (u.session.model.cache.keepLoaded folded).entries.Retains p log
        (max u.session.store.length u.session.applied)
      rw [hlength, Nat.max_eq_left hbounded]
      exact hretains }

omit [DecidableEq S] in
theorem turnPage (hu : Sound p log u) {l : Loading S} (hl : u.loading = some l)
    (order : List StreamId) : Sound p log (u.turnPage l order) := by
  have hafter := u.session.store.after_readFrom (p := l.cursor)
  -- reading leaves everything that the invariant speaks of
  have hread : Sound p log { u with
      session := { u.session with store := (u.session.store.readFrom l.cursor).store } } :=
    { unlimited := hu.unlimited
      known := hu.known
      idle := hu.idle
      current := hu.current.reading hafter
      load := hu.load
      loaded := hu.loaded }
  have hpage := Store.page_readFrom_of_decodes hu.current.keeps.files.decodes
    hu.current.keeps.numbered (p := l.cursor)
  unfold Upkeep.turnPage
  dsimp only
  rw [hpage]
  cases hfault : Store.takeFault l.cursor u.session.store.readFaults with
  | some found =>
    obtain ⟨failure, others⟩ := found
    have hmem : (l.cursor, failure) ∈ u.session.store.readFaults :=
      (Store.takeFault_perm hfault).mem_iff.mpr List.mem_cons_self
    cases failure with
    | permanent reason => cases hu.current.faults _ _ hmem
    | temporary reason =>
      exact ⟨⟨hread.unlimited, hread.known, nofun⟩, hread.current, nofun, hread.loaded⟩
  | none =>
    rcases (hu.load l hl).advance hu.current.keeps.numbered hu.current.sized with
      ⟨l', hadvance, hl'⟩ | ⟨l', hadvance, hfolded⟩ <;> rw [← hu.current.projector] at hadvance
    · simp only [Option.map_none, Log.answered, hadvance]
      refine ⟨⟨hread.unlimited, hread.known, fun _ => hread.idle (Option.isSome_of_eq_some hl)⟩,
        hread.current, ?_, hread.loaded⟩
      rintro _ ⟨⟩
      exact hl'
    · simp only [Option.map_none, Log.answered, hadvance]
      exact hread.complete _ (hfolded.arranged (Loading.arranges_arranged order))

omit [DecidableEq S] in
/-- Loading everything at once. -/
theorem loading (hu : Sound p log u) (hidle : u.loading = none) (order : List StreamId) :
    Sound p log { u with
      session := u.session.after (u.session.model.getAllIn (Loading.arranged order) u.session.store)
      seen := u.seenAfter (.getAll order) } := by
  have harrange := Loading.arranges_arranged (S := S) order
  have horderly := hu.toOrderly.loading (Option.isNone_iff_eq_none.mpr hidle) order
  simp only [seenAfter] at horderly ⊢
  generalize Loading.arranged order = arrange at harrange horderly ⊢
  have hafter : u.session.store.After (u.session.model.getAllIn arrange u.session.store).store :=
    ReadModel.after_getAllIn
  have hresult := ReadModel.loadedAll_getAllIn (m := u.session.model) arrange hu.current.keeps
    hu.current.sized hu.current.faults
  have hcurrent : Session.Current p log
      (u.session.after (u.session.model.getAllIn arrange u.session.store)) :=
    (hu.current.loadedAll harrange hresult).reading hafter
  refine ⟨horderly, hcurrent, fun l hl => ?_, ?_⟩
  · rw [hidle] at hl
    cases hl
  simp only [extent, Session.after]
  generalize (u.session.model.getAllIn arrange u.session.store).answer = answer,
    (u.session.model.getAllIn arrange u.session.store).model = model at hresult
  cases hresult with
  | known hall =>
    intro _
    obtain ⟨k, hk⟩ := Option.isSome_iff_exists.mp (hu.known.symm.trans hall)
    have hretains := hu.loaded (Option.isSome_of_eq_some hk)
    rw [extent, hk] at hretains
    simp only [hk, Option.getD_some]
    exact hretains
  | failed q failure _ => exact hu.loaded
  | kept hall =>
    intro _
    have hnone : u.seen = none := by
      rw [← Option.not_isSome_iff_eq_none, ← hu.known, hall]
      exact Bool.false_ne_true
    have hlength : u.session.store.length = log.length := hu.current.keeps.files.decodes.length_eq
    simp only [hnone, Option.getD_none, Option.getD_some]
    rw [hlength, Nat.max_eq_left hu.current.bounded, hu.current.projector]
    exact .of_loaded hu.unlimited hu.current.keeps.numbered hu.current.exact
      ((Loading.folded_entriesOf log).arranged harrange)

omit [DecidableEq S] in
/-- A load goes on over a log that is written to. -/
theorem load_append (hu : Sound p log u) (more : List (Event A)) (l : Loading S)
    (hl : u.loading = some l) : Loading.Sound p (log ++ more) l := by
  have hholder : (Holder.loading l : Holder A S).Sound p log u.session.applied := hu.load l hl
  exact hholder.append hu.current.bounded

/-- An operation of a session. -/
theorem does {op : Operation A} {session : Session A S} {log' : List (Event A)}
    (hfree : (u.loading.isNone || op.spares) = true) (h : u.session.step op = some session)
    (hfiles : session.store.contents.Files log') (hroom : log'.length < 0x10000000000000000)
    (hq : p.IgnoresOutcomes log') :
    ∃ log, log <+: log' ∧ u.session.store.contents.Files log ∧
      (Sound p log u → Sound p log' { u with session, seen := u.seenAfter op }) := by
  have hgoes : (∀ log more, Sound p log u → Log.Numbered (log ++ more) →
      (u.seenAfter op).isSome = true → session.model.cache.entries.Retains p (log ++ more)
        (max ((u.seenAfter op).getD 0) session.applied)) →
      ∃ log, log <+: log' ∧ u.session.store.contents.Files log ∧
        (Sound p log u → Sound p log' { u with session, seen := u.seenAfter op }) := by
    intro hloaded
    obtain ⟨log, ⟨more, rfl⟩, hlog, hkept⟩ := Session.Current.step (p := p) h hfiles hroom
      (hq.of_prefix (List.take_prefix _ _))
    refine ⟨log, List.prefix_append _ _, hlog, fun hu => ?_⟩
    have hcurrent := hkept hu.current
    have hstep : u.step (.does op) = some { u with session, seen := u.seenAfter op } := by
      simp only [Upkeep.step, hfree, if_true, h, Option.map_some]
    exact ⟨hu.toOrderly.step hstep, hcurrent, hu.load_append more,
      hloaded log more hu hcurrent.keeps.numbered⟩
  cases op with
  | apply =>
    have hcontents : session.store.contents = u.session.store.contents := by
      simp only [Session.step] at h
      split at h
      · cases h
        exact ReadModel.after_applyNow.contents
      · cases h
    rw [hcontents] at hfiles
    exact ⟨log', List.prefix_rfl, hfiles, fun hu => hu.next hq h⟩
  | getAll order =>
    have hidle : u.loading = none :=
      Option.isNone_iff_eq_none.mp ((Bool.or_false _).symm.trans hfree)
    cases h
    have hcontents : (u.session.model.getAllIn (Loading.arranged order) u.session.store).store.contents
      = u.session.store.contents := ReadModel.after_getAllIn.contents
    rw [show (u.session.after _).store.contents = _ from hcontents] at hfiles
    exact ⟨log', List.prefix_rfl, hfiles, fun hu => hu.loading hidle order⟩
  | get s =>
    cases h
    refine hgoes fun log more hu hnumbered hseen => ?_
    obtain ⟨state, hstate⟩ := ReadModel.exists_known (hu.known.trans hseen) s
    simp only [Session.after, ReadModel.get_of_known hstate]
    exact hu.retains_append hnumbered hseen
  | getUpTo s bound =>
    cases h
    refine hgoes fun log more hu hnumbered hseen => ?_
    have hsame : (u.session.model.getUpTo u.session.store s bound).model = u.session.model := by
      unfold ReadModel.getUpTo
      split
      · obtain ⟨state, hstate⟩ := ReadModel.exists_known (hu.known.trans hseen) s
        rw [ReadModel.get_of_known hstate]
      · rfl
    simp only [Session.after, hsame]
    exact hu.retains_append hnumbered hseen
  | invalidate =>
    cases h
    exact hgoes fun _ _ _ _ hseen => absurd hseen Bool.false_ne_true
  | _ =>
    cases h
    exact hgoes fun log more hu hnumbered hseen => hu.retains_append hnumbered hseen

/-- Where a call leaves a log that can be decoded, it met one of which that is a continuation. Every
call keeps the invariant. -/
theorem step {call : Call A} {log' : List (Event A)} (h : u.step call = some u')
    (hfiles : u'.session.store.contents.Files log') (hroom : log'.length < 0x10000000000000000)
    (hq : p.IgnoresOutcomes log') :
    ∃ log, log <+: log' ∧ u.session.store.contents.Files log ∧
      (Sound p log u → Sound p log' u') := by
  have horderly : Sound p log' u → Orderly u' := fun hu => hu.toOrderly.step h
  -- a call that does not write leaves the log as it was
  have hstay : u'.session.store.contents = u.session.store.contents →
      (Sound p log' u → Sound p log' u') →
      ∃ log, log <+: log' ∧ u.session.store.contents.Files log ∧
        (Sound p log u → Sound p log' u') := by
    intro hcontents hkept
    rw [hcontents] at hfiles
    exact ⟨log', List.prefix_rfl, hfiles, hkept⟩
  cases takes_of_step h with
  | does hfree hsession => exact does hfree hsession hfiles hroom hq
  | deliver _ he hdeliverable =>
    exact hstay ReadModel.after_applyNow.contents fun hu => hu.deliver hq he hdeliverable
  | known _ _ => exact hstay rfl id
  | load _ _ =>
    refine hstay rfl fun hu => ⟨horderly hu, hu.current, ?_, hu.loaded⟩
    rintro _ ⟨⟩
    exact Loading.sound_new
  | page hl =>
    refine hstay ?_ fun hu => hu.turnPage hl _
    unfold Upkeep.turnPage
    dsimp only
    split <;> exact Store.after_readFrom.contents

theorem run {calls : List (Call A)} (hu : Sound p log u) (h : u.run calls = some u')
    {log' : List (Event A)} (hfiles : u'.session.store.contents.Files log')
    (hroom : log'.length < 0x10000000000000000) (hq : p.IgnoresOutcomes log') :
    Sound p log' u' := by
  -- the log at the end tells what it was before every call
  suffices ∀ log, u'.session.store.contents.Files log → log.length < 0x10000000000000000 →
      p.IgnoresOutcomes log → Sound p log u' from this log' hfiles hroom hq
  refine runMoves_induction (P := fun v => ∀ log, v.session.store.contents.Files log →
    log.length < 0x10000000000000000 → p.IgnoresOutcomes log → Sound p log v)
    (fun log₀ hfiles₀ _ _ => ?_) (fun {pre call v w} _ _ hstep hv log₁ hfiles₁ hroom₁ hq₁ => ?_) h
  · rw [← hu.current.keeps.files.decodes.unique hfiles₀.decodes]
    exact hu
  · obtain ⟨log₀, hprefix, hfiles₀, hkept⟩ := step hstep hfiles₁ hroom₁ hq₁
    exact hkept (hv log₀ hfiles₀ (Nat.lt_of_le_of_lt hprefix.length_le hroom₁)
      (hq₁.of_prefix hprefix))

omit [DecidableEq S] in
/-- Once everything was loaded, the entries miss nothing of what the cache is to answer for. -/
theorem abreast (hu : Sound p log u) {k : Nat} (hk : u.seen = some k) :
    u.session.model.cache.entries.Abreast p log u.extent where
  distinct := hu.current.abreast.distinct
  concerned := hu.current.abreast.concerned
  beyond s x hx := (hu.loaded (Option.isSome_of_eq_some hk)).toCovers.beyond
    (hu.current.abreast.concerned s x hx) (hu.current.abreast.distinct.find? hx)

end Sound

/-! ## The answers -/

/-- A cache that keeps every entry, after whatever calls, with everything loaded while the log ended
at `k` and not dropped since. The high water is where the live events got to, before `k` or beyond
it, and the later of the two is where the answers end. A lookup and a call for every projection both
answer from memory, change nothing and read nothing: with the fold of a stream's events up to that
end, and with every one of these that is a projection, each once. A stream without an entry has no
event up to there. Whatever follows, no call reads the log as long as nobody asks for a beginning of
a stream or drops the entries, and the same projections are answered until a live event is
applied. -/
theorem answers_from_memory {store : Store A} {log₀ : List (Event A)} (hstart : store.Keeps log₀)
    (hsize : 0 < store.pageSize)
    (hfaults : ∀ q f, (q, f) ∈ store.readFaults → f.isTemporary = true) {calls : List (Call A)}
    (h : (start p store).run calls = some u) {k : Nat} (hk : u.seen = some k)
    (hfiles : u.session.store.contents.Files log) (hroom : log.length < 0x10000000000000000)
    (hq : p.IgnoresOutcomes log) :
    let t := u.session
    let n := max k t.applied
    (∀ q, Position.reached t.model.cache.highWater q = true ↔ q.val < t.applied) ∧
    (∀ s, t.model.get t.store s = ⟨.ok (if p.concerns s = true then
      p.foldAll none (Log.early log s n) else none), t.model, t.store, []⟩) ∧
    (∃ all, t.model.getAll t.store = ⟨.ok all, t.model, t.store, []⟩ ∧
      (all.Pairwise fun a b => a.1 ≠ b.1) ∧
      ∀ s v, (s, v) ∈ all ↔
        p.concerns s = true ∧ p.foldAll none (Log.early log s n) = some v) ∧
    (∀ s, p.concerns s = true → t.model.cache.entries.find? s = none →
      ∀ e ∈ log, e.stream = s → n ≤ e.position.val) ∧
    ∀ later u', (∀ call ∈ later, call.Serves) → u.run later = some u' →
      u'.seen = some k ∧ u.Unread u' ∧
      ((∀ call ∈ later, call.applies = false) →
        (u'.session.model.getAll u'.session.store).answer = (t.model.getAll t.store).answer) := by
  have hu : Sound p log u := (Sound.of_start hstart hsize hfaults).run h hfiles hroom hq
  have hnumbered := hu.current.keeps.numbered
  have hall := hu.allLoaded hk
  have hextent : u.extent = max k u.session.applied := by rw [extent, hk]; rfl
  have hretains := hu.loaded (Option.isSome_of_eq_some hk)
  have habreast := hu.abreast hk
  rw [hextent] at hretains habreast
  dsimp only
  refine ⟨hu.current.mark, fun s => ?_, ?_, fun s hs hf e he hes => ?_,
    fun later u' hlater hrun => ?_⟩
  · by_cases hs : p.concerns s = true
    · rw [if_pos hs]
      exact ReadModel.get_of_known
        (ReadModel.known_eq hretains hnumbered hall hu.current.exact hs)
    · rw [if_neg hs]
      refine ReadModel.get_of_known ?_
      have hnone : u.session.model.cache.entries.find? s = none := by
        rw [Option.eq_none_iff_forall_ne_some]
        exact fun x hx => hs (habreast.concerned s x (Collection.mem_of_find? hx))
      simp [ReadModel.known?, Cache.known?, hnone, hall]
  · exact ⟨_, ReadModel.getAllIn_of_allLoaded hall id, Cache.distinct_states habreast.distinct,
      fun s v => ReadModel.mem_states_iff hretains hnumbered hu.current.exact habreast⟩
  · refine Nat.le_of_not_lt fun hlt => ?_
    have hearly := hretains.toCovers.early_eq_nil hnumbered hs hf
    have hmem := (Log.mem_early hnumbered).mpr ⟨he, hes, hlt⟩
    rw [hearly] at hmem
    cases hmem
  · obtain ⟨hseen, hunread, hsame⟩ := hu.toOrderly.quiet_run hk hlater hrun
    refine ⟨hseen, hunread, fun happlies => ?_⟩
    unfold ReadModel.getAll
    rw [hsame happlies, ReadModel.getAllIn_of_allLoaded hall, ReadModel.getAllIn_of_allLoaded hall]

def overlapped : List (Call Notes.Fact) :=
  [.does (.write [.fact (.noted "a" 2), .fact (.noted "b" 7)]), .does (.get ⟨"Topic", "a"⟩), .load,
    .page, .does (.write [.fact (.noted "a" 3)]), .page, .page, .does .apply, .deliver 2,
    .deliver 0, .does (.write [.fact (.noted "a" 4)]), .deliver 3,
    .does (.write [.fact (.noted "b" 1)])]

/-- The first topic is answered with all of its numbers, the second without its last. -/
theorem overlapped_answers :
    ∃ u all, (start Notes.projector (Store.ofPayloads 0)).run overlapped = some u ∧
      u.seen = some 3 ∧ u.session.applied = 4 ∧
      (u.session.model.get u.session.store ⟨"Topic", "a"⟩).answer = .ok (some 9) ∧
      (u.session.model.getAll u.session.store).answer = .ok all ∧
      (⟨"Topic", "a"⟩, 9) ∈ all ∧ (⟨"Topic", "b"⟩, 7) ∈ all ∧
      u.session.store.reads = 3 ∧ u.session.store.streamReads = 1 := by
  have hrun : (start Notes.projector (Store.ofPayloads 0)).run overlapped = some _ := rfl
  have hempty : (Store.ofPayloads 0 : Store Notes.Fact).Keeps [] :=
    ⟨⟨rfl, rfl⟩, by decide, by decide⟩
  obtain ⟨-, hget, ⟨all, hanswer, -, hmem⟩, -⟩ := answers_from_memory hempty (by decide) nofun hrun
    rfl ⟨rfl, rfl⟩ (by decide) (Projector.ignoresOutcomes_of_facts (by decide))
  refine ⟨_, all, hrun, rfl, rfl, ?_, ?_, (hmem _ _).mpr ⟨by decide, by decide⟩,
    (hmem _ _).mpr ⟨by decide, by decide⟩, rfl, rfl⟩
  · rw [hget]
    rfl
  · rw [hanswer]

end Upkeep
end Chronicle
