import Chronicle.Feed.Replay
import Chronicle.Proofs.Feed.Delivery
import Chronicle.Proofs.Log.Reading
import Chronicle.Proofs.Running

/-!
# Chronicle.Proofs.Feed.Handover

Replaying a log that grows, and then following a live stream that lags behind it. The two overlap:
the subscription is older than the first read, so live events that were published meanwhile wait in
the mailbox, and some of them are replayed as well.

`needed` is the number of the next event to pass on. Two facts carry the proof. The mailbox leads on
from some number up to what was published, each item at most one ahead of those before it
(`Leads`). And by the time the replay turns to the mailbox, which is when a read found the log's end,
that number has been passed on, or lies before the start.

What was passed on is always a first part of the log from the start on (`emitted_prefix`).
-/

namespace Chronicle

/-- A replay among what goes on around it. -/
structure Handover (A : Type) where
  log : List (Event A)
  /-- The outlet of the live stream. -/
  live : Broadcaster (Event A)
  /-- The events that the live stream has published are those with smaller numbers. -/
  published : Nat
  replay : Replay A
  subscription : Nat
  emitted : List (Event A) := []

namespace Handover

variable {A : Type}

inductive Move (A : Type) where
  | append (batch : List (Event A))
  /-- The live stream publishes an event, the next one or once more an earlier one. -/
  | publish (j : Nat)
  /-- A page of at most so many events is read. The read may fail. -/
  | read (limit : Nat) (fault : Option ReadFailure)
  /-- The next event of a page is passed on, or the page is done with. -/
  | pass
  /-- A delay is over. -/
  | resume
  /-- The next item of the mailbox is taken. -/
  | receive
  | cancel

/-- A replay is opened in front of a live stream that will publish the event numbered `next`. -/
def opened (first : Position) (policy : RetryPolicy) (log : List (Event A))
    (live : Broadcaster (Event A)) (next : Nat) : Handover A :=
  { log
    live := live.subscribe.1
    published := next
    replay := .new first policy
    subscription := live.subscribe.2 }

def step (h : Handover A) : Move A → Option (Handover A)
  | .append batch =>
    if Log.Numbered (h.log ++ batch) then some { h with log := h.log ++ batch } else none
  | .publish j =>
    match h.log[j]? with
    | some e =>
      if j ≤ h.published then
        some { h with live := (h.live.publish e).1, published := max h.published (j + 1) }
      else none
    | none => none
  | .read limit fault =>
    match h.replay.phase with
    | .draining cursor _ =>
      if 0 < limit then
        let page := Log.answered fault (Log.page h.log cursor limit)
        some { h with replay := (h.replay.answer page).1 }
      else none
    | _ => none
  | .pass =>
    match h.replay.phase with
    | .emitting .. =>
      match h.replay.emit? with
      | some (e, replay) => some { h with replay, emitted := h.emitted ++ [e] }
      | none => some { h with replay := h.replay.finishPage }
    | _ => none
  | .resume =>
    match h.replay.phase with
    | .backingOff .. => some { h with replay := h.replay.resume }
    | _ => none
  | .receive =>
    match h.replay.phase with
    | .following =>
      match h.live.receive h.subscription with
      | (live, .item e) =>
        let (passed, replay) := h.replay.follow e
        some { h with live, replay, emitted := h.emitted ++ passed.toList }
      | _ => none
    | _ => none
  | .cancel => some { h with replay := h.replay.cancel }

abbrev run (h : Handover A) (ms : List (Move A)) : Option (Handover A) := runMoves step h ms

/-- The move does not pass over a position that could not be read. -/
def Move.ReadsAll : Move A → Prop
  | .read _ (some (.permanent _)) => False
  | _ => True

/-! ## What the mailbox leads to -/

/-- The items are events of the log, each at most one ahead of the events numbered below `n` and of
the items before it, and they lead up to `published`. -/
def Leads (log : List (Event A)) (published : Nat) : (n : Nat) → List (Event A) → Prop
  | n, [] => n = published
  | n, e :: rest =>
    e ∈ log ∧ e.position.val ≤ n ∧ Leads log published (max n (e.position.val + 1)) rest

theorem Leads.append {log batch : List (Event A)} {published : Nat} {items : List (Event A)} :
    ∀ {n : Nat}, Leads log published n items → Leads (log ++ batch) published n items := by
  induction items with
  | nil => exact id
  | cons e rest ih =>
    rintro n ⟨hmem, hle, hrest⟩
    exact ⟨List.mem_append_left _ hmem, hle, ih hrest⟩

theorem Leads.publish {log : List (Event A)} {published : Nat} {e : Event A} (he : e ∈ log)
    (hle : e.position.val ≤ published) {items : List (Event A)} :
    ∀ {n : Nat}, Leads log published n items →
      Leads log (max published (e.position.val + 1)) n (items ++ [e]) := by
  induction items with
  | nil =>
    rintro n rfl
    exact ⟨he, hle, rfl⟩
  | cons e' rest ih =>
    rintro n ⟨hmem, hle', hrest⟩
    exact ⟨hmem, hle', ih hrest⟩

end Handover

/-! ## The replay -/

namespace Replay

variable {A : Type}

def needed (r : Replay A) : Nat :=
  match r.last with
  | some p => p.val + 1
  | none => r.start.val

/-- Nothing was passed on yet, or the last event was one of the log from the start on. -/
def Placed (log : List (Event A)) (r : Replay A) : Prop :=
  ∀ p, r.last = some p → r.start.val ≤ p.val ∧ p.val < log.length

theorem Placed.start_le {log : List (Event A)} {r : Replay A} (h : r.Placed log) :
    r.start.val ≤ r.needed := by
  unfold needed
  cases hl : r.last with
  | none => exact Nat.le_refl _
  | some p => exact Nat.le_succ_of_le (h p hl).1

/-- A live event is a repetition exactly if its number is not needed any more. -/
theorem repeats_iff {log : List (Event A)} {r : Replay A} (h : r.Placed log) {e : Event A} :
    r.repeats e = true ↔ e.position.val < r.needed := by
  unfold repeats needed
  cases hl : r.last with
  | none =>
    simp only [Position.reached, Bool.or_false, decide_eq_true_eq]
    exact Iff.rfl
  | some p =>
    have hp := (h p hl).1
    simp only [Position.reached, Bool.or_eq_true, decide_eq_true_eq]
    constructor
    · rintro (hlt | hle)
      · have : e.position.val < r.start.val := hlt
        show e.position.val < p.val + 1
        omega
      · exact Nat.lt_succ_of_le hle
    · intro hlt
      exact .inr (Nat.le_of_lt_succ hlt)

/-- What a replay reads next, or has read, is what is needed next. -/
def Aimed (log : List (Event A)) (r : Replay A) : Prop :=
  match r.phase with
  | .draining cursor _ | .backingOff cursor _ _ => cursor.val = r.needed
  | .emitting cursor events => cursor.val = r.needed ∧ events <+: log.drop r.needed
  | .following | .ended => True

/-- The number that the mailbox leads on from was passed on, or will have been once the log was read
to its end. -/
def Reaches (log : List (Event A)) (r : Replay A) (n : Nat) : Prop :=
  match r.phase with
  | .following => n ≤ r.needed
  | .ended => True
  | _ => n ≤ log.length

theorem Placed.append {log batch : List (Event A)} {r : Replay A} (h : r.Placed log) :
    r.Placed (log ++ batch) := by
  intro p hp
  obtain ⟨hstart, hlt⟩ := h p hp
  rw [List.length_append]
  exact ⟨hstart, by omega⟩

theorem Aimed.append {log batch : List (Event A)} {r : Replay A} (h : r.Aimed log) :
    r.Aimed (log ++ batch) := by
  unfold Aimed at h ⊢
  cases hphase : r.phase with
  | emitting cursor events =>
    simp only [hphase] at h ⊢
    refine ⟨h.1, h.2.trans ?_⟩
    rw [List.drop_append]
    exact List.prefix_append _ _
  | draining _ _ | backingOff _ _ _ => simpa only [hphase] using h
  | following | ended => trivial

theorem Reaches.append {log batch : List (Event A)} {r : Replay A} {n : Nat} (h : r.Reaches log n) :
    r.Reaches (log ++ batch) n := by
  unfold Reaches at h ⊢
  cases hphase : r.phase with
  | following => simpa only [hphase] using h
  | ended => trivial
  | _ =>
    simp only [hphase] at h ⊢
    rw [List.length_append]
    omega

/-- What the answer to a read, if it is no permanent failure, does to a replay that waits for it:
it takes events in, or finds the log's end, or ends, or waits to read once more. -/
theorem answer_cases {log : List (Event A)} {r : Replay A} {cursor : Position} {attempt limit : Nat}
    {fault : Option ReadFailure} (hphase : r.phase = .draining cursor attempt) (hlimit : 0 < limit)
    (hfault : ∀ reason, fault ≠ some (.permanent reason)) :
    ∃ phase, (r.answer (Log.answered fault (Log.page log cursor limit))).1 = { r with phase } ∧
      ((phase = .following ∧ log.length ≤ cursor.val) ∨
        (∃ events, phase = .emitting cursor events ∧ events <+: log.drop cursor.val) ∨
        phase = .ended ∨ ∃ delay, phase = .backingOff cursor attempt delay) := by
  unfold answer
  simp only [hphase]
  cases fault with
  | none =>
    simp only [Log.answered]
    cases hpage : Log.page log cursor limit with
    | nil => exact ⟨.following, rfl, .inl ⟨rfl, Log.page_eq_nil hlimit hpage⟩⟩
    | cons e rest =>
      refine ⟨.emitting cursor (e :: rest), rfl, .inr (.inl ⟨e :: rest, rfl, ?_⟩)⟩
      rw [← hpage]
      exact List.take_prefix _ _
  | some failure =>
    cases failure with
    | permanent reason => exact absurd rfl (hfault reason)
    | temporary reason =>
      simp only [Log.answered, Retry.afterFailure, ReadFailure.isTemporary, Bool.not_true,
        Bool.false_eq_true, if_false]
      by_cases hmax : r.policy.maxRetries ≤ attempt
      · simp only [if_pos hmax]
        exact ⟨.ended, rfl, .inr (.inr (.inl rfl))⟩
      · simp only [if_neg hmax]
        exact ⟨.backingOff cursor attempt _, rfl, .inr (.inr (.inr ⟨_, rfl⟩))⟩

end Replay

/-! ## The whole -/

theorem Log.drop_take_succ {A : Type} {log : List (Event A)} {first n : Nat} {e : Event A}
    (he : log[n]? = some e) (hle : first ≤ n) :
    (log.take (n + 1)).drop first = (log.take n).drop first ++ [e] := by
  have hlt : n < log.length := (List.getElem?_eq_some_iff.mp he).1
  rw [List.take_add_one, he, Option.toList_some, List.drop_append_of_le_length]
  rw [List.length_take]
  omega

namespace Handover

variable {A : Type} {first : Position} {h h' : Handover A}

structure Sound (first : Position) (h : Handover A) : Prop where
  numbered : Log.Numbered h.log
  start : h.replay.start = first
  placed : h.replay.Placed h.log
  aimed : h.replay.Aimed h.log
  emitted : h.emitted = (h.log.take h.replay.needed).drop first.val
  mailbox : (h.live.mailbox h.subscription).Live
  leads : ∃ n, Leads h.log h.published n (h.live.mailbox h.subscription).queue ∧
    h.replay.Reaches h.log n

theorem sound_opened {policy : RetryPolicy} {log : List (Event A)} {live : Broadcaster (Event A)}
    {next : Nat} (hlog : Log.Numbered log) (hnext : next ≤ log.length) :
    Sound first (opened first policy log live next) where
  numbered := hlog
  start := rfl
  placed p hp := by cases hp
  aimed := rfl
  emitted := by
    show [] = (log.take first.val).drop first.val
    rw [List.drop_eq_nil_of_le (List.length_take_le _ _)]
  mailbox := by
    show (live.subscribe.1.mailbox live.subscribe.2).Live
    rw [Broadcaster.mailbox_subscribe]
    exact Mailbox.live_new
  leads := by
    refine ⟨next, ?_, hnext⟩
    show Leads log next next (live.subscribe.1.mailbox live.subscribe.2).queue
    rw [Broadcaster.mailbox_subscribe]
    rfl

namespace Sound

theorem append {batch : List (Event A)} (hs : Sound first h) (hlog : Log.Numbered (h.log ++ batch)) :
    Sound first { h with log := h.log ++ batch } where
  numbered := hlog
  start := hs.start
  placed := hs.placed.append
  aimed := hs.aimed.append
  emitted := by
    show h.emitted = ((h.log ++ batch).take h.replay.needed).drop first.val
    rw [hs.emitted]
    cases hl : h.replay.last with
    | none =>
      have hneeded : h.replay.needed = first.val := by
        rw [Replay.needed, hl, hs.start]
      rw [hneeded, List.drop_eq_nil_of_le (List.length_take_le _ _),
        List.drop_eq_nil_of_le (List.length_take_le _ _)]
    | some p =>
      have hneeded : h.replay.needed ≤ h.log.length := by
        rw [Replay.needed, hl]
        exact (hs.placed p hl).2
      rw [List.take_append_of_le_length hneeded]
  mailbox := hs.mailbox
  leads := by
    obtain ⟨n, hleads, hreaches⟩ := hs.leads
    exact ⟨n, hleads.append, hreaches.append⟩

theorem publish {j : Nat} {e : Event A} (hs : Sound first h) (he : h.log[j]? = some e)
    (hj : j ≤ h.published) :
    Sound first { h with live := (h.live.publish e).1, published := max h.published (j + 1) } := by
  have hqueue : (h.live.publish e).1.mailbox h.subscription =
      { h.live.mailbox h.subscription with
        queue := (h.live.mailbox h.subscription).queue ++ [e] } := by
    rw [Broadcaster.mailbox_publish, hs.mailbox.deliver]
  refine ⟨hs.numbered, hs.start, hs.placed, hs.aimed, hs.emitted, ?_, ?_⟩
  · show ((h.live.publish e).1.mailbox h.subscription).Live
    rw [hqueue]
    exact ⟨hs.mailbox.linked, hs.mailbox.held⟩
  · obtain ⟨n, hleads, hreaches⟩ := hs.leads
    refine ⟨n, ?_, hreaches⟩
    show Leads h.log (max h.published (j + 1)) n
      ((h.live.publish e).1.mailbox h.subscription).queue
    have hpos := hs.numbered.position he
    rw [hqueue, ← hpos]
    exact hleads.publish (List.mem_of_getElem? he) (by omega)

theorem rephase {phase : ReplayPhase A} (hs : Sound first h)
    (haimed : ({ h.replay with phase } : Replay A).Aimed h.log)
    (hreaches : ∀ n, h.replay.Reaches h.log n →
      ({ h.replay with phase } : Replay A).Reaches h.log n) :
    Sound first { h with replay := { h.replay with phase } } where
  numbered := hs.numbered
  start := hs.start
  placed := hs.placed
  aimed := haimed
  emitted := hs.emitted
  mailbox := hs.mailbox
  leads := by
    obtain ⟨n, hleads, hn⟩ := hs.leads
    exact ⟨n, hleads, hreaches n hn⟩

theorem read {cursor : Position} {attempt limit : Nat} {fault : Option ReadFailure}
    (hs : Sound first h) (hphase : h.replay.phase = .draining cursor attempt) (hlimit : 0 < limit)
    (hm : (Move.read limit fault : Move A).ReadsAll) :
    Sound first { h with
      replay := (h.replay.answer (Log.answered fault (Log.page h.log cursor limit))).1 } := by
  have hfault : ∀ reason, fault ≠ some (.permanent reason) := by
    rintro reason rfl
    exact hm
  have hcursor : cursor.val = h.replay.needed := by
    have := hs.aimed
    unfold Replay.Aimed at this
    rw [hphase] at this
    exact this
  have hbound : ∀ n, h.replay.Reaches h.log n → n ≤ h.log.length := by
    intro n hn
    unfold Replay.Reaches at hn
    rw [hphase] at hn
    exact hn
  obtain ⟨phase, hanswer, hcases⟩ := Replay.answer_cases hphase hlimit hfault
  rw [hanswer]
  rcases hcases with ⟨rfl, hend⟩ | ⟨events, rfl, hevents⟩ | rfl | ⟨delay, rfl⟩
  · refine hs.rephase trivial fun n hn => ?_
    have := hbound n hn
    show n ≤ h.replay.needed
    omega
  · rw [hcursor] at hevents
    exact hs.rephase ⟨hcursor, hevents⟩ hbound
  · exact hs.rephase trivial fun _ _ => trivial
  · exact hs.rephase hcursor hbound

theorem advance {e : Event A} {phase : ReplayPhase A} {live : Broadcaster (Event A)}
    (hs : Sound first h) (he : h.log[h.replay.needed]? = some e)
    (haimed : ({ h.replay with last := some e.position, phase } : Replay A).Aimed h.log)
    (hmailbox : (live.mailbox h.subscription).Live)
    (hleads : ∃ n, Leads h.log h.published n (live.mailbox h.subscription).queue ∧
      ({ h.replay with last := some e.position, phase } : Replay A).Reaches h.log n) :
    Sound first { h with
      live
      replay := { h.replay with last := some e.position, phase }
      emitted := h.emitted ++ [e] } := by
  have hpos := hs.numbered.position he
  have hstart := hs.placed.start_le
  refine ⟨hs.numbered, hs.start, ?_, haimed, ?_, hmailbox, hleads⟩
  · rintro p hp
    cases hp
    refine ⟨?_, hs.numbered.position_lt (List.mem_of_getElem? he)⟩
    show h.replay.start.val ≤ e.position.val
    omega
  · show h.emitted ++ [e] = (h.log.take (e.position.val + 1)).drop first.val
    rw [hs.emitted, hpos, Log.drop_take_succ he]
    rw [← hs.start]
    exact hstart

theorem emit {cursor : Position} {e : Event A} {rest : List (Event A)} (hs : Sound first h)
    (hphase : h.replay.phase = .emitting cursor (e :: rest)) :
    Sound first { h with
      replay := { h.replay with
        last := some e.position
        phase := .emitting e.position.next rest }
      emitted := h.emitted ++ [e] } := by
  obtain ⟨-, hevents⟩ :
      cursor.val = h.replay.needed ∧ e :: rest <+: h.log.drop h.replay.needed := by
    have := hs.aimed
    unfold Replay.Aimed at this
    rw [hphase] at this
    exact this
  obtain ⟨he, hrest⟩ := Log.next_of_prefix_drop hevents
  have hpos := hs.numbered.position he
  refine hs.advance he ⟨hs.numbered.next (List.mem_of_getElem? he), ?_⟩ hs.mailbox ?_
  · show rest <+: h.log.drop (e.position.val + 1)
    rw [hpos]
    exact hrest
  · obtain ⟨n, hleads, hn⟩ := hs.leads
    refine ⟨n, hleads, ?_⟩
    unfold Replay.Reaches at hn
    rw [hphase] at hn
    exact hn

/-- Taking an item of the mailbox: it is passed on exactly if it is the next event. -/
theorem receive {e : Event A} {rest : List (Event A)} (hs : Sound first h)
    (hphase : h.replay.phase = .following)
    (hqueue : (h.live.mailbox h.subscription).queue = e :: rest) :
    Sound first { h with
      live := (h.live.receive h.subscription).1
      replay := (h.replay.follow e).2
      emitted := h.emitted ++ (h.replay.follow e).1.toList } := by
  have hmailbox := (Broadcaster.receive_of_cons hqueue).2
  have hlive : ((h.live.receive h.subscription).1.mailbox h.subscription).Live := by
    rw [hmailbox]
    exact ⟨hs.mailbox.linked, hs.mailbox.held⟩
  obtain ⟨n, hleads, hn⟩ := hs.leads
  rw [hqueue] at hleads
  obtain ⟨hmem, hle, hrest⟩ := hleads
  have hneeded : n ≤ h.replay.needed := by
    unfold Replay.Reaches at hn
    rw [hphase] at hn
    exact hn
  by_cases hrepeats : h.replay.repeats e = true
  · have hold := (Replay.repeats_iff hs.placed).mp hrepeats
    have hfollow : h.replay.follow e = (none, h.replay) := by
      simp [Replay.follow, hphase, hrepeats]
    rw [hfollow]
    refine ⟨hs.numbered, hs.start, hs.placed, hs.aimed, ?_, hlive, ?_⟩
    · rw [Option.toList_none, List.append_nil]
      exact hs.emitted
    · refine ⟨max n (e.position.val + 1), ?_, ?_⟩
      · show Leads _ _ _ ((h.live.receive h.subscription).1.mailbox h.subscription).queue
        rw [hmailbox]
        exact hrest
      · unfold Replay.Reaches
        rw [hphase]
        show max n (e.position.val + 1) ≤ h.replay.needed
        omega
  · have hnew : e.position.val = h.replay.needed := by
      have hge : ¬ e.position.val < h.replay.needed := fun hlt =>
        hrepeats ((Replay.repeats_iff hs.placed).mpr hlt)
      omega
    have hfollow : h.replay.follow e =
        (some e, { h.replay with last := some e.position, phase := .following }) := by
      simp [Replay.follow, hphase, hrepeats]
    rw [hfollow]
    refine hs.advance ?_ trivial hlive ⟨max n (e.position.val + 1), ?_, ?_⟩
    · rw [← hnew]
      exact hs.numbered.getElem? hmem
    · rw [hmailbox]
      exact hrest
    · show max n (e.position.val + 1) ≤ e.position.val + 1
      omega

theorem step {m : Move A} (hs : Sound first h) (hm : m.ReadsAll) (hstep : h.step m = some h') :
    Sound first h' := by
  have haimed := hs.aimed
  unfold Replay.Aimed at haimed
  cases m with
  | append batch =>
    simp only [Handover.step] at hstep
    split at hstep
    · rename_i hlog
      cases hstep
      exact hs.append hlog
    · cases hstep
  | publish j =>
    simp only [Handover.step] at hstep
    split at hstep
    · rename_i e he
      split at hstep
      · rename_i hj
        cases hstep
        exact hs.publish he hj
      · cases hstep
    · cases hstep
  | read limit fault =>
    simp only [Handover.step] at hstep
    split at hstep
    · rename_i cursor attempt hphase
      split at hstep
      · rename_i hlimit
        cases hstep
        exact hs.read hphase hlimit hm
      · cases hstep
    · cases hstep
  | pass =>
    simp only [Handover.step] at hstep
    split at hstep
    · rename_i cursor events hphase
      rw [hphase] at haimed
      cases events with
      | nil =>
        simp only [Replay.emit?, Replay.finishPage, hphase] at hstep
        cases hstep
        refine hs.rephase haimed.1 fun n hn => ?_
        unfold Replay.Reaches at hn
        rw [hphase] at hn
        exact hn
      | cons e rest =>
        simp only [Replay.emit?, hphase] at hstep
        cases hstep
        exact hs.emit hphase
    · cases hstep
  | resume =>
    simp only [Handover.step] at hstep
    split at hstep
    · rename_i cursor attempt delay hphase
      rw [hphase] at haimed
      simp only [Replay.resume, hphase] at hstep
      cases hstep
      refine hs.rephase haimed fun n hn => ?_
      unfold Replay.Reaches at hn
      rw [hphase] at hn
      exact hn
    · cases hstep
  | receive =>
    simp only [Handover.step] at hstep
    split at hstep
    · rename_i hphase
      cases hqueue : (h.live.mailbox h.subscription).queue with
      | nil =>
        rw [Broadcaster.receive_of_nil hqueue, hs.mailbox.linked] at hstep
        cases hstep
      | cons e rest =>
        have hitem := (Broadcaster.receive_of_cons hqueue).1
        have hreceive := hs.receive hphase hqueue
        split at hstep
        · rename_i live e' hreceived
          rw [hreceived] at hitem hreceive
          cases hitem
          cases hstep
          exact hreceive
        · cases hstep
    · cases hstep
  | cancel =>
    simp only [Handover.step, Replay.cancel] at hstep
    cases hstep
    split
    · exact hs.rephase trivial fun _ _ => trivial
    · exact hs.rephase trivial fun _ _ => trivial
    · exact hs

theorem emitted_drop (hs : Sound first h) : h.emitted <+: h.log.drop first.val := by
  rw [hs.emitted, List.drop_take]
  exact List.take_prefix _ _

end Sound

/-- What a replay passes on, in front of a live stream that publishes the events of the log in their
order from some event on that the log did not go beyond, lagging as it likes and repeating earlier
ones as it likes: at every moment it is a first part of the log from the start on, event after event.
Once the replay follows the live stream and has emptied its mailbox, nothing that was published is
missing. -/
theorem emitted_prefix {policy : RetryPolicy} {log : List (Event A)} {live : Broadcaster (Event A)}
    {next : Nat} (hlog : Log.Numbered log) (hnext : next ≤ log.length) {ms : List (Move A)}
    (hms : ∀ m ∈ ms, m.ReadsAll) (hrun : (opened first policy log live next).run ms = some h) :
    h.emitted <+: h.log.drop first.val ∧
    h.emitted.map (·.position.val) = List.range' first.val h.emitted.length ∧
    (h.replay.phase = .following → (h.live.mailbox h.subscription).queue = [] →
      (h.log.take h.published).drop first.val <+: h.emitted) := by
  have hs : Sound first h := runMoves_induction (P := Sound first) (sound_opened hlog hnext)
    (fun hpre _ hstep hu => hu.step (hms _ (hpre.subset (by simp))) hstep) hrun
  refine ⟨hs.emitted_drop, ?_, fun hfollowing hempty => ?_⟩
  · rw [hs.emitted, List.map_drop, List.map_take, hs.numbered.2, List.take_range, List.length_drop,
      List.length_take, List.range_eq_range', List.drop_range']
    simp
  · obtain ⟨n, hleads, hn⟩ := hs.leads
    rw [hempty] at hleads
    obtain rfl : n = h.published := hleads
    unfold Replay.Reaches at hn
    rw [hfollowing] at hn
    rw [hs.emitted, List.drop_take, List.drop_take]
    exact List.take_prefix_take_left (Nat.sub_le_sub_right hn _)

/-- The second event is published before it is replayed, and the third one after the log's end was
found. -/
def overlapping : List (Move Notes.Fact) :=
  [.read 1 (some (.temporary "busy")), .resume, .read 1 none, .pass, .append [Notes.noted 3 1],
    .publish 0, .publish 1, .pass, .read 5 none, .pass, .pass, .read 5 none,
    .append [Notes.noted 4 2], .publish 0, .publish 2, .receive, .receive, .receive, .receive]

theorem overlapping_emitted_prefix :
    ∃ h, (opened .zero {} [Notes.noted 2 0] {} 0).run overlapping = some h ∧
      h.emitted = [Notes.noted 2 0, Notes.noted 3 1, Notes.noted 4 2] ∧
      h.emitted <+: h.log.drop Position.zero.val ∧
      h.emitted.map (·.position.val) = List.range' Position.zero.val h.emitted.length ∧
      (h.replay.phase = .following → (h.live.mailbox h.subscription).queue = [] →
        (h.log.take h.published).drop Position.zero.val <+: h.emitted) := by
  have hrun : (opened .zero {} [Notes.noted 2 0] {} 0).run overlapping = some _ := rfl
  refine ⟨_, hrun, by decide, emitted_prefix (by decide) (by decide) ?_ hrun⟩
  simp [overlapping, Move.ReadsAll]

end Handover
end Chronicle
