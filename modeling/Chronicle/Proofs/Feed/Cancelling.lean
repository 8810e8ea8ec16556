import Chronicle.Notes
import Chronicle.Proofs.Feed.Opened

/-!
# Chronicle.Proofs.Feed.Cancelling

What the pulls of the log do once their token has fired. A poll loop looks at the token before it
begins a read, while a read is under way, and while it rests; it hands out the batch that it has read
and ends. A replay looks at it between two attempts at a page and when it follows the live stream. As
long as it drains the log it does not.

So a poll loop heeds the token wherever it is, and a replay only where it waits
(`Opened.token_heeded_iff`).
-/

namespace Chronicle

variable {A : Type} [Vocabulary A]

/-! ## Where the token is looked at -/

namespace Engine

variable {A : Type}

/-- What is left of the batch that is being passed on. -/
def batch : Engine A → List (Event A)
  | .polling loop =>
    match loop.phase with
    | .emitting _ events _ => events
    | _ => []
  | .replaying replay =>
    match replay.phase with
    | .emitting _ events => events
    | _ => []

def isEnded : Engine A → Bool
  | .polling loop => loop.isEnded
  | .replaying replay =>
    match replay.phase with
    | .ended => true
    | _ => false

/-- A delay between two attempts is waited out. -/
def backsOff : Engine A → Bool
  | .polling _ => false
  | .replaying replay =>
    match replay.phase with
    | .backingOff .. => true
    | _ => false

/-- The token is looked at before another page is read. -/
def heeds : Engine A → Bool
  | .polling _ => true
  | .replaying replay =>
    match replay.phase with
    | .draining .. | .emitting .. => false
    | _ => true

/-- At most so many steps are left once the token has fired. -/
def remaining (engine : Engine A) : Nat :=
  if engine.isEnded then 0 else if engine.watches then 1 else engine.batch.length + 2

variable {engine : Engine A}

/-- A pull that sees the token ends, and there is nothing that it could still pass on. -/
theorem cancel_of_watches (h : engine.watches = true) :
    engine.cancel.isEnded = true ∧ engine.cancel.heeds = true ∧ engine.cancel.backsOff = false ∧
      engine.cancel.batch = [] ∧ engine.batch = [] ∧ engine.remaining = 1 := by
  rcases engine with ⟨strategy, after, phase⟩ | ⟨start, policy, last, phase⟩ <;> cases phase <;>
    first
    | exact ⟨rfl, rfl, rfl, rfl, rfl, rfl⟩
    | cases h

theorem remaining_of_isEnded (h : engine.isEnded = true) : engine.remaining = 0 := by
  rw [remaining, if_pos h]

theorem batch_of_emitting {loop : PollLoop Position (Event A)} {cursor next : Position}
    {events : List (Event A)} (h : loop.phase = .emitting cursor events next) :
    (polling loop).batch = events := by
  simp only [batch, h]

theorem remaining_of_emitting {loop : PollLoop Position (Event A)} {cursor next : Position}
    {events : List (Event A)} (h : loop.phase = .emitting cursor events next) :
    (polling loop).remaining = events.length + 2 := by
  simp [remaining, isEnded, PollLoop.isEnded, watches, batch, h]

theorem remaining_le (engine : Engine A) : engine.remaining ≤ engine.batch.length + 2 := by
  unfold remaining
  split
  · omega
  · split <;> omega

end Engine

namespace Opened

variable {u u' : Opened A}

/-! ## Where the token is heeded -/

/-- The token has fired and is seen before anything more is read. Since `u` no read was begun, and
what is passed on is of the batch that `u` had read. -/
structure Heedful (u : Opened A) (turns : Nat) (u' : Opened A) : Prop where
  fired : u'.fired = true
  heeds : u'.engine.heeds = true
  backsOff : u'.engine.backsOff = true → u.engine.backsOff = true
  begun : u'.begun = u.begun
  emitted : u'.emitted ++ u'.engine.batch = u.emitted ++ u.engine.batch
  turns : turns + u'.engine.remaining ≤ u.engine.remaining

theorem turn_of_watches (hfired : u.fired = true) (hwatches : u.engine.watches = true) :
    u.turn = some { u with engine := u.engine.cancel, underWay := false } := by
  rw [turn, hfired, hwatches, Bool.and_self, if_pos rfl]

/-- Where the token is heeded but not looked at, a batch is handed out, or the pull has ended. -/
theorem unwatched_cases (hheeds : u.engine.heeds = true) (hwatches : u.engine.watches = false) :
    (u.engine.isEnded = true ∧ u.turn = none) ∨
    ∃ loop cursor events next, u.engine = .polling loop ∧
      loop.phase = .emitting cursor events next := by
  cases hengine : u.engine with
  | polling loop =>
    cases hphase : loop.phase with
    | emitting cursor events next => exact .inr ⟨loop, cursor, events, next, rfl, hphase⟩
    | ended =>
      refine .inl ⟨by simp only [Engine.isEnded, PollLoop.isEnded, hphase], ?_⟩
      rw [turn_of_unseen (by rw [hwatches, Bool.and_false])
        (by simp only [hengine, Engine.cursor?, hphase])]
      simp only [hengine, Engine.emit?, PollLoop.emit?, hphase, Option.map_none, turnOver]
    | _ => simp only [hengine, Engine.watches, hphase] at hwatches; cases hwatches
  | replaying replay =>
    cases hphase : replay.phase with
    | ended =>
      refine .inl ⟨by simp only [Engine.isEnded, hphase], ?_⟩
      rw [turn_of_unseen (by rw [hwatches, Bool.and_false])
        (by simp only [hengine, Engine.cursor?, hphase])]
      simp only [hengine, Engine.emit?, Replay.emit?, hphase, Option.map_none, turnOver]
    | draining | emitting => simp only [hengine, Engine.heeds, hphase] at hheeds; cases hheeds
    | _ => simp only [hengine, Engine.watches, hphase] at hwatches; cases hwatches

/-- The next event of a batch is handed out, or the batch is done with and the loop rests. -/
theorem turn_of_emitting {loop : PollLoop Position (Event A)} {cursor next : Position}
    {events : List (Event A)} (hengine : u.engine = .polling loop)
    (hphase : loop.phase = .emitting cursor events next) :
    u.turn = some (match events with
      | e :: rest => { u with
          engine := .polling { loop with phase := .emitting cursor rest next }
          emitted := u.emitted ++ [e] }
      | [] => { u with engine := .polling loop.finishBatch.1 }) := by
  rw [turn_of_unseen (by simp only [hengine, Engine.watches, hphase, Bool.and_false])
    (by simp only [hengine, Engine.cursor?, hphase])]
  cases events <;> simp only [hengine, Engine.emit?, PollLoop.emit?, hphase, Option.map_some,
    Option.map_none, turnOver]

namespace Heedful

variable {v : Opened A} {turns : Nat}

theorem refl (hfired : u.fired = true) (hheeds : u.engine.heeds = true) : Heedful u 0 u :=
  ⟨hfired, hheeds, id, rfl, rfl, Nat.le_of_eq (Nat.zero_add _)⟩

/-- Where the token is looked at the pull ends. A batch is handed out first. -/
theorem turn (h : Heedful u turns u') (hturn : u'.turn = some v) : Heedful u (turns + 1) v := by
  have hturns := h.turns
  have hemitted := h.emitted
  cases hwatches : u'.engine.watches with
  | true =>
    obtain ⟨hended, hheeds, hback, hnothing, hbatch, hone⟩ := Engine.cancel_of_watches hwatches
    cases (turn_of_watches h.fired hwatches).symm.trans hturn
    refine ⟨h.fired, hheeds, fun hb => ?_, h.begun, ?_, ?_⟩
    · cases hback.symm.trans hb
    · rw [hbatch] at hemitted
      rw [hnothing]
      exact hemitted
    · rw [Engine.remaining_of_isEnded hended]
      omega
  | false =>
    rcases unwatched_cases h.heeds hwatches with
      ⟨-, hnone⟩ | ⟨loop, cursor, events, next, hp, hphase⟩
    · cases hnone.symm.trans hturn
    · cases (turn_of_emitting hp hphase).symm.trans hturn
      rw [hp, Engine.batch_of_emitting hphase] at hemitted
      rw [hp, Engine.remaining_of_emitting hphase] at hturns
      cases events with
      | cons e rest =>
        refine ⟨h.fired, rfl, nofun, h.begun, ?_, ?_⟩
        · rw [← hemitted]
          exact List.append_assoc u'.emitted [e] rest
        · rw [List.length_cons] at hturns
          show turns + 1 + (rest.length + 2) ≤ u.engine.remaining
          omega
      | nil =>
        have hfinish : loop.finishBatch = loop.conclude cursor (.advanced next) := by
          simp only [PollLoop.finishBatch, hphase]
        refine ⟨h.fired, rfl, nofun, h.begun, ?_, ?_⟩
        · show u'.emitted ++ (Engine.polling loop.finishBatch.1).batch = _
          rw [hfinish]
          exact hemitted
        · show turns + 1 + (Engine.polling loop.finishBatch.1).remaining ≤ u.engine.remaining
          rw [hfinish]
          exact hturns

/-- A timer that is over brings nobody past the token but a replay that backs off. -/
theorem lapse_eq_none (h : Heedful u turns u') (hback : u'.engine.backsOff = false) :
    u'.lapse = none := by
  have hfired := h.fired
  unfold lapse
  cases hengine : u'.engine with
  | polling loop => cases hphase : loop.phase <;> simp only [hphase, hfired, Bool.true_or, if_true]
  | replaying replay =>
    rw [hengine] at hback
    cases hphase : replay.phase <;> simp only [hphase]
    simp only [Engine.backsOff, hphase] at hback
    cases hback

theorem step (h : Heedful u turns u') {m : Move A} (hstep : u'.step m = some v)
    (hlapse : u.engine.backsOff = true → m ≠ .lapse) :
    Heedful u (turns + if m.isTurn then 1 else 0) v := by
  cases m with
  | fire =>
    cases hstep
    exact ⟨rfl, h.heeds, h.backsOff, h.begun, h.emitted, h.turns⟩
  | turn => exact h.turn hstep
  | lapse =>
    have hback : u'.engine.backsOff = false :=
      Bool.eq_false_iff.mpr fun hb => hlapse (h.backsOff hb) rfl
    cases (h.lapse_eq_none hback).symm.trans hstep
  | elsewhere store live wakeUp first =>
    cases hstep
    exact ⟨h.fired, h.heeds, h.backsOff, h.begun, h.emitted, h.turns⟩

theorem run (hfired : u.fired = true) (hheeds : u.engine.heeds = true) {ms : List (Move A)}
    (hlapse : u.engine.backsOff = true → .lapse ∉ ms) :
    ∀ {v}, Opened.run u ms = some v → Heedful u (ms.countP Move.isTurn) v := by
  induction ms using List.reverseRecOn with
  | nil =>
    intro v hrun
    cases runMoves_nil.mp hrun
    exact .refl hfired hheeds
  | append_singleton rest m ih =>
    intro v hrun
    obtain ⟨t, hrest, hm⟩ := runMoves_concat.mp hrun
    have hbefore := ih (fun hback hmem => hlapse hback (List.mem_append_left _ hmem)) hrest
    rw [List.countP_append, List.countP_singleton]
    refine hbefore.step hm fun hback heq => hlapse hback ?_
    rw [heq]
    exact List.mem_append_right _ (List.mem_singleton.mpr rfl)

/-- It goes on until it has ended. -/
theorem turn_eq_none_iff (h : Heedful u turns u') :
    u'.turn = none ↔ u'.engine.isEnded = true := by
  cases hwatches : u'.engine.watches with
  | true =>
    rw [turn_of_watches h.fired hwatches]
    refine ⟨nofun, fun hended => ?_⟩
    obtain ⟨-, -, -, -, -, hone⟩ := Engine.cancel_of_watches hwatches
    rw [Engine.remaining_of_isEnded hended] at hone
    cases hone
  | false =>
    rcases unwatched_cases h.heeds hwatches with ⟨hended, hnone⟩ | ⟨loop, _, _, _, hp, hphase⟩
    · exact ⟨fun _ => hended, fun _ => hnone⟩
    · rw [turn_of_emitting hp hphase, hp]
      simp only [Engine.isEnded, PollLoop.isEnded, hphase]
      exact ⟨nofun, nofun⟩

end Heedful

/-! ## Where it is not -/

/-- In some course of things, without a timer that would be over, the pull begins another read. -/
def ReadsOn (u : Opened A) : Prop :=
  ∃ ms v cursor, run u ms = some v ∧ .lapse ∉ ms ∧ v.begun = u.begun ++ [cursor]

namespace ReadsOn

variable {r : Replay A} {cursor : Position} {attempt : Nat}

theorem of_step {m : Move A} (hstep : u.step m = some u') (hm : m ≠ .lapse)
    (hbegun : u'.begun = u.begun) (h : ReadsOn u') : ReadsOn u := by
  obtain ⟨ms, v, cursor, hrun, hlapse, hv⟩ := h
  have hfirst : runMoves step u [m] = some u' := runMoves_singleton.trans hstep
  refine ⟨[m] ++ ms, v, cursor, runMoves_append.mpr ⟨u', hfirst, hrun⟩, fun hmem => ?_, ?_⟩
  · rcases List.mem_append.mp hmem with hhead | htail
    · exact hm (List.mem_singleton.mp hhead).symm
    · exact hlapse htail
  · rw [hv, hbegun]

theorem of_turn (hturn : u.turn = some u') (hbegun : u'.begun = u.begun) (h : ReadsOn u') :
    ReadsOn u :=
  of_step (m := .turn) hturn nofun hbegun h

/-- Others have changed the log. -/
theorem of_elsewhere (store : Store A) (h : ReadsOn { u with store }) : ReadsOn u :=
  of_step (m := .elsewhere store u.live u.wakeUp u.first) rfl nofun rfl h

/-- A replay that drains begins its read, whether the token has fired or not. -/
theorem of_draining (hengine : u.engine = .replaying r)
    (hphase : r.phase = .draining cursor attempt) (hidle : u.underWay = false) : ReadsOn u := by
  have hturn : u.turn = some { u with underWay := true, begun := u.begun ++ [cursor] } := by
    rw [turn]
    simp only [hengine, Engine.watches, Engine.cursor?, hphase, hidle, Bool.and_false,
      Bool.false_eq_true, if_false]
  exact ⟨[.turn], _, cursor, runMoves_singleton.trans hturn, by simp, rfl⟩

/-- A page is passed on to its end, and the next one is read. The induction is on what is left of
the page. -/
theorem of_emitting {events : List (Event A)} : ∀ {u : Opened A} {r : Replay A} {cursor : Position},
    u.engine = .replaying r → r.phase = .emitting cursor events → ReadsOn u := by
  induction events with
  | nil =>
    intro u r cursor hengine hphase
    have hturn : u.turn = some { u with engine := .replaying r.finishPage, underWay := false } := by
      rw [turn_of_unseen (by simp only [hengine, Engine.watches, hphase, Bool.and_false])
        (by simp only [hengine, Engine.cursor?, hphase])]
      simp only [hengine, Engine.emit?, Replay.emit?, hphase, Option.map_none, turnOver]
    have hdrains : r.finishPage.phase = .draining cursor 0 := by
      simp only [Replay.finishPage, hphase]
    exact of_turn hturn rfl (of_draining rfl hdrains rfl)
  | cons e rest ih =>
    intro u r cursor hengine hphase
    have hturn : u.turn = some { u with
        engine := .replaying { r with
          last := some e.position, phase := .emitting e.position.next rest }
        emitted := u.emitted ++ [e] } := by
      rw [turn_of_unseen (by simp only [hengine, Engine.watches, hphase, Bool.and_false])
        (by simp only [hengine, Engine.cursor?, hphase])]
      simp only [hengine, Engine.emit?, Replay.emit?, hphase, Option.map_some]
    exact of_turn hturn rfl (ih rfl rfl)

/-- A read under way is not given up. If it fails for good the next position is read. -/
theorem of_underWay (hengine : u.engine = .replaying r)
    (hphase : r.phase = .draining cursor attempt) (hbusy : u.underWay = true) : ReadsOn u := by
  let faulty : Store A := { u.store with readFaults := [(cursor, .permanent "unreadable")] }
  have hpage : (faulty.readFrom cursor).page = .error (.permanent "unreadable") := by
    simp only [Store.readFrom, Store.takeFault, faulty, if_true]
  have hturn : turn { u with store := faulty } = some { u with
      store := (faulty.readFrom cursor).store
      engine := (Engine.replaying r).answer (.error (.permanent "unreadable"))
      underWay := false } := by
    rw [← hpage, turn]
    simp only [hengine, Engine.watches, Engine.cursor?, hphase, hbusy, Bool.and_false,
      Bool.false_eq_true, if_false, if_true]
  have hnext : (r.answer (.error (.permanent "unreadable"))).1.phase = .draining cursor.next 0 := by
    simp only [Replay.answer, hphase, Retry.afterFailure, ReadFailure.isTemporary, Bool.not_false,
      if_true]
  exact of_elsewhere faulty (of_turn hturn rfl (of_draining rfl hnext rfl))

/-- A replay that drains may read on. -/
theorem of_unheeding (h : u.engine.heeds = false) : ReadsOn u := by
  cases hengine : u.engine with
  | polling loop =>
    rw [hengine] at h
    cases h
  | replaying r =>
    cases hphase : r.phase with
    | draining cursor attempt =>
      cases hunderWay : u.underWay with
      | true => exact of_underWay hengine hphase hunderWay
      | false => exact of_draining hengine hphase hunderWay
    | emitting cursor events => exact of_emitting hengine hphase
    | _ =>
      simp only [hengine, Engine.heeds, hphase] at h
      cases h

end ReadsOn

/-- The token of a pull has fired. No further read is begun, whatever happens, exactly if the pull
is not a replay that drains the log: if it is a poll loop, or a replay that follows the live stream,
has ended, or waits between two attempts and goes on before that delay is over as well. Such a pull
passes on what is left of the batch that it has read, nothing else, and ends at most two steps after
that. -/
theorem token_heeded_iff (hfired : u.fired = true) :
    (u.engine.heeds = true ↔ ∀ ms v, run u ms = some v →
      (u.engine.backsOff = true → .lapse ∉ ms) → v.begun = u.begun) ∧
    (u.engine.heeds = true → ∀ ms v, run u ms = some v →
      (u.engine.backsOff = true → .lapse ∉ ms) →
      v.emitted ++ v.engine.batch = u.emitted ++ u.engine.batch ∧
      ms.countP Move.isTurn ≤ u.engine.batch.length + 2 ∧
      (v.turn = none ↔ v.engine.isEnded = true)) := by
  refine ⟨⟨fun hheeds ms v hrun hlapse => (Heedful.run hfired hheeds hlapse hrun).begun,
    fun hnever => ?_⟩, fun hheeds ms v hrun hlapse => ?_⟩
  · by_contra hheeds
    obtain ⟨ms, v, cursor, hrun, hlapse, hbegun⟩ :=
      ReadsOn.of_unheeding (Bool.eq_false_iff.mpr hheeds)
    have hsame := hnever ms v hrun fun _ => hlapse
    rw [hbegun] at hsame
    exact absurd (List.append_right_eq_self.mp hsame) (List.cons_ne_nil _ _)
  · have h := Heedful.run hfired hheeds hlapse hrun
    refine ⟨h.emitted, ?_, h.turn_eq_none_iff⟩
    have hturns := h.turns
    have hmost := u.engine.remaining_le
    omega

def threeNotes : Store Notes.Fact :=
  let batch := [.fact (.noted "a" 2), .fact (.noted "a" 3), .fact (.noted "a" 4)]
  ((Store.ofPayloads 0).write batch).2.withPageSize 2

/-- A poll loop that has read two events and passed on the first one when its token fired. -/
def firedPoll : Opened Notes.Fact :=
  let opened := polling threeNotes (.new {}) Position.zero none
  (run opened [.turn, .turn, .turn, .turn, .fire]).getD opened

/-- It passes the second event on, does not read for the third one, and ends. -/
theorem fired_poll_ends :
    firedPoll.fired = true ∧ firedPoll.begun = [.ofNat 0] ∧ firedPoll.emitted.length = 1 ∧
    ∃ v, run firedPoll [.turn, .turn, .turn] = some v ∧ v.begun = firedPoll.begun ∧
      v.emitted = firedPoll.emitted ++ firedPoll.engine.batch ∧ v.emitted.length = 2 ∧
      v.turn = none := by
  have hrun : run firedPoll [.turn, .turn, .turn] = some _ := rfl
  obtain ⟨hiff, hheeded⟩ := token_heeded_iff (u := firedPoll) rfl
  obtain ⟨hemitted, -, hends⟩ := hheeded rfl _ _ hrun nofun
  rw [show Engine.batch _ = [] from rfl, List.append_nil] at hemitted
  exact ⟨rfl, rfl, rfl, _, hrun, hiff.mp rfl _ _ hrun nofun, hemitted, rfl, hends.mpr rfl⟩

/-- The token fires before a replay of three events has read anything. It reads the log to its end
all the same, three times, and passes on all that it finds before it ends. -/
theorem fired_replay_reads_on :
    ∃ v, run (replaying threeNotes {} Position.zero {})
        (.fire :: List.replicate 12 .turn) = some v ∧
      v.begun = [.ofNat 0, .ofNat 2, .ofNat 3] ∧ v.emitted = threeNotes.events ∧
      v.engine.isEnded = true :=
  ⟨_, rfl, rfl, rfl, rfl⟩

end Opened
end Chronicle
