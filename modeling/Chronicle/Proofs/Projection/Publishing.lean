import Chronicle.Proofs.Feed.Delivery
import Chronicle.Proofs.Projection.Following

/-!
# Chronicle.Proofs.Projection.Publishing

What the feed of outcomes says about the read model. It publishes the outcomes of the events that
were applied, in the order of the log (`Traffic.Publishes`), so an outcome that was published was
applied, and everything before it in the log was.
-/

namespace Chronicle

def Log.outcomes {A : Type} (log : List (Event A)) : List Outcome :=
  log.filterMap (·.payload.outcome?)

namespace Log

variable {A : Type} {log : List (Event A)}

theorem outcomes_append (more : List (Event A)) :
    outcomes (log ++ more) = outcomes log ++ outcomes more :=
  List.filterMap_append

theorem outcomes_take_succ {n : Nat} {e : Event A} (he : log[n]? = some e) :
    outcomes (log.take (n + 1)) = outcomes (log.take n) ++ e.payload.outcome?.toList := by
  rw [List.take_add_one, he, Option.toList_some, outcomes_append]
  cases ho : e.payload.outcome? with
  | none => simp [outcomes, ho]
  | some o => simp [outcomes, ho]

theorem outcomes_take_prefix {m n : Nat} (h : m ≤ n) :
    outcomes (log.take m) <+: outcomes (log.take n) :=
  (List.take_prefix_take_left h).filterMap _

end Log

section Apply

variable {A S : Type} [Vocabulary A] [DecidableEq S] {m : ReadModel A S} {e : Event A}

theorem ReadModel.outcomes_announce_effect {p : Projector A S} {state : Option S} :
    (m.announce (Cache.effect p e state)).outcomes = m.outcomes := by
  unfold Cache.effect
  split <;> rfl

/-- A live event that records an outcome publishes it, and no other event publishes one. -/
theorem ReadModel.outcomes_apply (h : Position.reached m.cache.highWater e.position = false)
    (earlier : Page A) : (m.apply e earlier).1.outcomes =
      match e.payload.outcome? with
      | some o => (m.outcomes.publish o).1
      | none => m.outcomes := by
  have hspec := Cache.examine_spec m.cache m.projector e
  have houtcome : ∀ o, e.payload.outcome? = some o →
      m.cache.examine m.projector e = .outcome o := by
    intro o ho
    rw [Cache.examine, h, if_neg Bool.false_ne_true, ho]
  unfold apply Cache.apply
  cases ho : e.payload.outcome? with
  | some o => rw [houtcome o ho]; rfl
  | none =>
    cases hx : m.cache.examine m.projector e with
    | stale => rfl
    | outcome o => rw [hx, ho] at hspec; cases hspec
    | pass => rfl
    | fold state => exact outcomes_announce_effect
    | backfill =>
      cases earlier with
      | ok events => exact outcomes_announce_effect
      | error failure => rfl

end Apply

namespace Traffic

variable {A S : Type} {p : Projector A S} {t t' : Traffic A S} {sub : Nat}

/-- The feed of outcomes has published those of the events that were applied to a subscription. -/
structure Publishes (sub : Nat) (t : Traffic A S) : Prop where
  live : (t.model.outcomes.mailbox sub).Live
  queue : (t.model.outcomes.mailbox sub).queue = Log.outcomes (t.log.take t.applied)

namespace Publishes

/-- An outcome that was published was applied. -/
theorem lt_applied (ht : t.Publishes sub) {n : Nat} {e : Event A} (he : t.log[n]? = some e)
    (ho : e.payload.outcome?.isSome = true)
    (hpublished : Log.outcomes (t.log.take (n + 1)) <+: (t.model.outcomes.mailbox sub).queue) :
    n < t.applied := by
  by_contra hnot
  have hshort : Log.outcomes (t.log.take t.applied) <+: Log.outcomes (t.log.take n) :=
    Log.outcomes_take_prefix (Nat.le_of_not_lt hnot)
  obtain ⟨o, ho⟩ := Option.isSome_iff_exists.mp ho
  rw [ht.queue, Log.outcomes_take_succ he, ho] at hpublished
  have hlong := hpublished.length_le
  have := hshort.length_le
  rw [List.length_append, Option.toList_some, List.length_singleton] at hlong
  omega

/-- What was published is the outcome that an applied event records. -/
theorem exists_of_mem (ht : t.Publishes sub) {o : Outcome}
    (h : o ∈ (t.model.outcomes.mailbox sub).queue) :
    ∃ e ∈ t.log.take t.applied, e.payload.outcome? = some o := by
  rw [ht.queue] at h
  exact List.mem_filterMap.mp h

theorem frame (ht : t.Publishes sub) (hbounded : t.applied ≤ t.log.length)
    (houtcomes : t'.model.outcomes.mailbox sub = t.model.outcomes.mailbox sub)
    (happlied : t'.applied = t.applied) (hlog : t.log <+: t'.log) : t'.Publishes sub where
  live := houtcomes ▸ ht.live
  queue := by
    obtain ⟨more, hmore⟩ := hlog
    rw [houtcomes, happlied, ← hmore, List.take_append_of_le_length hbounded]
    exact ht.queue

variable [Vocabulary A] [DecidableEq S]

theorem finish (ht : t.Publishes sub) (hsound : Sound p t) {e : Event A}
    (he : t.log[t.applied]? = some e) (earlier : Page A) : (t.finish e earlier).Publishes sub := by
  have houtcomes : (t.finish e earlier).model.outcomes = _ :=
    ReadModel.outcomes_apply (hsound.unreached he) earlier
  have hnext : Log.outcomes ((t.finish e earlier).log.take (t.finish e earlier).applied) = _ :=
    Log.outcomes_take_succ he
  have hlive := ht.live
  cases ho : e.payload.outcome? with
  | none =>
    rw [ho] at houtcomes hnext
    refine ⟨houtcomes ▸ hlive, ?_⟩
    rw [houtcomes, hnext, ht.queue]
    exact (List.append_nil _).symm
  | some o =>
    rw [ho] at houtcomes hnext
    have hmailbox : (t.finish e earlier).model.outcomes.mailbox sub =
        { t.model.outcomes.mailbox sub with
          queue := (t.model.outcomes.mailbox sub).queue ++ [o] } := by
      rw [houtcomes, Broadcaster.mailbox_publish, hlive.deliver]
    refine ⟨?_, ?_⟩
    · rw [hmailbox]
      exact ⟨hlive.linked, hlive.held⟩
    · rw [hmailbox, hnext, ht.queue]
      rfl

theorem step {m : Move A S} (ht : t.Publishes sub) (hsound : Sound p t)
    (h : t.step m = some t') : t'.Publishes sub := by
  have hbounded := hsound.bounded
  cases step_written h with
  | nothing hmodel happlied =>
    exact ht.frame hbounded (by rw [hmodel]) happlied (log_grows h)
  | event e earlier hevent ht' =>
    rw [ht']
    exact ht.finish hsound (hsound.next hevent).1 earlier
  | entry i s x _ _ hmodel happlied _ =>
    exact ht.frame hbounded (by rw [hmodel]; rfl) happlied (log_grows h)
  | load folded order _ _ hmodel happlied _ =>
    exact ht.frame hbounded (by rw [hmodel]) happlied (log_grows h)
  | dropped _ hmodel happlied _ =>
    exact ht.frame hbounded (by rw [hmodel]; rfl) happlied (log_grows h)

theorem run {ms : List (Move A S)} (ht : t.Publishes sub) (hsound : Sound p t)
    (hms : ∀ m ∈ ms, m.ReadsAll) (h : t.run ms = some t') : t'.Publishes sub := by
  suffices Sound p t' ∧ t'.Publishes sub from this.2
  refine runMoves_induction (P := fun u => Sound p u ∧ u.Publishes sub) ⟨hsound, ht⟩ ?_ h
  rintro pre m u v hpre - hstep ⟨hu, hpublishes⟩
  exact ⟨hu.step (hms m (hpre.subset (by simp))) hstep, hpublishes.step hu hstep⟩

end Publishes

variable [Vocabulary A] [DecidableEq S]

theorem applied_le {m : Move A S} (h : t.step m = some t') : t.applied ≤ t'.applied := by
  cases step_written h with
  | nothing _ happlied => exact Nat.le_of_eq happlied.symm
  | event e earlier _ ht' =>
    rw [ht']
    exact Nat.le_succ _
  | entry i s x _ _ _ happlied _ => exact Nat.le_of_eq happlied.symm
  | load folded order _ _ _ happlied _ => exact Nat.le_of_eq happlied.symm
  | dropped _ _ happlied _ => exact Nat.le_of_eq happlied.symm

theorem applied_le_run {ms : List (Move A S)} (h : t.run ms = some t') :
    t.applied ≤ t'.applied :=
  runMoves_induction (P := fun u => t.applied ≤ u.applied) (Nat.le_refl _)
    (fun _ _ hm ht => Nat.le_trans ht (applied_le hm)) h

end Traffic
end Chronicle
