import Chronicle.Command.Await
import Chronicle.Proofs.Feed.Delivery
import Chronicle.Proofs.Running
import Mathlib.Data.List.Forall2
import Mathlib.Logic.Function.Basic

/-!
# Chronicle.Proofs.Command.Submitting

Callers that submit commands at the same time, while others subscribe to the commands, take them,
give their subscriptions up and close the broadcaster. A submission takes the publish lock,
publishes and lets go of the lock. So the commands are published one after the other, in one order
for all (`Intake.one_order`), and every subscription gets the stretch of this order that lies
between its beginning and its end (`Reader.Follows`).
-/

namespace Chronicle

/-! ## Stretches of what was published -/

/-- The items from number `since` on, up to number `upTo` or to the end. -/
def stretch {T : Type} (published : List T) (since : Nat) (upTo : Option Nat) : List T :=
  (published.take (upTo.getD published.length)).drop since

section Stretch

variable {T : Type} {published : List T} {since n : Nat}

theorem stretch_open : stretch published since none = published.drop since := by
  simp [stretch]

theorem stretch_concat_open (h : since ≤ published.length) (x : T) :
    stretch (published ++ [x]) since none = stretch published since none ++ [x] := by
  rw [stretch_open, stretch_open, List.drop_append_of_le_length h]

/-- What is published later is not in a stretch that has ended. -/
theorem stretch_concat_ended (h : n ≤ published.length) (x : T) :
    stretch (published ++ [x]) since (some n) = stretch published since (some n) := by
  simp [stretch, List.take_append_of_le_length h]

theorem stretch_ended_now :
    stretch published since (some published.length) = stretch published since none := rfl

end Stretch

/-! ## Subscriptions -/

structure Reader (T : Type) where
  /-- How many items were published before it. -/
  since : Nat
  /-- How many were published before it ended. -/
  upTo : Option Nat := none
  received : List T := []
  /-- What lay in its mailbox when it was given up. -/
  lost : List T := []

namespace Reader

variable {T : Type} {published : List T} {m : Mailbox T} {r : Reader T}

/-- Ends the subscription behind `n` items, if it has not ended before. -/
def endAt (r : Reader T) (n : Nat) : Reader T := { r with upTo := r.upTo <|> some n }

def receive (r : Reader T) (x : T) : Reader T := { r with received := r.received ++ [x] }

def drop (r : Reader T) (queue : List T) (n : Nat) : Reader T :=
  { r.endAt n with lost := r.lost ++ queue }

/-- The mailbox holds what the subscription has not received of its stretch. -/
structure Follows (published : List T) (m : Mailbox T) (r : Reader T) : Prop where
  seen : r.received ++ m.queue ++ r.lost = stretch published r.since r.upTo
  since_le : r.since ≤ published.length
  upTo_le : ∀ n, r.upTo = some n → n ≤ published.length
  live : (m.linked && m.held) = r.upTo.isNone
  held : m.held = true → r.lost = []
  dropped : m.held = false → m.queue = []

theorem follows_new : Follows published Mailbox.new { since := published.length } where
  seen := by simp [stretch, Mailbox.new]
  since_le := Nat.le_refl _
  upTo_le := nofun
  live := rfl
  held _ := rfl
  dropped := nofun

theorem stretch_endAt :
    stretch published r.since (r.endAt published.length).upTo = stretch published r.since r.upTo := by
  cases hup : r.upTo with
  | none => simp [endAt, hup, stretch_ended_now]
  | some n => simp [endAt, hup]

theorem endAt_le (h : ∀ n, r.upTo = some n → n ≤ published.length) :
    ∀ n, (r.endAt published.length).upTo = some n → n ≤ published.length := by
  intro n hn
  cases hup : r.upTo with
  | none =>
    rw [endAt, hup] at hn
    cases hn
    exact Nat.le_refl _
  | some k =>
    rw [endAt, hup] at hn
    cases hn
    exact h n hup

theorem isNone_endAt (n : Nat) : (r.endAt n).upTo.isNone = false := by
  cases hup : r.upTo <;> simp [endAt, hup]

namespace Follows

theorem publish (h : Follows published m r) (x : T) :
    Follows (published ++ [x]) (m.deliver x) r := by
  have hsince : r.since ≤ (published ++ [x]).length := by
    have := h.since_le
    simp only [List.length_append, List.length_singleton]
    omega
  have hupTo : ∀ n, r.upTo = some n → n ≤ (published ++ [x]).length := by
    intro n hn
    have := h.upTo_le n hn
    simp only [List.length_append, List.length_singleton]
    omega
  have hlive := h.live
  cases hup : r.upTo with
  | none =>
    rw [hup, Option.isNone_none, Bool.and_eq_true] at hlive
    have hm : m.Live := ⟨hlive.1, hlive.2⟩
    have hlost := h.held hm.held
    have hseen := h.seen
    rw [hlost, List.append_nil, hup] at hseen
    rw [hm.deliver]
    refine ⟨?_, hsince, hupTo, ?_, h.held, ?_⟩
    · rw [hlost, List.append_nil, hup, stretch_concat_open h.since_le, ← hseen, List.append_assoc]
    · rw [hup, Option.isNone_none, Bool.and_eq_true]
      exact hlive
    · intro hgone
      rw [hm.held] at hgone
      cases hgone
  | some n =>
    rw [hup, Option.isNone_some] at hlive
    have hunlinked : m.deliver x = m.unlink := by
      rw [Mailbox.deliver, hlive]
      rfl
    rw [hunlinked]
    refine ⟨?_, hsince, hupTo, ?_, h.held, h.dropped⟩
    · rw [hup, stretch_concat_ended (h.upTo_le n hup), ← hup]
      exact h.seen
    · rw [hup]
      rfl

theorem close (h : Follows published m r) :
    Follows published m.unlink (r.endAt published.length) where
  seen := by
    rw [show (r.endAt published.length).since = r.since from rfl, stretch_endAt]
    exact h.seen
  since_le := h.since_le
  upTo_le := endAt_le h.upTo_le
  live := by
    rw [isNone_endAt]
    rfl
  held := h.held
  dropped := h.dropped

theorem prune (h : Follows published m r) : Follows published m.prune r where
  seen := h.seen
  since_le := h.since_le
  upTo_le := h.upTo_le
  live := by
    rw [← h.live]
    simp [Mailbox.prune]
  held := h.held
  dropped := h.dropped

theorem receive (h : Follows published m r) {x : T} {rest : List T} (hqueue : m.queue = x :: rest) :
    Follows published { m with queue := rest } (r.receive x) where
  seen := by
    have hseen := h.seen
    rw [hqueue] at hseen
    simpa [Reader.receive] using hseen
  since_le := h.since_le
  upTo_le := h.upTo_le
  live := h.live
  held := h.held
  dropped hgone := by
    rw [h.dropped hgone] at hqueue
    cases hqueue

theorem drop (h : Follows published m r) :
    Follows published m.giveUp (r.drop m.queue published.length) where
  seen := by
    have hlost : r.lost = [] ∨ m.queue = [] := by
      cases hheld : m.held with
      | true => exact .inl (h.held hheld)
      | false => exact .inr (h.dropped hheld)
    have hseen := h.seen
    rw [← stretch_endAt] at hseen
    refine Eq.trans ?_ hseen
    rcases hlost with hlost | hqueue
    · simp [Reader.drop, Reader.endAt, Mailbox.giveUp, hlost]
    · simp [Reader.drop, Reader.endAt, Mailbox.giveUp, hqueue]
  since_le := h.since_le
  upTo_le := endAt_le h.upTo_le
  live := by
    rw [show (r.drop m.queue published.length).upTo = (r.endAt published.length).upTo from rfl,
      isNone_endAt]
    exact Bool.and_false _
  held := nofun
  dropped _ := rfl

end Follows

end Reader

/-! ## Callers and subscriptions -/

inductive PublishLock (B : Type) where
  | free
  /-- The caller is about to publish its next command. -/
  | taken (caller : Nat)
  /-- The caller has published the command, and is about to let go. -/
  | spent (caller : Nat) (c : Command B)

/-- The commands, those who submit them, and what became of it all. -/
structure Intake (B : Type) where
  commands : Broadcaster (Command B) := {}
  lock : PublishLock B := .free
  /-- What each caller has still to submit. -/
  pending : Nat → List (Command B) := fun _ => []
  /-- What each caller was asked to submit from the beginning on. -/
  asked : Nat → List (Command B) := fun _ => []
  /-- Who published what, in order. -/
  order : List (Nat × Command B) := []
  /-- Whose submission of what was completed, in order. -/
  completed : List (Nat × Command B) := []
  /-- What became of the subscriptions. -/
  readers : List (Reader (Command B)) := []

namespace PublishLock

variable {B : Type}

def isHeldBy (i : Nat) : PublishLock B → Bool
  | .free => false
  | .taken j => i = j
  | .spent j _ => i = j

def inFlight : PublishLock B → List (Nat × Command B)
  | .spent i c => [(i, c)]
  | _ => []

end PublishLock

namespace Intake

variable {B : Type}

inductive Move (B : Type) where
  /-- The caller submits the commands one after the other, or only one. -/
  | call (i : Nat) (cs : List (Command B))
  /-- The caller gets the publish lock. -/
  | acquire (i : Nat)
  /-- The caller with the lock publishes. -/
  | publish
  /-- The caller with the lock lets go of it, and a submission is completed. -/
  | release
  | subscribe
  | receive (j : Nat)
  | drop (j : Nat)
  | close
  /-- Someone counts the subscriptions. -/
  | count

def published (s : Intake B) : List (Command B) := s.order.map (·.2)

def step (s : Intake B) : Move B → Option (Intake B)
  | .call i cs =>
    if (s.pending i).isEmpty && !s.lock.isHeldBy i then
      some { s with
        pending := Function.update s.pending i cs
        asked := Function.update s.asked i (s.asked i ++ cs) }
    else none
  | .acquire i =>
    match s.lock, s.pending i with
    | .free, _ :: _ => some { s with lock := .taken i }
    | _, _ => none
  | .publish =>
    match s.lock with
    | .taken i =>
      match s.pending i with
      | c :: rest =>
        some { s with
          commands := (submit s.commands c).1
          lock := .spent i c
          pending := Function.update s.pending i rest
          order := s.order ++ [(i, c)] }
      | [] => none
    | _ => none
  | .release =>
    match s.lock with
    | .spent i c => some { s with lock := .free, completed := s.completed ++ [(i, c)] }
    | _ => none
  | .subscribe =>
    some { s with
      commands := s.commands.subscribe.1
      readers := s.readers ++ [{ since := s.published.length }] }
  | .receive j =>
    match s.commands.receive j with
    | (commands, .item c) =>
      some { s with commands, readers := s.readers.modify j fun r => r.receive c }
    | (_, _) => some s
  | .drop j =>
    some { s with
      commands := s.commands.drop j
      readers := s.readers.modify j fun r =>
        r.drop (s.commands.mailbox j).queue s.published.length }
  | .close =>
    some { s with
      commands := s.commands.close
      readers := s.readers.map fun r => r.endAt s.published.length }
  | .count => some { s with commands := s.commands.subscriberCount.1 }

def live (s : Intake B) : Nat := (s.readers.filter fun r => r.upTo.isNone).length

/-- What a caller has published and what it has still to publish is what it was asked to, completed
submissions are those that were published, and every subscription follows. -/
structure Sound (s : Intake B) : Prop where
  callers : ∀ i, (s.order.filter fun p => p.1 = i).map (·.2) ++ s.pending i = s.asked i
  completed : s.completed ++ s.lock.inFlight = s.order
  readers : List.Forall₂ (Reader.Follows s.published) s.commands.mailboxes s.readers

theorem forall₂_modify {α β : Type} {R : α → β → Prop} {as : List α} {bs : List β} {f : α → α}
    {g : β → β} (h : List.Forall₂ R as bs) : ∀ {j : Nat},
      (∀ a b, as[j]? = some a → R a b → R (f a) (g b)) →
        List.Forall₂ R (as.modify j f) (bs.modify j g) := by
  induction h with
  | nil =>
    intro j _
    simp
  | cons hab hrest ih =>
    intro j hj
    cases j with
    | zero => exact .cons (hj _ _ rfl hab) hrest
    | succ j => exact .cons hab (ih hj)

namespace Sound

variable {s s' : Intake B}

theorem call {i : Nat} {cs : List (Command B)} (h : s.Sound) (hs : s.step (.call i cs) = some s') :
    s'.Sound := by
  simp only [step] at hs
  split at hs
  · rename_i hidle
    cases hs
    refine ⟨?_, h.completed, h.readers⟩
    intro j
    by_cases hij : j = i
    · subst hij
      have hnone : s.pending j = [] := by
        simp only [Bool.and_eq_true, List.isEmpty_iff] at hidle
        exact hidle.1
      have hasked := h.callers j
      rw [hnone, List.append_nil] at hasked
      simp [hasked]
    · simp only [Function.update_of_ne hij]
      exact h.callers j
  · cases hs

theorem acquire {i : Nat} (h : s.Sound) (hs : s.step (.acquire i) = some s') : s'.Sound := by
  simp only [step] at hs
  split at hs
  · rename_i hfree _
    cases hs
    refine ⟨h.callers, ?_, h.readers⟩
    have hcompleted := h.completed
    rw [hfree] at hcompleted
    exact hcompleted
  · cases hs

theorem publish (h : s.Sound) (hs : s.step .publish = some s') : s'.Sound := by
  simp only [step] at hs
  split at hs
  · rename_i i hlock
    split at hs
    · rename_i c rest hpending
      cases hs
      refine ⟨?_, ?_, ?_⟩
      · intro j
        have hasked := h.callers j
        by_cases hij : j = i
        · subst hij
          rw [hpending] at hasked
          simp [← hasked]
        · have hother : ¬ i = j := fun heq => hij heq.symm
          simp only [Function.update_of_ne hij]
          simpa [hother] using hasked
      · have hcompleted := h.completed
        rw [hlock] at hcompleted
        simp only [PublishLock.inFlight, List.append_nil] at hcompleted
        rw [hcompleted]
        rfl
      · simp only [published, List.map_append]
        refine List.forall₂_map_left_iff.mpr (h.readers.imp ?_)
        intro m r hfollows
        exact hfollows.publish c
    · cases hs
  · cases hs

theorem release (h : s.Sound) (hs : s.step .release = some s') : s'.Sound := by
  simp only [step] at hs
  split at hs
  · rename_i i c hlock
    cases hs
    refine ⟨h.callers, ?_, h.readers⟩
    have hcompleted := h.completed
    rw [hlock] at hcompleted
    simpa [PublishLock.inFlight] using hcompleted
  · cases hs

theorem subscribe (h : s.Sound) (hs : s.step .subscribe = some s') : s'.Sound := by
  cases hs
  exact ⟨h.callers, h.completed, List.rel_append h.readers (.cons Reader.follows_new .nil)⟩

theorem receive {j : Nat} (h : s.Sound) (hs : s.step (.receive j) = some s') : s'.Sound := by
  simp only [step] at hs
  split at hs
  · rename_i commands c hreceive
    cases hs
    refine ⟨h.callers, h.completed, ?_⟩
    cases hqueue : (s.commands.mailbox j).queue with
    | nil =>
      rw [Broadcaster.receive_of_nil hqueue] at hreceive
      split at hreceive <;> cases hreceive
    | cons x rest =>
      rw [Broadcaster.receive_eq hqueue] at hreceive
      cases hreceive
      refine forall₂_modify h.readers ?_
      intro m r hm hfollows
      have hm' : m.queue = c :: rest := by
        rw [← hqueue, Broadcaster.mailbox, hm]
        rfl
      exact hfollows.receive hm'
  · cases hs
    exact h

theorem drop {j : Nat} (h : s.Sound) (hs : s.step (.drop j) = some s') : s'.Sound := by
  cases hs
  refine ⟨h.callers, h.completed, forall₂_modify h.readers ?_⟩
  intro m r hm hfollows
  have hmailbox : s.commands.mailbox j = m := by rw [Broadcaster.mailbox, hm]; rfl
  rw [hmailbox]
  exact hfollows.drop

theorem close (h : s.Sound) (hs : s.step .close = some s') : s'.Sound := by
  cases hs
  refine ⟨h.callers, h.completed, ?_⟩
  refine List.forall₂_map_left_iff.mpr (List.forall₂_map_right_iff.mpr (h.readers.imp ?_))
  intro m r hfollows
  exact hfollows.close

theorem count (h : s.Sound) (hs : s.step .count = some s') : s'.Sound := by
  cases hs
  refine ⟨h.callers, h.completed, List.forall₂_map_left_iff.mpr (h.readers.imp ?_)⟩
  intro m r hfollows
  exact hfollows.prune

theorem step {m : Move B} (h : s.Sound) (hs : s.step m = some s') : s'.Sound := by
  cases m with
  | call i cs => exact h.call hs
  | acquire i => exact h.acquire hs
  | publish => exact h.publish hs
  | release => exact h.release hs
  | subscribe => exact h.subscribe hs
  | receive j => exact h.receive hs
  | drop j => exact h.drop hs
  | close => exact h.close hs
  | count => exact h.count hs

theorem reader {j : Nat} {r : Reader (Command B)} (h : s.Sound) (hr : s.readers[j]? = some r) :
    ∃ m, s.commands.mailboxes[j]? = some m ∧ Reader.Follows s.published m r := by
  obtain ⟨hj, rfl⟩ := List.getElem?_eq_some_iff.mp hr
  have hj' : j < s.commands.mailboxes.length := by
    rw [h.readers.length_eq]
    exact hj
  exact ⟨_, List.getElem?_eq_getElem hj', h.readers.get hj' hj⟩

/-- A publication counts the subscriptions that are neither given up nor closed. -/
theorem publish_count (h : s.Sound) (c : Command B) : (s.commands.publish c).2 = s.live := by
  have hlive : List.Forall₂ (Reader.Follows s.published)
      (s.commands.mailboxes.filter fun m => m.linked && m.held)
      (s.readers.filter fun r => r.upTo.isNone) := by
    refine List.rel_filter ?_ h.readers
    intro m r hfollows
    simp only [hfollows.live]
  rw [Broadcaster.publish_count, live]
  exact hlive.length_eq

end Sound

theorem sound_new : ({} : Intake B).Sound := ⟨fun _ => rfl, rfl, .nil⟩

variable {s : Intake B} {ms : List (Move B)}

theorem sound_of_run (h : runMoves step ({} : Intake B) ms = some s) : s.Sound :=
  runMoves_induction sound_new (fun _ _ hstep hu => hu.step hstep) h

/-- What has its place in the order keeps it. -/
theorem order_step {s' : Intake B} {m : Move B} (h : s.step m = some s') : s.order <+: s'.order := by
  cases m with
  | call i cs | acquire i =>
    simp only [step] at h
    split at h
    · cases h
      exact List.prefix_rfl
    · cases h
  | publish =>
    simp only [step] at h
    split at h
    · split at h
      · cases h
        exact List.prefix_append _ _
      · cases h
    · cases h
  | release =>
    simp only [step] at h
    split at h
    · cases h
      exact List.prefix_rfl
    · cases h
  | receive j =>
    simp only [step] at h
    split at h <;> cases h <;> exact List.prefix_rfl
  | subscribe | drop j | close | count =>
    cases h
    exact List.prefix_rfl

theorem order_run {u : Intake B} (h : runMoves step u ms = some s) : u.order <+: s.order :=
  runMoves_induction (P := fun v => u.order <+: v.order) List.prefix_rfl
    (fun _ _ hstep hv => hv.trans (order_step hstep)) h

/-- At every moment there is one order of the published commands, and it is the beginning of any
later one. It has every caller's commands in the order of its calls, and submissions in the order in
which they were completed. What a subscription received and what is queued for it, or was when it was
given up, are the commands of this order from its beginning to its end. A publication counts the
subscriptions that have not ended. -/
theorem one_order (h : runMoves step ({} : Intake B) ms = some s) :
    (∀ i, (s.order.filter fun p => p.1 = i).map (·.2) ++ s.pending i = s.asked i) ∧
    (s.completed <+: s.order ∧ s.order.length ≤ s.completed.length + 1) ∧
    (∀ j r, s.readers[j]? = some r →
      r.received ++ (s.commands.mailbox j).queue ++ r.lost = stretch s.published r.since r.upTo ∧
      (if (s.commands.mailbox j).held then r.lost = [] else (s.commands.mailbox j).queue = [])) ∧
    (∀ c, (s.commands.publish c).2 = s.live) ∧
    (∀ pre post u, ms = pre ++ post → runMoves step ({} : Intake B) pre = some u →
      u.order <+: s.order) := by
  have hsound := sound_of_run h
  refine ⟨hsound.callers, ⟨⟨_, hsound.completed⟩, ?_⟩, ?_, hsound.publish_count, ?_⟩
  · have hlength := congrArg List.length hsound.completed
    have hone : s.lock.inFlight.length ≤ 1 := by cases s.lock <;> simp [PublishLock.inFlight]
    rw [List.length_append] at hlength
    omega
  · intro j r hr
    obtain ⟨m, hm, hfollows⟩ := hsound.reader hr
    rw [Broadcaster.mailbox, hm, Option.getD_some]
    refine ⟨hfollows.seen, ?_⟩
    split
    · rename_i hheld
      exact hfollows.held hheld
    · rename_i hgone
      exact hfollows.dropped (Bool.eq_false_iff.mpr hgone)
  · rintro pre post u rfl hu
    obtain ⟨v, hv, hpost⟩ := runMoves_append.mp h
    cases hu.symm.trans hv
    exact order_run hpost

/-- Two callers, and two subscriptions of which one is given up and one is closed. -/
def contended : List (Move Nat) :=
  [.subscribe, .call 0 [say 1, say 2], .call 1 [say 3], .acquire 0, .publish, .subscribe, .release,
    .acquire 1, .publish, .receive 0, .drop 0, .release, .acquire 0, .publish, .close, .release,
    .receive 1, .call 1 [say 4], .acquire 1, .publish]
where
  say (n : Nat) : Command Nat := ⟨.ofNat n, "Say", n⟩

theorem contended_one_order :
    ∃ s, runMoves step {} contended = some s ∧
      s.published = [contended.say 1, contended.say 3, contended.say 2, contended.say 4] ∧
      (s.order.filter fun p => p.1 = 0).map (·.2) = [contended.say 1, contended.say 2] ∧
      s.readers.map Reader.received = [[contended.say 1], [contended.say 3]] ∧
      (s.commands.mailbox 1).queue = [contended.say 2] ∧
      [contended.say 3, contended.say 2] = stretch s.published 1 (some 3) ∧
      ∀ c, (s.commands.publish c).2 = 0 := by
  have hrun : runMoves step {} contended = some _ := rfl
  obtain ⟨hcallers, -, hreaders, hcount, -⟩ := one_order hrun
  exact ⟨_, hrun, rfl, hcallers 0, rfl, rfl, (hreaders 1 _ rfl).1, hcount⟩

end Intake
end Chronicle
