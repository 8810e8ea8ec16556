import Chronicle.Command.Await
import Chronicle.Proofs.Feed.Delivery
import Chronicle.Proofs.Running
import Mathlib.Data.List.TakeWhile

/-!
# Chronicle.Proofs.Command.Awaiting

Waiting for the outcome of a command while outcomes are published, the feed is closed and the wait
is cancelled at any time. The wait hears what is published from its subscription on up to the close
of the feed, also before its command is submitted and before it looks for the first time. While it
has no answer it has taken only outcomes of other commands, and what it heard otherwise lies in its
mailbox (`Exchange.Waits`). So the poll that ends a wait gives the answer that is due
(`Exchange.answer_is_due`).
-/

namespace Chronicle

/-! ## One wait -/

namespace Await

variable {a a' : Await} {fired : Bool} {feed feed' : Broadcaster Outcome}

/-- The answer that is due to a wait for the command when it has heard these outcomes. -/
def due (command : CommandId) (fired : Bool) (heard : List Outcome) (closed : Bool) :
    Option Awaited :=
  if fired then some (.error (.cancelled (cancelReason command)))
  else
    match heard.find? fun o => o.command = command with
    | some o => some (.ok o)
    | none => if closed then some (.error (.feedClosed command)) else none

/-- Outcomes of other commands make no difference. -/
theorem due_append_of_others {command : CommandId} {taken rest : List Outcome} {closed : Bool}
    (h : ∀ o ∈ taken, o.command ≠ command) :
    due command fired (taken ++ rest) closed = due command fired rest closed := by
  have hnone : taken.find? (fun o => o.command = command) = none :=
    List.find?_eq_none.mpr fun o ho => by simpa using h o ho
  simp only [due, List.find?_append, hnone, Option.none_or]

/-- What a wait can do: give up, take an outcome, or find that its subscription has ended. -/
theorem step_cases (h : a.step fired feed = some (a', feed')) :
    a.answer = none ∧
    ((fired = true ∧
        a' = { a with answer := some (.error (.cancelled (cancelReason a.command))) }) ∨
      (fired = false ∧ ∃ o rest, (feed.mailbox a.subscription).queue = o :: rest ∧
        ((o.command = a.command ∧ a' = { a with answer := some (.ok o) }) ∨
          (o.command ≠ a.command ∧ a' = a ∧
            feed'.mailbox a.subscription = { feed.mailbox a.subscription with queue := rest }))) ∨
      (fired = false ∧ (feed.mailbox a.subscription).queue = [] ∧
        (feed.mailbox a.subscription).linked = false ∧
        a' = { a with answer := some (.error (.feedClosed a.command)) })) := by
  unfold step at h
  split at h
  · cases h
  · rename_i hnone
    refine ⟨by simpa using hnone, ?_⟩
    split at h
    · rename_i hfired
      cases h
      exact .inl ⟨hfired, rfl⟩
    · rename_i hfired
      have hcold : fired = false := by simpa using hfired
      split at h
      · rename_i feed₁ o hreceive
        obtain ⟨rest, hqueue, hmailbox⟩ := Broadcaster.receive_item hreceive
        refine .inr (.inl ⟨hcold, o, rest, hqueue, ?_⟩)
        split at h
        · rename_i hown
          cases h
          exact .inl ⟨hown, rfl⟩
        · rename_i hother
          cases h
          exact .inr ⟨hother, rfl, hmailbox⟩
      · rename_i feed₁ hreceive
        cases h
        refine .inr (.inr ⟨hcold, ?_⟩)
        cases hqueue : (feed.mailbox a.subscription).queue with
        | nil =>
          rw [Broadcaster.receive_of_nil hqueue] at hreceive
          cases hlinked : (feed.mailbox a.subscription).linked with
          | true => simp [hlinked] at hreceive
          | false => exact ⟨rfl, rfl, rfl⟩
        | cons o rest =>
          have hitem := (Broadcaster.receive_of_cons hqueue).1
          rw [hreceive] at hitem
          cases hitem
      · cases h

theorem command_step (h : a.step fired feed = some (a', feed')) : a'.command = a.command := by
  obtain ⟨-, ⟨-, rfl⟩ | ⟨-, o, rest, -, ⟨-, rfl⟩ | ⟨-, rfl, -⟩⟩ | ⟨-, -, -, rfl⟩⟩ := step_cases h <;>
    rfl

/-- A wait without an answer can go on if it was cancelled, has something to take, or has heard
the last. -/
theorem step_eq_none (ha : a.answer = none) (h : a.step fired feed = none) :
    fired = false ∧ (feed.mailbox a.subscription).queue = [] ∧
      (feed.mailbox a.subscription).linked = true := by
  unfold step at h
  rw [ha] at h
  simp only [Option.isSome_none, Bool.false_eq_true, if_false] at h
  split at h
  · cases h
  · rename_i hfired
    refine ⟨by simpa using hfired, ?_⟩
    cases hqueue : (feed.mailbox a.subscription).queue with
    | cons o rest =>
      obtain ⟨hitem, -⟩ := Broadcaster.receive_of_cons hqueue
      rw [show feed.receive a.subscription = (_, .item o) from Prod.ext rfl hitem] at h
      cases h
    | nil =>
      rw [Broadcaster.receive_of_nil hqueue] at h
      cases hlinked : (feed.mailbox a.subscription).linked with
      | true => exact ⟨rfl, rfl⟩
      | false => simp [hlinked] at h

theorem go_of_answered (ha : a.answer.isSome = true) (fuel : Nat) :
    run.go fired fuel a feed = (a, feed) := by
  cases fuel with
  | zero => rfl
  | succ fuel => simp [run.go, step, ha]

/-- By induction on the steps that are left, of which there are more than outcomes in the
mailbox. -/
theorem answer_go {fuel : Nat} : ∀ {a : Await} {feed : Broadcaster Outcome}, a.answer = none →
    (feed.mailbox a.subscription).queue.length < fuel →
    (run.go fired fuel a feed).1.answer =
      due a.command fired (feed.mailbox a.subscription).queue
        (!(feed.mailbox a.subscription).linked) := by
  induction fuel with
  | zero =>
    intro a feed _ hfuel
    omega
  | succ fuel ih =>
    intro a feed ha hfuel
    cases hstep : a.step fired feed with
    | none =>
      obtain ⟨hcold, hqueue, hlinked⟩ := step_eq_none ha hstep
      simp only [run.go, hstep, ha]
      simp [due, hcold, hqueue, hlinked]
    | some next =>
      obtain ⟨a', feed'⟩ := next
      simp only [run.go, hstep]
      obtain ⟨-, ⟨rfl, rfl⟩ | ⟨rfl, o, rest, hqueue, hown | hother⟩ | ⟨rfl, hqueue, hlinked, rfl⟩⟩ :=
        step_cases hstep
      · rw [go_of_answered rfl]
        rfl
      · obtain ⟨hown, rfl⟩ := hown
        rw [go_of_answered rfl, hqueue]
        simp [due, hown]
      · obtain ⟨hother, rfl, hmailbox⟩ := hother
        have hshort : (feed'.mailbox a'.subscription).queue.length < fuel := by
          rw [hqueue] at hfuel
          simp only [hmailbox, List.length_cons] at hfuel ⊢
          omega
        have hothers : ∀ o' ∈ [o], o'.command ≠ a'.command := by simpa using hother
        rw [ih ha hshort, hmailbox, hqueue]
        exact (due_append_of_others hothers).symm
      · rw [go_of_answered rfl, hqueue]
        simp [due, hlinked]

/-- A wait that takes all steps that it can comes to the answer that is due. -/
theorem answer_run (ha : a.answer = none) :
    (a.run fired feed).1.answer =
      due a.command fired (feed.mailbox a.subscription).queue
        (!(feed.mailbox a.subscription).linked) :=
  answer_go ha (Nat.lt_succ_self _)

end Await

/-! ## A wait among everything else -/

/-- A wait, and all that can change while it lasts. -/
structure Exchange (B : Type) where
  commands : Broadcaster (Command B)
  feed : Broadcaster Outcome
  source : CancelSource
  wait : Await
  /-- The command was submitted. -/
  submitted : Bool := false

namespace Exchange

variable {B : Type}

inductive Move (B : Type) where
  /-- The waiter submits its command. -/
  | submit
  /-- The waiter looks at its token, and then at its subscription. -/
  | poll
  | publish (o : Outcome)
  | close
  | cancel
  /-- The source of the token is given up. -/
  | abandon
  /-- Others subscribe to the feed, and do what they like with their subscriptions. -/
  | subscribe
  | receive (j : Nat)
  | drop (j : Nat)
  | count
  /-- Others leave the commands like this. -/
  | traffic (commands : Broadcaster (Command B))

namespace Move

def outcome? : Move B → Option Outcome
  | .publish o => some o
  | _ => none

def closes : Move B → Bool
  | .close => true
  | _ => false

end Move

/-- The waiter has subscribed, and has not submitted its command yet. -/
def start (commands : Broadcaster (Command B)) (feed : Broadcaster Outcome) (source : CancelSource)
    (c : Command B) : Exchange B :=
  let (wait, feed) := Await.begin feed c.id
  { commands, feed, source, wait }

def mailbox (s : Exchange B) : Mailbox Outcome := s.feed.mailbox s.wait.subscription

def step (c : Command B) (token : CancelToken) (s : Exchange B) : Move B → Option (Exchange B)
  | .submit =>
    if s.submitted then none
    else some { s with commands := (Chronicle.submit s.commands c).1, submitted := true }
  | .poll =>
    if s.submitted then
      (s.wait.step (token.isFired s.source) s.feed).map fun (wait, feed) => { s with wait, feed }
    else none
  | .publish o => some { s with feed := (s.feed.publish o).1 }
  | .close => some { s with feed := s.feed.close }
  | .cancel => some { s with source := s.source.cancel }
  | .abandon => some { s with source := s.source.giveUp }
  | .subscribe => some { s with feed := s.feed.subscribe.1 }
  | .receive j =>
    if j = s.wait.subscription then none else some { s with feed := (s.feed.receive j).1 }
  | .drop j => if j = s.wait.subscription then none else some { s with feed := s.feed.drop j }
  | .count => some { s with feed := s.feed.subscriberCount.1 }
  | .traffic commands => some { s with commands }

def published (ms : List (Move B)) : List Outcome := ms.filterMap Move.outcome?

def closed (ms : List (Move B)) : Bool := ms.any Move.closes

/-- The outcomes that were published before the feed was closed. -/
def heard (ms : List (Move B)) : List Outcome := published (ms.takeWhile fun m => !m.closes)

section Heard

variable {ms : List (Move B)} {m : Move B}

theorem closed_concat : closed (ms ++ [m]) = (closed ms || m.closes) := by
  simp [closed]

theorem heard_prefix : heard ms <+: published ms :=
  (List.takeWhile_prefix _).filterMap _

theorem heard_of_open (h : closed ms = false) : heard ms = published ms := by
  have hall : ∀ m ∈ ms, (!m.closes) = true := by simpa [closed] using h
  rw [heard, List.takeWhile_eq_self_iff.mpr hall]

/-- After the close nothing more is heard. -/
theorem heard_append (h : closed ms = true) (more : List (Move B)) :
    heard (ms ++ more) = heard ms := by
  have hwhile : (ms ++ more).takeWhile (fun m => !m.closes) = ms.takeWhile fun m => !m.closes := by
    induction ms with
    | nil => cases h
    | cons m rest ih =>
      cases hm : m.closes with
      | true => simp [hm]
      | false =>
        have hrest : closed rest = true := by simpa [closed, hm] using h
        simp [hm, ih hrest]
  rw [heard, hwhile, heard]

theorem heard_concat_of_none (h : m.outcome? = none) : heard (ms ++ [m]) = heard ms := by
  cases hclosed : closed ms with
  | true => exact heard_append hclosed [m]
  | false =>
    rw [heard_of_open hclosed]
    have hall : ∀ m ∈ ms, (!m.closes) = true := by simpa [closed] using hclosed
    rw [heard, List.takeWhile_append_of_pos hall, published, List.filterMap_append]
    cases hm : m.closes <;> simp [hm, h, published]

theorem heard_concat_publish {o : Outcome} (h : closed ms = false) :
    heard (ms ++ [.publish o]) = heard ms ++ [o] := by
  have hopen : closed (ms ++ [.publish o]) = false := by simp [closed_concat, h, Move.closes]
  rw [heard_of_open hopen, heard_of_open h]
  simp [published, Move.outcome?]

end Heard

section Run

variable {c : Command B} {token : CancelToken} {s s' : Exchange B} {ms : List (Move B)} {m : Move B}

/-- The wait is on. It took outcomes of other commands only, and what it heard otherwise is still in
its mailbox. -/
structure Waits (c : Command B) (ms : List (Move B)) (s : Exchange B) : Prop where
  others : ∃ taken, heard ms = taken ++ s.mailbox.queue ∧ ∀ o ∈ taken, o.command ≠ c.id
  held : s.mailbox.held = true
  linked : s.mailbox.linked = !closed ms

theorem step_poll (h : step c token s .poll = some s') :
    s.submitted = true ∧ s.wait.step (token.isFired s.source) s.feed = some (s'.wait, s'.feed) := by
  simp only [step] at h
  split at h
  · rename_i hsubmitted
    obtain ⟨next, hstep, rfl⟩ := Option.map_eq_some_iff.mp h
    exact ⟨hsubmitted, hstep⟩
  · cases h

/-- Only a poll changes the wait. -/
theorem wait_of_step (h : step c token s m = some s') (hm : m ≠ .poll) : s'.wait = s.wait := by
  cases m with
  | poll => exact absurd rfl hm
  | submit | receive _ | drop _ =>
    simp only [step] at h
    split at h
    · cases h
    · cases h
      rfl
  | publish _ | close | cancel | abandon | subscribe | count | traffic _ =>
    cases h
    rfl

theorem Waits.beside (h : s.Waits c ms) (hmailbox : s'.mailbox = s.mailbox)
    (houtcome : m.outcome? = none) (hcloses : m.closes = false) : s'.Waits c (ms ++ [m]) where
  others := by
    rw [heard_concat_of_none houtcome, hmailbox]
    exact h.others
  held := by
    rw [hmailbox]
    exact h.held
  linked := by
    rw [hmailbox, closed_concat, hcloses, Bool.or_false]
    exact h.linked

theorem Waits.publish (h : s.Waits c ms) (o : Outcome) :
    Waits c (ms ++ [.publish o]) { s with feed := (s.feed.publish o).1 } := by
  have hmailbox : ({ s with feed := (s.feed.publish o).1 } : Exchange B).mailbox
      = s.mailbox.deliver o := Broadcaster.mailbox_publish o
  cases hclosed : closed ms with
  | true =>
    have hunlinked : s.mailbox.linked = false := by rw [h.linked, hclosed]; rfl
    rw [Mailbox.deliver_of_unlinked hunlinked] at hmailbox
    refine ⟨?_, ?_, ?_⟩
    · rw [heard_append hclosed, hmailbox]
      exact h.others
    · rw [hmailbox]
      exact h.held
    · rw [hmailbox, closed_concat, hclosed]
      exact hunlinked
  | false =>
    have hlive : s.mailbox.Live := ⟨by rw [h.linked, hclosed]; rfl, h.held⟩
    rw [hlive.deliver] at hmailbox
    obtain ⟨taken, hheard, hothers⟩ := h.others
    refine ⟨⟨taken, ?_, hothers⟩, ?_, ?_⟩
    · rw [heard_concat_publish hclosed, hheard, hmailbox, List.append_assoc]
    · rw [hmailbox]
      exact h.held
    · rw [hmailbox, closed_concat, hclosed]
      exact hlive.linked

theorem Waits.close (h : s.Waits c ms) :
    Waits c (ms ++ [.close]) { s with feed := s.feed.close } := by
  have hmailbox : ({ s with feed := s.feed.close } : Exchange B).mailbox = s.mailbox.unlink :=
    Broadcaster.mailbox_close
  refine ⟨?_, ?_, ?_⟩
  · rw [heard_concat_of_none rfl, hmailbox]
    exact h.others
  · rw [hmailbox]
    exact h.held
  · rw [hmailbox, closed_concat]
    simp [Move.closes, Mailbox.unlink]

/-- A poll that ends nothing has taken an outcome of another command. -/
theorem Waits.poll (h : s.Waits c ms) (hcommand : s.wait.command = c.id)
    (hstep : s.wait.step (token.isFired s.source) s.feed = some (s'.wait, s'.feed))
    (hopen : s'.wait.answer = none) : s'.Waits c (ms ++ [.poll]) := by
  obtain ⟨-, ⟨-, hw⟩ | ⟨-, o, rest, hqueue, ⟨-, hw⟩ | ⟨hother, hw, hmailbox⟩⟩ | ⟨-, -, -, hw⟩⟩ :=
    Await.step_cases hstep
  · rw [hw] at hopen
    cases hopen
  · rw [hw] at hopen
    cases hopen
  · have hnow : s'.mailbox = { s.mailbox with queue := rest } := by
      rw [mailbox, hw]
      exact hmailbox
    obtain ⟨taken, hheard, hothers⟩ := h.others
    refine ⟨⟨taken ++ [o], ?_, ?_⟩, ?_, ?_⟩
    · rw [heard_concat_of_none rfl, hheard, hnow, show s.mailbox.queue = o :: rest from hqueue]
      simp
    · intro o' ho'
      rcases List.mem_append.mp ho' with ho' | ho'
      · exact hothers o' ho'
      · rw [List.mem_singleton.mp ho', ← hcommand]
        exact hother
    · rw [hnow]
      exact h.held
    · rw [hnow, closed_concat]
      simp [Move.closes, h.linked]
  · rw [hw] at hopen
    cases hopen

/-- While there is no answer, every move keeps the wait on. -/
theorem Waits.step (h : s.Waits c ms) (hcommand : s.wait.command = c.id)
    (hstep : step c token s m = some s') (hopen : s'.wait.answer = none) :
    s'.Waits c (ms ++ [m]) := by
  cases m with
  | poll => exact h.poll hcommand (step_poll hstep).2 hopen
  | publish o =>
    cases hstep
    exact h.publish o
  | close =>
    cases hstep
    exact h.close
  | submit =>
    simp only [Exchange.step] at hstep
    split at hstep
    · cases hstep
    · cases hstep
      exact h.beside rfl rfl rfl
  | receive j =>
    simp only [Exchange.step] at hstep
    split at hstep
    · cases hstep
    · rename_i hne
      cases hstep
      exact h.beside (Broadcaster.mailbox_receive_of_ne hne) rfl rfl
  | drop j =>
    simp only [Exchange.step] at hstep
    split at hstep
    · cases hstep
    · rename_i hne
      cases hstep
      exact h.beside (Broadcaster.mailbox_drop_of_ne hne) rfl rfl
  | subscribe =>
    cases hstep
    exact h.beside (Broadcaster.mailbox_subscribe_of_held h.held) rfl rfl
  | count =>
    cases hstep
    refine h.beside ?_ rfl rfl
    exact Broadcaster.mailbox_subscriberCount.trans (Mailbox.prune_of_held h.held)
  | cancel | abandon | traffic _ =>
    cases hstep
    exact h.beside rfl rfl rfl

variable {commands : Broadcaster (Command B)} {feed : Broadcaster Outcome} {source : CancelSource}

theorem waits_start : (start commands feed source c).Waits c [] := by
  have hmailbox : (start commands feed source c).mailbox = Mailbox.new :=
    Broadcaster.mailbox_subscribe
  refine ⟨⟨[], ?_, ?_⟩, ?_, ?_⟩
  · rw [hmailbox]
    rfl
  · intro o ho
    cases ho
  · rw [hmailbox]
    rfl
  · rw [hmailbox]
    rfl

theorem command_of_run (h : runMoves (step c token) (start commands feed source c) ms = some s) :
    s.wait.command = c.id := by
  refine runMoves_induction (P := fun s => s.wait.command = c.id) rfl ?_ h
  intro pre m u v _ _ hstep hu
  by_cases hm : m = .poll
  · subst hm
    exact (Await.command_step (step_poll hstep).2).trans hu
  · rw [wait_of_step hstep hm]
    exact hu

theorem waits_of_run (h : runMoves (step c token) (start commands feed source c) ms = some s)
    (hopen : s.wait.answer = none) : s.Waits c ms := by
  induction ms using List.reverseRecOn generalizing s with
  | nil =>
    obtain rfl := runMoves_nil.mp h
    exact waits_start
  | append_singleton ms m ih =>
    obtain ⟨u, hu, hstep⟩ := runMoves_concat.mp h
    have huopen : u.wait.answer = none := by
      by_cases hm : m = .poll
      · subst hm
        exact (Await.step_cases (step_poll hstep).2).1
      · rw [← wait_of_step hstep hm]
        exact hopen
    exact (ih hu huopen).step (command_of_run hu) hstep hopen

/-- An answer is given by a poll, and stays. -/
theorem poll_of_answer {answer : Awaited}
    (h : runMoves (step c token) (start commands feed source c) ms = some s)
    (hanswer : s.wait.answer = some answer) :
    ∃ pre post u v, ms = pre ++ .poll :: post ∧
      runMoves (step c token) (start commands feed source c) pre = some u ∧
      step c token u .poll = some v ∧ u.wait.answer = none ∧ v.wait.answer = some answer := by
  induction ms using List.reverseRecOn generalizing s with
  | nil =>
    obtain rfl := runMoves_nil.mp h
    cases hanswer
  | append_singleton ms m ih =>
    obtain ⟨u, hu, hstep⟩ := runMoves_concat.mp h
    cases huanswer : u.wait.answer with
    | none =>
      have hm : m = .poll := by
        by_contra hm
        rw [wait_of_step hstep hm, huanswer] at hanswer
        cases hanswer
      subst hm
      exact ⟨ms, [], u, s, rfl, hu, hstep, huanswer, hanswer⟩
    | some earlier =>
      have hm : m ≠ .poll := by
        rintro rfl
        rw [(Await.step_cases (step_poll hstep).2).1] at huanswer
        cases huanswer
      rw [wait_of_step hstep hm, huanswer] at hanswer
      cases hanswer
      obtain ⟨pre, post, v, w, rfl, hv⟩ := ih hu huanswer
      exact ⟨pre, post ++ [m], v, w, by simp, hv⟩

/-- Taking all steps that it can is polling that often. -/
theorem polls_of_go {fuel : Nat} : ∀ {s : Exchange B}, s.submitted = true →
    ∃ n, runMoves (step c token) s (List.replicate n .poll) =
      some { s with
        wait := (Await.run.go (token.isFired s.source) fuel s.wait s.feed).1
        feed := (Await.run.go (token.isFired s.source) fuel s.wait s.feed).2 } := by
  induction fuel with
  | zero =>
    intro s _
    exact ⟨0, rfl⟩
  | succ fuel ih =>
    intro s hsubmitted
    cases hstep : s.wait.step (token.isFired s.source) s.feed with
    | none => exact ⟨0, by simp [Await.run.go, hstep, runMoves]⟩
    | some next =>
      obtain ⟨n, hn⟩ := ih (s := { s with wait := next.1, feed := next.2 }) hsubmitted
      have hpoll : step c token s .poll = some { s with wait := next.1, feed := next.2 } := by
        simp [step, hsubmitted, hstep]
      refine ⟨n + 1, ?_⟩
      rw [List.replicate_succ, runMoves, List.foldlM_cons, hpoll]
      simp only [Await.run.go, hstep]
      exact hn

theorem polls_of_run (c : Command B) (token : CancelToken) (h : s.submitted = true) :
    ∃ n, runMoves (step c token) s (List.replicate n .poll) =
      some { s with
        wait := (s.wait.run (token.isFired s.source) s.feed).1
        feed := (s.wait.run (token.isFired s.source) s.feed).2 } :=
  polls_of_go h

/-- What a poll answers that ends the wait. -/
theorem Waits.answered {answer : Awaited} (h : s.Waits c ms) (hcommand : s.wait.command = c.id)
    (hstep : Exchange.step c token s .poll = some s') (hanswer : s'.wait.answer = some answer) :
    (token.isFired s.source = true ∧ answer = .error (.cancelled (Await.cancelReason c.id))) ∨
      (∃ o, answer = .ok o ∧ (heard ms).find? (fun o => o.command = c.id) = some o) ∨
      (answer = .error (.feedClosed c.id) ∧ closed ms = true ∧ ∀ o ∈ heard ms, o.command ≠ c.id) := by
  obtain ⟨taken, hheard, hothers⟩ := h.others
  obtain ⟨hnone, ⟨hfired, hw⟩ | ⟨-, o, rest, hqueue, ⟨hown, hw⟩ | ⟨-, hw, -⟩⟩ |
    ⟨-, hqueue, hlinked, hw⟩⟩ :=
    Await.step_cases (step_poll hstep).2
  · rw [hw, hcommand] at hanswer
    cases hanswer
    exact .inl ⟨hfired, rfl⟩
  · rw [hw] at hanswer
    cases hanswer
    refine .inr (.inl ⟨o, rfl, ?_⟩)
    have hskip : taken.find? (fun o => o.command = c.id) = none :=
      List.find?_eq_none.mpr fun o' ho' => by simpa using hothers o' ho'
    rw [hheard, show s.mailbox.queue = o :: rest from hqueue, List.find?_append, hskip,
      Option.none_or]
    simp [hown, hcommand]
  · rw [hw, hnone] at hanswer
    cases hanswer
  · rw [hw, hcommand] at hanswer
    cases hanswer
    refine .inr (.inr ⟨rfl, ?_, ?_⟩)
    · have hended : s.mailbox.linked = false := hlinked
      simpa [h.linked] using hended
    · rw [hheard, show s.mailbox.queue = [] from hqueue, List.append_nil]
      exact hothers

/-- A wait is answered with an outcome only if that is the first outcome of its command that was
published since it subscribed. It is told that the feed ended only if that was closed before there
was one, and that it was cancelled only if the token had fired before it took one. As long as it is
not answered, polling gives the answer that is due, or none if none is. -/
theorem answer_is_due (h : runMoves (step c token) (start commands feed source c) ms = some s) :
    (∀ o, s.wait.answer = some (.ok o) →
      (published ms).find? (fun o => o.command = c.id) = some o) ∧
    (∀ error, s.wait.answer = some (.error error) →
      (error = .feedClosed c.id ∧ closed ms = true ∧ ∀ o ∈ heard ms, o.command ≠ c.id) ∨
      (error = .cancelled (Await.cancelReason c.id) ∧ ∃ pre post u, ms = pre ++ .poll :: post ∧
        runMoves (step c token) (start commands feed source c) pre = some u ∧
        token.isFired u.source = true ∧
        ∃ taken, heard pre = taken ++ u.mailbox.queue ∧ ∀ o ∈ taken, o.command ≠ c.id)) ∧
    (s.wait.answer = none → s.submitted = true →
      ∃ n t, runMoves (step c token) s (List.replicate n .poll) = some t ∧
        (t.wait, t.feed) = s.wait.run (token.isFired s.source) s.feed ∧
        t.wait.answer = Await.due c.id (token.isFired s.source) (heard ms) (closed ms)) := by
  refine ⟨?_, ?_, ?_⟩
  · intro o hanswer
    obtain ⟨pre, post, u, v, rfl, hu, hpoll, hopen, hv⟩ := poll_of_answer h hanswer
    have hwaits := waits_of_run hu hopen
    obtain ⟨-, hanswer⟩ | ⟨o', hanswer, hfirst⟩ | ⟨hanswer, -⟩ :=
      hwaits.answered (command_of_run hu) hpoll hv
    · cases hanswer
    · cases hanswer
      obtain ⟨more, hmore⟩ : heard pre <+: published pre := heard_prefix
      rw [published, List.filterMap_append, List.find?_append]
      rw [← published, ← hmore, List.find?_append, hfirst]
      rfl
    · cases hanswer
  · intro error hanswer
    obtain ⟨pre, post, u, v, rfl, hu, hpoll, hopen, hv⟩ := poll_of_answer h hanswer
    have hwaits := waits_of_run hu hopen
    obtain ⟨hfired, hanswer⟩ | ⟨o, hanswer, -⟩ | ⟨hanswer, hclosed, hothers⟩ :=
      hwaits.answered (command_of_run hu) hpoll hv
    · cases hanswer
      exact .inr ⟨rfl, pre, post, u, rfl, hu, hfired, hwaits.others⟩
    · cases hanswer
    · cases hanswer
      refine .inl ⟨rfl, ?_, ?_⟩
      · simp only [closed, List.any_append] at hclosed ⊢
        rw [hclosed, Bool.true_or]
      · rw [heard_append hclosed]
        exact hothers
  · intro hopen hsubmitted
    have hwaits := waits_of_run h hopen
    obtain ⟨n, hn⟩ := polls_of_run c token hsubmitted
    refine ⟨n, _, hn, rfl, ?_⟩
    obtain ⟨taken, hheard, hothers⟩ := hwaits.others
    refine (Await.answer_run hopen).trans ?_
    rw [command_of_run h, hheard, Await.due_append_of_others hothers]
    have hlinked : (!s.mailbox.linked) = closed ms := by rw [hwaits.linked, Bool.not_not]
    exact congrArg _ hlinked

end Run

/-- Outcomes that are published before the command is submitted, the first of another command. -/
def early : List (Move Unit) :=
  [.publish ⟨.ofNat 2, .ok "other"⟩, .publish ⟨.ofNat 1, .ok "first"⟩, .cancel, .submit,
    .publish ⟨.ofNat 1, .ok "second"⟩, .close]

theorem early_answer_is_due :
    ∃ n t, runMoves (step ⟨.ofNat 1, "Note", ()⟩ .never) (start {} {} {} ⟨.ofNat 1, "Note", ()⟩)
        (early ++ List.replicate n .poll) = some t ∧
      t.wait.answer = some (.ok ⟨.ofNat 1, .ok "first"⟩) ∧
      (published (early ++ List.replicate n .poll)).find? (fun o => o.command = .ofNat 1)
        = some ⟨.ofNat 1, .ok "first"⟩ := by
  have hearly : runMoves (step ⟨.ofNat 1, "Note", ()⟩ .never)
      (start {} {} {} ⟨.ofNat 1, "Note", ()⟩) early = some _ := rfl
  obtain ⟨-, -, hpolls⟩ := answer_is_due hearly
  obtain ⟨n, t, ht, -, hdue⟩ := hpolls rfl rfl
  have hanswer : t.wait.answer = some (.ok ⟨.ofNat 1, .ok "first"⟩) := by
    rw [hdue]
    decide
  have hrun := runMoves_append.mpr ⟨_, hearly, ht⟩
  obtain ⟨hfirst, -, -⟩ := answer_is_due hrun
  exact ⟨n, t, hrun, hanswer, hfirst _ hanswer⟩

end Exchange
end Chronicle
