import Chronicle.Node.Basic

/-!
# Chronicle.Proofs.Feed.Delivery

What a subscription finds in its mailbox. A mailbox that is linked and held (`Live`) takes every item
that is published and hands the items out in that order; nothing that others do reaches it.
-/

namespace Chronicle

namespace Mailbox

variable {T : Type} {m : Mailbox T}

/-- The mailbox takes what is published. -/
structure Live (m : Mailbox T) : Prop where
  linked : m.linked = true
  held : m.held = true

theorem live_new : (new : Mailbox T).Live := ⟨rfl, rfl⟩

theorem Live.deliver (h : m.Live) (item : T) :
    m.deliver item = { m with queue := m.queue ++ [item] } := by
  rw [Mailbox.deliver, h.linked, h.held]
  rfl

theorem linked_deliver (item : T) : (m.deliver item).linked = (m.linked && m.held) := by
  unfold deliver
  split
  · rename_i hlive
    rw [hlive]
    exact (Bool.and_eq_true _ _ ▸ hlive).1
  · rename_i hlive
    exact (Bool.eq_false_iff.mpr hlive).symm

theorem held_deliver (item : T) : (m.deliver item).held = m.held := by
  unfold deliver
  split <;> rfl

theorem deliver_of_unlinked (h : m.linked = false) (item : T) : m.deliver item = m := by
  cases m
  simp only at h
  subst h
  rfl

theorem prune_of_held (h : m.held = true) : m.prune = m := by
  cases m
  simp only at h
  subst h
  simp [prune]

end Mailbox

namespace Broadcaster

variable {T : Type} {b : Broadcaster T} {i : Nat}

theorem mailbox_subscribe : b.subscribe.1.mailbox b.subscribe.2 = Mailbox.new := by
  simp [subscribe, mailbox]

theorem lt_of_held (h : (b.mailbox i).held = true) : i < b.mailboxes.length := by
  refine Nat.lt_of_not_le fun hle => ?_
  rw [mailbox, List.getElem?_eq_none hle] at h
  cases h

/-- A further subscription leaves the others as they are. -/
theorem mailbox_subscribe_of_held (h : (b.mailbox i).held = true) :
    b.subscribe.1.mailbox i = b.mailbox i := by
  simp only [subscribe, mailbox, List.getElem?_append_left (lt_of_held h)]

theorem mailbox_subscribe_of_live (h : (b.mailbox i).Live) :
    b.subscribe.1.mailbox i = b.mailbox i :=
  mailbox_subscribe_of_held h.held

theorem mailbox_drop_of_ne {j : Nat} (h : j ≠ i) : (b.drop j).mailbox i = b.mailbox i := by
  simp [drop, mailbox, h]

theorem mailbox_drop : (b.drop i).mailbox i = (b.mailbox i).giveUp := by
  simp only [drop, mailbox, List.getElem?_modify]
  cases b.mailboxes[i]? with
  | none => rfl
  | some m => simp

theorem mailbox_publish (item : T) : (b.publish item).1.mailbox i = (b.mailbox i).deliver item := by
  simp only [publish, mailbox, List.getElem?_map]
  cases b.mailboxes[i]? <;> rfl

theorem mailbox_close : b.close.mailbox i = (b.mailbox i).unlink := by
  simp only [close, mailbox, List.getElem?_map]
  cases b.mailboxes[i]? <;> rfl

theorem mailbox_subscriberCount : b.subscriberCount.1.mailbox i = (b.mailbox i).prune := by
  simp only [subscriberCount, mailbox, List.getElem?_map]
  cases b.mailboxes[i]? <;> rfl

/-- A publication counts the mailboxes that are linked and held. -/
theorem publish_count (item : T) :
    (b.publish item).2 = (b.mailboxes.filter fun m => m.linked && m.held).length := by
  simp only [publish, links, List.filter_map, List.length_map]
  congr 2
  funext m
  exact m.linked_deliver item

/-- What was published one after the other is in the mailbox in that order. -/
theorem mailbox_foldl_publish {R : Type} (f : R → T) (h : (b.mailbox i).Live) (rs : List R) :
    (rs.foldl (fun b r => (b.publish (f r)).1) b).mailbox i
      = { b.mailbox i with queue := (b.mailbox i).queue ++ rs.map f } := by
  induction rs generalizing b with
  | nil => simp
  | cons r rest ih =>
    have hb : (b.publish (f r)).1.mailbox i
        = { b.mailbox i with queue := (b.mailbox i).queue ++ [f r] } := by
      rw [mailbox_publish, h.deliver]
    have hlive : ((b.publish (f r)).1.mailbox i).Live := by
      rw [hb]
      exact ⟨h.linked, h.held⟩
    rw [List.foldl_cons, ih hlive, hb]
    simp

theorem receive_eq {x : T} {rest : List T} (h : (b.mailbox i).queue = x :: rest) :
    b.receive i = (⟨b.mailboxes.modify i fun m => { m with queue := rest }⟩, .item x) := by
  simp [receive, h]

theorem receive_of_cons {x : T} {rest : List T} (h : (b.mailbox i).queue = x :: rest) :
    (b.receive i).2 = .item x ∧ (b.receive i).1.mailbox i = { b.mailbox i with queue := rest } := by
  rw [receive_eq h]
  refine ⟨rfl, ?_⟩
  simp only [mailbox, List.getElem?_modify]
  cases hm : b.mailboxes[i]? with
  | none =>
    rw [mailbox, hm] at h
    cases h
  | some m => simp

theorem receive_of_nil (h : (b.mailbox i).queue = []) :
    b.receive i = (b, if (b.mailbox i).linked then .pending else .ended) := by
  simp [receive, h]

theorem mailbox_receive_of_ne {j : Nat} (h : j ≠ i) :
    (b.receive j).1.mailbox i = b.mailbox i := by
  simp only [receive]
  split
  · simp [mailbox, h]
  · rfl

theorem receive_item {b' : Broadcaster T} {x : T} (h : b.receive i = (b', .item x)) :
    ∃ rest, (b.mailbox i).queue = x :: rest ∧ b'.mailbox i = { b.mailbox i with queue := rest } := by
  cases hqueue : (b.mailbox i).queue with
  | nil =>
    rw [receive_of_nil hqueue] at h
    split at h <;> cases h
  | cons y rest =>
    obtain ⟨hitem, hmailbox⟩ := receive_of_cons hqueue
    rw [h] at hitem hmailbox
    cases hitem
    exact ⟨rest, rfl, hmailbox⟩

/-- A mailbox that ends is not linked. -/
theorem unlinked_of_ended {b' : Broadcaster T} (h : b.receive i = (b', .ended)) :
    (b.mailbox i).linked = false := by
  cases hqueue : (b.mailbox i).queue with
  | cons x rest =>
    rw [receive_eq hqueue] at h
    cases h
  | nil =>
    rw [receive_of_nil hqueue] at h
    split at h
    · cases h
    · rename_i hlinked
      exact Bool.eq_false_iff.mpr hlinked

theorem queue_of_ended {b' : Broadcaster T} (h : b.receive i = (b', .ended)) :
    (b.mailbox i).queue = [] := by
  cases hqueue : (b.mailbox i).queue with
  | nil => rfl
  | cons x rest =>
    rw [receive_eq hqueue] at h
    cases h

end Broadcaster

/-! ## The outlets of a node -/

namespace Node

variable {A S B : Type} [Vocabulary A] {n : Node A S B} {i j : Nat} {s s' : EventStream A}

theorem getElem?_putStream_self (hs : n.streams[i]? = some s) :
    (n.putStream i s').streams[i]? = some s' := by
  have hlt := (List.getElem?_eq_some_iff.mp hs).1
  show (n.streams.set i s')[i]? = some s'
  rw [List.getElem?_set_self hlt]

theorem outlet_of_getElem? (hs : n.streams[i]? = some s) : n.outlet i = s.outlet := by
  rw [outlet, hs]

theorem outlet_putStream_of_ne (h : i ≠ j) : (n.putStream i s).outlet j = n.outlet j := by
  have hother : (n.putStream i s).streams[j]? = n.streams[j]? := by
    show (n.streams.set i s)[j]? = n.streams[j]?
    rw [List.getElem?_set_ne h]
  rw [outlet, outlet, hother]

theorem getElem?_modifyOutlet_of_ne {f : Broadcaster (Event A) → Broadcaster (Event A)} (h : j ≠ i) :
    (n.modifyOutlet j f).streams[i]? = n.streams[i]? := by
  simp [modifyOutlet, h]

theorem outlet_modifyOutlet_of_ne {f : Broadcaster (Event A) → Broadcaster (Event A)} (h : j ≠ i) :
    (n.modifyOutlet j f).outlet i = n.outlet i := by
  rw [outlet, outlet, getElem?_modifyOutlet_of_ne h]

theorem outlet_modifyOutlet_self {f : Broadcaster (Event A) → Broadcaster (Event A)}
    (hs : n.streams[i]? = some s) : (n.modifyOutlet i f).outlet i = f (n.outlet i) := by
  unfold outlet modifyOutlet
  rw [List.getElem?_modify, hs]
  simp

theorem streams_enlist (t : TaskId) : (n.enlist t).streams = n.streams := by
  unfold enlist
  split <;> rfl

theorem store_enlist (t : TaskId) : (n.enlist t).store = n.store := by
  unfold enlist
  split <;> rfl

/-- A signal reaches the wake-up of a stream and not its outlet. -/
theorem outlet_signal (n : Node A S B) (i j : Nat) : (n.signal i).outlet j = n.outlet j := by
  have hsignal (s : EventStream A) : s.signal.outlet = s.outlet := by
    unfold EventStream.signal
    split <;> rfl
  unfold signal
  cases hs : n.streams[i]? with
  | none => rfl
  | some s =>
    dsimp only
    cases s.source with
    | polling wakeUp next budget =>
      by_cases hij : i = j
      · subst hij
        dsimp only
        rw [outlet_of_getElem? (getElem?_putStream_self hs), outlet_of_getElem? hs, hsignal]
      · exact outlet_putStream_of_ne hij
    | replaying start policy live =>
      unfold outlet
      rw [List.getElem?_modify]
      cases n.streams[j]? with
      | none => rfl
      | some s =>
        by_cases h : live = j
        · simp [h, hsignal]
        · simp [h]
    | pushed inlet => rfl

end Node
end Chronicle
