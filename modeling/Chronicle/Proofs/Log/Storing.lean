import Chronicle.Proofs.Log.Reading

/-!
# Chronicle.Proofs.Log.Storing

The log in memory, when it holds payloads as they are (`Store.Holds`). Its writes append batches
whose events are numbered on and whose hints are true, and its reads return what the log has there,
unless they are made to fail.
-/

namespace Chronicle
namespace Store

variable {A : Type} [Vocabulary A] {s : Store A} {log : List (Event A)}

/-! ## Stamping -/

theorem map_payload_stamp {time : Int} :
    ∀ {length : Nat} {streams : List StreamId} {batch : List (Payload A)},
      (stamp time length streams batch).map Event.payload = batch
  | _, _, [] => rfl
  | _, _, p :: rest => by
    rw [stamp, List.map_cons, map_payload_stamp]

theorem positions_stamp {time : Int} {batch : List (Payload A)} :
    ∀ {length : Nat} {streams : List StreamId}, length + batch.length < 0x10000000000000000 →
      (stamp time length streams batch).map (fun e => e.position.val)
        = List.range' length batch.length := by
  induction batch with
  | nil => intro length streams _; rfl
  | cons p rest ih =>
    intro length streams h
    rw [List.length_cons] at h
    have hlength : length < 0x10000000000000000 := by omega
    rw [stamp, List.map_cons, ih (by omega), List.length_cons, List.range'_succ,
      Position.val_ofNat hlength]

theorem length_stamp {time : Int} :
    ∀ {length : Nat} {streams : List StreamId} {batch : List (Payload A)},
      (stamp time length streams batch).length = batch.length
  | _, _, [] => rfl
  | _, _, p :: rest => by
    rw [stamp, List.length_cons, length_stamp, List.length_cons]

theorem numbered_stamp (h : Log.Numbered log) {time : Int} {streams : List StreamId}
    {batch : List (Payload A)} (hroom : log.length + batch.length < 0x10000000000000000) :
    Log.Numbered (log ++ stamp time log.length streams batch) :=
  h.append (by rw [positions_stamp hroom, length_stamp]) (by rwa [length_stamp])

/-- An event whose stream is not among those of the log may be said to be the first of its stream. -/
theorem hinted_concat (h : Log.Hinted log) {e : Event A} (hnumbered : Log.Numbered (log ++ [e]))
    (he : e.firstOfStream = some true → ∀ e' ∈ log, e'.stream ≠ e.stream) :
    Log.Hinted (log ++ [e]) := by
  have hlast : e.position.val = log.length := hnumbered.position (by simp)
  intro e₁ he₁ hfirst e₂ he₂ hstream
  rcases List.mem_append.mp he₁ with hold | hnew
  · rcases List.mem_append.mp he₂ with hold' | hnew'
    · exact h e₁ hold hfirst e₂ hold' hstream
    · rw [List.mem_singleton.mp hnew']
      have := hnumbered.of_append.position_lt hold
      show e₁.position.val ≤ e.position.val
      omega
  · obtain rfl := List.mem_singleton.mp hnew
    rcases List.mem_append.mp he₂ with hold' | hnew'
    · exact absurd hstream (he hfirst e₂ hold')
    · rw [List.mem_singleton.mp hnew']
      exact Nat.le_refl _

theorem hinted_stamp {time : Int} {batch : List (Payload A)} :
    ∀ {log : List (Event A)} {streams : List StreamId}, Log.Hinted log →
      Log.Numbered (log ++ stamp time log.length streams batch) →
      (∀ e ∈ log, e.stream ∈ streams) →
      Log.Hinted (log ++ stamp time log.length streams batch) := by
  induction batch with
  | nil =>
    intro log streams h _ _
    simpa [stamp] using h
  | cons p rest ih =>
    intro log streams h hnumbered hstreams
    rw [stamp, List.append_cons] at hnumbered ⊢
    have hfirst := hinted_concat h hnumbered.of_append fun hfirst e he hstream => by
      have hmem := hstreams e he
      rw [hstream] at hmem
      simp at hfirst
      exact hfirst hmem
    have hlength : (log ++ [(⟨.ofNat log.length, time, p, some (!streams.contains p.stream)⟩ :
        Event A)]).length = log.length + 1 := by simp
    rw [← hlength] at hnumbered ⊢
    refine ih hfirst hnumbered fun e he => ?_
    rcases List.mem_append.mp he with hold | hnew
    · exact List.mem_cons_of_mem _ (hstreams e hold)
    · rw [List.mem_singleton.mp hnew]
      exact List.mem_cons_self

/-! ## Reads and writes -/

structure Holds (s : Store A) (log : List (Event A)) : Prop where
  contents : s.contents = .payloads log
  numbered : Log.Numbered log
  hinted : Log.Hinted log

variable {stream : StreamId} {bound : Position}

def Quiet (s : Store A) : Prop := s.readFaults = [] ∧ s.streamFaults = []

structure After (s s' : Store A) : Prop where
  contents : s'.contents = s.contents
  pageSize : s'.pageSize = s.pageSize
  faults : s'.readFaults ⊆ s.readFaults
  quiet : s.Quiet → s'.Quiet

theorem After.refl (s : Store A) : After s s := ⟨rfl, rfl, fun _ => id, id⟩

theorem After.trans {s' s'' : Store A} (h : After s s') (h' : After s' s'') : After s s'' :=
  ⟨h'.contents.trans h.contents, h'.pageSize.trans h.pageSize, List.Subset.trans h'.faults h.faults,
    h'.quiet ∘ h.quiet⟩

theorem Holds.after {s' : Store A} (h : s.Holds log) (hafter : After s s') : s'.Holds log :=
  ⟨hafter.contents.trans h.contents, h.numbered, h.hinted⟩

theorem takeFault_perm {p : Position} {failure : ReadFailure} :
    ∀ {faults others : List (Position × ReadFailure)},
      takeFault p faults = some (failure, others) → faults.Perm ((p, failure) :: others)
  | [], _, h => by cases h
  | (p', f) :: rest, others, h => by
    rw [takeFault] at h
    by_cases hp : p' = p
    · rw [if_pos hp] at h
      cases h
      rw [hp]
    · rw [if_neg hp] at h
      obtain ⟨⟨f', others'⟩, hfound, heq⟩ := Option.map_eq_some_iff.mp h
      cases heq
      exact ((takeFault_perm hfound).cons _).trans (.swap _ _ _)

theorem after_readStream : After s (s.readStream stream bound).store := by
  unfold readStream
  dsimp only
  cases hfaults : s.streamFaults with
  | nil => exact ⟨rfl, rfl, fun _ => id, fun h => ⟨h.1, rfl⟩⟩
  | cons failure others =>
    refine ⟨rfl, rfl, fun _ => id, fun h => ?_⟩
    rw [h.2] at hfaults
    cases hfaults

theorem after_readFrom {p : Position} : After s (s.readFrom p).store := by
  unfold readFrom
  dsimp only
  cases hfault : takeFault p s.readFaults with
  | none => exact ⟨rfl, rfl, fun _ => id, id⟩
  | some found =>
    have hperm := takeFault_perm hfault
    refine ⟨rfl, rfl, fun _ hother => hperm.mem_iff.mpr (.tail _ hother), fun h => ?_⟩
    rw [h.1] at hfault
    cases hfault

theorem Holds.page_readStream (h : s.Holds log) : (s.readStream stream bound).page =
    Log.answered s.streamFaults.head? (Log.below log stream bound) := by
  unfold Store.readStream
  cases s.streamFaults with
  | cons failure others => rfl
  | nil =>
    simp only [Contents.read, h.contents, List.drop_zero, List.head?_nil, Log.answered]
    have hlength : (Log.below log stream bound).length ≤ 0xffffffffffffffff := by
      have := h.numbered.1
      have := List.length_filter_le (fun e => decide (e.position < bound) && e.stream == stream) log
      show (List.filter _ log).length ≤ _
      omega
    exact congrArg Except.ok (List.take_of_length_le hlength)

theorem page_readFrom_payloads {p : Position} (hlog : s.contents = .payloads log)
    (h : Log.Numbered log) : (s.readFrom p).page =
      Log.answered ((takeFault p s.readFaults).map Prod.fst) (Log.page log p s.pageSize) := by
  unfold Store.readFrom
  cases hfault : takeFault p s.readFaults with
  | some found =>
    simp only [hfault]
    rfl
  | none =>
    simp only [hfault, Contents.read, hlog, Option.map_none, Log.answered, Log.page]
    have hall : (log.drop p.val).filter (fun e => decide (e.position < Position.last) && true)
        = log.drop p.val := by
      refine List.filter_eq_self.mpr fun e he => ?_
      simpa using h.below_last (List.mem_of_mem_drop he)
    rw [hall]

theorem Holds.page_readFrom {p : Position} (h : s.Holds log) : (s.readFrom p).page =
    Log.answered ((takeFault p s.readFaults).map Prod.fst) (Log.page log p s.pageSize) :=
  page_readFrom_payloads h.contents h.numbered

theorem Holds.length_eq (h : s.Holds log) : s.length = log.length := by
  rw [Store.length, h.contents]
  rfl

theorem Holds.events_eq (h : s.Holds log) : s.events = log := by
  rw [Store.events, h.contents]

/-- A write appends its batch, or fails and appends nothing. -/
theorem Holds.write (h : s.Holds log) {batch : List (Payload A)}
    (hroom : log.length + batch.length < 0x10000000000000000) :
    ∃ more, (s.write batch).2.Holds (log ++ more) ∧
      (more.map Event.payload = batch ∨ 0 < s.writeFaults ∧ more = []) := by
  unfold Store.write
  by_cases hfaults : 0 < s.writeFaults
  · rw [if_pos hfaults]
    refine ⟨[], ⟨?_, ?_, ?_⟩, .inr ⟨hfaults, rfl⟩⟩
    · rw [List.append_nil]
      exact h.contents
    · rw [List.append_nil]
      exact h.numbered
    · rw [List.append_nil]
      exact h.hinted
  · simp only [hfaults, if_false, h.contents, h.length_eq]
    have hnumbered : Log.Numbered
        (log ++ stamp s.clock log.length (log.map Event.stream) batch) :=
      numbered_stamp h.numbered hroom
    exact ⟨_, ⟨rfl, hnumbered, hinted_stamp h.hinted hnumbered fun e he =>
      List.mem_map_of_mem he⟩, .inl map_payload_stamp⟩

/-- A write that fails leaves the log as it was, and one that succeeds appends its batch. -/
theorem write_of_payloads (hlog : s.contents = .payloads log) (batch : List (Payload A)) :
    (s.writeFaults = 0 ∧ (s.write batch).1.isOk = true ∧
        (s.write batch).2.length = log.length + batch.length) ∨
      (0 < s.writeFaults ∧ (s.write batch).1.isOk = false ∧
        (s.write batch).2.contents = .payloads log) := by
  unfold Store.write
  by_cases hfaults : 0 < s.writeFaults
  · rw [if_pos hfaults]
    exact .inr ⟨hfaults, rfl, hlog⟩
  · simp only [hfaults, if_false, hlog]
    refine .inl ⟨by omega, rfl, ?_⟩
    show (log ++ stamp s.clock s.length (log.map Event.stream) batch).length = _
    rw [List.length_append, length_stamp]

theorem Holds.written (h : s.Holds log) {batch : List (Payload A)}
    (hroom : (s.write batch).2.length < 0x10000000000000000) :
    ∃ more, (s.write batch).2.Holds (log ++ more) ∧
      more.map Event.payload = if (s.write batch).1.isOk then batch else [] := by
  rcases write_of_payloads h.contents batch with ⟨hfaults, hok, hlength⟩ | ⟨-, hok, hsame⟩
  · rw [hlength] at hroom
    obtain ⟨more, hholds, hmore⟩ := h.write hroom
    refine ⟨more, hholds, ?_⟩
    rw [hok, if_pos rfl]
    exact hmore.resolve_right fun hfailed => by omega
  · refine ⟨[], ?_, by rw [hok]; rfl⟩
    rw [List.append_nil]
    exact ⟨hsame, h.numbered, h.hinted⟩

/-- What a write answers, and what is in the log then. -/
theorem contents_write (hlog : s.contents = .payloads log) (batch : List (Payload A)) :
    (s.write batch).1.isOk = (s.writeFaults == 0) ∧
      ∃ more, (s.write batch).2.contents = .payloads (log ++ more) ∧
        more.map Event.payload = if s.writeFaults == 0 then batch else [] := by
  unfold Store.write
  by_cases hfaults : 0 < s.writeFaults
  · rw [if_pos hfaults, beq_eq_false_iff_ne.mpr (Nat.pos_iff_ne_zero.mp hfaults)]
    exact ⟨rfl, [], by rw [List.append_nil]; exact hlog, rfl⟩
  · simp only [hlog, Nat.eq_zero_of_not_pos hfaults]
    exact ⟨rfl, _, rfl, map_payload_stamp⟩

theorem write_reads (batch : List (Payload A)) :
    (s.write batch).2.pageSize = s.pageSize ∧ (s.write batch).2.readFaults = s.readFaults ∧
      (s.write batch).2.streamFaults = s.streamFaults := by
  unfold write
  split
  · exact ⟨rfl, rfl, rfl⟩
  · dsimp only
    split
    · exact ⟨rfl, rfl, rfl⟩
    · split <;> exact ⟨rfl, rfl, rfl⟩

/-- The log does not get shorter. -/
theorem length_le_write (batch : List (Payload A)) : s.length ≤ (s.write batch).2.length := by
  have hgrows {c : Contents A} (h : s.contents = c) {k : Nat} (hk : c.length ≤ k) :
      s.length ≤ k := by
    rw [length, h]
    exact hk
  unfold write
  split
  · exact Nat.le_refl _
  dsimp only
  split
  · rename_i events hevents
    exact hgrows hevents (by simp [length, Contents.length])
  · rename_i registry kept hkept
    split
    · exact Nat.le_refl _
    · exact hgrows hkept (by simp [length, Contents.length])

theorem mem_of_readStream (hlog : s.contents = .payloads log) {events : List (Event A)}
    (h : (s.readStream stream bound).page = .ok events) {e : Event A} (he : e ∈ events) :
    e ∈ log ∧ e.stream = stream := by
  unfold Store.readStream at h
  cases hfaults : s.streamFaults with
  | cons failure others =>
    simp only [hfaults] at h
    cases h
  | nil =>
    simp only [hfaults, Contents.read, hlog] at h
    cases h
    have hmem := List.mem_filter.mp (List.mem_of_mem_take he)
    exact ⟨hmem.1, by simpa using (Bool.and_eq_true_iff.mp hmem.2).2⟩

end Store
end Chronicle
