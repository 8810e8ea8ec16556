import Chronicle.Proofs.Event.Batches
import Chronicle.Proofs.Log.Storing

/-!
# Chronicle.Proofs.Log.Decoding

A store whose records can all be decoded (`Contents.Decodes`) is read like a log that is kept as it
is: a read passes nothing over and fails only if it is made to. What is appended to it is numbered
on, and what can be decoded after an append could be decoded before it.
-/

namespace Chronicle

variable {A : Type} [Vocabulary A] {registry : Registry A} {log : List (Event A)}

/-! ## Records that can be decoded -/

theorem Registry.position_decodeRecord? {record : Record} {e : Event A}
    (h : registry.decodeRecord? record = some e) : e.position = record.position :=
  (Serializer.decodeRecord?_eq_some_iff.mp h).position

/-- A run of records that can all be decoded is decoded without a loss. -/
theorem Registry.decodeBatch_eq {records : List Record} {events : List (Event A)}
    (h : records.map registry.decodeRecord? = events.map some) :
    registry.decodeBatch records = .ok events := by
  refine Serializer.decodeBatch_eq_ok_iff.mpr ⟨?_, ?_⟩
  · cases records with
    | nil => trivial
    | cons first rest =>
      obtain ⟨e, -, he⟩ := List.mem_map.mp (h ▸ List.mem_cons_self :
        registry.decodeRecord? first ∈ events.map some)
      have hsome : (registry.decodeRecord? first).isSome = true := by
        rw [← he]
        rfl
      exact Serializer.isSome_decodeRecord?.symm.trans hsome
  · rw [filterMap_bare]
    have := congrArg (List.filterMap id) h
    simpa [List.filterMap_map] using this

/-- Everything that is kept can be decoded, and this is the log. -/
def Contents.Decodes : Contents A → List (Event A) → Prop
  | .payloads events, log => events = log
  | .records registry kept, log => kept.map registry.decodeRecord? = log.map some

theorem positions_of_decoded {records : List Record} {events : List (Event A)}
    (h : records.map registry.decodeRecord? = events.map some) :
    events.map (fun e => e.position.val) = records.map (fun r => r.position.val) := by
  induction records generalizing events with
  | nil =>
    cases events with
    | nil => rfl
    | cons e rest => cases h
  | cons first rest ih =>
    cases events with
    | nil => cases h
    | cons e more =>
      rw [List.map_cons, List.map_cons, List.cons.injEq] at h
      rw [List.map_cons, List.map_cons, ih h.2, Registry.position_decodeRecord? h.1]

/-- What was kept before an append can be decoded if it can afterwards, and if the append went on
numbering, so does the log. -/
theorem Contents.Decodes.of_append {kept extra : List Record} {log' : List (Event A)}
    (h : Decodes (.records registry (kept ++ extra)) log')
    (hextra : kept.length + extra.length < 0x10000000000000000 →
      extra.map (fun r => r.position.val) = List.range' kept.length extra.length) :
    ∃ log, log <+: log' ∧ Decodes (.records registry kept) log ∧
      (log'.length < 0x10000000000000000 → Log.Numbered log → Log.Numbered log') := by
  have hsplit : log'.map some = kept.map registry.decodeRecord? ++
      extra.map registry.decodeRecord? := by
    rw [← List.map_append]
    exact h.symm
  obtain ⟨log, more, rfl, hlog, hmore⟩ := List.map_eq_append_iff.mp hsplit
  refine ⟨log, List.prefix_append _ _, hlog.symm, fun hroom hnumbered => ?_⟩
  have hlength : log.length = kept.length := by simpa using congrArg List.length hlog
  have hmore' : more.length = extra.length := by simpa using congrArg List.length hmore
  rw [List.length_append] at hroom
  refine hnumbered.append ?_ hroom
  rw [hlength, hmore'] at hroom
  rw [positions_of_decoded hmore.symm, hextra hroom, hlength, hmore']

namespace Store

variable {s : Store A}

/-! ## Appending -/

theorem length_encodeAll : ∀ {batch : List (Payload A)} {encoded : List (List UInt8)},
    encodeAll registry batch = .ok encoded → encoded.length = batch.length
  | [], _, h => by cases h; rfl
  | p :: rest, _, h => by
    simp only [encodeAll, bind, Except.bind, pure, Except.pure] at h
    split at h
    · cases h
    · split at h
      · cases h
      · rename_i hrest
        cases h
        rw [List.length_cons, List.length_cons, length_encodeAll hrest]

theorem positions_recordOf : ∀ {events : List (Event A)} {encoded : List (List UInt8)},
    encoded.length = events.length →
      (events.zipWith recordOf encoded).map (fun r => r.position.val)
        = events.map (fun e => e.position.val)
  | [], _, _ => by simp
  | e :: rest, [], h => by cases h
  | e :: rest, data :: more, h => by
    rw [List.zipWith_cons_cons, List.map_cons, List.map_cons,
      positions_recordOf (Nat.succ.inj h)]
    rfl

/-- A write leaves what was there, and goes on numbering. -/
theorem decodes_of_write {batch : List (Payload A)} {log' : List (Event A)}
    (h : (s.write batch).2.contents.Decodes log') :
    ∃ log, log <+: log' ∧ s.contents.Decodes log ∧
      (log'.length < 0x10000000000000000 → Log.Numbered log → Log.Numbered log') := by
  unfold write at h
  split at h
  · exact ⟨log', List.prefix_rfl, h, fun _ => id⟩
  · dsimp only at h
    split at h
    · rename_i events hevents
      rw [Store.length, hevents] at h
      obtain rfl := h
      refine ⟨events, List.prefix_append _ _, by rw [hevents]; rfl, fun hroom hnumbered => ?_⟩
      rw [List.length_append, length_stamp] at hroom
      exact numbered_stamp hnumbered hroom
    · rename_i registry kept hkept
      split at h
      · exact ⟨log', List.prefix_rfl, h, fun _ => id⟩
      · rename_i encoded hencoded
        rw [hkept]
        refine Contents.Decodes.of_append h fun hroom => ?_
        have hlength := length_encodeAll hencoded
        rw [List.length_zipWith, length_stamp, hlength, Nat.min_self] at hroom ⊢
        rw [positions_recordOf (by rw [length_stamp, hlength]), Store.length, hkept]
        exact positions_stamp hroom

/-- A record that is appended as it is leaves what was there, and goes on numbering. -/
theorem decodes_of_appendRaw {stream : StreamId} {tag : String} {data : List UInt8}
    {log' : List (Event A)} (h : (s.appendRaw stream tag data).2.contents.Decodes log') :
    ∃ log, log <+: log' ∧ s.contents.Decodes log ∧
      (log'.length < 0x10000000000000000 → Log.Numbered log → Log.Numbered log') := by
  unfold appendRaw at h
  split at h
  · exact ⟨log', List.prefix_rfl, h, fun _ => id⟩
  · rename_i registry kept hkept
    rw [hkept]
    refine Contents.Decodes.of_append h fun hroom => ?_
    have hfits : kept.length < 0x10000000000000000 := by
      rw [List.length_singleton] at hroom
      omega
    exact congrArg (fun n => [n]) (Position.val_ofNat hfits)

theorem readFaults_appendRaw {stream : StreamId} {tag : String} {data : List UInt8} :
    (s.appendRaw stream tag data).2.readFaults = s.readFaults := by
  unfold appendRaw
  split <;> rfl

/-! ## Reading -/

theorem page_readFrom_of_decodes (h : s.contents.Decodes log) (hlog : Log.Numbered log)
    {p : Position} : (s.readFrom p).page =
      Log.answered ((takeFault p s.readFaults).map Prod.fst) (Log.page log p s.pageSize) := by
  cases hcontents : s.contents with
  | payloads events =>
    rw [hcontents] at h
    obtain rfl := h
    exact page_readFrom_payloads hcontents hlog
  | records registry kept =>
    rw [hcontents] at h
    unfold readFrom
    cases hfault : takeFault p s.readFaults with
    | some found =>
      simp only [hfault]
      rfl
    | none =>
      simp only [hfault, Contents.read, hcontents, Option.map_none, Log.answered]
      have hall : (kept.drop p.val).filter
          (fun r => decide (r.position < Position.last) && true) = kept.drop p.val := by
        refine List.filter_eq_self.mpr fun r hr => ?_
        obtain ⟨e, he, hdecode⟩ := List.mem_map.mp
          (h ▸ List.mem_map_of_mem (List.mem_of_mem_drop hr) :
            registry.decodeRecord? r ∈ log.map some)
        have hbelow := hlog.below_last he
        rw [Registry.position_decodeRecord? hdecode.symm] at hbelow
        simpa using hbelow
      rw [hall]
      refine Registry.decodeBatch_eq ?_
      rw [Log.page, List.map_take, List.map_take, List.map_drop, List.map_drop]
      exact congrArg (fun records => (records.drop p.val).take s.pageSize) h

end Store
end Chronicle
