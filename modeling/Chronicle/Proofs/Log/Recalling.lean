import Chronicle.Proofs.Log.Filing

/-!
# Chronicle.Proofs.Log.Recalling

Writes that succeed, and can be read. Unless it is made to fail, a store takes every batch whose
payloads it can turn into bytes and back (`Contents.Recalls`); the log then goes on with just these
payloads (`Keeps.written`). A store that keeps payloads as they are takes everything.
-/

namespace Chronicle

variable {A : Type} [Vocabulary A] {registry : Registry A} {log : List (Event A)}
  {batch : List (Payload A)}

/-- What is written of a payload is read as that payload. -/
def Contents.Recalls : Contents A → Payload A → Prop
  | .payloads _, _ => True
  | .records registry _, p =>
    ∃ data, registry.serialize p = .ok data ∧ registry.deserialize p.tag data = .ok p

namespace Store

variable {s : Store A}

/-- The bytes of a batch that can be read again are read as the events that the batch becomes. -/
theorem decodes_stamp (time : Int) (length : Nat) (streams : List StreamId)
    (h : ∀ p ∈ batch, (Contents.records registry []).Recalls p) :
    ∃ encoded, encodeAll registry batch = .ok encoded ∧
      ((stamp time length streams batch).zipWith recordOf encoded).map registry.decodeRecord?
        = (stamp time length streams batch).map some := by
  induction batch generalizing length streams with
  | nil => exact ⟨[], rfl, rfl⟩
  | cons p rest ih =>
    obtain ⟨data, hwritten, hread⟩ := h p List.mem_cons_self
    obtain ⟨more, hmore, hdecoded⟩ := ih (length + 1) (p.stream :: streams) fun q hq =>
      h q (List.mem_cons_of_mem _ hq)
    refine ⟨data :: more, ?_, ?_⟩
    · simp only [encodeAll, hwritten, hmore, bind, Except.bind, pure, Except.pure]
    · rw [stamp, List.zipWith_cons_cons, List.map_cons, List.map_cons, hdecoded, List.cons.injEq]
      exact ⟨Serializer.decodeRecord?_eq_some_iff.mpr ⟨rfl, rfl, rfl, hread⟩, rfl⟩

theorem streams_recordOf {time : Int} {length : Nat} {streams : List StreamId}
    {encoded : List (List UInt8)} (h : encoded.length = batch.length) :
    ((stamp time length streams batch).zipWith recordOf encoded).map Record.stream
      = (stamp time length streams batch).map Event.stream := by
  have hlabels := congrArg (List.map Prod.fst) (@labels_recordOf A _ time length streams _ _ h)
  rwa [List.map_map, List.map_map] at hlabels

/-- Records that are read as the events that a batch becomes are filed as these events are. -/
theorem files_stamp {kept : List Record} (h : (Contents.records registry kept).Files log)
    {time : Int} {length : Nat} {streams : List StreamId} {encoded : List (List UInt8)}
    (hencoded : encodeAll registry batch = .ok encoded)
    (hdecoded : ((stamp time length streams batch).zipWith recordOf encoded).map
      registry.decodeRecord? = (stamp time length streams batch).map some) :
    (Contents.records registry
      (kept ++ (stamp time length streams batch).zipWith recordOf encoded)).Files
        (log ++ stamp time length streams batch) := by
  have hdecodes : kept.map registry.decodeRecord? = log.map some := h.decodes
  have hfiled : kept.map Record.stream = log.map Event.stream := h.filed
  constructor
  · show (kept ++ _).map registry.decodeRecord? = (log ++ _).map some
    rw [List.map_append, List.map_append, hdecoded, hdecodes]
  · show (kept ++ _).map Record.stream = (log ++ _).map Event.stream
    rw [List.map_append, List.map_append, hfiled, streams_recordOf (length_encodeAll hencoded)]

/-- A write that does not fail appends its batch, and the store goes on as before. -/
theorem Keeps.written (h : s.Keeps log) (hfaults : s.writeFaults = 0)
    (hrecalls : ∀ p ∈ batch, s.contents.Recalls p)
    (hroom : log.length + batch.length < 0x10000000000000000) :
    (s.write batch).1.isOk = true ∧ (s.write batch).2.contents.Recalls = s.contents.Recalls ∧
      ∃ more, (s.write batch).2.Keeps (log ++ more) ∧ more.map Event.payload = batch := by
  obtain ⟨⟨hdecodes, hfiled⟩, hnumbered, hhinted⟩ := h
  have hlength : s.length = log.length := hdecodes.length_eq
  have hnumbered' : Log.Numbered (log ++ stamp s.clock log.length s.contents.streams batch) :=
    numbered_stamp hnumbered hroom
  have hhinted' : Log.Hinted (log ++ stamp s.clock log.length s.contents.streams batch) := by
    refine hinted_stamp hhinted hnumbered' fun e he => ?_
    rw [hfiled]
    exact List.mem_map_of_mem he
  cases hcontents : s.contents with
  | payloads events =>
    rw [hcontents] at hdecodes
    obtain rfl := hdecodes
    simp only [write, hfaults, Nat.lt_irrefl, if_false, hlength, hcontents]
    rw [hcontents] at hnumbered' hhinted'
    exact ⟨rfl, rfl, _, ⟨⟨rfl, rfl⟩, hnumbered', hhinted'⟩, map_payload_stamp⟩
  | records registry kept =>
    rw [hcontents] at hdecodes hfiled hrecalls hnumbered' hhinted'
    obtain ⟨encoded, hencoded, hdecoded⟩ := decodes_stamp s.clock log.length
      (Contents.records registry kept).streams hrecalls
    simp only [write, hfaults, Nat.lt_irrefl, if_false, hlength, hcontents, hencoded]
    exact ⟨rfl, rfl, _, ⟨files_stamp ⟨hdecodes, hfiled⟩ hencoded hdecoded, hnumbered', hhinted'⟩,
      map_payload_stamp⟩

/-! ## Writes that are to fail -/

@[simp] theorem writeFaults_readFrom (q : Position) :
    (s.readFrom q).store.writeFaults = s.writeFaults := by
  unfold readFrom
  dsimp only
  split <;> rfl

@[simp] theorem writeFaults_readStream (stream : StreamId) (bound : Position) :
    (s.readStream stream bound).store.writeFaults = s.writeFaults := by
  unfold readStream
  dsimp only
  split <;> rfl

theorem writeFaults_write (h : s.writeFaults = 0) : (s.write batch).2.writeFaults = 0 := by
  simp only [write, h, Nat.lt_irrefl, if_false]
  split
  · rfl
  · split <;> first | rfl | exact h

end Store
end Chronicle
