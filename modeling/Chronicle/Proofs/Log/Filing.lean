import Chronicle.Proofs.Log.Decoding

/-!
# Chronicle.Proofs.Log.Filing

What a store has filed under a stream (`Log.filed`) is what a read of the stream yields, if everything
can be decoded (`page_readStream_filed`).

A store that has everything filed under the stream of its event (`Contents.Files`) answers reads of a
stream like a log that is kept as it is (`Keeps.page_readStream`), and what it says about the first
events of streams stays true when it is written to: the hints depend on nothing but the streams and
the order (`Log.Hinted.of_labels`), and a write takes both from what it is given (`files_of_write`).
-/

namespace Chronicle

variable {A : Type} [Vocabulary A] {registry : Registry A} {log : List (Event A)}

/-! ## Hints -/

/-- What an event says of its stream: its name, and whether the event is the first of it. -/
def Event.label (e : Event A) : StreamId × Option Bool := (e.stream, e.firstOfStream)

/-- Whether hints are true depends on the streams, the hints and their order alone. -/
theorem Log.Hinted.of_labels {log' : List (Event A)} (hh : Hinted log) (h : Numbered log)
    (h' : Numbered log') (hlabels : log'.map Event.label = log.map Event.label) : Hinted log' := by
  have hfind : ∀ e' ∈ log', ∃ e ∈ log, e.label = e'.label ∧ e.position = e'.position := by
    intro e' he'
    have hat := h'.getElem? he'
    have hlabel := congrArg (·[e'.position.val]?) hlabels
    simp only [List.getElem?_map, hat, Option.map_some] at hlabel
    obtain ⟨e, he, heq⟩ := Option.map_eq_some_iff.mp hlabel.symm
    exact ⟨e, List.mem_of_getElem? he, heq, Position.ext (h.position he)⟩
  intro e₁ he₁ hfirst e₂ he₂ hstream
  obtain ⟨d₁, hd₁, hlabel₁, hpos₁⟩ := hfind e₁ he₁
  obtain ⟨d₂, hd₂, hlabel₂, hpos₂⟩ := hfind e₂ he₂
  obtain ⟨hs₁, hf₁⟩ := Prod.mk.inj hlabel₁
  obtain ⟨hs₂, -⟩ := Prod.mk.inj hlabel₂
  rw [← hpos₁, ← hpos₂]
  exact hh d₁ hd₁ (hf₁.trans hfirst) d₂ hd₂ (by rw [hs₁, hs₂, hstream])

/-! ## Contents that are filed -/

namespace Contents

variable {c : Contents A}

/-- Everything that is kept can be decoded, into an event of the stream that it is filed under. -/
structure Files (c : Contents A) (log : List (Event A)) : Prop where
  decodes : c.Decodes log
  filed : c.streams = log.map Event.stream

theorem Decodes.length_eq (h : c.Decodes log) : c.length = log.length := by
  cases c with
  | payloads events =>
    obtain rfl := h
    rfl
  | records registry kept => simpa [length] using congrArg List.length h

theorem Decodes.unique {log' : List (Event A)} (h : c.Decodes log) (h' : c.Decodes log') :
    log = log' := by
  cases c with
  | payloads events => exact h.symm.trans h'
  | records registry kept =>
    exact (List.map_inj_right fun _ _ => Option.some.inj).mp (h.symm.trans h')

/-- What the store says of the stream of everything that it keeps. -/
def labels : Contents A → List (StreamId × Option Bool)
  | .payloads events => events.map Event.label
  | .records _ kept => kept.map fun r => (r.stream, some r.firstOfStream)

end Contents

theorem Registry.firstOfStream_decodeRecord? {record : Record} {e : Event A}
    (h : registry.decodeRecord? record = some e) : e.firstOfStream = some record.firstOfStream :=
  (Serializer.decodeRecord?_eq_some_iff.mp h).firstOfStream

theorem labels_of_decoded {kept : List Record} {events : List (Event A)}
    (h : kept.map registry.decodeRecord? = events.map some)
    (hfiled : kept.map Record.stream = events.map Event.stream) :
    kept.map (fun r => (r.stream, some r.firstOfStream)) = events.map Event.label := by
  induction kept generalizing events with
  | nil =>
    cases events with
    | nil => rfl
    | cons e rest => cases h
  | cons r rest ih =>
    cases events with
    | nil => cases h
    | cons e more =>
      rw [List.map_cons, List.map_cons, List.cons.injEq] at h hfiled
      rw [List.map_cons, List.map_cons, ih h.2 hfiled.2, hfiled.1, Event.label,
        Registry.firstOfStream_decodeRecord? h.1]

theorem Contents.Files.labels_eq {c : Contents A} (h : c.Files log) :
    c.labels = log.map Event.label := by
  obtain ⟨hdecodes, hfiled⟩ := h
  cases c with
  | payloads events =>
    obtain rfl := hdecodes
    rfl
  | records registry kept => exact labels_of_decoded hdecodes hfiled

/-! ## What is filed under a stream -/

/-- The events of a log that are kept under a stream, at positions below a bound. `streams` says
under which stream each event is kept. -/
def Log.filed (log : List (Event A)) (streams : List StreamId) (s : StreamId) (bound : Position) :
    List (Event A) :=
  ((log.zip streams).filter fun held => decide (held.1.position < bound) && held.2 == s).map
    Prod.fst

section Selecting

variable {kept : List Record} {streams : List StreamId} {s : StreamId} {bound bound' : Position}

/-- Selecting records is selecting their events, each with the stream that it is kept under. -/
theorem decodes_select (keep : Position → StreamId → Bool)
    (h : kept.map registry.decodeRecord? = log.map some) :
    (kept.filter fun r => keep r.position r.stream).map registry.decodeRecord?
      = (((log.zip (kept.map Record.stream)).filter fun held =>
          keep held.1.position held.2).map Prod.fst).map some := by
  induction kept generalizing log with
  | nil =>
    cases log with
    | nil => rfl
    | cons e rest => cases h
  | cons r rest ih =>
    cases log with
    | nil => cases h
    | cons e more =>
      rw [List.map_cons, List.map_cons, List.cons.injEq] at h
      rw [List.map_cons, List.zip_cons_cons, List.filter_cons, List.filter_cons,
        Registry.position_decodeRecord? h.1]
      split
      · rw [List.map_cons, List.map_cons, List.map_cons, h.1, ih h.2]
      · exact ih h.2

theorem select_zip_stream (keep : Position → StreamId → Bool) (log : List (Event A)) :
    ((log.zip (log.map Event.stream)).filter fun held => keep held.1.position held.2).map Prod.fst
      = log.filter fun e => keep e.position e.stream := by
  have hzip : log.zip (log.map Event.stream) = log.map fun e => (e, e.stream) := by
    have hzip' : (log.map id).zip (log.map Event.stream) = log.map fun e => (e, e.stream) :=
      List.zip_map'
    rwa [List.map_id] at hzip'
  rw [hzip, List.filter_map, List.map_map]
  exact List.map_id _

/-- Where everything is filed under the stream of its event, the events can be selected alone. -/
theorem decodes_filter (keep : Position → StreamId → Bool)
    (h : kept.map registry.decodeRecord? = log.map some)
    (hfiled : kept.map Record.stream = log.map Event.stream) :
    (kept.filter fun r => keep r.position r.stream).map registry.decodeRecord?
      = (log.filter fun e => keep e.position e.stream).map some := by
  rw [decodes_select keep h, hfiled, select_zip_stream]

theorem Log.filed_map_stream : filed log (log.map Event.stream) s bound = below log s bound :=
  select_zip_stream (fun p t => decide (p < bound) && t == s) log

omit [Vocabulary A] in
theorem Log.length_filed_le : (filed log streams s bound).length ≤ log.length := by
  rw [filed, List.length_map]
  refine Nat.le_trans (List.length_filter_le _ _) ?_
  rw [List.length_zip]
  exact Nat.min_le_left _ _

omit [Vocabulary A] in
theorem Log.filed_eq_of_above (h : ∀ e ∈ log, e.position < bound)
    (h' : ∀ e ∈ log, e.position < bound') :
    filed log streams s bound = filed log streams s bound' := by
  refine congrArg (List.map Prod.fst) (List.filter_congr fun held hheld => ?_)
  have hmem := (List.of_mem_zip hheld).1
  rw [decide_eq_true (h _ hmem), decide_eq_true (h' _ hmem)]

end Selecting

namespace Store

variable {s : Store A}

/-! ## Writing -/

theorem labels_recordOf {time : Int} : ∀ {length : Nat} {streams : List StreamId}
    {batch : List (Payload A)} {encoded : List (List UInt8)}, encoded.length = batch.length →
      ((stamp time length streams batch).zipWith recordOf encoded).map
          (fun r => (r.stream, some r.firstOfStream))
        = (stamp time length streams batch).map Event.label
  | _, _, [], _, _ => by simp [stamp]
  | _, _, p :: rest, [], h => by cases h
  | _, _, p :: rest, data :: more, h => by
    rw [stamp, List.zipWith_cons_cons, List.map_cons, List.map_cons,
      labels_recordOf (Nat.succ.inj h)]
    rfl

theorem labels_write (s : Store A) (batch : List (Payload A)) :
    (s.write batch).2.contents = s.contents ∨
      (s.write batch).2.contents.labels = s.contents.labels ++
        (stamp s.clock s.length s.contents.streams batch).map Event.label := by
  unfold write
  split
  · exact .inl rfl
  · dsimp only
    split
    · rename_i events hevents
      refine .inr ?_
      show (events ++ _).map Event.label = _
      rw [List.map_append, hevents]
      rfl
    · rename_i registry kept hkept
      split
      · exact .inl rfl
      · rename_i encoded hencoded
        refine .inr ?_
        show (kept ++ _).map _ = _
        rw [List.map_append, labels_recordOf (length_encodeAll hencoded), hkept]
        rfl

theorem map_fst_labels (c : Contents A) : c.labels.map Prod.fst = c.streams := by
  cases c <;> exact List.map_map

/-- A write leaves what was there, goes on numbering, and gives true hints. -/
theorem files_of_write {batch : List (Payload A)} {log' : List (Event A)}
    (h : (s.write batch).2.contents.Files log') :
    ∃ log, log <+: log' ∧ s.contents.Files log ∧
      (log'.length < 0x10000000000000000 → Log.Numbered log → Log.Hinted log →
        Log.Numbered log' ∧ Log.Hinted log') := by
  obtain ⟨log, ⟨more, rfl⟩, hlog, hnumbered⟩ := decodes_of_write h.decodes
  refine ⟨log, List.prefix_append _ _, ?_⟩
  rcases labels_write s batch with hsame | hlabels
  · rw [hsame] at h
    obtain rfl : more = [] := by
      have := hlog.unique h.decodes
      simpa using this
    rw [List.append_nil] at h ⊢
    exact ⟨h, fun _ hn hh => ⟨hn, hh⟩⟩
  · rw [h.labels_eq, List.map_append] at hlabels
    have hlength : (log.map Event.label).length = s.contents.labels.length := by
      rw [List.length_map, ← hlog.length_eq, ← List.length_map Prod.fst, map_fst_labels]
      cases s.contents <;> exact (List.length_map _).symm
    obtain ⟨hold, hnew⟩ := List.append_inj hlabels hlength
    have hfiled : s.contents.streams = log.map Event.stream := by
      rw [← map_fst_labels, ← hold, List.map_map]
      rfl
    refine ⟨⟨hlog, hfiled⟩, fun hroom hn hh => ⟨hnumbered hroom hn, ?_⟩⟩
    have hstamped : more.length = batch.length := by
      have := congrArg List.length hnew
      rwa [List.length_map, List.length_map, length_stamp] at this
    rw [List.length_append, hstamped] at hroom
    rw [show s.length = log.length from hlog.length_eq] at hnew
    have hnumbered' : Log.Numbered (log ++ stamp s.clock log.length s.contents.streams batch) :=
      numbered_stamp hn hroom
    refine Log.Hinted.of_labels (hinted_stamp hh hnumbered' fun e he => ?_) hnumbered'
      (hnumbered (by rw [List.length_append, hstamped]; exact hroom) hn) ?_
    · rw [hfiled]
      exact List.mem_map_of_mem he
    · rw [List.map_append, List.map_append, hnew]

/-! ## Reading -/

/-- The store holds a log, as it is or in records that are filed under the streams of their events,
and says nothing wrong about the first events of streams. -/
structure Keeps (s : Store A) (log : List (Event A)) : Prop where
  files : s.contents.Files log
  numbered : Log.Numbered log
  hinted : Log.Hinted log

variable {stream : StreamId} {bound : Position}

theorem Holds.keeps (h : s.Holds log) : s.Keeps log where
  files := by
    rw [h.contents]
    exact ⟨rfl, rfl⟩
  numbered := h.numbered
  hinted := h.hinted

theorem Keeps.after {s' : Store A} (h : s.Keeps log) (hafter : After s s') : s'.Keeps log :=
  ⟨hafter.contents ▸ h.files, h.numbered, h.hinted⟩

theorem Keeps.events_eq (h : s.Keeps log) : s.events = log := by
  obtain ⟨⟨hdecodes, -⟩, -, -⟩ := h
  unfold events
  cases hcontents : s.contents with
  | payloads events =>
    rw [hcontents] at hdecodes
    exact hdecodes
  | records registry kept =>
    rw [hcontents] at hdecodes
    have := congrArg (List.filterMap id) (hdecodes : kept.map registry.decodeRecord? = log.map some)
    simpa [List.filterMap_map] using this

/-- A read of a stream yields what is kept under it. -/
theorem page_readStream_filed (h : s.contents.Decodes log)
    (hroom : log.length < 0x10000000000000000) : (s.readStream stream bound).page =
      Log.answered s.streamFaults.head? (Log.filed log s.contents.streams stream bound) := by
  have hlimit : (Log.filed log s.contents.streams stream bound).length ≤ 0xffffffffffffffff := by
    have : (Log.filed log s.contents.streams stream bound).length ≤ log.length :=
      Log.length_filed_le
    omega
  unfold readStream
  cases s.streamFaults with
  | cons failure others => rfl
  | nil =>
    cases hcontents : s.contents with
    | payloads events =>
      rw [hcontents] at h hlimit
      obtain rfl := h
      rw [Contents.streams, Log.filed_map_stream] at hlimit ⊢
      exact congrArg Except.ok (List.take_of_length_le hlimit)
    | records registry kept =>
      rw [hcontents] at h hlimit
      have hselected := decodes_select (fun p s => decide (p < bound) && s == stream) h
      simp only [Contents.read, List.drop_zero, List.head?_nil, Log.answered]
      rw [List.take_of_length_le]
      · exact Registry.decodeBatch_eq hselected
      · have hlength := congrArg List.length hselected
        rw [List.length_map, List.length_map] at hlength
        exact hlength ▸ hlimit

theorem Keeps.page_readStream (h : s.Keeps log) : (s.readStream stream bound).page =
    Log.answered s.streamFaults.head? (Log.below log stream bound) := by
  rw [page_readStream_filed h.files.decodes h.numbered.1, h.files.filed, Log.filed_map_stream]

end Store
end Chronicle
