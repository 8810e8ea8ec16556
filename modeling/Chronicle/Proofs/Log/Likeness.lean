import Chronicle.Proofs.Banking.Stored
import Chronicle.Proofs.Log.Calls

/-!
# Chronicle.Proofs.Log.Likeness

A store of records behaves like a store of payloads. They keep their events in different forms and
have little code in common, but as long as everything that is written can be read again, the log of
the one is what the other decodes (`Alike`). Then every call is answered alike, and leaves the
stores alike.
-/

namespace Chronicle

variable {A : Type} [Vocabulary A] {registry : Registry A} {log : List (Event A)}

/-! ## Payloads that can be read again -/

namespace Payload

variable {p : Payload A}

/-- The payload is read from its own bytes. A fact is if its family reads it, an outcome if its
texts are short enough to be written behind their lengths. -/
def Readable : Payload A → Prop
  | .outcome o => o.result.Fits
  | .fact a => ∃ rest, Vocabulary.decode (Vocabulary.kind a) (Vocabulary.encode a) = .ok (a, rest)

theorem Readable.decode (h : p.Readable) : ∃ rest, decode p.kind p.encode = .ok (p, rest) := by
  cases p with
  | outcome o =>
    have hread := Codec.exact_outcome.reads (v := o) h []
    rw [List.append_nil] at hread
    refine ⟨[], ?_⟩
    simp only [kind, encode, Payload.decode, hread, Codec.ok_bind]
    rfl
  | fact a =>
    obtain ⟨rest, hread⟩ := h
    refine ⟨rest, ?_⟩
    simp only [kind, encode, Payload.decode, hread, Codec.ok_bind]
    rfl

/-- Everything is readable if facts are read as they are written. -/
theorem Fits.readable {F : A → Prop} (hA : Vocabulary.Exact A F) (h : p.Fits F) : p.Readable := by
  cases p with
  | outcome o => exact h
  | fact a =>
    have hread := hA.reads (a := a) h []
    rw [List.append_nil] at hread
    exact ⟨[], hread⟩

end Payload

theorem Registry.Binds.recalls {p : Payload A} (h : registry.Binds p) (hp : p.Readable)
    (kept : List Record) : (Contents.records registry kept).Recalls p := by
  refine ⟨p.encode, serialize_eq_ok.mpr ⟨h, rfl⟩, ?_⟩
  obtain ⟨bound, hfind, hkind⟩ := h
  obtain ⟨rest, hread⟩ := hp.decode
  simp only [deserialize, hfind, hkind, hread]

/-! ## Reads -/

theorem Registry.batchNotes_eq {records : List Record} {events : List (Event A)}
    (h : records.map registry.decodeRecord? = events.map some) : registry.batchNotes records = [] := by
  cases records with
  | nil => rfl
  | cons first rest =>
    have hread : ∀ r ∈ rest, (registry.decodeRecord? r).isNone = false := by
      intro r hr
      have hmem : registry.decodeRecord? r ∈ events.map some :=
        h ▸ List.mem_map_of_mem (List.mem_cons_of_mem _ hr)
      obtain ⟨e, -, he⟩ := List.mem_map.mp hmem
      rw [← he]
      rfl
    have hnone : (rest.filter fun r => (registry.decodeRecord? r).isNone) = [] := by
      refine List.filter_eq_nil_iff.mpr fun r hr => ?_
      rw [hread r hr]
      exact Bool.false_ne_true
    rw [batchNotes_cons, hnone, List.map_nil, ite_self]

namespace Store

theorem read_records {kept : List Record} (h : (Contents.records registry kept).Files log)
    (start limit : Nat) (stream : Option StreamId) (bound : Position) :
    (Contents.records registry kept).read start limit stream bound =
      (Contents.payloads log).read start limit stream bound := by
  have hdecodes : (kept.drop start).map registry.decodeRecord? = (log.drop start).map some := by
    rw [List.map_drop, List.map_drop]
    exact congrArg (List.drop start) h.decodes
  have hfiled : (kept.drop start).map Record.stream = (log.drop start).map Event.stream := by
    rw [List.map_drop, List.map_drop]
    exact congrArg (List.drop start) h.filed
  have hselected (inStream : StreamId → Bool) :
      (((kept.drop start).filter fun r =>
        decide (r.position < bound) && inStream r.stream).take limit).map registry.decodeRecord? =
      (((log.drop start).filter fun e =>
        decide (e.position < bound) && inStream e.stream).take limit).map some := by
    rw [List.map_take, List.map_take]
    exact congrArg (List.take limit)
      (decodes_filter (fun p s => decide (p < bound) && inStream s) hdecodes hfiled)
  cases stream with
  | none =>
    have hall := hselected fun _ => true
    exact Prod.ext (Registry.decodeBatch_eq hall) (Registry.batchNotes_eq hall)
  | some wanted =>
    have hstream := hselected fun s => s == wanted
    exact Prod.ext (Registry.decodeBatch_eq hstream) (Registry.batchNotes_eq hstream)

/-! ## Calls -/

/-- The call writes only what the registry binds and what can be read again, and plants no record. -/
def Call.Shared (registry : Registry A) : Call A → Prop
  | .write batch => ∀ p ∈ batch, registry.Binds p ∧ p.Readable
  | .appendRaw .. => False
  | _ => True

/-- The second store keeps in records what the first keeps as it is, and they are otherwise the
same. -/
def Alike (registry : Registry A) (s u : Store A) : Prop :=
  ∃ log kept, s.contents = .payloads log ∧ (Contents.records registry kept).Files log ∧
    u = { s with contents := .records registry kept }

variable {s u : Store A}

theorem alike_fresh (registry : Registry A) (time : Int) (pageSize : Nat) :
    Alike registry (fresh none time pageSize) (fresh (some registry) time pageSize) :=
  ⟨[], [], rfl, ⟨rfl, rfl⟩, rfl⟩

theorem Alike.events_eq (h : Alike registry s u) : u.events = s.events := by
  obtain ⟨log, kept, hcontents, hfiles, rfl⟩ := h
  have hdecodes : kept.map registry.decodeRecord? = log.map some := hfiles.decodes
  have hall := congrArg (List.filterMap id) hdecodes
  rw [events, events, hcontents]
  simpa [List.filterMap_map] using hall

theorem Alike.length_eq (h : Alike registry s u) : u.length = s.length := by
  obtain ⟨log, kept, hcontents, hfiles, rfl⟩ := h
  rw [length, length, hfiles.decodes.length_eq, hcontents]
  rfl

theorem Alike.write (h : Alike registry s u) {batch : List (Payload A)}
    (hbatch : ∀ p ∈ batch, registry.Binds p ∧ p.Readable) :
    (u.write batch).1 = (s.write batch).1 ∧ Alike registry (s.write batch).2 (u.write batch).2 := by
  have hlength := h.length_eq
  obtain ⟨log, kept, hcontents, hfiles, rfl⟩ := h
  have hstreams : (Contents.records registry kept).streams = log.map Event.stream := hfiles.filed
  unfold Store.write
  by_cases hfaults : 0 < s.writeFaults
  · rw [if_pos hfaults, if_pos hfaults]
    exact ⟨rfl, log, kept, hcontents, hfiles, rfl⟩
  · obtain ⟨encoded, hencoded, hdecoded⟩ := decodes_stamp s.clock s.length
      (log.map Event.stream) fun p hp => (hbatch p hp).1.recalls (hbatch p hp).2 []
    rw [if_neg hfaults, if_neg hfaults]
    simp only [hcontents, hlength, hstreams, hencoded]
    exact ⟨rfl, _, _, rfl, files_stamp hfiles hencoded hdecoded, rfl⟩

theorem Alike.readFrom (h : Alike registry s u) (p : Position) :
    (u.readFrom p).page = (s.readFrom p).page ∧ (u.readFrom p).notes = (s.readFrom p).notes ∧
      Alike registry (s.readFrom p).store (u.readFrom p).store := by
  obtain ⟨log, kept, hcontents, hfiles, rfl⟩ := h
  unfold Store.readFrom
  cases hfault : takeFault p s.readFaults with
  | some found =>
    simp only [hfault]
    exact ⟨trivial, trivial, log, kept, hcontents, hfiles, rfl⟩
  | none =>
    simp only [hfault, read_records hfiles, hcontents]
    exact ⟨trivial, trivial, log, kept, rfl, hfiles, rfl⟩

theorem Alike.readStream (h : Alike registry s u) (stream : StreamId) (bound : Position) :
    (u.readStream stream bound).page = (s.readStream stream bound).page ∧
      (u.readStream stream bound).notes = (s.readStream stream bound).notes ∧
      Alike registry (s.readStream stream bound).store (u.readStream stream bound).store := by
  obtain ⟨log, kept, hcontents, hfiles, rfl⟩ := h
  unfold Store.readStream
  cases hfault : s.streamFaults with
  | cons failure others => exact ⟨rfl, rfl, log, kept, hcontents, hfiles, rfl⟩
  | nil =>
    simp only [read_records hfiles, hcontents]
    exact ⟨trivial, trivial, log, kept, rfl, hfiles, rfl⟩

/-- A call is answered alike, and leaves the stores alike. -/
theorem Alike.answer (h : Alike registry s u) {call : Call A} (hcall : call.Shared registry) :
    (u.answer call).1 = (s.answer call).1 ∧ Alike registry (s.answer call).2 (u.answer call).2 := by
  cases call with
  | write batch =>
    obtain ⟨hresult, halike⟩ := h.write hcall
    exact ⟨congrArg Answer.written hresult, halike⟩
  | appendRaw stream tag data => exact hcall.elim
  | readFrom p =>
    obtain ⟨hpage, hnotes, halike⟩ := h.readFrom p
    exact ⟨congrArg₂ Answer.page hpage hnotes, halike⟩
  | readStream stream bound =>
    obtain ⟨hpage, hnotes, halike⟩ := h.readStream stream bound
    exact ⟨congrArg₂ Answer.page hpage hnotes, halike⟩
  | events => exact ⟨congrArg Answer.events h.events_eq, h⟩
  | eventsOf stream =>
    have hevents : u.eventsOf stream = s.eventsOf stream := by
      rw [eventsOf, eventsOf, h.events_eq]
    exact ⟨congrArg Answer.events hevents, h⟩
  | length => exact ⟨congrArg Answer.length h.length_eq, h⟩
  | failWrites n =>
    obtain ⟨log, kept, hcontents, hfiles, rfl⟩ := h
    exact ⟨rfl, log, kept, hcontents, hfiles, rfl⟩
  | failReadFrom p failure =>
    obtain ⟨log, kept, hcontents, hfiles, rfl⟩ := h
    exact ⟨rfl, log, kept, hcontents, hfiles, rfl⟩
  | failStreamRead failure =>
    obtain ⟨log, kept, hcontents, hfiles, rfl⟩ := h
    exact ⟨rfl, log, kept, hcontents, hfiles, rfl⟩
  | clock time =>
    obtain ⟨log, kept, hcontents, hfiles, rfl⟩ := h
    exact ⟨rfl, log, kept, hcontents, hfiles, rfl⟩

theorem Alike.answers {calls : List (Call A)} : ∀ {s u : Store A}, Alike registry s u →
    (∀ call ∈ calls, call.Shared registry) → u.answers calls = s.answers calls := by
  induction calls with
  | nil =>
    intro s u _ _
    rfl
  | cons call rest ih =>
    intro s u h hcalls
    obtain ⟨hanswer, halike⟩ := h.answer (hcalls call List.mem_cons_self)
    rw [Store.answers, Store.answers, hanswer,
      ih halike fun other hother => hcalls other (List.mem_cons_of_mem _ hother)]

/-- Two new stores, one of payloads and one of records, answer every sequence of calls alike, if
only payloads are written that the registry binds and that can be read again. -/
theorem records_answer_alike (registry : Registry A) (time : Int) (pageSize : Nat)
    (calls : List (Call A)) (hcalls : ∀ call ∈ calls, call.Shared registry) :
    (fresh (some registry) time pageSize).answers calls = (fresh none time pageSize).answers calls :=
  (alike_fresh registry time pageSize).answers hcalls

/-- The bank's registry binds everything that the bank writes, and what has short texts can be read
again. -/
theorem shared_write {r : Registry Banking.Fact} (hr : Banking.registry id = .ok r)
    {batch : List (Payload Banking.Fact)} (hbatch : ∀ p ∈ batch, p.Fits Banking.Fact.Fits) :
    (Call.write batch).Shared r := by
  intro p hp
  exact ⟨Banking.registry_binds hr p, (hbatch p hp).readable Banking.exact_facts⟩

def transfer : List (Payload Banking.Fact) :=
  [.fact (.withdrawn "a" (.ofNat 1) ⟨5⟩), .fact (.deposited "b" (.ofNat 1) ⟨5⟩),
    .outcome ⟨.ofNat 2, .ok "done"⟩]

/-- Writes, one of them empty, with reads between and behind them. -/
def transferAndReads : List (Call Banking.Fact) :=
  [.write transfer, .clock 60, .write [], .readFrom (.ofNat 1), .write transfer,
    .readStream ⟨"Account", "a"⟩ (.ofNat 3), .eventsOf ⟨"Account", "b"⟩, .events, .length]

theorem transferAndReads_answered_alike :
    ∃ r, Banking.registry id = .ok r ∧
      (fresh (some r) 0 2).answers transferAndReads = (fresh none 0 2).answers transferAndReads ∧
      ((fresh (some r) 0 2).answers transferAndReads)[3]? =
        some (.page (.ok [⟨.ofNat 1, 0, .fact (.deposited "b" (.ofNat 1) ⟨5⟩), some true⟩,
          ⟨.ofNat 2, 0, .outcome ⟨.ofNat 2, .ok "done"⟩, some true⟩]) []) := by
  obtain ⟨r, hr⟩ : ∃ r : Registry Banking.Fact, Banking.registry id = .ok r := ⟨_, rfl⟩
  have htransfer : (Call.write transfer).Shared r := by
    have ha : Codec.TextFits "a" := by decide
    have hb : Codec.TextFits "b" := by decide
    have hdone : Codec.TextFits "done" := by decide
    refine shared_write hr fun p hp => ?_
    simp only [transfer, List.mem_cons, List.not_mem_nil, or_false] at hp
    rcases hp with rfl | rfl | rfl
    · exact ha
    · exact hb
    · exact hdone
  have hempty : (Call.write []).Shared r := shared_write hr fun p hp => nomatch hp
  have halike := records_answer_alike r 0 2 transferAndReads (by
    simp only [transferAndReads, List.forall_mem_cons]
    exact ⟨htransfer, trivial, hempty, trivial, htransfer, trivial, trivial, trivial, trivial,
      fun _ hnone => nomatch hnone⟩)
  refine ⟨r, hr, halike, ?_⟩
  rw [halike]
  rfl

end Store
end Chronicle
