import Mathlib.Data.List.Sort
import Mathlib.Data.String.Basic
import Chronicle.Notes
import Chronicle.Proofs.Log.Likeness

/-!
# Chronicle.Proofs.Event.Registering

Registries after any calls to register payload types, some of which may be refused. A tag belongs to
the first type that was registered under it (`find?_after`), as one call only ever binds a tag that is
free (`find?_call`). What a registry writes it therefore also reads, under the tag and as the type
that it was written under (`Registry.bound_to_first`).
-/

namespace Chronicle

namespace Registry

variable {A : Type} [Vocabulary A] {r : Registry A} {kind : PayloadKind A} {name tag : String}
  {calls : List (PayloadKind A × String)}

/-- What a call to register a type answers, and the registry after it. -/
def call (r : Registry A) (kind : PayloadKind A) (name : String) :
    Except EventError Unit × Registry A :=
  match r.register kind name with
  | .ok r' => (.ok (), r')
  | .error e => (.error e, r)

def after (r : Registry A) (calls : List (PayloadKind A × String)) : Registry A :=
  calls.foldl (fun r c => (r.call c.1 c.2).2) r

def first? (calls : List (PayloadKind A × String)) (tag : String) : Option (Binding A) :=
  (calls.find? fun c => Payload.tagOf c.1 = tag).map fun c => ⟨c.1, c.2⟩

theorem first?_cons (c : PayloadKind A × String) :
    first? (c :: calls) tag = (first? [c] tag).or (first? calls tag) := by
  by_cases h : Payload.tagOf c.1 = tag <;> simp [first?, h]

/-- Where a type stands alone under its tag, it is the first. -/
theorem lookup_singleton_eq (kind : PayloadKind A) (name : String) :
    [(Payload.tagOf kind, (⟨kind, name⟩ : Binding A))].lookup tag = first? [(kind, name)] tag := by
  rw [List.lookup_cons, List.lookup_nil]
  by_cases h : Payload.tagOf kind = tag
  · simp [first?, h]
  · rw [beq_false_of_ne (Ne.symm h)]
    simp [first?, h]

/-! ## One call -/

/-- A call for a tag that is bound changes nothing, and it is refused unless it is for the type that
the tag is bound to. -/
theorem call_eq (r : Registry A) (kind : PayloadKind A) (name : String) : r.call kind name =
    match r.find? (Payload.tagOf kind) with
    | none => (.ok (), ⟨r.bindings ++ [(Payload.tagOf kind, ⟨kind, name⟩)]⟩)
    | some bound =>
      (if bound.kind = kind then .ok () else .error (.duplicateType (Payload.tagOf kind)), r) := by
  cases h : r.find? (Payload.tagOf kind) with
  | none => simp [call, register, h]
  | some bound => by_cases hkind : bound.kind = kind <;> simp [call, register, h, hkind]

theorem find?_call :
    (r.call kind name).2.find? tag = (r.find? tag).or (first? [(kind, name)] tag) := by
  cases h : r.find? (Payload.tagOf kind) with
  | none =>
    rw [call_eq, h, find?, List.lookup_append, lookup_singleton_eq, find?]
  | some bound =>
    rw [call_eq, h]
    by_cases htag : Payload.tagOf kind = tag
    · simp [← htag, h]
    · simp [first?, htag]

def Distinct (r : Registry A) : Prop := (r.bindings.map (·.1)).Nodup

theorem distinct_empty : (empty : Registry A).Distinct := List.nodup_singleton _

theorem Distinct.call (hr : r.Distinct) : (r.call kind name).2.Distinct := by
  cases h : r.find? (Payload.tagOf kind) with
  | none =>
    have hfree : Payload.tagOf kind ∉ r.bindings.map (·.1) := by
      intro hmem
      obtain ⟨held, hheld, htag⟩ := List.mem_map.mp hmem
      have hne := List.lookup_eq_none_iff.mp h held hheld
      simp [htag] at hne
    rw [call_eq, h, Distinct, List.map_append, List.nodup_append]
    refine ⟨hr, List.nodup_singleton _, ?_⟩
    rintro tag htag _ hnew rfl
    rw [List.map_singleton, List.mem_singleton] at hnew
    rw [hnew] at htag
    exact hfree htag
  | some bound =>
    rw [call_eq, h]
    exact hr

/-! ## Call after call -/

theorem find?_after : (r.after calls).find? tag = (r.find? tag).or (first? calls tag) := by
  induction calls generalizing r with
  | nil => simp [after, first?]
  | cons c rest ih =>
    rw [first?_cons, ← Option.or_assoc, ← find?_call]
    exact ih

theorem Distinct.after (hr : r.Distinct) (calls : List (PayloadKind A × String)) :
    (r.after calls).Distinct := by
  induction calls generalizing r with
  | nil => exact hr
  | cons c rest ih => exact ih hr.call

theorem Distinct.pairwise_tags (hr : r.Distinct) : r.tags.Pairwise (· < ·) :=
  (List.sortedLE_mergeSort.sortedLT_of_nodup (List.Nodup.mergeSort hr)).pairwise

theorem mem_tags_iff : tag ∈ r.tags ↔ (r.find? tag).isSome = true := by
  rw [tags, List.mem_mergeSort, List.mem_map, find?, List.lookup_isSome_iff]
  simp only [beq_iff_eq, eq_comm (a := tag)]

theorem find?_empty : (empty : Registry A).find? tag = first? [(.outcome, Outcome.tag)] tag :=
  lookup_singleton_eq .outcome Outcome.tag

theorem deserialize_serialize {p : Payload A} {data : List UInt8} (hp : p.Readable)
    (h : r.serialize p = .ok data) : r.deserialize p.tag data = .ok p := by
  obtain ⟨data', hwritten, hread⟩ := Binds.recalls (serialize_eq_ok.mp h).1 hp []
  rw [h] at hwritten
  cases hwritten
  exact hread

/-- Whichever types one tries to register, a tag is bound to the first one that goes by it, and stays
bound to it. Outcomes come first, under their own tag. A further call for a tag that is bound leaves
the registry as it is, and it is refused if it is for another type. The tags are listed in increasing
order. A payload can be written exactly if its tag is bound to its own type, and if it can be read at
all it is read from what was written. -/
theorem bound_to_first (calls : List (PayloadKind A × String)) :
    let r := (empty : Registry A).after calls
    (∀ tag, r.find? tag = first? ((.outcome, Outcome.tag) :: calls) tag) ∧
    r.find? Outcome.tag = some ⟨.outcome, Outcome.tag⟩ ∧
    (∀ more tag bound, r.find? tag = some bound → (r.after more).find? tag = some bound) ∧
    (∀ kind name, r.call kind name =
      match r.find? (Payload.tagOf kind) with
      | none => (.ok (), ⟨r.bindings ++ [(Payload.tagOf kind, ⟨kind, name⟩)]⟩)
      | some bound =>
        (if bound.kind = kind then .ok () else .error (.duplicateType (Payload.tagOf kind)), r)) ∧
    (r.tags.Pairwise (· < ·) ∧ ∀ tag, tag ∈ r.tags ↔ (r.find? tag).isSome = true) ∧
    (∀ p, (∃ data, r.serialize p = .ok data) ↔
      ∃ bound, r.find? p.tag = some bound ∧ bound.kind = p.kind) ∧
    ∀ p data, p.Readable → r.serialize p = .ok data → r.deserialize p.tag data = .ok p := by
  intro r
  have hfirst : ∀ tag, r.find? tag = first? ((.outcome, Outcome.tag) :: calls) tag := by
    intro tag
    rw [first?_cons, ← find?_empty]
    exact find?_after
  refine ⟨hfirst, ?_, ?_, call_eq r,
    ⟨(distinct_empty.after calls).pairwise_tags, fun tag => mem_tags_iff⟩, ?_,
    fun p data => deserialize_serialize⟩
  · rw [hfirst]
    simp [first?, Payload.tagOf]
  · intro more tag bound h
    rw [find?_after, h, Option.some_or]
  · intro p
    constructor
    · rintro ⟨data, h⟩
      exact (serialize_eq_ok.mp h).1
    · intro h
      exact ⟨p.encode, serialize_eq_ok.mpr ⟨h, rfl⟩⟩

/-- Two types that go by one tag, the first of them twice. -/
def clashing : List (PayloadKind Notes.Fact × String) :=
  [(.fact Notes.Kind.noted, "Noted"), (.fact Notes.Kind.stray, "Stray"),
    (.fact Notes.Kind.noted, "Noted")]

def notes : Registry Notes.Fact := empty.after clashing

theorem notes_bound_to_first :
    notes.tags = ["CommandProcessed", "Noted.v1"] ∧
    (notes.after clashing).find? "Noted.v1" = some ⟨.fact Notes.Kind.noted, "Noted"⟩ ∧
    (¬ ∃ data, notes.serialize (.fact .stray) = .ok data) ∧
    ∃ data, notes.serialize (.fact (.noted "a" 2)) = .ok data ∧
      notes.deserialize "Noted.v1" data = .ok (.fact (.noted "a" 2)) := by
  have hbound : notes.find? "Noted.v1" = some ⟨.fact Notes.Kind.noted, "Noted"⟩ := by rfl
  have hreadable : (Payload.fact (Notes.Fact.noted "a" 2)).Readable := ⟨[], by rfl⟩
  obtain ⟨-, -, hstays, -, -, hwrites, hreads⟩ := bound_to_first clashing
  obtain ⟨data, hdata⟩ := (hwrites (.fact (.noted "a" 2))).mpr ⟨_, hbound, rfl⟩
  refine ⟨List.mergeSort_of_pairwise (by decide), hstays clashing _ _ hbound, ?_, data, hdata,
    hreads _ data hreadable hdata⟩
  intro hstray
  obtain ⟨bound, hfind, hkind⟩ := (hwrites (.fact .stray)).mp hstray
  cases hbound.symm.trans hfind
  cases hkind

end Registry
end Chronicle
