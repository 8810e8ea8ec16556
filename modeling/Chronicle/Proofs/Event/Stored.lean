import Chronicle.Event.Registry
import Chronicle.Proofs.Codec.Nesting

/-!
# Chronicle.Proofs.Event.Stored

Payloads as bytes. If the facts of an application are read exactly as they are written
(`Vocabulary.Exact`), so are its payloads, and a registry reads a payload under a tag exactly from
the bytes that it makes of it (`Registry.deserialize_eq_ok`). For that a registry has to bind no tag
to a type that goes by another tag (`Registry.Sound`), and none that is built by registering does.
-/

namespace Chronicle

variable {A : Type} [Vocabulary A]

/-- Facts are read back whatever follows them, and nothing else is read. -/
structure Vocabulary.Exact (A : Type) [Vocabulary A] (Fits : A → Prop) : Prop where
  reads {a : A} (ha : Fits a) (rest : List UInt8) :
    Vocabulary.decode (Vocabulary.kind a) (Vocabulary.encode a ++ rest) = .ok (a, rest)
  written {k : Vocabulary.Kind A} {input rest : List UInt8} {a : A}
    (h : Vocabulary.decode k input = .ok (a, rest)) :
    Vocabulary.kind a = k ∧ Fits a ∧ input = Vocabulary.encode a ++ rest

/-! ## Payloads -/

namespace Payload

/-- All texts and lists of the payload are short enough to be written behind their lengths. -/
def Fits (F : A → Prop) : Payload A → Prop
  | .outcome o => o.result.Fits
  | .fact a => F a

variable {F : A → Prop} {p q : Payload A}

theorem decode_encode (hA : Vocabulary.Exact A F) (hp : p.Fits F) (rest : List UInt8) :
    decode p.kind (p.encode ++ rest) = .ok (p, rest) := by
  cases p with
  | outcome o =>
    simp only [kind, encode, decode, Codec.exact_outcome.reads hp, Codec.ok_bind]
    rfl
  | fact a =>
    simp only [kind, encode, decode, hA.reads hp, Codec.ok_bind]
    rfl

theorem of_decode (hA : Vocabulary.Exact A F) {k : PayloadKind A} {input rest : List UInt8}
    (h : decode k input = .ok (p, rest)) :
    p.kind = k ∧ p.Fits F ∧ input = p.encode ++ rest := by
  cases k with
  | outcome =>
    simp only [decode, Codec.bind_eq_ok] at h
    obtain ⟨⟨o, rest₁⟩, ho, h⟩ := h
    obtain ⟨hfits, rfl⟩ := Codec.exact_outcome.written ho
    cases h
    exact ⟨rfl, hfits, rfl⟩
  | fact k =>
    simp only [decode, Codec.bind_eq_ok] at h
    obtain ⟨⟨a, rest₁⟩, ha, h⟩ := h
    obtain ⟨rfl, hfits, rfl⟩ := hA.written ha
    cases h
    exact ⟨rfl, hfits, rfl⟩

/-- Bytes that begin with a payload of a type begin with no other payload of it. -/
theorem encode_unique (hA : Vocabulary.Exact A F) (hp : p.Fits F) (hq : q.Fits F)
    (hkind : p.kind = q.kind) {rest rest' : List UInt8}
    (h : p.encode ++ rest = q.encode ++ rest') : p = q ∧ rest = rest' := by
  have hread := decode_encode hA hp rest
  rw [h, hkind, decode_encode hA hq rest'] at hread
  simp only [Except.ok.injEq, Prod.mk.injEq] at hread
  exact ⟨hread.1.symm, hread.2.symm⟩

end Payload

/-! ## Registries -/

namespace Registry

variable {r r' : Registry A}

/-- Every tag is bound to a type that goes by it. -/
def Sound (r : Registry A) : Prop :=
  ∀ tag bound, r.find? tag = some bound → Payload.tagOf bound.kind = tag

theorem sound_empty : (empty : Registry A).Sound := by
  intro tag bound h
  simp only [find?, empty, List.lookup_cons, List.lookup_nil] at h
  split at h
  · rename_i htag
    cases h
    exact (beq_iff_eq.mp htag).symm
  · cases h

theorem Sound.register {kind : PayloadKind A} {name : String} (h : r.Sound)
    (hr : r.register kind name = .ok r') : r'.Sound := by
  simp only [Registry.register] at hr
  split at hr
  · split at hr
    · cases hr
      exact h
    · cases hr
  · cases hr
    intro tag bound hfind
    simp only [find?, List.lookup_append, Option.or_eq_some_iff] at hfind
    rcases hfind with hold | ⟨-, hnew⟩
    · exact h tag bound hold
    · simp only [List.lookup_cons, List.lookup_nil] at hnew
      split at hnew
      · rename_i htag
        cases hnew
        exact (beq_iff_eq.mp htag).symm
      · cases hnew

theorem Sound.registerAll {kinds : List (PayloadKind A × String)} :
    ∀ {r : Registry A}, r.Sound → r.registerAll kinds = .ok r' → r'.Sound := by
  induction kinds with
  | nil =>
    intro r h hr
    cases hr
    exact h
  | cons first rest ih =>
    intro r h hr
    simp only [Registry.registerAll, bind, Except.bind] at hr
    split at hr
    · cases hr
    · rename_i r₁ hfirst
      exact ih (h.register hfirst) hr

def Binds (r : Registry A) (p : Payload A) : Prop :=
  ∃ bound, r.find? p.tag = some bound ∧ bound.kind = p.kind

/-- A tag is bound to one type. -/
theorem Binds.kind_eq {p q : Payload A} (hp : r.Binds p) (hq : r.Binds q) (htag : p.tag = q.tag) :
    p.kind = q.kind := by
  obtain ⟨bound, hfind, hkind⟩ := hp
  obtain ⟨bound', hfind', hkind'⟩ := hq
  rw [htag, hfind'] at hfind
  rw [← hkind, ← hkind', Option.some.inj hfind]

theorem serialize_eq_ok {p : Payload A} {data : List UInt8} :
    r.serialize p = .ok data ↔ r.Binds p ∧ data = p.encode := by
  unfold serialize Binds
  cases hfind : r.find? p.tag with
  | none => simp
  | some bound =>
    by_cases hkind : bound.kind = p.kind
    · simp [hkind, eq_comm]
    · simp [hkind]

variable {F : A → Prop}

/-- What is read under a tag is a payload of that tag, read from its own bytes. -/
theorem deserialize_eq_ok (hA : Vocabulary.Exact A F) (hr : r.Sound) {tag : String}
    {input : List UInt8} {p : Payload A} :
    r.deserialize tag input = .ok p ↔
      tag = p.tag ∧ p.Fits F ∧ ∃ data rest, r.serialize p = .ok data ∧ input = data ++ rest := by
  constructor
  · intro h
    unfold deserialize at h
    split at h
    · cases h
    · rename_i bound hfind
      split at h
      · rename_i p' rest hdecode
        cases h
        obtain ⟨hkind, hfits, hinput⟩ := Payload.of_decode hA hdecode
        have htag : tag = p.tag := by
          rw [Payload.tag, hkind]
          exact (hr tag bound hfind).symm
        subst htag
        exact ⟨rfl, hfits, p.encode, rest, serialize_eq_ok.mpr ⟨⟨bound, hfind, hkind.symm⟩, rfl⟩,
          hinput⟩
      · cases h
  · rintro ⟨rfl, hfits, data, rest, hdata, rfl⟩
    obtain ⟨⟨bound, hfind, hkind⟩, rfl⟩ := serialize_eq_ok.mp hdata
    simp only [deserialize, hfind, hkind, Payload.decode_encode hA hfits]

/-- A part of a payload's bytes is read as no payload. -/
theorem deserialize_of_cut (hA : Vocabulary.Exact A F) (hr : r.Sound) {p : Payload A}
    {data input : List UInt8} (hfits : p.Fits F) (hdata : r.serialize p = .ok data)
    (hpart : input <+: data) (hne : input ≠ data) : ∃ e, r.deserialize p.tag input = .error e := by
  cases hread : r.deserialize p.tag input with
  | error e => exact ⟨e, rfl⟩
  | ok q =>
    -- the rest of the part and what it is cut off from would be nothing
    exfalso
    obtain ⟨htag, hfits', data', rest, hdata', rfl⟩ := (deserialize_eq_ok hA hr).mp hread
    obtain ⟨more, rfl⟩ := hpart
    obtain ⟨hbinds, hp⟩ := serialize_eq_ok.mp hdata
    obtain ⟨hbinds', rfl⟩ := serialize_eq_ok.mp hdata'
    have hbytes : p.encode ++ [] = q.encode ++ (rest ++ more) := by
      rw [List.append_nil, ← hp, List.append_assoc]
    have hkinds := hbinds.kind_eq hbinds' htag
    obtain ⟨-, hnil⟩ := Payload.encode_unique hA hfits hfits' hkinds hbytes
    obtain ⟨rfl, rfl⟩ := List.append_eq_nil_iff.mp hnil.symm
    simp at hne

/-- Of two payloads under one tag, the bytes of neither begin the bytes of the other. -/
theorem eq_of_serialize_prefix (hA : Vocabulary.Exact A F) {p q : Payload A} {data data' : List UInt8}
    (hp : p.Fits F) (hq : q.Fits F) (htag : p.tag = q.tag) (hdata : r.serialize p = .ok data)
    (hdata' : r.serialize q = .ok data') (hpart : data <+: data') : p = q := by
  obtain ⟨hbinds, rfl⟩ := serialize_eq_ok.mp hdata
  obtain ⟨hbinds', rfl⟩ := serialize_eq_ok.mp hdata'
  obtain ⟨more, hmore⟩ := hpart
  rw [← List.append_nil q.encode] at hmore
  exact (Payload.encode_unique hA hp hq (hbinds.kind_eq hbinds' htag) hmore).1

end Registry
end Chronicle
