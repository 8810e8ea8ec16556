import Chronicle.Banking.Bank
import Chronicle.Proofs.Event.Stored

/-!
# Chronicle.Proofs.Banking.Stored

The bank's facts and the outcomes of its commands as bytes. Each of them is read from exactly the
bytes that are written for it, whatever follows them, and from nothing less (`read_as_written`).
-/

namespace Chronicle
namespace Banking

/-- The texts of the fact are short enough to be written behind their lengths. -/
def Fact.Fits : Fact → Prop
  | .opened account owner _ => Codec.TextFits account ∧ Codec.TextFits owner
  | .withdrawn account _ _ => Codec.TextFits account
  | .deposited account _ _ => Codec.TextFits account

theorem exact_moneyCodec : moneyCodec.Exact fun _ => True :=
  Codec.exact_convert Codec.exact_int64 (fun _ => rfl) (fun _ _ => rfl)

theorem exact_openedCodec :
    openedCodec.Exact fun v => Codec.TextFits v.1 ∧ Codec.TextFits v.2.1 ∧ True :=
  Codec.exact_pair Codec.exact_text (Codec.exact_pair Codec.exact_text exact_moneyCodec)

theorem exact_movedCodec : movedCodec.Exact fun v => Codec.TextFits v.1 ∧ True ∧ True :=
  Codec.exact_pair Codec.exact_text (Codec.exact_pair Codec.exact_uuid exact_moneyCodec)

theorem exact_facts : Vocabulary.Exact Fact Fact.Fits where
  reads := by
    intro f hf rest
    cases f with
    | opened account owner initial =>
      have hread :=
        exact_openedCodec.reads (v := (account, owner, initial)) ⟨hf.1, hf.2, trivial⟩ rest
      simp only [Vocabulary.decode, Vocabulary.kind, Vocabulary.encode, hread, Codec.ok_bind]
      rfl
    | withdrawn account transfer amount =>
      have hread :=
        exact_movedCodec.reads (v := (account, transfer, amount)) ⟨hf, trivial, trivial⟩ rest
      simp only [Vocabulary.decode, Vocabulary.kind, Vocabulary.encode, hread, Codec.ok_bind]
      rfl
    | deposited account transfer amount =>
      have hread :=
        exact_movedCodec.reads (v := (account, transfer, amount)) ⟨hf, trivial, trivial⟩ rest
      simp only [Vocabulary.decode, Vocabulary.kind, Vocabulary.encode, hread, Codec.ok_bind]
      rfl
  written := by
    intro k input rest f h
    cases k with
    | opened =>
      simp only [Vocabulary.decode, Codec.bind_eq_ok] at h
      obtain ⟨⟨⟨account, owner, initial⟩, rest₁⟩, hread, h⟩ := h
      obtain ⟨⟨haccount, howner, -⟩, rfl⟩ := exact_openedCodec.written hread
      cases h
      exact ⟨rfl, ⟨haccount, howner⟩, rfl⟩
    | withdrawn =>
      simp only [Vocabulary.decode, Codec.bind_eq_ok] at h
      obtain ⟨⟨⟨account, transfer, amount⟩, rest₁⟩, hread, h⟩ := h
      obtain ⟨⟨haccount, -⟩, rfl⟩ := exact_movedCodec.written hread
      cases h
      exact ⟨rfl, haccount, rfl⟩
    | deposited =>
      simp only [Vocabulary.decode, Codec.bind_eq_ok] at h
      obtain ⟨⟨⟨account, transfer, amount⟩, rest₁⟩, hread, h⟩ := h
      obtain ⟨⟨haccount, -⟩, rfl⟩ := exact_movedCodec.written hread
      cases h
      exact ⟨rfl, haccount, rfl⟩

theorem registry_binds {r : Registry Fact} (h : registry id = .ok r) (p : Payload Fact) :
    r.Binds p := by
  obtain rfl := Except.ok.inj (h.symm.trans rfl)
  cases p with
  | outcome o => exact ⟨_, rfl, rfl⟩
  | fact f => cases f <;> exact ⟨_, rfl, rfl⟩

/-- The bank's registry exists and writes every payload. What it reads under a tag is a payload of
that tag, and it reads it from exactly the inputs that begin with the bytes it writes for it. A part
of these bytes is refused, and they begin the bytes of no other payload of the tag. -/
theorem read_as_written :
    ∃ r : Registry Fact, registry id = .ok r ∧ (∀ p : Payload Fact, ∃ data, r.serialize p = .ok data) ∧
      (∀ tag input p, r.deserialize tag input = .ok p ↔
        tag = p.tag ∧ p.Fits Fact.Fits ∧ ∃ data rest, r.serialize p = .ok data ∧ input = data ++ rest) ∧
      (∀ p data input, p.Fits Fact.Fits → r.serialize p = .ok data → input <+: data → input ≠ data →
        ∃ e, r.deserialize p.tag input = .error e) ∧
      (∀ p q data data', p.Fits Fact.Fits → q.Fits Fact.Fits → p.tag = q.tag →
        r.serialize p = .ok data → r.serialize q = .ok data' → data <+: data' → p = q) := by
  obtain ⟨r, hr⟩ : ∃ r : Registry Fact, registry id = .ok r := ⟨_, rfl⟩
  have hsound : r.Sound := Registry.sound_empty.registerAll hr
  refine ⟨r, hr, ?_, ?_, ?_, ?_⟩
  · intro p
    exact ⟨p.encode, Registry.serialize_eq_ok.mpr ⟨registry_binds hr p, rfl⟩⟩
  · intro tag input p
    exact Registry.deserialize_eq_ok exact_facts hsound
  · intro p data input hfits hdata hpart hne
    exact Registry.deserialize_of_cut exact_facts hsound hfits hdata hpart hne
  · intro p q data data' hp hq htag hdata hdata' hpart
    exact Registry.eq_of_serialize_prefix exact_facts hp hq htag hdata hdata' hpart

def nested : Payload Fact :=
  .outcome ⟨.ofNat 7, .error (.multiple [.notFound "é", .multiple [], .conflict ""])⟩

theorem nested_read_as_written :
    ∃ r data, registry id = .ok r ∧ r.serialize nested = .ok data ∧ data.length = 78 ∧
      (∀ rest, r.deserialize "CommandProcessed" (data ++ rest) = .ok nested) ∧
      ∃ e, r.deserialize "CommandProcessed" (data.take 77) = .error e := by
  obtain ⟨r, hr, hwrites, hreads, hcut, -⟩ := read_as_written
  obtain ⟨data, hdata⟩ := hwrites nested
  have hname : Codec.TextFits "é" := by decide
  have hempty : Codec.TextFits "" := by decide
  have hfits : nested.Fits Fact.Fits := ⟨by decide, hname, ⟨by decide, trivial⟩, hempty, trivial⟩
  have hlength : data.length = 78 := by
    obtain ⟨-, rfl⟩ := Registry.serialize_eq_ok.mp hdata
    decide
  refine ⟨r, data, hr, hdata, hlength, ?_, ?_⟩
  · intro rest
    exact (hreads _ _ _).mpr ⟨rfl, hfits, data, rest, hdata, rfl⟩
  · refine hcut nested data _ hfits hdata (List.take_prefix 77 data) ?_
    intro hsame
    have hshort := congrArg List.length hsame
    rw [List.length_take, hlength] at hshort
    omega

end Banking
end Chronicle
