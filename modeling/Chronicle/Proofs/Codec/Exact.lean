import Chronicle.Codec.Text
import Mathlib.Tactic.NormNum

/-!
# Chronicle.Proofs.Codec.Exact

Formats that read exactly what they write (`Codec.Exact`). A written value is read back whatever
follows it, and whatever is read is the written value with the rest of the input behind it. A format
is exact for the values that fit its lengths. Pieces that are exact make exact formats.

* `exact_word`, `exact_pair`, `exact_convert`, `exact_blob`, `exact_text`: the pieces.
* `decodeTimes_encode`, `of_decodeTimes`: values one after another, each of a format of its own.
-/

namespace Chronicle
namespace Codec

variable {α β : Type}

/-- Reads back what it writes, and reads nothing else. -/
structure Exact (c : Codec α) (Fits : α → Prop) : Prop where
  reads {v : α} (hv : Fits v) (rest : List UInt8) : c.decode (c.encode v ++ rest) = .ok (v, rest)
  written {input rest : List UInt8} {v : α} (h : c.decode input = .ok (v, rest)) :
    Fits v ∧ input = c.encode v ++ rest

/-- A step of reading succeeds if its parts do. -/
theorem bind_eq_ok {e : Except DecodeError α} {f : α → Except DecodeError β} {b : β} :
    (e >>= f) = .ok b ↔ ∃ a, e = .ok a ∧ f a = .ok b := by
  cases e with
  | error failure => simp [bind, Except.bind]
  | ok a => simp [bind, Except.bind]

theorem ok_bind {a : α} {f : α → Except DecodeError β} : (Except.ok a >>= f) = f a := rfl

/-! ## Words -/

theorem length_bytesOf {k n : Nat} : (bytesOf k n).length = k := by
  induction k generalizing n with
  | zero => rfl
  | succ k ih => simp [bytesOf, ih]

theorem valueOf_bytesOf {k n : Nat} (h : n < 256 ^ k) : valueOf (bytesOf k n) = n := by
  induction k generalizing n with
  | zero =>
    simp at h
    simp [bytesOf, valueOf, h]
  | succ k ih =>
    have hhigh : n / 256 < 256 ^ k := by
      rw [Nat.div_lt_iff_lt_mul (by omega)]
      rw [Nat.pow_succ] at h
      exact h
    have hlow : (UInt8.ofNat (n % 256)).toNat = n % 256 := by
      rw [UInt8.toNat_ofNat']
      omega
    simp only [bytesOf, valueOf, ih hhigh, hlow]
    omega

theorem valueOf_lt (bytes : List UInt8) : valueOf bytes < 256 ^ bytes.length := by
  induction bytes with
  | nil => simp [valueOf]
  | cons b rest ih =>
    have hb := b.toNat_lt
    simp only [valueOf, List.length_cons, Nat.pow_succ]
    omega

theorem bytesOf_valueOf (bytes : List UInt8) : bytesOf bytes.length (valueOf bytes) = bytes := by
  induction bytes with
  | nil => rfl
  | cons b rest ih =>
    have hb := b.toNat_lt
    have hlow : (b.toNat + 256 * valueOf rest) % 256 = b.toNat := by omega
    have hhigh : (b.toNat + 256 * valueOf rest) / 256 = valueOf rest := by omega
    simp [valueOf, bytesOf, hlow, hhigh, ih]

theorem exact_word (k : Nat) : (word k).Exact (· < 256 ^ k) where
  reads := by
    intro n hn rest
    have hlength : k ≤ (bytesOf k n ++ rest).length := by simp [length_bytesOf]
    simp only [word, hlength, if_true, List.take_left' length_bytesOf, List.drop_left' length_bytesOf,
      valueOf_bytesOf hn]
  written := by
    intro input rest n h
    simp only [word] at h
    split at h
    · rename_i hlength
      cases h
      have htake : (input.take k).length = k := by simp [hlength]
      have hlt := valueOf_lt (input.take k)
      have hbytes := bytesOf_valueOf (input.take k)
      rw [htake] at hlt hbytes
      refine ⟨hlt, ?_⟩
      simp [word, hbytes]
    · cases h

def Countable (n : Nat) : Prop := n < 0x10000000000000000

instance (n : Nat) : Decidable (Countable n) := inferInstanceAs (Decidable (_ < _))

theorem exact_length : length.Exact Countable := by
  have hsize : Countable = (· < 256 ^ 8) := by
    funext n
    norm_num [Countable]
  rw [hsize]
  exact exact_word 8

/-! ## Pieces put together -/

theorem exact_pair {a : Codec α} {b : Codec β} {F : α → Prop} {G : β → Prop} (ha : a.Exact F)
    (hb : b.Exact G) : (a.pair b).Exact fun v => F v.1 ∧ G v.2 where
  reads := by
    intro v hv rest
    simp only [pair, List.append_assoc, ha.reads hv.1, ok_bind, hb.reads hv.2]
    rfl
  written := by
    intro input rest v h
    simp only [pair, bind_eq_ok] at h
    obtain ⟨⟨x, rest₁⟩, hx, ⟨y, rest₂⟩, hy, h⟩ := h
    cases h
    obtain ⟨hfx, rfl⟩ := ha.written hx
    obtain ⟨hfy, rfl⟩ := hb.written hy
    exact ⟨⟨hfx, hfy⟩, (List.append_assoc _ _ _).symm⟩

theorem exact_convert {c : Codec α} {F : α → Prop} {out : β → α} {back : α → β} (hc : c.Exact F)
    (hback : ∀ v, back (out v) = v) (hout : ∀ x, F x → out (back x) = x) :
    (c.convert out back).Exact fun v => F (out v) where
  reads := by
    intro v hv rest
    simp only [convert, hc.reads hv, ok_bind, hback]
    rfl
  written := by
    intro input rest v h
    simp only [convert, bind_eq_ok] at h
    obtain ⟨⟨x, rest₁⟩, hx, h⟩ := h
    cases h
    obtain ⟨hfx, rfl⟩ := hc.written hx
    simp [convert, hout x hfx, hfx]

/-- Every value is written so that it is read back before the others. -/
theorem decodeTimes_encode {item : Decoder α} {encode : α → List UInt8} (rest : List UInt8) :
    ∀ {xs : List α}, (∀ x ∈ xs, ∀ rest, item (encode x ++ rest) = .ok (x, rest)) →
      decodeTimes item xs.length (xs.flatMap encode ++ rest) = .ok (xs, rest) := by
  intro xs
  induction xs with
  | nil =>
    intro _
    rfl
  | cons x xs ih =>
    intro hitem
    have hx := hitem x (by simp) (xs.flatMap encode ++ rest)
    have hxs := ih fun y hy => hitem y (by simp [hy])
    simp only [List.length_cons, List.flatMap_cons, List.append_assoc, decodeTimes, hx, ok_bind, hxs]
    rfl

/-- What was read one after the other was written one after the other. -/
theorem of_decodeTimes {item : Decoder α} {encode : α → List UInt8} {F : α → Prop}
    (hitem : ∀ input x rest, item input = .ok (x, rest) → F x ∧ input = encode x ++ rest) :
    ∀ {n : Nat} {input rest : List UInt8} {xs : List α},
      decodeTimes item n input = .ok (xs, rest) →
        xs.length = n ∧ (∀ x ∈ xs, F x) ∧ input = xs.flatMap encode ++ rest := by
  intro n
  induction n with
  | zero =>
    intro input rest xs h
    cases h
    simp
  | succ n ih =>
    intro input rest xs h
    simp only [decodeTimes, bind_eq_ok] at h
    obtain ⟨⟨x, rest₁⟩, hx, ⟨more, rest₂⟩, hmore, h⟩ := h
    cases h
    obtain ⟨hfx, rfl⟩ := hitem _ _ _ hx
    obtain ⟨hlength, hfits, rfl⟩ := ih hmore
    refine ⟨by simp [hlength], ?_, by simp⟩
    intro y hy
    rcases List.mem_cons.mp hy with rfl | hy
    · exact hfx
    · exact hfits y hy

/-! ## Bytes, texts and numbers -/

theorem exact_blob : blob.Exact fun bytes => Countable bytes.length where
  reads := by
    intro bytes hbytes rest
    simp only [blob, List.append_assoc, exact_length.reads hbytes, ok_bind]
    simp [pure, Except.pure]
  written := by
    intro input rest bytes h
    simp only [blob, bind_eq_ok] at h
    obtain ⟨⟨n, rest₁⟩, hn, h⟩ := h
    obtain ⟨hcount, rfl⟩ := exact_length.written hn
    split at h
    · rename_i hle
      cases h
      have htake : (rest₁.take n).length = n := by simp [hle]
      simp [blob, htake, hcount]
    · cases h

theorem ofUtf8?_eq_some {bytes : List UInt8} {s : String} :
    ofUtf8? bytes = some s ↔ bytes = utf8 s := by
  constructor
  · intro h
    simp only [ofUtf8?, String.fromUTF8?] at h
    split at h
    · cases h
      rfl
    · cases h
  · rintro rfl
    have hvalid : (⟨(utf8 s).toArray⟩ : ByteArray).IsValidUTF8 := by
      have hsame : (⟨(utf8 s).toArray⟩ : ByteArray) = s.toByteArray := by simp [utf8]
      rw [hsame]
      exact s.isValidUTF8
    simp only [ofUtf8?, String.fromUTF8?, hvalid, dif_pos, Option.some.injEq]
    exact String.toByteArray_inj.mp (by simp [utf8, String.fromUTF8])

/-- The text is short enough to be written behind its length. -/
def TextFits (s : String) : Prop := Countable (utf8 s).length

instance (s : String) : Decidable (TextFits s) := inferInstanceAs (Decidable (Countable _))

theorem exact_text : text.Exact TextFits where
  reads := by
    intro s hs rest
    have hback : ofUtf8? (utf8 s) = some s := ofUtf8?_eq_some.mpr rfl
    simp only [text, exact_blob.reads hs, ok_bind, hback]
    rfl
  written := by
    intro input rest s h
    simp only [text, bind_eq_ok] at h
    obtain ⟨⟨bytes, rest₁⟩, hbytes, h⟩ := h
    obtain ⟨hcount, rfl⟩ := exact_blob.written hbytes
    split at h
    · rename_i s' hs
      cases h
      obtain rfl := ofUtf8?_eq_some.mp hs
      exact ⟨hcount, rfl⟩
    · cases h

theorem exact_int64 : int64.Exact fun _ => True where
  reads := by
    intro n _ rest
    have hsmall : n.toUInt64.toNat < 256 ^ 8 := n.toUInt64.toNat_lt
    simp only [int64, convert, (exact_word 8).reads hsmall, ok_bind]
    simp [pure, Except.pure]
  written := by
    intro input rest n h
    simp only [int64, convert, bind_eq_ok] at h
    obtain ⟨⟨x, rest₁⟩, hx, h⟩ := h
    cases h
    obtain ⟨hlt, rfl⟩ := (exact_word 8).written hx
    have hsame : (UInt64.ofNat x).toNat = x := UInt64.toNat_ofNat_of_lt' hlt
    simp [int64, convert, hsame]

end Codec
end Chronicle
