import Chronicle.Codec.Outcome
import Chronicle.Proofs.Codec.Exact

/-!
# Chronicle.Proofs.Codec.Nesting

The format of failures is exact however deep they nest, and with it that of outcomes. A failure is
read with a bound on its depth that is taken from the length of the input. No case is lost by that:
a failure's bytes are more than the levels that it nests (`decodeFailure_encode`). What is read has
no more than that either, so reading ends (`of_decodeFailure` goes by the same bound).
-/

namespace Chronicle

namespace Failure

mutual

/-- All texts and lists of the failure are short enough to be written behind their lengths. -/
def Fits : Failure → Prop
  | .multiple children => Codec.Countable children.length ∧ AllFit children
  | .forbidden m => Codec.TextFits m
  | .notFound m => Codec.TextFits m
  | .conflict m => Codec.TextFits m
  | .internal m => Codec.TextFits m
  | .invalidInput m => Codec.TextFits m
  | .cancelled m => Codec.TextFits m

def AllFit : List Failure → Prop
  | [] => True
  | f :: rest => Fits f ∧ AllFit rest

end

theorem allFit_iff {fs : List Failure} : AllFit fs ↔ ∀ f ∈ fs, f.Fits := by
  induction fs with
  | nil => simp [AllFit]
  | cons f rest ih => simp [AllFit, ih]

end Failure

namespace Codec

/-- The numbers of alternatives are small. -/
theorem exact_alternative : alternative.Exact (· < 256 ^ 4) := exact_word 4

/-! ## Failures -/

theorem encodeFailures_eq (fs : List Failure) : encodeFailures fs = fs.flatMap encodeFailure := by
  induction fs with
  | nil => simp [encodeFailures]
  | cons f rest ih => simp [encodeFailures, ih]

/-- A failure with a message is its number and the message. -/
theorem encodeFailure_kind {number : Nat} {kind : String → Failure}
    (h : failureKind? number = some kind) (m : String) :
    encodeFailure (kind m) = alternative.encode number ++ text.encode m := by
  unfold failureKind? at h
  split at h <;> cases h <;> rfl

theorem fits_kind {number : Nat} {kind : String → Failure} (h : failureKind? number = some kind)
    (m : String) : (kind m).Fits ↔ TextFits m := by
  unfold failureKind? at h
  split at h <;> cases h <;> exact Iff.rfl

theorem lt_of_failureKind? {number : Nat} {kind : String → Failure}
    (h : failureKind? number = some kind) : number < 256 ^ 4 := by
  unfold failureKind? at h
  split at h <;> first | omega | cases h

/-- A failure has a message, or it lists others. -/
theorem failure_cases (f : Failure) :
    (∃ number kind m, failureKind? number = some kind ∧ f = kind m) ∨
      ∃ children, f = .multiple children := by
  cases f with
  | forbidden m => exact .inl ⟨0, _, m, rfl, rfl⟩
  | notFound m => exact .inl ⟨1, _, m, rfl, rfl⟩
  | conflict m => exact .inl ⟨2, _, m, rfl, rfl⟩
  | internal m => exact .inl ⟨3, _, m, rfl, rfl⟩
  | invalidInput m => exact .inl ⟨4, _, m, rfl, rfl⟩
  | cancelled m => exact .inl ⟨5, _, m, rfl, rfl⟩
  | multiple children => exact .inr ⟨children, rfl⟩

theorem length_encodeFailure_lt {f : Failure} {children : List Failure} (h : f ∈ children) :
    (encodeFailure f).length < (encodeFailure (.multiple children)).length := by
  have hpart : (encodeFailure f).length ≤ (children.flatMap encodeFailure).length :=
    (List.sublist_flatten_of_mem (List.mem_map_of_mem h)).length_le
  have halternative : (alternative.encode 6).length = 4 := length_bytesOf
  simp only [encodeFailure, encodeFailures_eq, List.length_append, halternative]
  omega

/-- A failure is read back with any bound on the depth that its bytes do not reach. -/
theorem decodeFailure_encode {depth : Nat} :
    ∀ {f : Failure}, f.Fits → (encodeFailure f).length < depth → ∀ rest,
      decodeFailure depth (encodeFailure f ++ rest) = .ok (f, rest) := by
  induction depth with
  | zero =>
    intro f _ hdepth
    omega
  | succ depth ih =>
    intro f hfits hdepth rest
    rcases failure_cases f with ⟨number, kind, m, hkind, rfl⟩ | ⟨children, rfl⟩
    · have hm := (fits_kind hkind m).mp hfits
      simp only [encodeFailure_kind hkind, List.append_assoc, decodeFailure,
        exact_alternative.reads (lt_of_failureKind? hkind), ok_bind, hkind, exact_text.reads hm]
      rfl
    · obtain ⟨hcount, hall⟩ := hfits
      have hchildren : decodeTimes (decodeFailure depth) children.length
          (encodeFailures children ++ rest) = .ok (children, rest) := by
        rw [encodeFailures_eq]
        refine decodeTimes_encode rest ?_
        intro child hmem rest
        have hshorter := length_encodeFailure_lt hmem
        exact ih (Failure.allFit_iff.mp hall child hmem) (by omega) rest
      have hsix : (6 : Nat) < 256 ^ 4 := by decide
      simp only [encodeFailure, List.append_assoc, decodeFailure, exact_alternative.reads hsix,
        ok_bind, failureKind?, if_true, exact_length.reads hcount, hchildren]
      rfl

/-- What is read within a bound on the depth was written. -/
theorem of_decodeFailure {depth : Nat} :
    ∀ {input rest : List UInt8} {f : Failure}, decodeFailure depth input = .ok (f, rest) →
      f.Fits ∧ input = encodeFailure f ++ rest := by
  induction depth with
  | zero =>
    intro input rest f h
    cases h
  | succ depth ih =>
    intro input rest f h
    simp only [decodeFailure, bind_eq_ok] at h
    obtain ⟨⟨number, rest₁⟩, hnumber, h⟩ := h
    obtain ⟨-, rfl⟩ := exact_alternative.written hnumber
    cases hkind : failureKind? number with
    | some kind =>
      simp only [hkind, bind_eq_ok] at h
      obtain ⟨⟨m, rest₂⟩, hm, h⟩ := h
      obtain ⟨hfits, rfl⟩ := exact_text.written hm
      cases h
      refine ⟨(fits_kind hkind m).mpr hfits, ?_⟩
      rw [encodeFailure_kind hkind, List.append_assoc]
    | none =>
      simp only [hkind] at h
      split at h
      · rename_i hsix
        subst hsix
        simp only [bind_eq_ok] at h
        obtain ⟨⟨n, rest₂⟩, hn, ⟨children, rest₃⟩, hchildren, h⟩ := h
        obtain ⟨hcount, rfl⟩ := exact_length.written hn
        obtain ⟨rfl, hall, rfl⟩ := of_decodeTimes (fun _ _ _ => ih) hchildren
        cases h
        refine ⟨⟨hcount, Failure.allFit_iff.mpr hall⟩, ?_⟩
        simp only [encodeFailure, encodeFailures_eq, List.append_assoc]
      · cases h

theorem exact_failure : failure.Exact Failure.Fits where
  reads := by
    intro f hf rest
    refine decodeFailure_encode hf ?_ rest
    simp only [failure, List.length_append]
    omega
  written := of_decodeFailure

/-! ## Outcomes -/

theorem exact_uuid : uuid.Exact fun _ => True where
  reads := by
    intro u _ rest
    have hlength : u.toList.length = 16 := by simp [Uuid.toList]
    have hcount : Countable u.toList.length := by
      rw [hlength]
      decide
    have hback : Uuid.ofBytes? u.toList = some u := by
      have hbytes : u.toList.toArray = u.bytes.toArray := Array.toArray_toList
      rw [Uuid.ofBytes?, dif_pos hlength]
      exact congrArg (fun bytes => some (Uuid.mk bytes)) (Vector.toArray_inj.mp hbytes)
    simp only [uuid, exact_blob.reads hcount, ok_bind, hback]
    rfl
  written := by
    intro input rest u h
    simp only [uuid, bind_eq_ok] at h
    obtain ⟨⟨bytes, rest₁⟩, hbytes, h⟩ := h
    obtain ⟨-, rfl⟩ := exact_blob.written hbytes
    refine ⟨trivial, ?_⟩
    cases hu : Uuid.ofBytes? bytes with
    | none =>
      rw [hu] at h
      cases h
    | some u' =>
      rw [hu] at h
      cases h
      unfold Uuid.ofBytes? at hu
      split at hu
      · cases hu
        simp [uuid, Uuid.toList]
      · cases hu

end Codec

/-- The texts and lists of a result are short enough to be written behind their lengths. -/
def Result.Fits : Result → Prop
  | .ok message => Codec.TextFits message
  | .error f => f.Fits

namespace Codec

theorem exact_result : result.Exact Result.Fits where
  reads := by
    intro r hr rest
    have hzero : (0 : Nat) < 256 ^ 4 := by decide
    have hone : (1 : Nat) < 256 ^ 4 := by decide
    cases r with
    | ok message =>
      simp only [result, List.append_assoc, exact_alternative.reads hzero, ok_bind, if_true,
        exact_text.reads hr]
      rfl
    | error f =>
      simp only [result, List.append_assoc, exact_alternative.reads hone, ok_bind, if_true,
        Nat.one_ne_zero, if_false, exact_failure.reads hr]
      rfl
  written := by
    intro input rest r h
    simp only [result, bind_eq_ok] at h
    obtain ⟨⟨number, rest₁⟩, hnumber, h⟩ := h
    obtain ⟨-, rfl⟩ := exact_alternative.written hnumber
    split at h
    · rename_i hzero
      simp only at hzero
      subst hzero
      simp only [bind_eq_ok] at h
      obtain ⟨⟨message, rest₂⟩, hmessage, h⟩ := h
      obtain ⟨hfits, rfl⟩ := exact_text.written hmessage
      cases h
      refine ⟨hfits, ?_⟩
      simp only [result, List.append_assoc]
    · split at h
      · rename_i hone
        simp only at hone
        subst hone
        simp only [bind_eq_ok] at h
        obtain ⟨⟨f, rest₂⟩, hf, h⟩ := h
        obtain ⟨hfits, rfl⟩ := exact_failure.written hf
        cases h
        refine ⟨hfits, ?_⟩
        simp only [result, List.append_assoc]
      · cases h

theorem exact_outcome : outcome.Exact fun o => o.result.Fits := by
  have h : outcome.Exact fun o => True ∧ o.result.Fits :=
    exact_convert (exact_pair exact_uuid exact_result) (fun _ => rfl) (fun _ _ => rfl)
  simpa only [true_and] using h

end Codec
end Chronicle
