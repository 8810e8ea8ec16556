import Chronicle.Failure

/-!
# Chronicle.Proofs.Combining

Failures are trees, and combining keeps of a tree its leaves from left to right. Among the failures
with given leaves there is one that does not nest (`NormalForm.unique`), and that is what combining
and collecting yield (`Failure.combine_normal_forms`). So combining is associative, and the failure
that lists nothing is neutral for the failures in normal form and for no others.
-/

namespace Chronicle
namespace Failure

variable {a b f g : Failure} {fs ls : List Failure}

/-- The failure lists no others. -/
def Single : Failure → Prop
  | .multiple _ => False
  | _ => True

/-- A single failure, or a list of single failures that are none or at least two. -/
def Normal : Failure → Prop
  | .multiple children => children.length ≠ 1 ∧ ∀ f ∈ children, f.Single
  | _ => True

/-! ## Leaves -/

@[simp] theorem leavesOf_eq (fs : List Failure) : leavesOf fs = fs.flatMap leaves := by
  induction fs with
  | nil => simp [leavesOf]
  | cons f rest ih => simp [leavesOf, ih]

@[simp] theorem leaves_multiple (fs : List Failure) :
    (multiple fs).leaves = fs.flatMap leaves := by
  simp [leaves]

theorem Single.leaves_eq (h : f.Single) : f.leaves = [f] := by
  cases f with
  | multiple children => exact h.elim
  | _ => simp [leaves]

theorem flatMap_leaves_of_single (h : ∀ f ∈ ls, f.Single) : ls.flatMap leaves = ls := by
  induction ls with
  | nil => rfl
  | cons f rest ih =>
    have hrest := ih fun g hg => h g (List.mem_cons_of_mem _ hg)
    rw [List.flatMap_cons, (h f List.mem_cons_self).leaves_eq, hrest]
    rfl

mutual

/-- The leaves of a failure list no others, however deep it nests. -/
theorem single_of_mem_leaves : ∀ {a : Failure}, f ∈ a.leaves → f.Single
  | .multiple children, h => single_of_mem_leavesOf (by simpa [leaves] using h)
  | .forbidden _, h | .notFound _, h | .conflict _, h | .internal _, h | .invalidInput _, h
  | .cancelled _, h => by
    simp only [leaves, List.mem_singleton] at h
    subst h
    trivial

theorem single_of_mem_leavesOf : ∀ {fs : List Failure}, f ∈ fs.flatMap leaves → f.Single
  | [], h => by simp at h
  | g :: rest, h => by
    rw [List.flatMap_cons, List.mem_append] at h
    rcases h with h | h
    · exact single_of_mem_leaves h
    · exact single_of_mem_leavesOf h

end

/-! ## Normal forms -/

/-- The failure is in normal form and has these leaves. -/
structure NormalForm (ls : List Failure) (f : Failure) : Prop where
  normal : f.Normal
  leaves : f.leaves = ls

theorem ofLeaves_of_length_ne_one (h : ls.length ≠ 1) : ofLeaves ls = .multiple ls := by
  match ls with
  | [] | _ :: _ :: _ => rfl
  | [f] => exact absurd rfl h

theorem normalForm_ofLeaves (h : ∀ f ∈ ls, f.Single) : NormalForm ls (ofLeaves ls) := by
  by_cases hlength : ls.length = 1
  · obtain ⟨f, rfl⟩ := List.length_eq_one_iff.mp hlength
    have hf := h f List.mem_cons_self
    refine ⟨?_, hf.leaves_eq⟩
    cases f with
    | multiple children => exact hf.elim
    | _ => trivial
  · rw [ofLeaves_of_length_ne_one hlength]
    exact ⟨⟨hlength, h⟩, by rw [leaves_multiple, flatMap_leaves_of_single h]⟩

theorem Normal.eq_ofLeaves (h : f.Normal) : f = ofLeaves f.leaves := by
  cases f with
  | multiple children =>
    obtain ⟨hlength, hsingle⟩ := h
    rw [leaves_multiple, flatMap_leaves_of_single hsingle, ofLeaves_of_length_ne_one hlength]
  | _ => simp [leaves, ofLeaves]

theorem NormalForm.unique (hf : NormalForm ls f) (hg : NormalForm ls g) : f = g := by
  rw [hf.normal.eq_ofLeaves, hg.normal.eq_ofLeaves, hf.leaves, hg.leaves]

theorem NormalForm.iff_eq (hf : NormalForm ls f) : NormalForm ls g ↔ g = f := by
  constructor
  · intro hg
    exact hg.unique hf
  · rintro rfl
    exact hf

/-! ## Combining -/

theorem normalForm_combine (a b : Failure) : NormalForm (a.leaves ++ b.leaves) (a.combine b) := by
  refine normalForm_ofLeaves fun f hf => ?_
  rcases List.mem_append.mp hf with h | h
  · exact single_of_mem_leaves h
  · exact single_of_mem_leaves h

theorem normalForm_none : NormalForm [] none := ⟨⟨by decide, nofun⟩, by simp [none]⟩

theorem normalForm_combine_none (a : Failure) : NormalForm a.leaves (a.combine none) := by
  simpa [normalForm_none.leaves] using normalForm_combine a none

theorem normalForm_none_combine (a : Failure) : NormalForm a.leaves (none.combine a) := by
  simpa [normalForm_none.leaves] using normalForm_combine none a

/-- Folding further failures into one in normal form. -/
theorem NormalForm.foldl_combine (h : NormalForm ls f) (fs : List Failure) :
    NormalForm (ls ++ fs.flatMap Failure.leaves) (fs.foldl combine f) := by
  induction fs generalizing ls f with
  | nil => simpa using h
  | cons g rest ih =>
    have hnext := normalForm_combine f g
    rw [h.leaves] at hnext
    simpa [List.append_assoc] using ih hnext

theorem normalForm_collect (fs : List Failure) : NormalForm (fs.flatMap leaves) (collect fs) :=
  normalForm_none.foldl_combine fs

theorem combine_assoc (a b c : Failure) : (a.combine b).combine c = a.combine (b.combine c) := by
  have hleft := normalForm_combine (a.combine b) c
  have hright := normalForm_combine a (b.combine c)
  rw [(normalForm_combine a b).leaves, List.append_assoc] at hleft
  rw [(normalForm_combine b c).leaves] at hright
  exact hleft.unique hright

/-- A failure is its own normal form only if it is in normal form. -/
theorem NormalForm.eq_self_iff (h : NormalForm a.leaves f) : f = a ↔ a.Normal := by
  constructor
  · rintro rfl
    exact h.normal
  · intro ha
    exact h.unique ⟨ha, rfl⟩

/-- Two failures combined have the leaves of both, one after the other, and do not nest. What is
combined with a third makes no difference. Collecting failures makes of their leaves the one failure
that does not nest, and so does combining a failure with none, on either side. That gives the failure
itself back exactly if it did not nest. -/
theorem combine_normal_forms (a b c : Failure) (fs : List Failure) :
    (a.combine b).leaves = a.leaves ++ b.leaves ∧ (a.combine b).Normal ∧
    (a.combine b).combine c = a.combine (b.combine c) ∧
    (∀ f, NormalForm (fs.flatMap leaves) f ↔ f = collect fs) ∧
    (∀ f, NormalForm a.leaves f ↔ f = a.combine none) ∧
    (∀ f, NormalForm a.leaves f ↔ f = none.combine a) ∧
    (a.combine none = a ↔ a.Normal) ∧ (none.combine a = a ↔ a.Normal) := by
  have hcombined := normalForm_combine a b
  have hright := normalForm_combine_none a
  have hleft := normalForm_none_combine a
  exact ⟨hcombined.leaves, hcombined.normal, combine_assoc a b c,
    fun f => (normalForm_collect fs).iff_eq, fun f => hright.iff_eq, fun f => hleft.iff_eq,
    hright.eq_self_iff, hleft.eq_self_iff⟩

example : (multiple [.multiple [.conflict "a"]]).combine none = .conflict "a" := by decide

end Failure
end Chronicle
