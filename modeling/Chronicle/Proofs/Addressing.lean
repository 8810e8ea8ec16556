import Mathlib.Data.List.TakeWhile
import Chronicle.StreamId

/-!
# Chronicle.Proofs.Addressing

Stream addresses and their texts. A text without a slash is no address. Any other text is a category
without a slash, a slash and a key (`exists_render`), and reading it gives these two back unless one
of them is empty (`parse_render`). An address that is put together from any two texts is therefore
not always read from its own text (`StreamId.parse_iff`).
-/

namespace Chronicle
namespace StreamId

variable {t : String} {s : StreamId}

/-- Neither part of the address is empty, and its category has no slash. -/
def Plain (s : StreamId) : Prop := s.category ≠ "" ∧ '/' ∉ s.category.toList ∧ s.key ≠ ""

@[simp] theorem toList_render (s : StreamId) :
    s.render.toList = s.category.toList ++ '/' :: s.key.toList := by
  simp [render]

/-- The first slash of a text divides it. -/
theorem exists_render (h : '/' ∈ t.toList) :
    ∃ s : StreamId, s.render = t ∧ '/' ∉ s.category.toList := by
  obtain ⟨before, after, hsplit, hfirst⟩ := List.eq_append_cons_of_mem h
  refine ⟨⟨String.ofList before, String.ofList after⟩, String.toList_injective ?_, ?_⟩
  · simp [hsplit]
  · simpa using hfirst

theorem parse_of_no_slash (h : '/' ∉ t.toList) : parse t = .error (.noSlash t) := by
  have hnone : t.toList.dropWhile (· != '/') = [] := by
    rw [List.dropWhile_eq_nil_iff]
    intro c hc
    rw [bne_iff_ne]
    rintro rfl
    exact h hc
  rw [parse, hnone]

theorem parse_render (h : '/' ∉ s.category.toList) :
    parse s.render = if s.category = "" ∨ s.key = "" then .error .emptyPart else .ok s := by
  have hbefore : ∀ c ∈ s.category.toList, (c != '/') = true := by
    intro c hc
    rw [bne_iff_ne]
    rintro rfl
    exact h hc
  have hkey : s.render.toList.dropWhile (· != '/') = '/' :: s.key.toList := by
    rw [toList_render, List.dropWhile_append_of_pos hbefore]
    rfl
  have hcategory : s.render.toList.takeWhile (· != '/') = s.category.toList := by
    rw [toList_render, List.takeWhile_append_of_pos hbefore]
    simp
  rw [parse, hkey]
  simp only [hcategory, Bool.or_eq_true, List.isEmpty_iff, String.toList_eq_nil_iff,
    String.ofList_toList]

theorem parse_eq_ok_iff : parse t = .ok s ↔ s.render = t ∧ s.Plain := by
  constructor
  · intro h
    by_cases hslash : '/' ∈ t.toList
    · obtain ⟨s', rfl, hfirst⟩ := exists_render hslash
      rw [parse_render hfirst] at h
      split at h
      · cases h
      · rename_i hparts
        cases h
        obtain ⟨hcategory, hkey⟩ := not_or.mp hparts
        exact ⟨rfl, hcategory, hfirst, hkey⟩
    · rw [parse_of_no_slash hslash] at h
      cases h
  · rintro ⟨rfl, hcategory, hfirst, hkey⟩
    rw [parse_render hfirst, if_neg (not_or.mpr ⟨hcategory, hkey⟩)]

theorem parse_eq_error_iff {e : ParseError} : parse t = .error e ↔
    ('/' ∉ t.toList ∧ e = .noSlash t) ∨
    ∃ category key, t = category ++ "/" ++ key ∧ '/' ∉ category.toList ∧
      (category = "" ∨ key = "") ∧ e = .emptyPart := by
  constructor
  · intro h
    by_cases hslash : '/' ∈ t.toList
    · obtain ⟨s, rfl, hfirst⟩ := exists_render hslash
      rw [parse_render hfirst] at h
      split at h
      · rename_i hparts
        cases h
        exact .inr ⟨s.category, s.key, rfl, hfirst, hparts, rfl⟩
      · cases h
    · rw [parse_of_no_slash hslash] at h
      cases h
      exact .inl ⟨hslash, rfl⟩
  · rintro (⟨hslash, rfl⟩ | ⟨category, key, rfl, hfirst, hparts, rfl⟩)
    · exact parse_of_no_slash hslash
    · exact (parse_render (s := ⟨category, key⟩) hfirst).trans (if_pos hparts)

/-- A text is read as an address exactly if it is the address's text, the category has characters but
no slash, and the key has characters. It is refused exactly if it has no slash, or nothing before its
first slash or after it. An address is read from its own text under the same conditions on its parts,
whatever they were put together from. -/
theorem parse_iff (t : String) (s : StreamId) :
    (parse t = .ok s ↔
      s.render = t ∧ '/' ∉ s.category.toList ∧ s.category ≠ "" ∧ s.key ≠ "") ∧
    ((∃ e, parse t = .error e) ↔
      '/' ∉ t.toList ∨ ∃ category key, t = category ++ "/" ++ key ∧ '/' ∉ category.toList ∧
        (category = "" ∨ key = "")) ∧
    (parse s.render = .ok s ↔ s.category ≠ "" ∧ '/' ∉ s.category.toList ∧ s.key ≠ "") := by
  refine ⟨?_, ?_, ?_⟩
  · rw [parse_eq_ok_iff, Plain, and_left_comm (b := '/' ∉ _)]
  · constructor
    · rintro ⟨e, h⟩
      rcases parse_eq_error_iff.mp h with ⟨hslash, -⟩ | ⟨category, key, ht, hfirst, hparts, -⟩
      · exact .inl hslash
      · exact .inr ⟨category, key, ht, hfirst, hparts⟩
    · rintro (hslash | ⟨category, key, ht, hfirst, hparts⟩)
      · exact ⟨_, parse_eq_error_iff.mpr (.inl ⟨hslash, rfl⟩)⟩
      · exact ⟨_, parse_eq_error_iff.mpr (.inr ⟨category, key, ht, hfirst, hparts, rfl⟩)⟩
  · rw [parse_eq_ok_iff]
    exact and_iff_right rfl

example : parse (StreamId.render ⟨"a/b", "c"⟩) = .ok ⟨"a", "b/c"⟩ := by rfl

end StreamId
end Chronicle
