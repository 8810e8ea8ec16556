import Chronicle.Outcome

/-!
# Chronicle.Proofs.Command.Identity

Commands with different identities have different outcome streams: the written form of an identity
keeps all sixteen bytes (`Uuid.render_injective`), so the stream names the command.
-/

namespace Chronicle
namespace Uuid

theorem hexDigit_injective {m n : Nat} (hm : m < 16) (hn : n < 16)
    (h : hexDigit m = hexDigit n) : m = n := by
  have hall : ∀ a b : Fin 16, hexDigit a = hexDigit b → a = b := by decide
  exact congrArg Fin.val (hall ⟨m, hm⟩ ⟨n, hn⟩ h)

theorem hexOfBytes_injective : ∀ {a b : List UInt8}, hexOfBytes a = hexOfBytes b → a = b
  | [], [], _ => rfl
  | [], _ :: _, h => by cases h
  | _ :: _, [], h => by cases h
  | x :: xs, y :: ys, h => by
    simp only [hexOfBytes, List.flatMap_cons, List.cons_append, List.nil_append,
      List.cons.injEq] at h
    obtain ⟨hhigh, hlow, hrest⟩ := h
    have hx := x.toNat_lt
    have hy := y.toNat_lt
    have hdiv := hexDigit_injective (by omega) (by omega) hhigh
    have hmod := hexDigit_injective (Nat.mod_lt _ (by omega)) (Nat.mod_lt _ (by omega)) hlow
    have : x = y := UInt8.toNat_inj.mp (by omega)
    rw [this, hexOfBytes_injective hrest]

theorem length_hexOfBytes (bytes : List UInt8) : (hexOfBytes bytes).length = 2 * bytes.length := by
  induction bytes with
  | nil => rfl
  | cons b rest ih =>
    simp only [hexOfBytes, List.flatMap_cons, List.length_append, List.length_cons,
      List.length_nil] at ih ⊢
    omega

theorem length_toList (u : Uuid) : u.toList.length = 16 := by
  simp [toList]

/-- Groups of known lengths can be told apart when they are joined. -/
theorem intercalate_injective {sep : List Char} : ∀ {xs ys : List (List Char)},
    xs.map List.length = ys.map List.length → sep.intercalate xs = sep.intercalate ys → xs = ys
  | [], [], _, _ => rfl
  | [], _ :: _, hlen, _ => by cases hlen
  | _ :: _, [], hlen, _ => by cases hlen
  | [x], [y], _, h => by simpa using h
  | [_], _ :: _ :: _, hlen, _ => by simp at hlen
  | _ :: _ :: _, [_], hlen, _ => by simp at hlen
  | x :: x' :: xs, y :: y' :: ys, hlen, h => by
    simp only [List.intercalate_cons_cons, List.append_assoc] at h
    rw [List.map_cons, List.map_cons (f := List.length) (a := y)] at hlen
    obtain ⟨hx, htail⟩ := List.cons.inj hlen
    obtain ⟨rfl, hrest⟩ := List.append_inj h hx
    rw [intercalate_injective htail (List.append_cancel_left hrest)]

theorem groups_eq {digits : List Char} (h : digits.length = 32) :
    [(digits.drop 0).take 8, (digits.drop 8).take 4, (digits.drop 12).take 4,
      (digits.drop 16).take 4, (digits.drop 20).take 12].flatten = digits := by
  have hlast : (digits.drop 20).take 12 = digits.drop 20 := by
    rw [List.take_of_length_le]
    rw [List.length_drop]
    omega
  have h16 := List.take_append_drop 4 (digits.drop 16)
  have h12 := List.take_append_drop 4 (digits.drop 12)
  have h8 := List.take_append_drop 4 (digits.drop 8)
  rw [List.drop_drop] at h16 h12 h8
  simp only [List.flatten_cons, List.flatten_nil, List.append_nil, List.drop_zero, hlast]
  rw [h16, h12, h8, List.take_append_drop]

theorem render_injective {u v : Uuid} (h : u.render = v.render) : u = v := by
  have hu : (hexOfBytes u.toList).length = 32 := by rw [length_hexOfBytes, length_toList]
  have hv : (hexOfBytes v.toList).length = 32 := by rw [length_hexOfBytes, length_toList]
  have hgroups := congrArg String.toList h
  simp only [render, String.toList_intercalate, List.map_cons, List.map_nil,
    String.toList_ofList] at hgroups
  have hsame := intercalate_injective (by simp [hu, hv]) hgroups
  have hdigits := congrArg List.flatten hsame
  rw [groups_eq hu, groups_eq hv] at hdigits
  have hbytes : u.bytes = v.bytes :=
    Vector.toList_inj.mp (hexOfBytes_injective hdigits)
  cases u
  cases v
  cases hbytes
  rfl

end Uuid

/-- A stream holds the outcome of one command. -/
theorem Outcome.streamOf_injective {a b : CommandId} (h : streamOf a = streamOf b) : a = b :=
  Uuid.render_injective (congrArg StreamId.key h)

end Chronicle
