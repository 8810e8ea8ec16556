import Chronicle.Uuid

/-!
# Chronicle.Text.Numbered

Texts in which identifiers are replaced by numbers, counted from one by first appearance. Two
sessions that differ only in their random identifiers read alike that way.
-/

namespace Chronicle
namespace Text

/-- How many characters a written identifier has. -/
def uuidLength : Nat := 36

/-- Replaces the identifiers behind the next `skip` characters, which are left out. `seen` holds the
identifiers numbered so far, the first one first. -/
def numberFrom (seen : List Uuid) : (skip : Nat) → List Char → List Char × List Uuid
  | _, [] => ([], seen)
  | skip + 1, _ :: rest => numberFrom seen skip rest
  | 0, c :: rest =>
    match Uuid.parse? (String.ofList ((c :: rest).take uuidLength)) with
    | some u =>
      let place := seen.idxOf u
      let seen := if place = seen.length then seen ++ [u] else seen
      let (done, seen) := numberFrom seen (uuidLength - 1) rest
      ('#' :: (toString (place + 1)).toList ++ done, seen)
    | none =>
      let (done, seen) := numberFrom seen 0 rest
      (c :: done, seen)

/-- Replaces the identifiers in a text. -/
def number (text : String) (seen : List Uuid) : String × List Uuid :=
  let (done, seen) := numberFrom seen 0 text.toList
  (String.ofList done, seen)

end Text
end Chronicle
