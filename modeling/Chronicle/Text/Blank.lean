/-!
# Chronicle.Text.Blank

The characters with Unicode's property `White_Space`, and texts that consist of them.
-/

namespace Chronicle
namespace Text

/-- The code points of the property, as ranges. -/
def blankRanges : List (Nat × Nat) :=
  [(0x09, 0x0D), (0x20, 0x20), (0x85, 0x85), (0xA0, 0xA0), (0x1680, 0x1680), (0x2000, 0x200A),
   (0x2028, 0x2029), (0x202F, 0x202F), (0x205F, 0x205F), (0x3000, 0x3000)]

def isBlankChar (c : Char) : Bool :=
  blankRanges.any fun range => range.1 ≤ c.toNat && c.toNat ≤ range.2

/-- Whether nothing is left of a text without the blanks at its ends. -/
def isBlank (text : String) : Bool := text.toList.all isBlankChar

end Text
end Chronicle
