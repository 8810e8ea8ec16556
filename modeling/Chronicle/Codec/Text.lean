import Chronicle.Codec.Basic

/-!
# Chronicle.Codec.Text

Texts are written as their UTF-8 bytes behind a length. Bytes that are not UTF-8 are refused with
the place of the first fault: `firstFault?` walks over the well-formed characters and says what is
wrong with the first one that is not.
-/

namespace Chronicle
namespace Codec

def continues (b : UInt8) : Bool := 0x80 ≤ b && b ≤ 0xBF

/-- Whether `second` may follow the first byte of a character of three or four bytes: it excludes
forms that are too long, surrogates, and numbers beyond the last code point. -/
def mayFollow (first second : UInt8) : Bool :=
  if first == 0xE0 then 0xA0 ≤ second && second ≤ 0xBF
  else if first == 0xED then 0x80 ≤ second && second ≤ 0x9F
  else if first == 0xF0 then 0x90 ≤ second && second ≤ 0xBF
  else if first == 0xF4 then 0x80 ≤ second && second ≤ 0x8F
  else continues second

/-- Of the bytes that continue a character: the first fault's distance from the first byte, and
whether the input ends there. -/
inductive Tail where
  | complete
  | wrongAfter (good : Nat)
  | cut
  deriving DecidableEq

/-- Checks `n` continuation bytes behind `good` bytes that are right. -/
def checkTail (good : Nat) : (n : Nat) → List UInt8 → Tail
  | 0, _ => .complete
  | _ + 1, [] => .cut
  | n + 1, b :: rest => if continues b then checkTail (good + 1) n rest else .wrongAfter good

/-- Length of the character that `first` begins, and how the bytes behind it continue it. -/
def checkChar (first : UInt8) (rest : List UInt8) : Nat × Tail :=
  if first < 0x80 then (1, .complete)
  else if 0xC2 ≤ first && first ≤ 0xDF then (2, checkTail 1 1 rest)
  else if 0xE0 ≤ first && first ≤ 0xF4 then
    let width := if first ≤ 0xEF then 3 else 4
    match rest with
    | [] => (width, .cut)
    | second :: rest =>
      if mayFollow first second then (width, checkTail 2 (width - 2) rest)
      else (width, .wrongAfter 1)
  else (1, .wrongAfter 1)

/-- The first fault, `skip` bytes of a character that is right being still to be passed over. -/
def faultFrom (index skip : Nat) : List UInt8 → Option Utf8Fault
  | [] => none
  | b :: rest =>
    if 0 < skip then faultFrom (index + 1) (skip - 1) rest
    else
      match checkChar b rest with
      | (width, .complete) => faultFrom (index + 1) (width - 1) rest
      | (_, .wrongAfter good) => some ⟨index, some good⟩
      | (_, .cut) => some ⟨index, none⟩

/-- The first place where the bytes are not UTF-8. -/
def firstFault? (bytes : List UInt8) : Option Utf8Fault := faultFrom 0 0 bytes

def utf8 (text : String) : List UInt8 := text.toByteArray.data.toList

def ofUtf8? (bytes : List UInt8) : Option String := String.fromUTF8? ⟨bytes.toArray⟩

def text : Codec String where
  encode s := blob.encode (utf8 s)
  decode input := do
    let (bytes, rest) ← blob.decode input
    match ofUtf8? bytes with
    | some s => return (s, rest)
    | none => .error (.notText ((firstFault? bytes).getD ⟨0, none⟩))

end Codec
end Chronicle
