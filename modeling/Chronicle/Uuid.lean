/-!
# Chronicle.Uuid

128-bit identifiers: sixteen bytes, written as 8-4-4-4-12 hexadecimal digits in lower case. Reading
accepts upper case as well.
-/

namespace Chronicle

structure Uuid where
  bytes : Vector UInt8 16
  deriving DecidableEq

namespace Uuid

def hexDigit (n : Nat) : Char :=
  if n < 10 then Char.ofNat ('0'.toNat + n) else Char.ofNat ('a'.toNat + (n - 10))

/-- The number that a digit of either case stands for. -/
def hexValue? (c : Char) : Option Nat :=
  if '0' ≤ c ∧ c ≤ '9' then some (c.toNat - '0'.toNat)
  else if 'a' ≤ c ∧ c ≤ 'f' then some (c.toNat - 'a'.toNat + 10)
  else if 'A' ≤ c ∧ c ≤ 'F' then some (c.toNat - 'A'.toNat + 10)
  else none

def hexOfBytes (bytes : List UInt8) : List Char :=
  bytes.flatMap fun b => [hexDigit (b.toNat / 16), hexDigit (b.toNat % 16)]

/-- The bytes that an even number of digits stands for. -/
def bytesOfHex? : List Char → Option (List UInt8)
  | [] => some []
  | high :: low :: rest => do
    let h ← hexValue? high
    let l ← hexValue? low
    let bytes ← bytesOfHex? rest
    some (UInt8.ofNat (16 * h + l) :: bytes)
  | [_] => none

/-- The identifier with these sixteen bytes. -/
def ofBytes? (bytes : List UInt8) : Option Uuid :=
  if h : bytes.length = 16 then some ⟨⟨bytes.toArray, by simpa using h⟩⟩ else none

/-- The identifier whose bytes, read as one number from the most significant byte on, are `n`. -/
def ofNat (n : Nat) : Uuid :=
  ⟨Vector.ofFn fun i : Fin 16 => UInt8.ofNat (n / Nat.pow 256 (15 - i.val))⟩

def toList (u : Uuid) : List UInt8 := u.bytes.toList

/-- Five groups of 8, 4, 4, 4 and 12 digits, with dashes between. -/
def render (u : Uuid) : String :=
  let digits := hexOfBytes u.toList
  let group (start len : Nat) := String.ofList ((digits.drop start).take len)
  String.intercalate "-" [group 0 8, group 8 4, group 12 4, group 16 4, group 20 12]

def parse? (text : String) : Option Uuid := do
  let groups := text.splitOn "-"
  guard (groups.map String.length = [8, 4, 4, 4, 12])
  let bytes ← bytesOfHex? (groups.flatMap String.toList)
  ofBytes? bytes

end Uuid

end Chronicle
