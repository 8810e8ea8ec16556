/-!
# Chronicle.Codec.Basic

The byte format of stored payloads. A value is written without any description of its type: words
are little-endian, sequences follow their length in eight bytes, alternatives follow their number in
four. A decoder takes its value from the front of the input and returns the rest, so what follows a
value never matters.

* `Codec`: how one type of value is written and read.
* `Codec.word`, `Codec.pair`, `Codec.convert`, `Codec.repeated`: the pieces that formats are made of.
-/

namespace Chronicle

/-- Where and how a byte sequence stops being UTF-8. -/
structure Utf8Fault where
  /-- The index of the first byte that belongs to no well-formed character. -/
  index : Nat
  /-- How many bytes there are wrong, or `none` when the input ends inside a character. -/
  wrong : Option Nat
  deriving DecidableEq

def Utf8Fault.message (f : Utf8Fault) : String :=
  match f.wrong with
  | some n =>
    "invalid utf-8 sequence of " ++ toString n ++ " bytes from index " ++ toString f.index
  | none => "incomplete utf-8 byte sequence from index " ++ toString f.index

/-- Why bytes are no written form of a value. -/
inductive DecodeError where
  /-- The input ends inside a word. -/
  | wordCut
  /-- The input ends inside the bytes that a length announced. -/
  | bytesCut
  /-- The bytes of a text are not UTF-8. -/
  | notText (fault : Utf8Fault)
  /-- An identifier was announced with another length than sixteen. -/
  | identifierLength (found : Nat)
  /-- No alternative has this number. -/
  | noAlternative (number : Nat) (expected : String)
  deriving DecidableEq

def DecodeError.message : DecodeError → String
  | .wordCut => "io error: unexpected end of file"
  | .bytesCut => "io error: "
  | .notText fault => "string is not valid utf8: " ++ fault.message
  | .identifierLength found =>
    "UUID parsing failed: invalid length: expected 16 bytes, found " ++ toString found
  | .noAlternative number expected =>
    "invalid value: integer `" ++ toString number ++ "`, expected " ++ expected

/-- Takes a value from the front of the input. -/
abbrev Decoder (α : Type) := List UInt8 → Except DecodeError (α × List UInt8)

structure Codec (α : Type) where
  encode : α → List UInt8
  decode : Decoder α

namespace Codec

variable {α β : Type}

/-- The low `k` bytes of a number, the lowest first. -/
def bytesOf : (k : Nat) → Nat → List UInt8
  | 0, _ => []
  | k + 1, n => UInt8.ofNat (n % 256) :: bytesOf k (n / 256)

/-- The number that bytes stand for, the lowest first. -/
def valueOf : List UInt8 → Nat
  | [] => 0
  | b :: rest => b.toNat + 256 * valueOf rest

/-- Numbers below `256 ^ k`, in `k` bytes. -/
def word (k : Nat) : Codec Nat where
  encode n := bytesOf k n
  decode input :=
    if k ≤ input.length then .ok (valueOf (input.take k), input.drop k) else .error .wordCut

def pair (a : Codec α) (b : Codec β) : Codec (α × β) where
  encode v := a.encode v.1 ++ b.encode v.2
  decode input := do
    let (x, rest) ← a.decode input
    let (y, rest) ← b.decode rest
    return ((x, y), rest)

/-- The same format for a type that holds the same values. -/
def convert (c : Codec α) (out : β → α) (back : α → β) : Codec β where
  encode v := c.encode (out v)
  decode input := do
    let (x, rest) ← c.decode input
    return (back x, rest)

/-- Exactly `n` values, one after another. -/
def decodeTimes (item : Decoder α) : (n : Nat) → Decoder (List α)
  | 0, input => .ok ([], input)
  | n + 1, input => do
    let (x, rest) ← item input
    let (xs, rest) ← decodeTimes item n rest
    return (x :: xs, rest)

def length : Codec Nat := word 8

/-- The number of an alternative, in four bytes. -/
def alternative : Codec Nat := word 4

def blob : Codec (List UInt8) where
  encode bytes := length.encode bytes.length ++ bytes
  decode input := do
    let (n, rest) ← length.decode input
    if n ≤ rest.length then return (rest.take n, rest.drop n) else .error .bytesCut

def int64 : Codec Int64 :=
  (word 8).convert (fun n => n.toUInt64.toNat) (fun n => (UInt64.ofNat n).toInt64)

end Codec

end Chronicle
