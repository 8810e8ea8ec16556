import Chronicle.Codec.Text
import Chronicle.Outcome

/-!
# Chronicle.Codec.Outcome

The byte format of command outcomes: identifiers, failures of any nesting, results, and the two
together.
-/

namespace Chronicle
namespace Codec

/-- Identifiers: sixteen bytes behind their length. -/
def uuid : Codec Uuid where
  encode u := blob.encode u.toList
  decode input := do
    let (bytes, rest) ← blob.decode input
    match Uuid.ofBytes? bytes with
    | some u => return (u, rest)
    | none => .error (.identifierLength bytes.length)

mutual

/-- The number of the kind of failure, then its message or its children. -/
def encodeFailure : Failure → List UInt8
  | .forbidden m => alternative.encode 0 ++ text.encode m
  | .notFound m => alternative.encode 1 ++ text.encode m
  | .conflict m => alternative.encode 2 ++ text.encode m
  | .internal m => alternative.encode 3 ++ text.encode m
  | .invalidInput m => alternative.encode 4 ++ text.encode m
  | .cancelled m => alternative.encode 5 ++ text.encode m
  | .multiple children =>
    alternative.encode 6 ++ length.encode children.length ++ encodeFailures children

def encodeFailures : List Failure → List UInt8
  | [] => []
  | f :: rest => encodeFailure f ++ encodeFailures rest

end

/-- The kind of failure with a message that has this number. -/
def failureKind? : Nat → Option (String → Failure)
  | 0 => some .forbidden
  | 1 => some .notFound
  | 2 => some .conflict
  | 3 => some .internal
  | 4 => some .invalidInput
  | 5 => some .cancelled
  | _ => none

/-- Reads a failure that nests at most `depth` deep. -/
def decodeFailure : (depth : Nat) → Decoder Failure
  | 0, _ => .error .wordCut
  | depth + 1, input => do
    let (number, rest) ← alternative.decode input
    match failureKind? number with
    | some kind =>
      let (m, rest) ← text.decode rest
      return (kind m, rest)
    | none =>
      if number = 6 then
        let (n, rest) ← length.decode rest
        let (children, rest) ← decodeTimes (decodeFailure depth) n rest
        return (.multiple children, rest)
      else .error (.noAlternative number "variant index 0 <= i < 7")

/-- Failures. A failure is longer than it is deep, so the input's length bounds its depth. -/
def failure : Codec Failure where
  encode := encodeFailure
  decode input := decodeFailure (input.length + 1) input

def result : Codec Result where
  encode
    | .ok message => alternative.encode 0 ++ text.encode message
    | .error f => alternative.encode 1 ++ failure.encode f
  decode input := do
    let (number, rest) ← alternative.decode input
    if number = 0 then
      let (message, rest) ← text.decode rest
      return (.ok message, rest)
    else if number = 1 then
      let (f, rest) ← failure.decode rest
      return (.error f, rest)
    else .error (.noAlternative number "`Ok` or `Err`")

def outcome : Codec Outcome :=
  (uuid.pair result).convert (fun o => (o.command, o.result)) (fun v => ⟨v.1, v.2⟩)

end Codec
end Chronicle
