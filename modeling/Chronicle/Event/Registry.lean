import Chronicle.Event.Basic
import Chronicle.Text.Quoted

/-!
# Chronicle.Event.Registry

A registry binds each tag to one payload type and converts payloads to bytes and back under their
tags. The first type registered under a tag keeps it. Outcomes are bound from the start.
-/

namespace Chronicle

/-- The type bound to a tag, and the name that diagnostics give it. -/
structure Binding (A : Type) [Vocabulary A] where
  kind : PayloadKind A
  name : String

/-- Tags and the payload types bound to them. -/
structure Registry (A : Type) [Vocabulary A] where
  bindings : List (String × Binding A)

namespace Registry

variable {A : Type} [Vocabulary A]

/-- Binds outcomes only. -/
def empty : Registry A := ⟨[(Outcome.tag, ⟨.outcome, Outcome.tag⟩)]⟩

def find? (r : Registry A) (tag : String) : Option (Binding A) := r.bindings.lookup tag

def contains (r : Registry A) (tag : String) : Bool := (r.find? tag).isSome

/-- Binds a payload type to its tag. It may be bound already, but no other type may. -/
def register (r : Registry A) (kind : PayloadKind A) (name : String) :
    Except EventError (Registry A) :=
  let tag := Payload.tagOf kind
  match r.find? tag with
  | some bound => if bound.kind = kind then .ok r else .error (.duplicateType tag)
  | none => .ok ⟨r.bindings ++ [(tag, ⟨kind, name⟩)]⟩

def registerAll (r : Registry A) : List (PayloadKind A × String) → Except EventError (Registry A)
  | [] => .ok r
  | (kind, name) :: rest => do (← r.register kind name).registerAll rest

/-- The bound tags, in code point order. -/
def tags (r : Registry A) : List String := (r.bindings.map (·.1)).mergeSort fun a b => a ≤ b

def describe (r : Registry A) : String :=
  "PayloadRegistry \x7b event_types: [" ++ String.intercalate ", " (r.tags.map Text.quote) ++ "] \x7d"

/-- The bytes of a payload whose tag is bound to its own type. -/
def serialize (r : Registry A) (p : Payload A) : Except EventError (List UInt8) :=
  match r.find? p.tag with
  | none => .error (.unknownType p.tag)
  | some bound =>
    if bound.kind = p.kind then .ok p.encode
    else .error (.serialization ("payload tagged " ++ p.tag ++ " is not a " ++ bound.name))

/-- The payload that bytes stand for under a tag. -/
def deserialize (r : Registry A) (tag : String) (data : List UInt8) :
    Except EventError (Payload A) :=
  match r.find? tag with
  | none => .error (.unknownType tag)
  | some bound =>
    match Payload.decode bound.kind data with
    | .ok (p, _) => .ok p
    | .error e => .error (.deserialization e.message)

/-- The registry as a serializer. It notes nothing beside a payload and heeds nothing that was. -/
def serializer {M : Type} (r : Registry A) : Serializer A M where
  serialize p := do return ⟨p.tag, ← r.serialize p, none⟩
  deserialize e := r.deserialize e.tag e.data

end Registry

end Chronicle
