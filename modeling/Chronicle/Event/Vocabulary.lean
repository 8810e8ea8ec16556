import Chronicle.Codec.Outcome

/-!
# Chronicle.Event.Vocabulary

What an application records. A `Vocabulary` is a family of fact types: each kind of fact has a tag
that names it in the log, and each fact a stream that it belongs to and a byte format. Two kinds may
claim the same tag. A `Payload` is a fact, or the outcome of a command, which every application
records.
-/

namespace Chronicle

/-- The fact types of an application. `A` holds the facts of all kinds. -/
class Vocabulary (A : Type) where
  /-- The fact types. -/
  Kind : Type
  /-- Fact types can be told apart. -/
  kindEq : DecidableEq Kind
  /-- The type of a fact. -/
  kind : A → Kind
  /-- The name of a fact type in the log. -/
  tag : Kind → String
  /-- The stream that a fact belongs to. -/
  stream : A → StreamId
  /-- The written form of a fact. -/
  encode : A → List UInt8
  /-- Reads a fact of a known type. -/
  decode : Kind → Decoder A

namespace Vocabulary

instance {A : Type} [Vocabulary A] : DecidableEq (Kind A) := kindEq

/-- The facts of two families side by side. -/
instance {A B : Type} [Vocabulary A] [Vocabulary B] : Vocabulary (A ⊕ B) where
  Kind := Kind A ⊕ Kind B
  kindEq := inferInstance
  kind
    | .inl a => .inl (kind a)
    | .inr b => .inr (kind b)
  tag
    | .inl k => tag k
    | .inr k => tag k
  stream
    | .inl a => stream a
    | .inr b => stream b
  encode
    | .inl a => encode a
    | .inr b => encode b
  decode
    | .inl k => fun input => do
      let (a, rest) ← decode k input
      return (.inl a, rest)
    | .inr k => fun input => do
      let (b, rest) ← decode k input
      return (.inr b, rest)

end Vocabulary

/-- The facts of `F` are among the facts that `A` holds. -/
class Includes (F A : Type) where
  inject : F → A
  view? : A → Option F
  view_inject : ∀ f, view? (inject f) = some f

namespace Includes

instance {A : Type} : Includes A A := ⟨id, some, fun _ => rfl⟩

instance {A B : Type} : Includes A (A ⊕ B) := ⟨.inl, Sum.getLeft?, fun _ => rfl⟩

instance {A B : Type} : Includes B (A ⊕ B) := ⟨.inr, Sum.getRight?, fun _ => rfl⟩

end Includes

inductive Payload (A : Type) where
  | outcome (o : Outcome)
  | fact (a : A)
  deriving DecidableEq

inductive PayloadKind (A : Type) [Vocabulary A] where
  | outcome
  | fact (k : Vocabulary.Kind A)

instance {A : Type} [Vocabulary A] : DecidableEq (PayloadKind A)
  | .outcome, .outcome => isTrue rfl
  | .fact k, .fact l =>
    if h : k = l then isTrue (by rw [h]) else isFalse (fun e => h (PayloadKind.fact.inj e))
  | .outcome, .fact _ => isFalse (fun e => nomatch e)
  | .fact _, .outcome => isFalse (fun e => nomatch e)

namespace Payload

variable {A : Type} [Vocabulary A]

def kind : Payload A → PayloadKind A
  | .outcome _ => .outcome
  | .fact a => .fact (Vocabulary.kind a)

/-- The event type that a payload type is recorded under. -/
def tagOf : PayloadKind A → String
  | .outcome => Outcome.tag
  | .fact k => Vocabulary.tag k

def tag (p : Payload A) : String := tagOf p.kind

def stream : Payload A → StreamId
  | .outcome o => o.stream
  | .fact a => Vocabulary.stream a

def encode : Payload A → List UInt8
  | .outcome o => Codec.outcome.encode o
  | .fact a => Vocabulary.encode a

def decode : PayloadKind A → Decoder (Payload A)
  | .outcome => fun input => do
    let (o, rest) ← Codec.outcome.decode input
    return (.outcome o, rest)
  | .fact k => fun input => do
    let (a, rest) ← Vocabulary.decode k input
    return (.fact a, rest)

/-- The outcome that a payload records, if it is one. -/
def outcome? : Payload A → Option Outcome
  | .outcome o => some o
  | .fact _ => none

def fact? {A : Type} (F : Type) [Includes F A] : Payload A → Option F
  | .outcome _ => none
  | .fact a => Includes.view? a

/-- The payload that carries a fact of one family. -/
def ofFact {A F : Type} [Includes F A] (f : F) : Payload A := .fact (Includes.inject f)

end Payload

end Chronicle
