import Chronicle.Int64
import Chronicle.Projection.Projector

/-!
# Chronicle.Notes

The smallest application: numbers noted under topics, and a projection that sums them up. It comes
with a second fact type, `stray`, that claims the tag of the first; a registry has to keep the two
apart.
-/

namespace Chronicle
namespace Notes

inductive Fact where
  | noted (topic : String) (n : Int64)
  | stray
  deriving DecidableEq

inductive Kind where
  | noted
  | stray
  deriving DecidableEq

def category : String := "Topic"

instance : Vocabulary Fact where
  Kind := Kind
  kindEq := inferInstance
  kind
    | .noted .. => .noted
    | .stray => .stray
  tag _ := "Noted.v1"
  stream
    | .noted topic _ => ⟨category, topic⟩
    | .stray => ⟨"Impostor", "1"⟩
  encode
    | .noted topic n => (Codec.text.pair Codec.int64).encode (topic, n)
    | .stray => []
  decode
    | .noted => fun input => do
      let ((topic, n), rest) ← (Codec.text.pair Codec.int64).decode input
      return (.noted topic n, rest)
    | .stray => fun input => return (.stray, input)

/-- The sum of a topic. Noting zero removes it, other facts leave it. -/
def total (state : Option Int64) : Option Fact → Option Int64
  | some (.noted _ n) =>
    if n = 0 then none else some (saturate ((state.getD 0).toInt + n.toInt))
  | _ => state

def projector {A : Type} [Includes Fact A] : Projector A Int64 where
  concerns s := s.isOf category
  fold state e := total state (e.payload.fact? Fact)

end Notes
end Chronicle
