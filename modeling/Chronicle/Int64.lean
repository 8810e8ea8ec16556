/-!
# Chronicle.Int64

Signed 64-bit arithmetic that stops at the ends of the range instead of wrapping.
-/

namespace Chronicle

/-- The nearest signed 64-bit number. -/
def saturate (n : Int) : Int64 := Int64.ofInt (max (-0x8000000000000000) (min n 0x7fffffffffffffff))

end Chronicle
