/-!
# Chronicle.Position

Positions number the events of the log from zero. They are 64-bit words: `next` stays at `last`
once it gets there, and `ofNat` takes every number beyond it to `last`.
-/

namespace Chronicle

/-- A place in the log. -/
structure Position where
  val : Nat
  isLt : val < 0x10000000000000000
  deriving DecidableEq

namespace Position

def zero : Position := ⟨0, by decide⟩

/-- The largest position. As a bound it means "no bound". -/
def last : Position := ⟨0xffffffffffffffff, by decide⟩

/-- The position numbered `n`, or `last` when `n` does not fit. -/
def ofNat (n : Nat) : Position :=
  if h : n < 0x10000000000000000 then ⟨n, h⟩ else last

/-- The position after `p`; `last` follows itself. -/
def next (p : Position) : Position := ofNat (p.val + 1)

def isLast (p : Position) : Bool := p.val == 0xffffffffffffffff

instance : LT Position := ⟨fun a b => a.val < b.val⟩
instance : LE Position := ⟨fun a b => a.val ≤ b.val⟩
instance (a b : Position) : Decidable (a < b) := inferInstanceAs (Decidable (a.val < b.val))
instance (a b : Position) : Decidable (a ≤ b) := inferInstanceAs (Decidable (a.val ≤ b.val))

def render (p : Position) : String := toString p.val

/-- The later of two marks, where `none` is before every position. -/
def raise (mark : Option Position) (p : Position) : Option Position :=
  match mark with
  | some high => if high < p then some p else some high
  | none => some p

/-- Whether `p` is at or below the mark. -/
def reached (mark : Option Position) (p : Position) : Bool :=
  match mark with
  | some high => decide (p ≤ high)
  | none => false

theorem ext {a b : Position} (h : a.val = b.val) : a = b := by
  cases a; cases b; cases h; rfl

theorem val_ofNat {n : Nat} (h : n < 0x10000000000000000) : (ofNat n).val = n := by
  rw [ofNat, dif_pos h]

theorem val_next {p : Position} (h : p.val + 1 < 0x10000000000000000) : p.next.val = p.val + 1 :=
  val_ofNat h

theorem next_last : last.next = last := by decide

theorem le_next (p : Position) : p ≤ p.next := by
  show p.val ≤ (ofNat (p.val + 1)).val
  unfold ofNat
  split
  · exact Nat.le_succ _
  · have := p.isLt
    show p.val ≤ 0xffffffffffffffff
    omega

end Position

end Chronicle
