/-!
# Chronicle.Duration

Spans of time with nanosecond resolution, up to the last nanosecond before 2^64 seconds. Timers run
on whole milliseconds, so a sleep takes its duration rounded up (`millis`).
-/

namespace Chronicle

structure Duration where
  nanos : Nat
  isLt : nanos < 0x10000000000000000 * 1000000000
  deriving DecidableEq

namespace Duration

def longest : Duration := ⟨0x10000000000000000 * 1000000000 - 1, by decide⟩

/-- The duration of `n` nanoseconds, or the longest one when `n` is beyond it. -/
def ofNanos (n : Nat) : Duration :=
  if h : n < 0x10000000000000000 * 1000000000 then ⟨n, h⟩ else longest

def ofMillis (n : Nat) : Duration := ofNanos (n * 1000000)

def ofSeconds (n : Nat) : Duration := ofNanos (n * 1000000000)

instance : LE Duration := ⟨fun a b => a.nanos ≤ b.nanos⟩
instance : LT Duration := ⟨fun a b => a.nanos < b.nanos⟩
instance (a b : Duration) : Decidable (a ≤ b) := inferInstanceAs (Decidable (a.nanos ≤ b.nanos))
instance (a b : Duration) : Decidable (a < b) := inferInstanceAs (Decidable (a.nanos < b.nanos))
instance : Min Duration := ⟨fun a b => if a ≤ b then a else b⟩
instance : Max Duration := ⟨fun a b => if a ≤ b then b else a⟩

def double (d : Duration) : Duration := ofNanos (d.nanos * 2)

def seconds (d : Duration) : Nat := d.nanos / 1000000000

def subsecNanos (d : Duration) : Nat := d.nanos % 1000000000

/-- Milliseconds until a timer set to this duration fires. -/
def millis (d : Duration) : Nat := (d.nanos + 999999) / 1000000

theorem nanos_ofNanos {n : Nat} (h : n < 0x10000000000000000 * 1000000000) : (ofNanos n).nanos = n := by
  rw [ofNanos, dif_pos h]

end Duration

end Chronicle
