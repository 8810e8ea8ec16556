import Chronicle.WakeUp
import Mathlib.Algebra.Ring.Nat

/-!
# Chronicle.Proofs.Feed.Resting

How long a wake-up rests. Between two waits the interval depends on nothing but the configuration and
the number of idle timeouts since the last wait that was signalled or hot: it is the shortest
interval, doubled that many times, up to the longest one (`WakeUp.Paced`). A wait keeps this, however
it ends (`Paced.ended`), and so does everything that is done with a wake-up (`Paced.useAll`).

The doubling saturates at the longest duration there is. That is never below the longest interval, so
it makes no difference.
-/

namespace Chronicle

namespace Duration

variable {a b d : Duration}

@[simp] theorem nanos_min : (min a b).nanos = min a.nanos b.nanos := by
  show (if a ≤ b then a else b).nanos = _
  by_cases h : a ≤ b
  · rw [if_pos h, Nat.min_eq_left h]
  · rw [if_neg h, Nat.min_eq_right (Nat.le_of_not_le h)]

@[simp] theorem nanos_max : (max a b).nanos = max a.nanos b.nanos := by
  show (if a ≤ b then b else a).nanos = _
  by_cases h : a ≤ b
  · rw [if_pos h, Nat.max_eq_right h]
  · rw [if_neg h, Nat.max_eq_left (Nat.le_of_not_le h)]

@[simp] theorem nanos_double : d.double.nanos = min (d.nanos * 2) longest.nanos := by
  unfold double ofNanos longest
  split
  · dsimp only
    omega
  · dsimp only
    omega

theorem nanos_le_longest : d.nanos ≤ longest.nanos := Nat.le_pred_of_lt d.isLt

/-- Up to a limit, doubling does not saturate. -/
theorem nanos_min_double : (min a.double b).nanos = min (a.nanos * 2) b.nanos := by
  have := nanos_le_longest (d := b)
  rw [nanos_min, nanos_double]
  omega

end Duration

namespace WakeUp

variable {config : WakeUpConfig} {w : WakeUp} {k : Nat}

/-! ## Waits -/

/-- A wait that is over. -/
structure Wait where
  hot : Bool
  /-- `none` if it was cancelled. -/
  reason : Option WakeReason

/-- The number of idle timeouts in a row after a wait, if there were `k` before it. -/
def Wait.idle (k : Nat) (wait : Wait) : Nat :=
  match wait.reason with
  | none => k
  | some .signalled => 0
  | some .timedOut => if wait.hot then 0 else k + 1

@[simp] theorem Wait.idle_timedOut : Wait.idle k ⟨false, some .timedOut⟩ = k + 1 := rfl

/-- The number of idle timeouts since the last wait that was signalled or hot. Cancelled waits do not
count. -/
def idleTimeouts (waits : List Wait) : Nat := waits.foldl Wait.idle 0

/-- The ways in which a wait ends. One that is cancelled changes nothing. Every other one sets the
interval by the reason for which it ended. -/
inductive Ended (w : WakeUp) (hot : Bool) : Rest → Prop where
  | cancelled (elapsed : Nat) : Ended w hot ⟨none, elapsed, w⟩
  | complete (reason : WakeReason) (elapsed : Nat) (w' : WakeUp) : w'.config = w.config →
      w'.current = w.interval hot (w.timeout hot) reason → Ended w hot ⟨some reason, elapsed, w'⟩

theorem restFor_ended (w : WakeUp) (hot : Bool) (signalAt cancelAt : Option Nat) :
    Ended w hot (w.restFor hot signalAt cancelAt) := by
  unfold restFor
  dsimp only
  refine iteInduction (fun _ => .cancelled _) fun _ => iteInduction (fun _ => ?_) fun _ => ?_
  · exact .complete .signalled _ _ rfl rfl
  · exact .complete .timedOut _ _ rfl rfl

/-! ## The interval -/

/-- The wake-up has the configuration, and its interval is the shortest one, doubled `k` times and
cut off at the longest one. -/
structure Paced (config : WakeUpConfig) (w : WakeUp) (k : Nat) : Prop where
  shortest : w.config.shortest = config.shortest
  longest : w.config.longest.nanos = (max config.shortest config.longest).nanos
  current : w.current.nanos
    = min (config.shortest.nanos * 2 ^ k) (max config.shortest config.longest).nanos

theorem paced_new (config : WakeUpConfig) : Paced config (new config) 0 where
  shortest := rfl
  longest := by
    show (max config.longest config.shortest).nanos = _
    rw [Duration.nanos_max, Duration.nanos_max, Nat.max_comm]
  current := by
    show config.shortest.nanos = _
    rw [Nat.pow_zero, Nat.mul_one, Duration.nanos_max]
    omega

theorem Paced.interval (h : Paced config w k) (hot : Bool) (reason : WakeReason) :
    (w.interval hot (w.timeout hot) reason).nanos
      = min (config.shortest.nanos * 2 ^ Wait.idle k ⟨hot, some reason⟩)
          (max config.shortest config.longest).nanos := by
  have hreset : w.config.shortest.nanos
      = min (config.shortest.nanos * 2 ^ 0) (max config.shortest config.longest).nanos := by
    rw [h.shortest]
    exact (paced_new config).current
  cases reason with
  | signalled => exact hreset
  | timedOut =>
    cases hot with
    | true => exact hreset
    | false =>
      show (min w.current.double w.config.longest).nanos = _
      -- The cut-off is below the duration at which the doubling saturates.
      rw [Duration.nanos_min_double, h.longest, h.current, Wait.idle_timedOut, Nat.pow_succ,
        ← Nat.mul_assoc]
      omega

theorem Paced.ended (h : Paced config w k) {hot : Bool} {rest : Rest} (hended : Ended w hot rest) :
    Paced config rest.wakeUp (Wait.idle k ⟨hot, rest.reason⟩) := by
  cases hended with
  | cancelled elapsed => exact h
  | complete reason elapsed w' hconfig hcurrent =>
    exact ⟨hconfig ▸ h.shortest, hconfig ▸ h.longest, hcurrent ▸ h.interval hot reason⟩

theorem Paced.current_le {w' : WakeUp} {k' : Nat} (h : Paced config w k) (h' : Paced config w' k')
    (hk : k ≤ k') : w.current ≤ w'.current := by
  have hpow : config.shortest.nanos * 2 ^ k ≤ config.shortest.nanos * 2 ^ k' :=
    Nat.mul_le_mul_left _ (Nat.pow_le_pow_right (by decide) hk)
  show w.current.nanos ≤ w'.current.nanos
  rw [h.current, h'.current]
  omega

theorem Paced.shortest_le (h : Paced config w k) : config.shortest ≤ w.current :=
  (paced_new config).current_le h (Nat.zero_le k)

theorem Paced.le_longest (h : Paced config w k) :
    w.current ≤ max config.shortest config.longest := by
  show w.current.nanos ≤ (max config.shortest config.longest).nanos
  rw [h.current]
  exact Nat.min_le_right _ _

/-! ## Use after use -/

inductive Use where
  | clear
  | signal
  /-- A wait, with a signal and a cancellation that come that many milliseconds after its start. -/
  | wait (hot : Bool) (signalAt cancelAt : Option Nat)

def use (w : WakeUp) : Use → WakeUp × List Wait
  | .clear => (w.clear, [])
  | .signal => (w.signal, [])
  | .wait hot signalAt cancelAt =>
    let rest := w.restFor hot signalAt cancelAt
    (rest.wakeUp, [⟨hot, rest.reason⟩])

/-- The wake-up after one use and another, and the waits among them. -/
def useAll (w : WakeUp) : List Use → WakeUp × List Wait
  | [] => (w, [])
  | u :: rest =>
    let (w, waits) := w.use u
    let (w, more) := w.useAll rest
    (w, waits ++ more)

theorem Paced.use (h : Paced config w k) (u : Use) :
    Paced config (w.use u).1 ((w.use u).2.foldl Wait.idle k) := by
  cases u with
  | clear => exact ⟨h.shortest, h.longest, h.current⟩
  | signal => exact ⟨h.shortest, h.longest, h.current⟩
  | wait hot signalAt cancelAt => exact h.ended (restFor_ended w hot signalAt cancelAt)

theorem Paced.useAll (h : Paced config w k) (uses : List Use) :
    Paced config (w.useAll uses).1 ((w.useAll uses).2.foldl Wait.idle k) := by
  induction uses generalizing w k with
  | nil => exact h
  | cons u rest ih =>
    have hrest := ih (h.use u)
    rw [← List.foldl_append] at hrest
    exact hrest

/-- Whatever is done with a wake-up of any configuration, its interval stays between the shortest and
the longest one, where a longest one below the shortest counts as that. It is the shortest one,
doubled with every idle timeout since the last wait that was signalled or hot. A wait that is
cancelled leaves the wake-up as it is, and one that times out idly never shortens the interval. -/
theorem interval_after {config : WakeUpConfig} {uses : List Use} {w : WakeUp} {waits : List Wait}
    (h : (new config).useAll uses = (w, waits)) :
    w.current.nanos = min (config.shortest.nanos * 2 ^ idleTimeouts waits)
      (max config.shortest config.longest).nanos ∧
    config.shortest ≤ w.current ∧ w.current ≤ max config.shortest config.longest ∧
    ∀ signalAt cancelAt,
      (∀ hot, (w.restFor hot signalAt cancelAt).reason = none →
        (w.restFor hot signalAt cancelAt).wakeUp = w) ∧
      ((w.restFor false signalAt cancelAt).reason = some .timedOut →
        w.current ≤ (w.restFor false signalAt cancelAt).wakeUp.current) := by
  have hpaced : Paced config w (idleTimeouts waits) := by
    have := (paced_new config).useAll uses
    rw [h] at this
    exact this
  refine ⟨hpaced.current, hpaced.shortest_le, hpaced.le_longest, fun signalAt cancelAt =>
    ⟨fun hot hcancelled => ?_, fun htimedOut => ?_⟩⟩
  · have hended := restFor_ended w hot signalAt cancelAt
    generalize w.restFor hot signalAt cancelAt = rest at hended hcancelled
    cases hended with
    | cancelled elapsed => rfl
    | complete reason elapsed w' _ _ => cases hcancelled
  · have hnext := hpaced.ended (restFor_ended w false signalAt cancelAt)
    rw [htimedOut, Wait.idle_timedOut] at hnext
    exact hpaced.current_le hnext (Nat.le_succ _)

/-- A signal, and three idle timeouts with a cancelled wait among them. -/
def threeTimeouts : List Use :=
  [.wait false (some 3) none, .clear, .wait false none none, .wait false none none,
    .wait false none (some 1), .wait false none none]

/-- After 10, 20 and 40 milliseconds, 80 would be too long. -/
theorem interval_after_timeouts :
    ∃ w waits, (new ⟨.ofMillis 10, .ofMillis 65⟩).useAll threeTimeouts = (w, waits) ∧
      idleTimeouts waits = 3 ∧ w.current.nanos = 65000000 := by
  have hrun : (new ⟨.ofMillis 10, .ofMillis 65⟩).useAll threeTimeouts = (_, _) := rfl
  exact ⟨_, _, hrun, rfl, (interval_after hrun).1⟩

end WakeUp
end Chronicle
