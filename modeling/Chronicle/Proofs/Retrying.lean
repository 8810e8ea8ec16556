import Chronicle.Retry
import Mathlib.Data.List.Basic

/-!
# Chronicle.Proofs.Retrying

What becomes of an operation that is tried again. The outcomes of its calls, the policy and the moment
at which the token fires determine the whole run: which attempts are made and when, what is noted,
how the run ends and when (`run_attempts`).

One attempt that is tried again leads to the next one, after the policy's delay for it
(`runFrom_retried`). From that, by induction, the run comes to every attempt that only such attempts
precede (`run_eq_behind`), and what is left is how the last attempt ends.
-/

namespace Chronicle
namespace Retry

variable {T E : Type} {p : RetryPolicy} {retryable : E → Bool} {script : Nat → Call T E}
  {cancelAt : Option Nat} {k : Nat} {e : E}

/-! ## Times -/

def begins (p : RetryPolicy) (script : Nat → Call T E) : Nat → Nat
  | 0 => 0
  | i + 1 => begins p script i + (script i).took + (p.delay i).millis

def ends (p : RetryPolicy) (script : Nat → Call T E) (i : Nat) : Nat :=
  begins p script i + (script i).took

theorem begins_succ (i : Nat) :
    begins p script (i + 1) = ends p script i + (p.delay i).millis := rfl

theorem begins_le_succ (i : Nat) : begins p script i ≤ begins p script (i + 1) := by
  rw [begins_succ, ends]
  omega

theorem begins_mono {i j : Nat} (h : i ≤ j) : begins p script i ≤ begins p script j := by
  induction h with
  | refl => exact Nat.le_refl _
  | step _ ih => exact Nat.le_trans ih (begins_le_succ _)

/-- If the token fires, attempt `k` has begun by then. The first attempt begins in any case. -/
def FiresLater (p : RetryPolicy) (script : Nat → Call T E) (cancelAt : Option Nat) (k : Nat) :
    Prop :=
  ∀ t, cancelAt = some t → k = 0 ∨ begins p script k < t

theorem firesLater_none : FiresLater p script none k := nofun

theorem FiresLater.filter_due (h : FiresLater p script cancelAt (k + 1)) :
    cancelAt.filter (fun t => decide (t ≤ begins p script (k + 1))) = none := by
  rw [Option.filter_eq_none_iff]
  intro t ht
  have hlt := (h t ht).resolve_left (Nat.succ_ne_zero k)
  rw [decide_eq_true_iff]
  exact Nat.not_le_of_lt hlt

theorem FiresLater.of_le {j : Nat} (h : FiresLater p script cancelAt k) (hj : j ≤ k) :
    FiresLater p script cancelAt j := by
  intro t ht
  rcases h t ht with rfl | hlt
  · exact .inl (Nat.le_zero.mp hj)
  · exact .inr (Nat.lt_of_le_of_lt (begins_mono hj) hlt)

/-! ## Attempts -/

/-- The calls after which there is no other, and what they make of the run. -/
inductive Call.Settles (retryable : E → Bool) (call : Call T E) :
    Except (RetryError E) T → Prop where
  | value (value : T) : call.returns = .ok value → Settles retryable call (.ok value)
  | rejected (e : E) : call.returns = .error e → retryable e = false →
      Settles retryable call (.error (.notRetryable e))

/-- The call is worth another one. -/
def Call.Unsettled (retryable : E → Bool) (call : Call T E) : Prop :=
  ∀ result, ¬ call.Settles retryable result

theorem Call.Unsettled.error {call : Call T E} (h : call.Unsettled retryable) :
    ∃ e, call.returns = .error e ∧ retryable e = true := by
  cases hreturns : call.returns with
  | ok value => exact absurd (.value value hreturns) (h _)
  | error e =>
    cases he : retryable e with
    | true => exact ⟨e, rfl, he⟩
    | false => exact absurd (.rejected e hreturns he) (h _)

/-- What is noted when `k` attempts are tried again. -/
def retriedNotes (k : Nat) : List Note :=
  (List.replicate k [.metric .retried, .log .retrying]).flatten

/-- What is noted at the end, when the last attempt is attempt `k`. -/
def lastNotes (k : Nat) : Except (RetryError E) T → List Note
  | .ok _ => successNotes k
  | .error e => (Verdict.giveUp e).notes

theorem retriedNotes_succ (k : Nat) :
    retriedNotes (k + 1) = retriedNotes k ++ retriedNotes 1 := by
  rw [retriedNotes, List.replicate_succ', List.flatten_concat]
  rfl

theorem afterFailure_again (hk : k < p.maxRetries) (he : retryable e = true) :
    afterFailure p retryable k e = .again (p.delay k) := by
  simp [afterFailure, he, Nat.not_le_of_lt hk]

theorem afterFailure_exhausted (hk : p.maxRetries ≤ k) (he : retryable e = true) :
    afterFailure p retryable k e = .giveUp (.exhausted (k + 1) e) := by
  simp [afterFailure, he, hk]

theorem afterFailure_rejected (he : retryable e = false) :
    afterFailure p retryable k e = .giveUp (.notRetryable e) := by
  simp [afterFailure, he]

/-- A run behind calls that were tried again. -/
def Run.behind (calls : List Nat) (notes : List Note) (r : Run T E) : Run T E :=
  { r with calls := calls ++ r.calls, notes := notes ++ r.notes }

/-! ## One attempt -/

/-- A failed attempt goes by the verdict about it. -/
theorem runFrom_error (hreturns : (script k).returns = .error e) :
    runFrom p retryable script cancelAt (begins p script k) k
      = match afterFailure p retryable k e with
        | .giveUp error => ⟨.error error, [begins p script k], ends p script k,
            (Verdict.giveUp error).notes⟩
        | .again delay =>
          match cancelAt.filter fun t => decide (t ≤ ends p script k + delay.millis) with
          | some t => ⟨.error .cancelled, [begins p script k], max (ends p script k) t,
              retriedNotes 1⟩
          | none =>
            (runFrom p retryable script cancelAt (ends p script k + delay.millis) (k + 1)).behind
              [begins p script k] (retriedNotes 1) := by
  rw [runFrom]
  simp only [hreturns]
  -- The definition keeps the equation of its match for the sake of termination.
  split
  · rename_i error h
    rw [h]
    rfl
  · rename_i delay h
    rw [h]
    rfl

theorem runFrom_settled {result : Except (RetryError E) T}
    (h : (script k).Settles retryable result) :
    runFrom p retryable script cancelAt (begins p script k) k
      = ⟨result, [begins p script k], ends p script k, lastNotes k result⟩ := by
  cases h with
  | value value hreturns =>
    unfold runFrom
    simp only [hreturns]
    rfl
  | rejected e hreturns he =>
    rw [runFrom_error hreturns, afterFailure_rejected he]
    rfl

theorem runFrom_exhausted (hk : p.maxRetries ≤ k) (hreturns : (script k).returns = .error e)
    (he : retryable e = true) :
    runFrom p retryable script cancelAt (begins p script k) k
      = ⟨.error (.exhausted (k + 1) e), [begins p script k], ends p script k,
          [.metric .exhausted, .log .retriesExhausted]⟩ := by
  rw [runFrom_error hreturns, afterFailure_exhausted hk he]
  rfl

/-- An attempt behind which the token fires before the next one is due. -/
theorem runFrom_cancelled (hk : k < p.maxRetries) (h : (script k).Unsettled retryable) {t : Nat}
    (ht : t ≤ begins p script (k + 1)) :
    runFrom p retryable script (some t) (begins p script k) k
      = ⟨.error .cancelled, [begins p script k], max (ends p script k) t, retriedNotes 1⟩ := by
  obtain ⟨e, hreturns, he⟩ := h.error
  rw [runFrom_error hreturns, afterFailure_again hk he]
  dsimp only
  rw [← begins_succ, Option.filter_some, if_pos (decide_eq_true ht)]

theorem runFrom_retried (hk : k < p.maxRetries) (h : (script k).Unsettled retryable)
    (hlater : FiresLater p script cancelAt (k + 1)) :
    runFrom p retryable script cancelAt (begins p script k) k
      = (runFrom p retryable script cancelAt (begins p script (k + 1)) (k + 1)).behind
          [begins p script k] (retriedNotes 1) := by
  obtain ⟨e, hreturns, he⟩ := h.error
  rw [runFrom_error hreturns, afterFailure_again hk he]
  dsimp only
  rw [← begins_succ, hlater.filter_due]

/-! ## Whole runs -/

theorem Run.behind_behind {calls calls' : List Nat} {notes notes' : List Note} {r : Run T E} :
    (r.behind calls' notes').behind calls notes = r.behind (calls ++ calls') (notes ++ notes') := by
  simp only [behind, List.append_assoc]

/-- A run comes to every attempt that only such attempts precede as are tried again. -/
theorem run_eq_behind (hk : k ≤ p.maxRetries) (h : ∀ i < k, (script i).Unsettled retryable)
    (hlater : FiresLater p script cancelAt k) :
    run p retryable script cancelAt
      = (runFrom p retryable script cancelAt (begins p script k) k).behind
          ((List.range k).map (begins p script)) (retriedNotes k) := by
  induction k with
  | zero => rfl
  | succ k ih =>
    rw [ih (Nat.le_of_succ_le hk) (fun i hi => h i (Nat.lt_succ_of_lt hi))
      (hlater.of_le (Nat.le_succ k)), runFrom_retried hk (h k (Nat.lt_succ_self k)) hlater,
      Run.behind_behind, List.range_succ, List.map_append, retriedNotes_succ k]
    rfl

/-- The first attempt that settles the run ends it, with what it returns or with the error that was
rejected. If there is none among the attempts that the policy allows, all of these are
made, and the last error is reported. Every attempt begins when the one before it and the delay for
it are over. A token that fires meanwhile ends the run without another attempt, and never an attempt
that is running. -/
theorem run_attempts (p : RetryPolicy) (retryable : E → Bool) (script : Nat → Call T E)
    (cancelAt : Option Nat) :
    (∀ k ≤ p.maxRetries, (∀ i < k, (script i).Unsettled retryable) →
      FiresLater p script cancelAt k → ∀ result, (script k).Settles retryable result →
        run p retryable script cancelAt
          = ⟨result, (List.range (k + 1)).map (begins p script), ends p script k,
              retriedNotes k ++ lastNotes k result⟩) ∧
    ((∀ i ≤ p.maxRetries, (script i).Unsettled retryable) →
      FiresLater p script cancelAt p.maxRetries →
        ∃ e, (script p.maxRetries).returns = .error e ∧
          run p retryable script cancelAt
            = ⟨.error (.exhausted (p.maxRetries + 1) e),
                (List.range (p.maxRetries + 1)).map (begins p script),
                ends p script p.maxRetries,
                retriedNotes p.maxRetries ++ [.metric .exhausted, .log .retriesExhausted]⟩) ∧
    ∀ k < p.maxRetries, (∀ i ≤ k, (script i).Unsettled retryable) →
      FiresLater p script cancelAt k →
        ∀ t, cancelAt = some t → max (ends p script k) t < begins p script (k + 1) →
          run p retryable script cancelAt
            = ⟨.error .cancelled, (List.range (k + 1)).map (begins p script),
                max (ends p script k) t, retriedNotes (k + 1)⟩ := by
  refine ⟨fun k hk h hlater result hsettles => ?_, fun h hlater => ?_,
    fun k hk h hlater t hfires ht => ?_⟩
  · rw [run_eq_behind hk h hlater, runFrom_settled hsettles, List.range_succ, List.map_append]
    rfl
  · obtain ⟨e, hreturns, he⟩ := (h p.maxRetries (Nat.le_refl _)).error
    refine ⟨e, hreturns, ?_⟩
    rw [run_eq_behind (Nat.le_refl _) (fun i hi => h i (Nat.le_of_lt hi)) hlater,
      runFrom_exhausted (Nat.le_refl _) hreturns he, List.range_succ, List.map_append]
    rfl
  · rw [run_eq_behind (Nat.le_of_lt hk) (fun i hi => h i (Nat.le_of_lt hi)) hlater]
    subst hfires
    have hdue : t ≤ begins p script (k + 1) :=
      Nat.le_of_lt (Nat.lt_of_le_of_lt (Nat.le_max_right _ _) ht)
    rw [runFrom_cancelled hk (h k (Nat.le_refl k)) hdue, List.range_succ, List.map_append,
      retriedNotes_succ k]
    rfl

def recovering : Nat → Call Nat String
  | 0 => ⟨5, .error "busy"⟩
  | 1 => ⟨0, .error "busy"⟩
  | _ => ⟨1, .ok 7⟩

theorem run_recovering : run {} (fun _ => true) recovering none
    = ⟨.ok 7, [begins {} recovering 0, begins {} recovering 1, begins {} recovering 2],
        ends {} recovering 2, [.metric .retried, .log .retrying, .metric .retried, .log .retrying,
          .metric .recovered]⟩ := by
  have hfails : ∀ i < 2, (recovering i).returns = .error "busy" := by decide
  have hunsettled : ∀ i < 2, (recovering i).Unsettled fun _ => true := by
    rintro i hi _ (⟨_, hreturns⟩ | ⟨_, _, he⟩)
    · rw [hfails i hi] at hreturns
      cases hreturns
    · cases he
  exact (run_attempts {} (fun _ => true) recovering none).1 2 (by decide) hunsettled firesLater_none
    (.ok 7) (.value 7 rfl)

end Retry
end Chronicle
