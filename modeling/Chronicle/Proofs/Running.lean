import Mathlib.Data.List.Induction
import Mathlib.Logic.Relation

/-!
# Chronicle.Proofs.Running

Runs of a machine that takes moves, each if it can be taken in the state that it meets. Every prefix
of a run is a run, and what every step of a run keeps holds at its end.
-/

namespace Chronicle

variable {σ μ : Type} {step : σ → μ → Option σ} {s t : σ} {ms ms' : List μ}

/-- Takes moves one after another, if they all can be taken. -/
def runMoves (step : σ → μ → Option σ) (s : σ) (ms : List μ) : Option σ := ms.foldlM step s

theorem runMoves_nil : runMoves step s [] = some t ↔ s = t := by
  simp [runMoves]

theorem runMoves_singleton {m : μ} : runMoves step s [m] = step s m := by
  simp [runMoves]

theorem runMoves_append :
    runMoves step s (ms ++ ms') = some t ↔
      ∃ u, runMoves step s ms = some u ∧ runMoves step u ms' = some t := by
  rw [runMoves, List.foldlM_append]
  exact Option.bind_eq_some_iff

theorem runMoves_concat {m : μ} :
    runMoves step s (ms ++ [m]) = some t ↔
      ∃ u, runMoves step s ms = some u ∧ step u m = some t := by
  rw [runMoves_append]
  simp only [runMoves_singleton]

/-- What every step of a run keeps holds at the end of the run. -/
theorem runMoves_induction {P : σ → Prop} (hs : P s)
    (hstep : ∀ {pre m u v}, pre ++ [m] <+: ms → runMoves step s pre = some u →
      step u m = some v → P u → P v) : ∀ {t}, runMoves step s ms = some t → P t := by
  induction ms using List.reverseRecOn with
  | nil =>
    intro t h
    rw [runMoves_nil] at h
    rw [← h]
    exact hs
  | append_singleton rest m ih =>
    intro t h
    obtain ⟨u, hu, hm⟩ := runMoves_concat.mp h
    refine hstep List.prefix_rfl hu hm (ih (fun {pre m' _ _} hpre => ?_) hu)
    exact hstep (hpre.trans (List.prefix_append rest [m]))

/-- A run is a path in every relation that has the steps of the machine. -/
theorem reflTransGen_of_run {R : σ → σ → Prop} (hR : ∀ {u m v}, step u m = some v → R u v)
    (h : runMoves step s ms = some t) : Relation.ReflTransGen R s t :=
  runMoves_induction (P := Relation.ReflTransGen R s) .refl
    (fun _ _ hstep hpath => hpath.tail (hR hstep)) h

/-- What is at a place of a list with one more entry is that entry, or was there before. -/
theorem split_concat {α : Type} {xs pre post : List α} {x y : α} (h : xs ++ [x] = pre ++ y :: post) :
    (pre = xs ∧ y = x) ∨ ∃ earlier, xs = pre ++ y :: earlier := by
  rcases List.eq_nil_or_concat post with rfl | ⟨init, last, rfl⟩
  · obtain ⟨hpre, hlast⟩ := List.append_inj' h rfl
    exact .inl ⟨hpre.symm, (List.singleton_inj.mp hlast).symm⟩
  · rw [List.concat_eq_append, ← List.cons_append, ← List.append_assoc] at h
    exact .inr ⟨init, (List.append_inj' h rfl).1⟩

end Chronicle
