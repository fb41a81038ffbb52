import Mathlib

/-! # Finite runs of labelled steps

A run records the labels of its steps, the last one at the end, so that a property of
the labels so far and the state reached is proved by one step at a time.
-/
namespace FuelSequencer.Exec

variable {σ τ ℓ : Type*} {step : σ → ℓ → σ → Prop} {s t u : σ} {ls ms : List ℓ} {l : ℓ}

inductive Runs (step : σ → ℓ → σ → Prop) : σ → List ℓ → σ → Prop where
  | nil (s : σ) : Runs step s [] s
  | snoc {s t u : σ} {ls : List ℓ} {l : ℓ} : Runs step s ls t → step t l u → Runs step s (ls ++ [l]) u

namespace Runs

theorem single (h : step s l t) : Runs step s [l] t := snoc (nil s) h

theorem append (h : Runs step s ls t) (h' : Runs step t ms u) : Runs step s (ls ++ ms) u := by
  induction h' with
  | nil => rwa [List.append_nil]
  | snoc _ hstep ih =>
    rw [← List.append_assoc]
    exact snoc ih hstep

theorem cons (h : step s l t) (h' : Runs step t ls u) : Runs step s (l :: ls) u := append (single h) h'

/-- What holds of the empty log and is kept by every step holds of the whole run. -/
theorem invariant {I : List ℓ → σ → Prop} (h : Runs step s ls t) (h₀ : I [] s)
    (hstep : ∀ {ls t l u}, I ls t → step t l u → I (ls ++ [l]) u) : I ls t := by
  induction h with
  | nil => exact h₀
  | snoc _ hl ih => exact hstep ih hl

/-- An observation that no step of the run changes. -/
theorem keeps {g : σ → τ} (h : Runs step s ls t)
    (hstep : ∀ l ∈ ls, ∀ {x y}, step x l y → g y = g x) : g t = g s := by
  induction h with
  | nil => rfl
  | snoc _ hl ih =>
    rw [hstep _ (by simp) hl]
    exact ih fun l hmem => hstep l (by simp [hmem])

end Runs

end FuelSequencer.Exec
