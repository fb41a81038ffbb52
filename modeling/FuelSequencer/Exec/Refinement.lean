import FuelSequencer.Exec.Runs
import FuelSequencer.Exec.Transaction

/-! # Computations that only take given steps

A computation refines a labelled step relation when its writes, however it ends, are
those of a run of steps. Sequences, attempts and branches of such computations refine the
relation again, so that a program is refined part by part.
-/
namespace FuelSequencer.Exec

variable {ε σ α β ℓ : Type} {step : σ → ℓ → σ → Prop}

def Refines (step : σ → ℓ → σ → Prop) (x : Prog ε σ α) : Prop := ∀ s, ∃ ls, Runs step s ls (final (x.run s))

namespace Refines

/-- A computation that does not write. -/
theorem of_keeps {x : Prog ε σ α} (h : Keeps id x) : Refines step x := by
  intro s
  have hs : final (x.run s) = s := h s
  rw [hs]
  exact ⟨[], Runs.nil s⟩

theorem pure (a : α) : Refines step (pure a : Prog ε σ α) := of_keeps (keeps_pure _ a)

theorem get : Refines step (get : Prog ε σ σ) := of_keeps (keeps_get _)

theorem ofOutcome (x : Outcome ε α) : Refines step (ofOutcome x : Prog ε σ α) := of_keeps (keeps_ofOutcome _ x)

/-- A write that is one step. -/
theorem modify {f : σ → σ} (h : ∀ s, ∃ l, step s l (f s)) : Refines step (modify f : Prog ε σ PUnit) := by
  intro s
  obtain ⟨l, hl⟩ := h s
  exact ⟨[l], Runs.single hl⟩

theorem bind {x : Prog ε σ α} {f : α → Prog ε σ β} (hx : Refines step x) (hf : ∀ a, Refines step (f a)) :
    Refines step (x >>= f) := by
  intro s
  obtain ⟨ls, hls⟩ := hx s
  cases h : x.run s with
  | ok a t =>
    rw [h] at hls
    obtain ⟨ms, hms⟩ := hf a t
    rw [run_bind_of_ok h]
    exact ⟨ls ++ ms, hls.append hms⟩
  | error e t =>
    rw [h] at hls
    rw [run_bind_of_error h]
    exact ⟨ls, hls⟩

theorem attempt {x : Prog ε σ α} (hx : Refines step x) : Refines step (attempt x) := by
  intro s
  obtain ⟨ls, hls⟩ := hx s
  cases h : x.run s with
  | ok a t =>
    rw [h] at hls
    rw [run_attempt_of_ok h]
    exact ⟨ls, hls⟩
  | error e t =>
    rw [h] at hls
    cases e with
    | err e =>
      rw [run_attempt_of_err h]
      exact ⟨ls, hls⟩
    | panic e =>
      rw [run_attempt_of_panic h]
      exact ⟨ls, hls⟩

theorem ite {c : Prop} [Decidable c] {x y : Prog ε σ α} (hx : c → Refines step x) (hy : ¬ c → Refines step y) :
    Refines step (if c then x else y) := by
  split
  · next h => exact hx h
  · next h => exact hy h

end Refines

end FuelSequencer.Exec
