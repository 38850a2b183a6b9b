import Mathlib.Data.List.Basic

/-!
# Labelled transition systems

Runs of a step relation, the invariant rule, and termination by a measure.
A run carries the labels of its steps, so that a property of what happened
between two states is a property of a list.
-/

namespace Lts

universe u v

variable {σ : Type u} {α : Type v}

inductive Run (step : σ → α → σ → Prop) : σ → List α → σ → Prop
  | nil (s : σ) : Run step s [] s
  | cons {s t u : σ} {a : α} {as : List α} : step s a t → Run step t as u → Run step s (a :: as) u

variable {step : σ → α → σ → Prop}

theorem Run.append {s t u : σ} {as bs : List α} (h : Run step s as t) (h' : Run step t bs u) :
    Run step s (as ++ bs) u := by
  induction h with
  | nil => exact h'
  | cons hs _ ih => exact .cons hs (ih h')

theorem Run.split {s u : σ} {as bs : List α} (h : Run step s (as ++ bs) u) :
    ∃ t, Run step s as t ∧ Run step t bs u := by
  induction as generalizing s with
  | nil => exact ⟨s, .nil s, h⟩
  | cons a as ih =>
    cases h with
    | cons hs ht =>
      obtain ⟨t, h₁, h₂⟩ := ih ht
      exact ⟨t, .cons hs h₁, h₂⟩

/-- **Invariant rule.** What every step keeps, every run keeps. -/
theorem Run.invariant {I : σ → Prop} (hstep : ∀ s a t, I s → step s a t → I t) {s t : σ} {as : List α}
    (h : Run step s as t) (hs : I s) : I t := by
  induction h with
  | nil => exact hs
  | cons ha _ ih => exact ih (hstep _ _ _ hs ha)

theorem Run.length_le {I : σ → Prop} {μ : σ → Nat} (hstep : ∀ s a t, I s → step s a t → I t ∧ μ t < μ s)
    {s t : σ} {as : List α} (h : Run step s as t) (hs : I s) : as.length + μ t ≤ μ s := by
  induction h with
  | nil => simp
  | cons ha _ ih =>
    obtain ⟨ht, hμ⟩ := hstep _ _ _ hs ha
    have := ih ht
    simp only [List.length_cons]
    omega

end Lts
