import Mathlib.Data.List.Count
import Postbud.Lib.Transition

namespace Postbud.Lib.Transition

variable {σ α : Type} {step : σ → α → Option σ} {s t : σ} {l : List α}

/-- A process among others has only so many steps left, if each of its own
uses one up and no step of another gives any back. -/
theorem Run.countP_le {own : α → Bool} {P : σ → α → Prop} (left : σ → ℕ)
    (hstep : ∀ s a s', P s a → step s a = some s' → left s' + (if own a then 1 else 0) ≤ left s)
    (h : Run step s l t) (hP : Along step P s l) : left t + l.countP own ≤ left s := by
  induction h with
  | nil => exact Nat.le_refl _
  | cons ha _ ih =>
    obtain ⟨hp, hrest⟩ := hP _ ha
    have hone := hstep _ _ _ hp ha
    have hall := ih hrest
    rw [List.countP_cons]
    omega

end Postbud.Lib.Transition
