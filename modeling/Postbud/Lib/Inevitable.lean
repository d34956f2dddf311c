import Mathlib.Data.Nat.Notation

namespace Postbud.Lib

variable {σ : Type}

/-- Whichever steps are taken, a state with `Q` is reached, and none is taken
from a state that has no step. -/
inductive Inevitable (step : σ → σ → Prop) (Q : σ → Prop) : σ → Prop
  | here {s : σ} (h : Q s) : Inevitable step Q s
  | next {s : σ} (some : ∃ t, step s t) (all : ∀ t, step s t → Inevitable step Q t) :
    Inevitable step Q s

namespace Inevitable

variable {step : σ → σ → Prop} {Q I : σ → Prop} {s : σ}

/-- The rule of termination: an invariant under which every state has `Q` or
goes on, and only to states of a smaller measure. -/
theorem of_measure (m : σ → ℕ)
    (hstep : ∀ s, I s → Q s ∨ (∃ t, step s t) ∧ ∀ t, step s t → I t ∧ m t < m s) (hs : I s) :
    Inevitable step Q s := by
  induction hn : m s using Nat.strongRecOn generalizing s with
  | _ n ih =>
    obtain hq | ⟨hsome, hall⟩ := hstep s hs
    · exact .here hq
    · refine .next hsome fun t ht ↦ ?_
      obtain ⟨hi, hlt⟩ := hall t ht
      exact ih (m t) (hn ▸ hlt) hi rfl

/-- What holds where `Q` does, and before a step where it does after it, holds
from the start. -/
theorem necessary (h : Inevitable step Q s) (hQ : ∀ s, Q s → I s)
    (hstep : ∀ s t, step s t → I t → I s) : I s := by
  induction h with
  | here h => exact hQ _ h
  | next hsome _ ih =>
    obtain ⟨t, ht⟩ := hsome
    exact hstep _ t ht (ih t ht)

end Inevitable

end Postbud.Lib
