import Postbud.Lib.Transition

namespace Postbud.Lib.Transition

variable {σ τ α β : Type} {step : σ → α → Option σ} {step' : τ → β → Option τ}
  {P : σ → α → Prop} {R : σ → τ → Prop} {s s' : σ} {t : τ} {l : List α}

/-- Every step on the left that meets a condition is matched by a run on the
right, of no step if nothing happens there. -/
def Simulates (step : σ → α → Option σ) (step' : τ → β → Option τ) (P : σ → α → Prop)
    (R : σ → τ → Prop) : Prop :=
  ∀ s a s' t, P s a → R s t → step s a = some s' → ∃ l t', Run step' t l t' ∧ R s' t'

theorem Run.simulated (hsim : Simulates step step' P R) (h : Run step s l s')
    (hP : Along step P s l) (hR : R s t) : ∃ l' t', Run step' t l' t' ∧ R s' t' := by
  induction h generalizing t with
  | nil => exact ⟨[], t, .nil t, hR⟩
  | cons ha _ ih =>
    obtain ⟨hp, hrest⟩ := hP _ ha
    obtain ⟨l₁, t₁, h₁, hR₁⟩ := hsim _ _ _ _ hp hR ha
    obtain ⟨l₂, t₂, h₂, hR₂⟩ := ih hrest hR₁
    exact ⟨l₁ ++ l₂, t₂, h₁.trans h₂, hR₂⟩

/-- What holds of all that can be reached on the right holds on the left. -/
theorem Run.of_simulation {Q : τ → Prop} (hsim : Simulates step step' P R) (h : Run step s l s')
    (hP : Along step P s l) (hR : R s t) (hQ : ∀ l' t', Run step' t l' t' → Q t') :
    ∃ t', R s' t' ∧ Q t' := by
  obtain ⟨l', t', hrun, hR'⟩ := h.simulated hsim hP hR
  exact ⟨t', hR', hQ l' t' hrun⟩

end Postbud.Lib.Transition
