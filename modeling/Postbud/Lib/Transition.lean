import Mathlib.Order.Defs.Unbundled
import Mathlib.Data.List.Infix

namespace Postbud.Lib.Transition

variable {σ α : Type}

inductive Run (step : σ → α → Option σ) : σ → List α → σ → Prop
  | nil (s : σ) : Run step s [] s
  | cons {s s' t : σ} {a : α} {l : List α} :
      step s a = some s' → Run step s' l t → Run step s (a :: l) t

def exec (step : σ → α → Option σ) : σ → List α → Option σ
  | s, [] => some s
  | s, a :: l => (step s a).bind fun s' ↦ exec step s' l

/-- Every action of a run meets a condition on the state it is taken in. -/
def Along (step : σ → α → Option σ) (P : σ → α → Prop) : σ → List α → Prop
  | _, [] => True
  | s, a :: l => ∀ s' ∈ step s a, P s a ∧ Along step P s' l

/-- A property of states holds in every state a run passes through. -/
def Always (step : σ → α → Option σ) (I : σ → Prop) (s : σ) (l : List α) : Prop :=
  ∀ l' t, l' <+: l → Run step s l' t → I t

/-- A relation holds between every two states of a run, the earlier on the left. -/
def Throughout (step : σ → α → Option σ) (R : σ → σ → Prop) (s : σ) (l : List α) : Prop :=
  ∀ l₁ l₂ t u, l₁ ++ l₂ <+: l → Run step s l₁ t → Run step t l₂ u → R t u

variable {step : σ → α → Option σ} {s t u : σ} {a : α} {l l₁ l₂ : List α}

theorem run_iff_exec : Run step s l t ↔ exec step s l = some t := by
  constructor
  · intro h
    induction h with
    | nil => rfl
    | cons hs _ ih => simpa only [exec, hs, Option.bind_some] using ih
  · intro h
    induction l generalizing s with
    | nil => exact Option.some.inj h ▸ .nil _
    | cons a l ih =>
      obtain ⟨s', hs, h⟩ := Option.bind_eq_some_iff.mp h
      exact .cons hs (ih h)

theorem Run.one (h : step s a = some t) : Run step s [a] t := .cons h (.nil t)

theorem Run.trans (h : Run step s l₁ t) (h' : Run step t l₂ u) : Run step s (l₁ ++ l₂) u := by
  induction h with
  | nil => exact h'
  | cons hs _ ih => exact .cons hs (ih h')

theorem run_append : Run step s (l₁ ++ l₂) u ↔ ∃ t, Run step s l₁ t ∧ Run step t l₂ u := by
  refine ⟨fun h ↦ ?_, fun ⟨t, h, h'⟩ ↦ h.trans h'⟩
  induction l₁ generalizing s with
  | nil => exact ⟨s, .nil s, h⟩
  | cons a l ih =>
    cases h with
    | cons hs h =>
      obtain ⟨t, ht, hu⟩ := ih h
      exact ⟨t, .cons hs ht, hu⟩

theorem Run.deterministic (h : Run step s l t) (h' : Run step s l u) : t = u :=
  Option.some.inj ((run_iff_exec.mp h).symm.trans (run_iff_exec.mp h'))

instance decidableAlong (P : σ → α → Prop) [∀ s a, Decidable (P s a)] :
    ∀ (s : σ) (l : List α), Decidable (Along step P s l)
  | _, [] => .isTrue trivial
  | s, a :: l =>
    have (s' : σ) : Decidable (Along step P s' l) := decidableAlong P s' l
    inferInstanceAs (Decidable (∀ s' ∈ step s a, P s a ∧ Along step P s' l))

theorem run_of_any {p : σ → Bool} (h : (exec step s l).any p) : ∃ t, Run step s l t ∧ p t := by
  cases he : exec step s l with
  | none => simp only [he, Option.any_none, Bool.false_eq_true] at h
  | some t => exact ⟨t, run_iff_exec.mpr he, by simpa only [he, Option.any_some] using h⟩

/-- The invariant rule: what every step keeps, a whole run keeps. -/
theorem Run.invariant (I : σ → Prop) (hstep : ∀ s a s', I s → step s a = some s' → I s')
    (h : Run step s l t) (hs : I s) : I t := by
  induction h with
  | nil => exact hs
  | cons ha _ ih => exact ih (hstep _ _ _ hs ha)

theorem Run.invariant_along (I : σ → Prop) {P : σ → α → Prop}
    (hstep : ∀ s a s', I s → P s a → step s a = some s' → I s')
    (h : Run step s l t) (hP : Along step P s l) (hs : I s) : I t := by
  induction h with
  | nil => exact hs
  | cons ha _ ih =>
    obtain ⟨hp, hrest⟩ := hP _ ha
    exact ih hrest (hstep _ _ _ hs hp ha)

/-- The rule for runs whose every action meets a condition. -/
theorem always_of_along {I : σ → Prop} {P : σ → α → Prop}
    (hstep : ∀ s a s', I s → P s a → step s a = some s' → I s')
    (hP : Along step P s l) (hs : I s) : Always step I s l := by
  induction l generalizing s with
  | nil =>
    intro l' t hl ht
    obtain rfl := List.prefix_nil.mp hl
    cases ht
    exact hs
  | cons a l ih =>
    intro l' t hl ht
    cases ht with
    | nil => exact hs
    | @cons _ s' _ b l' hb ht =>
      obtain ⟨rfl, hl'⟩ := List.cons_prefix_cons.mp hl
      obtain ⟨hp, hrest⟩ := hP s' hb
      exact ih hrest (hstep s b s' hs hp hb) l' t hl' ht

theorem along_of_forall {P : σ → α → Prop} (h : ∀ s, ∀ a ∈ l, P s a) : Along step P s l := by
  induction l generalizing s with
  | nil => trivial
  | cons a l ih =>
    intro s' _
    exact ⟨h s a List.mem_cons_self, ih fun s b hb ↦ h s b (List.mem_cons_of_mem _ hb)⟩

theorem along_of_along {I : σ → Prop} {P Q : σ → α → Prop}
    (hstep : ∀ s a s', I s → P s a → step s a = some s' → I s' ∧ Q s a)
    (hP : Along step P s l) (hs : I s) : Along step Q s l := by
  induction l generalizing s with
  | nil => trivial
  | cons a l ih =>
    intro s' ha
    obtain ⟨hp, hrest⟩ := hP s' ha
    obtain ⟨hi, hq⟩ := hstep s a s' hs hp ha
    exact ⟨hq, ih hrest hi⟩

theorem Run.relates {R : σ → σ → Prop} (hrefl : ∀ s, R s s)
    (htrans : ∀ s t u, R s t → R t u → R s u) (hstep : ∀ s a s', step s a = some s' → R s s')
    (h : Run step s l t) : R s t := by
  induction h with
  | nil => exact hrefl _
  | cons ha _ ih => exact htrans _ _ _ (hstep _ _ _ ha) ih

theorem along_append {P : σ → α → Prop} (h : Run step s l₁ t) (hP : Along step P s (l₁ ++ l₂)) :
    Along step P s l₁ ∧ Along step P t l₂ := by
  induction h with
  | nil => exact ⟨trivial, hP⟩
  | @cons s s' t a l ha h ih =>
    obtain ⟨hp, hrest⟩ := hP _ ha
    refine ⟨fun x hx ↦ ?_, (ih hrest).2⟩
    obtain rfl : s' = x := Option.some.inj (ha.symm.trans hx)
    exact ⟨hp, (ih hrest).1⟩

theorem along_last {P : σ → α → Prop} (h : Run step s l t) (hP : Along step P s (l ++ [a]))
    (ha : step t a = some u) : P t a :=
  ((along_append h hP).2 u ha).1

theorem along_of_inv {J : σ → Prop} {P : σ → α → Prop}
    (hJ : ∀ s a s', J s → step s a = some s' → J s')
    (h : ∀ s a s', J s → step s a = some s' → P s a) (hs : J s) : Along step P s l := by
  induction l generalizing s with
  | nil => trivial
  | cons a l ih => exact fun s' ha ↦ ⟨h s a s' hs ha, ih (hJ s a s' hs ha)⟩

theorem along_iff {J : σ → Prop} {P Q : σ → α → Prop}
    (hJ : ∀ s a s', J s → step s a = some s' → J s')
    (h : ∀ s a s', J s → step s a = some s' → (P s a ↔ Q s a)) (hs : J s) :
    Along step P s l ↔ Along step Q s l := by
  induction l generalizing s with
  | nil => exact Iff.rfl
  | cons a l ih =>
    exact forall₂_congr fun s' ha ↦ and_congr (h s a s' hs ha) (ih (hJ s a s' hs ha))

/-- A property that a step keeps exactly when the step meets `P` holds in
every state of a run exactly when every step of the run meets `P`. -/
theorem always_iff {I J : σ → Prop} {P : σ → α → Prop}
    (hJ : ∀ s a s', J s → step s a = some s' → J s')
    (hI : ∀ s a s', J s → I s → step s a = some s' → (I s' ↔ P s a))
    (hs : J s) (hi : I s) : Always step I s l ↔ Along step P s l := by
  induction l generalizing s with
  | nil =>
    refine ⟨fun _ ↦ trivial, fun _ l' t hl hr ↦ ?_⟩
    obtain rfl := List.prefix_nil.mp hl
    cases hr
    exact hi
  | cons a l ih =>
    constructor
    · intro hA s' ha
      have hi' : I s' := hA [a] s' ⟨l, rfl⟩ (.one ha)
      refine ⟨(hI s a s' hs hi ha).mp hi', ?_⟩
      apply (ih (hJ _ _ _ hs ha) hi').mp
      intro l' u hl hr
      exact hA (a :: l') u (List.cons_prefix_cons.mpr ⟨rfl, hl⟩) (.cons ha hr)
    · intro hA l' u hl hr
      cases hr with
      | nil => exact hi
      | @cons _ s' _ b l₁ hb hr =>
        obtain ⟨rfl, hl'⟩ := List.cons_prefix_cons.mp hl
        obtain ⟨hp, hrest⟩ := hA s' hb
        have hi' : I s' := (hI s b s' hs hi hb).mpr hp
        exact (ih (hJ _ _ _ hs hb) hi').mpr hrest l₁ u hl' hr

/-- A preorder that a step respects exactly when the step meets `P` relates
all states of a run exactly when every step of the run meets `P`. -/
theorem throughout_iff {R : σ → σ → Prop} {J : σ → Prop} {P : σ → α → Prop}
    (hrefl : ∀ s, R s s) (htrans : ∀ s t u, R s t → R t u → R s u)
    (hJ : ∀ s a s', J s → step s a = some s' → J s')
    (hR : ∀ s a s', J s → step s a = some s' → (R s s' ↔ P s a))
    (hs : J s) : Throughout step R s l ↔ Along step P s l := by
  induction l generalizing s with
  | nil =>
    refine ⟨fun _ ↦ trivial, fun _ l₁ l₂ t u hl ht hu ↦ ?_⟩
    obtain ⟨rfl, rfl⟩ := List.append_eq_nil_iff.mp (List.prefix_nil.mp hl)
    cases ht
    cases hu
    exact hrefl s
  | cons a l ih =>
    constructor
    · intro hT s' ha
      refine ⟨(hR s a s' hs ha).mp (hT [] [a] s s' ⟨l, rfl⟩ (.nil s) (.one ha)), ?_⟩
      apply (ih (hJ _ _ _ hs ha)).mp
      intro l₁ l₂ t u hl ht hu
      exact hT (a :: l₁) l₂ t u (List.cons_prefix_cons.mpr ⟨rfl, hl⟩) (.cons ha ht) hu
    · intro hA l₁ l₂ t u hl ht hu
      cases ht with
      | nil =>
        cases hu with
        | nil => exact hrefl s
        | @cons _ s' _ b l₂ hb hu =>
          obtain ⟨rfl, hl'⟩ := List.cons_prefix_cons.mp hl
          obtain ⟨hp, hrest⟩ := hA s' hb
          have hrest := (ih (hJ _ _ _ hs hb)).mpr hrest
          exact htrans _ _ _ ((hR s b s' hs hb).mpr hp) (hrest [] l₂ s' u hl' (.nil s') hu)
      | @cons _ s' _ b l₁ hb ht =>
        obtain ⟨rfl, hl'⟩ := List.cons_prefix_cons.mp hl
        obtain ⟨-, hrest⟩ := hA s' hb
        exact (ih (hJ _ _ _ hs hb)).mpr hrest l₁ l₂ t u hl' ht hu

/-- The rule for what no run may lose: an invariant, and what a step respects under it. -/
theorem throughout_of_inv {R : σ → σ → Prop} {J : σ → Prop}
    (hrefl : ∀ s, R s s) (htrans : ∀ s t u, R s t → R t u → R s u)
    (hJ : ∀ s a s', J s → step s a = some s' → J s' ∧ R s s') (hs : J s) :
    Throughout step R s l := by
  have hiff := throughout_iff (l := l) (P := fun _ _ ↦ True) hrefl htrans
    (fun s a s' hi ha ↦ (hJ s a s' hi ha).1)
    (fun s a s' hi ha ↦ ⟨fun _ ↦ trivial, fun _ ↦ (hJ s a s' hi ha).2⟩) hs
  exact hiff.mpr (along_of_forall fun _ _ _ ↦ trivial)

end Postbud.Lib.Transition
