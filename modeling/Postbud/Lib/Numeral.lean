import Mathlib.Data.Nat.Digits.Defs
import Postbud.Lib.Text

namespace Postbud.Lib.Numeral

/-- Decimal digits as they are written, the highest one first. -/
def spell (ds : List (Fin 10)) : Text := ds.map fun d ↦ d.val.digitChar

def value (ds : List (Fin 10)) : ℕ := Nat.ofDigits 10 (ds.reverse.map Fin.val)

/-- The integer that a text is the decimal numeral of, after a sign or none. -/
inductive Writes : Text → ℤ → Prop
  | plain {ds : List (Fin 10)} (h : ds ≠ []) : Writes (spell ds) (value ds)
  | plus {ds : List (Fin 10)} (h : ds ≠ []) : Writes ('+' :: spell ds) (value ds)
  | minus {ds : List (Fin 10)} (h : ds ≠ []) : Writes ('-' :: spell ds) (-value ds)

section Spell

variable {ds : List (Fin 10)}

theorem spell_injective : Function.Injective spell := by
  have hdigit : ∀ d e : Fin 10, d.val.digitChar = e.val.digitChar → d = e := by decide
  exact List.map_injective_iff.mpr hdigit

theorem spell_eq_nil : spell ds = [] ↔ ds = [] := List.map_eq_nil_iff

/-- No digit is a sign. -/
theorem ne_sign_of_mem_spell {c : Char} (h : c ∈ spell ds) : c ≠ '+' ∧ c ≠ '-' := by
  have hdigit : ∀ d : Fin 10, d.val.digitChar ≠ '+' ∧ d.val.digitChar ≠ '-' := by decide
  obtain ⟨d, -, rfl⟩ := List.mem_map.mp h
  exact hdigit d

theorem spell_ne_plus {t : Text} : spell ds ≠ '+' :: t := by
  intro h
  have hmem : '+' ∈ spell ds := h ▸ List.mem_cons_self
  exact (ne_sign_of_mem_spell hmem).1 rfl

theorem spell_ne_minus {t : Text} : spell ds ≠ '-' :: t := by
  intro h
  have hmem : '-' ∈ spell ds := h ▸ List.mem_cons_self
  exact (ne_sign_of_mem_spell hmem).2 rfl

end Spell

theorem value_concat (ds : List (Fin 10)) (d : Fin 10) :
    value (ds ++ [d]) = value ds * 10 + d := by
  rw [value, List.reverse_concat, List.map_cons, Nat.ofDigits_cons]
  exact (Nat.add_comm _ _).trans (congrArg (· + d.val) (Nat.mul_comm _ _))

/-- Horner's rule. -/
theorem foldl_eq_value (ds : List (Fin 10)) :
    (ds.map Fin.val).foldl (fun (n : ℤ) (d : ℕ) ↦ n * 10 + d) 0 = value ds := by
  induction ds using List.reverseRecOn with
  | nil => rfl
  | append_singleton ds d ih =>
    rw [List.map_append, List.foldl_append, ih, value_concat, List.map_singleton, List.foldl_cons,
      List.foldl_nil]
    push_cast
    rfl

section Writes

variable {t : Text} {n m : ℤ}

theorem writes_plain (hminus : ∀ u, t ≠ '-' :: u) (hplus : ∀ u, t ≠ '+' :: u) :
    Writes t n ↔ ∃ ds ≠ [], t = spell ds ∧ n = value ds := by
  constructor
  · intro h
    cases h with
    | plain hds => exact ⟨_, hds, rfl, rfl⟩
    | plus hds => exact absurd rfl (hplus _)
    | minus hds => exact absurd rfl (hminus _)
  · intro h
    obtain ⟨ds, hds, rfl, rfl⟩ := h
    exact .plain hds

theorem writes_plus : Writes ('+' :: t) n ↔ ∃ ds ≠ [], t = spell ds ∧ n = value ds := by
  constructor
  · intro h
    generalize ht : '+' :: t = u at h
    cases h with
    | plain hds => exact absurd ht.symm spell_ne_plus
    | plus hds => exact ⟨_, hds, (List.cons.inj ht).2, rfl⟩
    | minus hds => exact absurd (List.cons.inj ht).1 (by decide)
  · intro h
    obtain ⟨ds, hds, rfl, rfl⟩ := h
    exact .plus hds

theorem writes_minus : Writes ('-' :: t) n ↔ ∃ ds ≠ [], t = spell ds ∧ n = -value ds := by
  constructor
  · intro h
    generalize ht : '-' :: t = u at h
    cases h with
    | plain hds => exact absurd ht.symm spell_ne_minus
    | plus hds => exact absurd (List.cons.inj ht).1 (by decide)
    | minus hds => exact ⟨_, hds, (List.cons.inj ht).2, rfl⟩
  · intro h
    obtain ⟨ds, hds, rfl, rfl⟩ := h
    exact .minus hds

theorem Writes.ne_nil (h : Writes t n) : t ≠ [] := by
  cases h with
  | plain hds => exact mt spell_eq_nil.mp hds
  | plus hds => exact List.cons_ne_nil _ _
  | minus hds => exact List.cons_ne_nil _ _

/-- A text is the numeral of one integer at most. -/
theorem Writes.unique (hn : Writes t n) (hm : Writes t m) : n = m := by
  cases hn with
  | plain hds =>
    obtain ⟨ds, -, hspell, rfl⟩ :=
      (writes_plain (fun _ ↦ spell_ne_minus) fun _ ↦ spell_ne_plus).mp hm
    rw [spell_injective hspell]
  | plus hds =>
    obtain ⟨ds, -, hspell, rfl⟩ := writes_plus.mp hm
    rw [spell_injective hspell]
  | minus hds =>
    obtain ⟨ds, -, hspell, rfl⟩ := writes_minus.mp hm
    rw [spell_injective hspell]

end Writes

end Postbud.Lib.Numeral
