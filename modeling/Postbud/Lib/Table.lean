import Mathlib.Data.List.Pairwise
import Mathlib.Order.Defs.Unbundled

namespace Postbud.Lib

/-- A table of a database: its rows in insertion order, and the proof that no
two of them are rows its uniqueness constraints forbid side by side. The
constraints are one relation, which holds between two rows that clash. -/
structure Table (ρ : Type) (clash : ρ → ρ → Prop) where
  rows : List ρ
  unique : rows.Pairwise fun x y ↦ ¬ clash x y

namespace Table

variable {ρ : Type} {clash : ρ → ρ → Prop}

instance : Membership ρ (Table ρ clash) := ⟨fun t r ↦ r ∈ t.rows⟩

theorem mem_def {t : Table ρ clash} {r : ρ} : r ∈ t ↔ r ∈ t.rows := Iff.rfl

@[ext] theorem ext {t t' : Table ρ clash} (h : t.rows = t'.rows) : t = t' := by
  cases t
  cases t'
  cases h
  rfl

def empty : Table ρ clash := ⟨[], .nil⟩

theorem not_mem_empty (r : ρ) : r ∉ (empty : Table ρ clash) := List.not_mem_nil

/-- `insert`: the row is appended, or the statement fails on a row it clashes with. -/
def insert? [DecidableRel clash] (t : Table ρ clash) (r : ρ) : Option (Table ρ clash) :=
  if h : ∀ x ∈ t.rows, ¬ clash x r then
    some ⟨t.rows ++ [r], List.pairwise_append.mpr ⟨t.unique, List.pairwise_singleton _ _,
      fun x hx _ hy ↦ List.mem_singleton.mp hy ▸ h x hx⟩⟩
  else none

def insertOrIgnore [DecidableRel clash] (t : Table ρ clash) (r : ρ) : Table ρ clash :=
  (t.insert? r).getD t

/-- `update`, for a change of rows that makes no two of them clash. -/
def update (t : Table ρ clash) (f : ρ → ρ) (hf : ∀ x y, clash (f x) (f y) → clash x y) :
    Table ρ clash :=
  ⟨t.rows.map f, List.pairwise_map.mpr (t.unique.imp fun h h' ↦ h (hf _ _ h'))⟩

section Insert

variable [DecidableRel clash] {t t' : Table ρ clash} {r x : ρ}

theorem insert?_eq_some : t.insert? r = some t' ↔
    (∀ x ∈ t, ¬ clash x r) ∧ t'.rows = t.rows ++ [r] := by
  unfold insert?
  split
  · rename_i h
    constructor
    · intro he
      exact ⟨h, (Option.some.inj he) ▸ rfl⟩
    · intro h'
      obtain ⟨-, he⟩ := h'
      exact congrArg some (ext he.symm)
  · rename_i h
    exact ⟨fun he ↦ by simp at he, fun he ↦ absurd he.1 h⟩

theorem insert?_of_free (h : ∀ x ∈ t, ¬ clash x r) : ∃ t', t.insert? r = some t' :=
  ⟨_, dif_pos h⟩

theorem insertOrIgnore_of_clash (hx : x ∈ t) (h : clash x r) : t.insertOrIgnore r = t := by
  have hn : t.insert? r = none := dif_neg fun hc ↦ hc x hx h
  simp only [insertOrIgnore, hn, Option.getD_none]

theorem insertOrIgnore_of_free (h : ∀ x ∈ t, ¬ clash x r) :
    (t.insertOrIgnore r).rows = t.rows ++ [r] := by
  obtain ⟨t', ht⟩ := insert?_of_free h
  simp only [insertOrIgnore, ht, Option.getD_some, (insert?_eq_some.mp ht).2]

theorem rows_insertOrIgnore (t : Table ρ clash) (r : ρ) :
    (t.insertOrIgnore r).rows = t.rows ∨ (t.insertOrIgnore r).rows = t.rows ++ [r] := by
  by_cases hc : ∀ y ∈ t, ¬ clash y r
  · exact .inr (insertOrIgnore_of_free hc)
  · simp only [not_forall, not_not] at hc
    obtain ⟨y, hy, hc⟩ := hc
    exact .inl (congrArg rows (insertOrIgnore_of_clash hy hc))

theorem mem_insertOrIgnore_of_mem (h : x ∈ t) : x ∈ t.insertOrIgnore r := by
  rcases rows_insertOrIgnore t r with he | he
  · exact mem_def.mpr (he ▸ h)
  · exact mem_def.mpr (he ▸ List.mem_append_left _ h)

theorem mem_insertOrIgnore (h : x ∈ t.insertOrIgnore r) : x ∈ t ∨ x = r := by
  rcases rows_insertOrIgnore t r with he | he
  · rw [mem_def, he] at h
    exact .inl h
  · rw [mem_def, he, List.mem_append, List.mem_singleton] at h
    exact h

end Insert

section Update

variable {t : Table ρ clash} {f : ρ → ρ} {hf : ∀ x y, clash (f x) (f y) → clash x y}

@[simp] theorem rows_update : (t.update f hf).rows = t.rows.map f := rfl

theorem mem_update (hf : ∀ x y, clash (f x) (f y) → clash x y) {y : ρ} :
    y ∈ t.update f hf ↔ ∃ x ∈ t, f x = y := by
  simp only [mem_def, rows_update, List.mem_map]

end Update

theorem eq_of_clash [Std.Symm clash] {t : Table ρ clash} {x y : ρ} (hx : x ∈ t) (hy : y ∈ t)
    (h : clash x y) : x = y := by
  by_contra hne
  have : Std.Symm fun x y ↦ ¬ clash x y := ⟨fun _ _ h h' ↦ h (symm h')⟩
  exact t.unique.forall hx hy hne h

/-- A condition that no two rows meet side by side selects one row at most. -/
theorem length_filter_le_one {t : Table ρ clash} {p : ρ → Bool}
    (h : ∀ x y, p x → p y → clash x y) : (t.rows.filter p).length ≤ 1 := by
  have hkept : (t.rows.filter p).Pairwise fun x y ↦ ¬ clash x y := t.unique.filter p
  have hall : ∀ x ∈ t.rows.filter p, p x := fun x hx ↦ (List.mem_filter.mp hx).2
  generalize t.rows.filter p = kept at hkept hall
  cases kept with
  | nil => exact Nat.zero_le 1
  | cons x rest =>
    cases rest with
    | nil => exact Nat.le_refl 1
    | cons y rest =>
      have hy : y ∈ x :: y :: rest := List.mem_cons_of_mem _ List.mem_cons_self
      have hapart : ¬ clash x y := List.rel_of_pairwise_cons hkept List.mem_cons_self
      exact absurd (h x y (hall x List.mem_cons_self) (hall y hy)) hapart

end Table

end Postbud.Lib
