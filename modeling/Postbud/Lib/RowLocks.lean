import Mathlib.Data.List.Lattice
import Postbud.Lib.Processes

namespace Postbud.Lib.RowLocks

open Processes

variable {π ι : Type} {locks : π → List ι} {l : List π} {i : ℕ} {x x' : π}

/-- No two processes have locked one row. -/
def Exclusive (locks : π → List ι) (l : List π) : Prop :=
  Apart (fun x y ↦ (locks x).Disjoint (locks y)) l

/-- A row that none of the other processes has locked: one that wants it need not wait. -/
def Free (locks : π → List ι) (others : List π) (id : ι) : Prop := ∀ y ∈ others, id ∉ locks y

instance [DecidableEq ι] (others : List π) (id : ι) : Decidable (Free locks others id) :=
  inferInstanceAs (Decidable (∀ y ∈ others, id ∉ locks y))

instance symm_disjoint : Std.Symm fun x y ↦ (locks x).Disjoint (locks y) where
  symm _ _ h _ hy hx := h hx hy

theorem Exclusive.nil : Exclusive locks ([] : List π) := Apart.nil

theorem Exclusive.concat (h : Exclusive locks l) (hx : locks x = []) :
    Exclusive locks (l ++ [x]) :=
  Apart.concat h fun y _ ↦ hx ▸ List.disjoint_nil_left (locks y)

/-- A process keeps the locks it has, lets go of them, or takes free ones. -/
theorem Exclusive.set (h : Exclusive locks l) (hi : l[i]? = some x)
    (hx : ∀ id ∈ locks x', id ∈ locks x ∨ Free locks (l.eraseIdx i) id) :
    Exclusive locks (l.set i x') := by
  refine Apart.set h fun j y hj hy id hid hid' ↦ ?_
  rcases hx id hid with hid | hfree
  · exact h i j x y (Ne.symm hj) hi hy hid hid'
  · exact hfree y (List.mem_eraseIdx_iff_getElem?.mpr ⟨j, hj, hy⟩) hid'

theorem Exclusive.disjoint {y : π} (h : Exclusive locks l) (hi : l[i]? = some x)
    (hy : y ∈ l.eraseIdx i) : (locks x).Disjoint (locks y) := by
  obtain ⟨j, hj, hy⟩ := List.mem_eraseIdx_iff_getElem?.mp hy
  exact h i j x y (Ne.symm hj) hi hy

/-- What a process knows of the rows it has locked stays true while another
one changes only rows that it has locked itself. -/
theorem Exclusive.frame (h : Exclusive locks l) (hi : l[i]? = some x) {Kept : ι → Prop}
    (hkept : ∀ id, id ∉ locks x → Kept id) {Knows Knows' : π → Prop}
    (hlocal : ∀ y, (∀ id ∈ locks y, Kept id) → Knows y → Knows' y)
    (hy : ∀ y ∈ l.eraseIdx i, Knows y) : ∀ y ∈ l.eraseIdx i, Knows' y := by
  intro y hmem
  refine hlocal y (fun id hid ↦ hkept id fun hx ↦ ?_) (hy y hmem)
  exact h.disjoint hi hmem hx hid

end Postbud.Lib.RowLocks
