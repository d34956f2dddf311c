import Mathlib.Data.List.Induction
import Mathlib.Data.List.Sort

namespace Postbud.Lib.Grouping

section Group

variable {α κ β : Type} [BEq κ] [Hashable κ] [LawfulBEq κ] [LawfulHashable κ]

/-- Rows collected under their keys, in the order they come. -/
def group (key : α → κ) (value : α → β) (rows : List α) : Std.HashMap κ (List β) :=
  rows.foldl (fun m r ↦ m.alter (key r) fun l ↦ some (l.getD [] ++ [value r])) ∅

theorem getD_group (key : α → κ) (value : α → β) (rows : List α) (k : κ) :
    (group key value rows).getD k [] = (rows.filter (key · == k)).map value := by
  induction rows using List.reverseRecOn with
  | nil => exact Std.HashMap.getD_empty
  | append_singleton rows r ih =>
    have hstep : group key value (rows ++ [r]) =
        (group key value rows).alter (key r) fun l ↦ some (l.getD [] ++ [value r]) := by
      simp only [group, List.foldl_append, List.foldl_cons, List.foldl_nil]
    rw [hstep, Std.HashMap.getD_alter, List.filter_append, List.map_append, ← ih]
    by_cases hk : key r = k
    · subst hk
      simp [Std.HashMap.getD_eq_getD_getElem?]
    · simp [hk]

/-- What is taken out of a map for one key after another. -/
def removeEach (m : Std.HashMap κ (List β)) : List κ → List (List β)
  | [] => []
  | k :: keys => m.getD k [] :: removeEach (m.erase k) keys

/-- Distinct keys take nothing from one another. -/
theorem removeEach_of_nodup {keys : List κ} (h : keys.Nodup) (m : Std.HashMap κ (List β)) :
    removeEach m keys = keys.map (m.getD · []) := by
  induction keys generalizing m with
  | nil => rfl
  | cons k keys ih =>
    obtain ⟨hk, hnd⟩ := List.nodup_cons.mp h
    rw [removeEach, ih hnd, List.map_cons]
    congr 1
    refine List.map_congr_left fun k' hk' ↦ ?_
    have hne : ¬ k = k' := fun he ↦ hk (he ▸ hk')
    simp only [Std.HashMap.getD_erase, beq_iff_eq, hne, if_false]

end Group

section Order

variable {α κ : Type} [LinearOrder κ] {l l' : List α} {rank : α → κ}

/-- Rows whose ranks differ have one order. -/
theorem eq_of_perm_of_ranked (hp : l.Perm l') (hl : l.Pairwise fun a b ↦ rank a ≤ rank b)
    (hl' : l'.Pairwise fun a b ↦ rank a < rank b) : l = l' := by
  have hinj : ∀ a ∈ l', ∀ b ∈ l', rank a = rank b → a = b := by
    have hnd : (l'.map rank).Nodup := List.pairwise_map.mpr (hl'.imp ne_of_lt)
    exact fun a ha b hb he ↦ List.inj_on_of_nodup_map hnd ha hb he
  refine hp.eq_of_pairwise (fun a b ha hb hab hba ↦ ?_) hl (hl'.imp le_of_lt)
  exact hinj a (hp.mem_iff.mp ha) b hb (le_antisymm hab hba)

/-- A row of a rank below all others comes first. -/
theorem head?_of_least {x : α} (hp : l.Perm l') (hl : l.Pairwise fun a b ↦ rank a ≤ rank b)
    (hx : x ∈ l') (hleast : ∀ a ∈ l', a ≠ x → rank x < rank a) : l.head? = some x := by
  have hx' : x ∈ l := hp.mem_iff.mpr hx
  cases l with
  | nil => exact absurd hx' List.not_mem_nil
  | cons y l =>
    rcases List.mem_cons.mp hx' with rfl | hlater
    · rfl
    · have hle : rank y ≤ rank x := List.rel_of_pairwise_cons hl hlater
      by_contra hne
      have hyx : y ≠ x := fun he ↦ hne (he ▸ rfl)
      exact absurd (hleast y (hp.mem_iff.mp List.mem_cons_self) hyx) (not_lt_of_ge hle)

end Order

end Postbud.Lib.Grouping
