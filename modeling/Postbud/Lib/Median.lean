import Mathlib.Algebra.Order.Field.Rat
import Mathlib.Data.List.Sort

namespace Postbud.Lib.Median

section Sorted

variable {α : Type} [LinearOrder α] {s : List α} {x : α} {i j : ℕ}

theorem getElem_mono (hs : s.Pairwise (· ≤ ·)) (hij : i ≤ j) (hj : j < s.length) :
    s[i] ≤ s[j] := by
  rcases hij.lt_or_eq with hlt | rfl
  · exact List.pairwise_iff_getElem.mp hs i j (hij.trans_lt hj) hj hlt
  · exact le_rfl

/-- Where more than `i` entries of a sorted list are up to `x`, the one at `i` is. -/
theorem getElem_le_of_countP (hs : s.Pairwise (· ≤ ·)) (hi : i < s.length)
    (h : i < s.countP (· ≤ x)) : s[i] ≤ x := by
  by_contra hlt
  have hrest : (s.drop i).countP (· ≤ x) = 0 := by
    refine List.countP_eq_zero.mpr fun y hy ↦ ?_
    obtain ⟨j, hj, rfl⟩ := List.mem_iff_getElem.mp hy
    rw [List.length_drop] at hj
    rw [List.getElem_drop, decide_eq_true_iff, not_le]
    exact (not_le.mp hlt).trans_le (getElem_mono hs (Nat.le_add_right i j) (by omega))
  have hcount : s.countP (· ≤ x) ≤ i := by
    rw [← List.take_append_drop i s, List.countP_append, hrest]
    exact List.countP_le_length.trans (List.length_take_le i s)
  omega

/-- Where at most `i` entries are below `x`, the one at `i` is not. -/
theorem le_getElem_of_countP (hs : s.Pairwise (· ≤ ·)) (hi : i < s.length)
    (h : s.countP (· < x) ≤ i) : x ≤ s[i] := by
  by_contra hlt
  have hfirst : (s.take (i + 1)).countP (· < x) = (s.take (i + 1)).length := by
    refine List.countP_eq_length.mpr fun y hy ↦ ?_
    obtain ⟨j, hj, rfl⟩ := List.mem_iff_getElem.mp hy
    rw [List.length_take] at hj
    rw [List.getElem_take, decide_eq_true_iff]
    exact (getElem_mono hs (by omega) hi).trans_lt (not_le.mp hlt)
  have hcount : i + 1 ≤ s.countP (· < x) := by
    rw [← List.take_append_drop (i + 1) s, List.countP_append, hfirst, List.length_take]
    omega
  omega

end Sorted

/-- `percentile_cont(0.5)`, and zero of nothing. -/
def median (l : List ℕ) : ℚ :=
  let s := l.insertionSort (· ≤ ·)
  ((s.getD ((l.length - 1) / 2) 0 : ℚ) + s.getD (l.length / 2) 0) / 2

variable {l : List ℕ} {x k : ℕ}

/-- Of an odd number of entries the median is the one in the middle. -/
theorem median_odd (hl : l.length = 2 * k + 1) :
    median l = (l.insertionSort (· ≤ ·)).getD k 0 := by
  have hlow : (l.length - 1) / 2 = k := by omega
  have hhigh : l.length / 2 = k := by omega
  rw [median, hlow, hhigh]
  exact add_self_div_two _

theorem median_le (hl : l.length = 2 * k + 1) (h : k < l.countP (· ≤ x)) : median l ≤ x := by
  have hperm := List.perm_insertionSort (· ≤ ·) l
  have hk : k < (l.insertionSort (· ≤ ·)).length := by
    rw [hperm.length_eq]
    omega
  rw [median_odd hl, List.getD_eq_getElem?_getD, List.getElem?_eq_getElem hk, Option.getD_some]
  exact_mod_cast getElem_le_of_countP (List.pairwise_insertionSort _ l) hk (hperm.countP_eq _ ▸ h)

theorem le_median (hl : l.length = 2 * k + 1) (h : l.countP (· < x) ≤ k) : x ≤ median l := by
  have hperm := List.perm_insertionSort (· ≤ ·) l
  have hk : k < (l.insertionSort (· ≤ ·)).length := by
    rw [hperm.length_eq]
    omega
  rw [median_odd hl, List.getD_eq_getElem?_getD, List.getElem?_eq_getElem hk, Option.getD_some]
  exact_mod_cast le_getElem_of_countP (List.pairwise_insertionSort _ l) hk (hperm.countP_eq _ ▸ h)

end Postbud.Lib.Median
