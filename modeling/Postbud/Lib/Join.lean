import Mathlib.Algebra.BigOperators.Group.List.Basic
import Mathlib.Data.List.Dedup
import Mathlib.Order.Basic

namespace Postbud.Lib.Join

variable {α β κ : Type}

/-- `join`: a row for every two that are partners. -/
def join (on : α → β → Bool) (l : List α) (m : List β) : List (α × β) :=
  l.flatMap fun a ↦ (m.filter (on a)).map fun b ↦ (a, b)

/-- `left join`: a row without a partner stays, once. -/
def leftJoin (on : α → β → Bool) (l : List α) (m : List β) : List (α × Option β) :=
  l.flatMap fun a ↦
    match m.filter (on a) with
    | [] => [(a, none)]
    | partners => partners.map fun b ↦ (a, some b)

/-- `group by`: the keys in the order they are met, each with its rows. -/
def groupBy [DecidableEq κ] (key : α → κ) (rows : List α) : List (κ × List α) :=
  (rows.map key).dedup.map fun k ↦ (k, rows.filter (key · = k))

/-- What a join holds of its right side, where the missing partners do not count. -/
def partners (rows : List (α × Option β)) : List β := rows.filterMap (·.2)

variable {on : α → β → Bool} {l : List α} {m : List β}

theorem leftJoin_cons (a : α) : leftJoin on (a :: l) m = leftJoin on [a] m ++ leftJoin on l m := by
  simp only [leftJoin, List.flatMap_cons, List.flatMap_nil, List.append_nil]

theorem mem_leftJoin_single {a : α} {e : α × Option β} (h : e ∈ leftJoin on [a] m) : e.1 = a := by
  rw [leftJoin, List.flatMap_singleton] at h
  split at h
  · rw [List.mem_singleton.mp h]
  · obtain ⟨b, -, rfl⟩ := List.mem_map.mp h
    rfl

theorem exists_mem_leftJoin_single (a : α) : ∃ e ∈ leftJoin on [a] m, e.1 = a := by
  rw [leftJoin, List.flatMap_singleton]
  cases m.filter (on a) with
  | nil => exact ⟨_, List.mem_singleton_self _, rfl⟩
  | cons b bs => exact ⟨(a, some b), List.mem_cons_self, rfl⟩

/-- Where every row has one partner, a join repeats none and loses none. -/
theorem map_fst_join (h : ∀ a ∈ l, (m.filter (on a)).length = 1) : (join on l m).map (·.1) = l := by
  induction l with
  | nil => rfl
  | cons a l ih =>
    obtain ⟨ha, hl⟩ := List.forall_mem_cons.mp h
    obtain ⟨b, hb⟩ := List.length_eq_one_iff.mp ha
    rw [join, List.flatMap_cons, hb, List.map_append, ← join, ih hl]
    rfl

theorem map_fst_leftJoin (h : ∀ a ∈ l, (m.filter (on a)).length ≤ 1) :
    (leftJoin on l m).map (·.1) = l := by
  induction l with
  | nil => rfl
  | cons a l ih =>
    obtain ⟨ha, hl⟩ := List.forall_mem_cons.mp h
    rw [leftJoin_cons, List.map_append, ih hl, leftJoin, List.flatMap_singleton]
    split
    · rfl
    · rename_i hne
      obtain ⟨b, hb⟩ : ∃ b, m.filter (on a) = [b] :=
        List.length_eq_one_iff.mp (Nat.le_antisymm ha (List.length_pos_iff.mpr hne))
      rw [hb]
      rfl

theorem partners_leftJoin : partners (leftJoin on l m) = l.flatMap fun a ↦ m.filter (on a) := by
  rw [partners, leftJoin, List.filterMap_flatMap]
  congr 1
  funext a
  split
  · rename_i hnil
    rw [hnil]
    rfl
  · simp only [List.filterMap_map, Function.comp_def, List.filterMap_some]

/-- A condition on the left side may be asked before the join. -/
theorem filter_leftJoin (p : α → Bool) :
    (leftJoin on l m).filter (fun e ↦ p e.1) = leftJoin on (l.filter p) m := by
  induction l with
  | nil => rfl
  | cons a l ih =>
    rw [leftJoin_cons, List.filter_append, ih]
    cases ha : p a with
    | true =>
      have hkeep : (leftJoin on [a] m).filter (fun e ↦ p e.1) = leftJoin on [a] m := by
        refine List.filter_eq_self.mpr fun e he ↦ ?_
        rw [mem_leftJoin_single he, ha]
      rw [hkeep, List.filter_cons_of_pos ha, leftJoin_cons (l := l.filter p)]
    | false =>
      have hdrop : (leftJoin on [a] m).filter (fun e ↦ p e.1) = [] := by
        refine List.filter_eq_nil_iff.mpr fun e he ↦ ?_
        rw [mem_leftJoin_single he, ha]
        exact Bool.false_ne_true
      rw [hdrop, List.nil_append, List.filter_cons_of_neg (by rw [ha]; exact Bool.false_ne_true)]

theorem mem_map_fst_leftJoin {a : α} : (∃ e ∈ leftJoin on l m, e.1 = a) ↔ a ∈ l := by
  induction l with
  | nil => exact iff_of_false (fun ⟨_, h, _⟩ ↦ List.not_mem_nil h) List.not_mem_nil
  | cons b l ih =>
    rw [leftJoin_cons, List.mem_cons, ← ih]
    constructor
    · intro h
      obtain ⟨e, he, rfl⟩ := h
      rcases List.mem_append.mp he with he | he
      · exact .inl (mem_leftJoin_single he)
      · exact .inr ⟨e, he, rfl⟩
    · intro h
      rcases h with rfl | ⟨e, he, rfl⟩
      · obtain ⟨e, he, hea⟩ : ∃ e ∈ leftJoin on [a] m, e.1 = a := exists_mem_leftJoin_single a
        exact ⟨e, List.mem_append_left _ he, hea⟩
      · exact ⟨e, List.mem_append_right _ he, rfl⟩

theorem mem_groupBy [DecidableEq κ] {key : α → κ} {rows : List α} {k : κ} {group : List α} :
    (k, group) ∈ groupBy key rows ↔ (∃ a ∈ rows, key a = k) ∧ group = rows.filter (key · = k) := by
  simp only [groupBy, List.mem_map, List.mem_dedup, Prod.mk.injEq]
  constructor
  · rintro ⟨_, hk, rfl, rfl⟩
    exact ⟨hk, rfl⟩
  · rintro ⟨hk, rfl⟩
    exact ⟨k, hk, rfl, rfl⟩

theorem join_cons (a : α) :
    join on (a :: l) m = (m.filter (on a)).map (fun b ↦ (a, b)) ++ join on l m := rfl

theorem filter_join (p : α → Bool) :
    (join on l m).filter (fun e ↦ p e.1) = join on (l.filter p) m := by
  induction l with
  | nil => rfl
  | cons a l ih =>
    rw [join_cons, List.filter_append, ih, List.filter_map, Function.comp_def, List.filter_cons]
    cases ha : p a with
    | true => simp only [ha, List.filter_true, if_true, join_cons]
    | false =>
      simp only [ha, List.filter_false, List.map_nil, List.nil_append, Bool.false_eq_true, if_false]

/-- A join holds the same pairs whichever side it is read from. -/
theorem perm_join_swap (on : α → β → Bool) (l : List α) (m : List β) :
    ((join on l m).map Prod.swap).Perm (join (fun b a ↦ on a b) m l) := by
  induction l with
  | nil =>
    have hnil : join (fun b a ↦ on a b) m [] = [] := List.flatMap_eq_nil_iff.mpr fun _ _ ↦ rfl
    rw [hnil]
    exact .nil
  | cons a l ih =>
    have hcons : (join (fun b a ↦ on a b) m (a :: l)).Perm
        ((m.filter (on a)).map (fun b ↦ (b, a)) ++ join (fun b a ↦ on a b) m l) := by
      clear ih
      induction m with
      | nil => exact .nil
      | cons b m ih =>
        rw [join_cons, join_cons, List.filter_cons, List.filter_cons]
        split
        · exact ((ih.append_left _).trans (List.perm_append_comm_assoc _ _ _)).cons (b, a)
        · exact (ih.append_left _).trans (List.perm_append_comm_assoc _ _ _)
    rw [join_cons, List.map_append, List.map_map]
    exact (ih.append_left _).trans hcons.symm

/-- What has one of some keys, key by key. -/
theorem perm_flatMap_filter [DecidableEq κ] (key : α → κ) (rows : List α) {keys : List κ}
    (h : keys.Nodup) :
    (keys.flatMap fun k ↦ rows.filter (key · = k)).Perm (rows.filter (key · ∈ keys)) := by
  induction keys with
  | nil =>
    rw [List.flatMap_nil, List.filter_eq_nil_iff.mpr fun _ _ ↦ by simp]
  | cons k keys ih =>
    obtain ⟨hk, hkeys⟩ := List.nodup_cons.mp h
    have hfirst : (rows.filter (key · ∈ k :: keys)).filter (key · = k) =
        rows.filter (key · = k) := by
      rw [List.filter_filter]
      refine List.filter_congr fun a _ ↦ ?_
      by_cases ha : key a = k <;> simp [ha]
    have hrest : (rows.filter (key · ∈ k :: keys)).filter (fun a ↦ !decide (key a = k)) =
        rows.filter (key · ∈ keys) := by
      rw [List.filter_filter]
      refine List.filter_congr fun a _ ↦ ?_
      by_cases ha : key a = k <;> simp [ha, hk]
    have hsplit := List.filter_append_perm (fun a ↦ decide (key a = k))
      (rows.filter (key · ∈ k :: keys))
    rw [hfirst, hrest] at hsplit
    rw [List.flatMap_cons]
    exact ((ih hkeys).append_left _).trans hsplit

/-- A grouping loses no row and repeats none. -/
theorem perm_groupBy [DecidableEq κ] (key : α → κ) (rows : List α) :
    ((groupBy key rows).flatMap (·.2)).Perm rows := by
  have hall : rows.filter (key · ∈ (rows.map key).dedup) = rows := by
    refine List.filter_eq_self.mpr fun a ha ↦ decide_eq_true ?_
    exact List.mem_dedup.mpr (List.mem_map_of_mem ha)
  have hperm := perm_flatMap_filter key rows (List.nodup_dedup (rows.map key))
  rw [hall] at hperm
  rwa [groupBy, List.flatMap_map]

theorem nodup_groupBy [DecidableEq κ] (key : α → κ) (rows : List α) :
    ((groupBy key rows).map (·.1)).Nodup := by
  rw [groupBy, List.map_map]
  exact (List.map_id' _).symm ▸ List.nodup_dedup _

end Postbud.Lib.Join
