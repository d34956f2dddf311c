import Mathlib.Data.List.Basic

namespace Postbud.Lib.Processes

variable {α : Type} {R : α → α → Prop} {l : List α} {i j : ℕ} {x x' y : α}

/-- Any two processes of a list are related, in whichever order they are taken. -/
def Apart (R : α → α → Prop) (l : List α) : Prop :=
  ∀ (i j : ℕ) (x y : α), i ≠ j → l[i]? = some x → l[j]? = some y → R x y

theorem getElem?_set_cases (h : (l.set i x')[j]? = some y) :
    j = i ∧ y = x' ∨ j ≠ i ∧ l[j]? = some y := by
  by_cases hj : j = i
  · subst hj
    obtain ⟨_, _, hy⟩ := Option.map_eq_some_iff.mp (List.getElem?_set_self'.symm.trans h)
    exact .inl ⟨rfl, hy.symm⟩
  · rw [List.getElem?_set_ne (Ne.symm hj)] at h
    exact .inr ⟨hj, h⟩

theorem getElem?_concat_cases (h : (l ++ [x])[j]? = some y) :
    l[j]? = some y ∨ j = l.length ∧ y = x := by
  rcases Nat.lt_trichotomy j l.length with hj | hj | hj
  · rw [List.getElem?_append_left hj] at h
    exact .inl h
  · subst hj
    rw [List.getElem?_concat_length] at h
    exact .inr ⟨rfl, (Option.some.inj h).symm⟩
  · rw [List.getElem?_eq_none (by rw [List.length_append, List.length_singleton]; omega)] at h
    cases h

theorem getElem?_concat_left (hi : l[i]? = some x) : (l ++ [y])[i]? = some x :=
  (List.getElem?_append_left (List.getElem?_eq_some_iff.mp hi).1).trans hi

theorem mem_set_of_ne (hi : l[i]? = some x) (hy : y ∈ l) (hne : y ≠ x) : y ∈ l.set i x' := by
  obtain ⟨j, hj⟩ := List.mem_iff_getElem?.mp hy
  have hij : i ≠ j := by
    intro he
    subst he
    exact hne (Option.some.inj (hj.symm.trans hi))
  exact List.mem_iff_getElem?.mpr ⟨j, by rw [List.getElem?_set_ne hij, hj]⟩

theorem mem_set_self (hi : l[i]? = some x) : x' ∈ l.set i x' := by
  refine List.mem_iff_getElem?.mpr ⟨i, List.getElem?_set_self'.trans ?_⟩
  rw [hi]
  rfl

/-- What there is of one of the processes there still is, if the move keeps it. -/
theorem exists_getElem?_set {P : α → Prop} (hi : l[i]? = some x) (hx : P x → P x')
    (h : ∃ y, l[j]? = some y ∧ P y) : ∃ y, (l.set i x')[j]? = some y ∧ P y := by
  obtain ⟨y, hj, hy⟩ := h
  by_cases hij : i = j
  · subst hij
    obtain rfl := Option.some.inj (hi.symm.trans hj)
    exact ⟨x', List.getElem?_set_self (List.getElem?_eq_some_iff.mp hi).1, hx hy⟩
  · exact ⟨y, (List.getElem?_set_ne hij).trans hj, hy⟩

theorem forall_mem_concat {P : α → Prop} (h : ∀ y ∈ l, P y) (hx : P x) : ∀ y ∈ l ++ [x], P y :=
  List.forall_mem_append.mpr ⟨h, List.forall_mem_singleton.mpr hx⟩

theorem forall_mem_set {P : α → Prop} (hx : P x') (h : ∀ y ∈ l.eraseIdx i, P y) :
    ∀ y ∈ l.set i x', P y := by
  intro y hy
  obtain ⟨j, hj⟩ := List.mem_iff_getElem?.mp hy
  rcases getElem?_set_cases hj with ⟨-, rfl⟩ | ⟨hne, hj⟩
  · exact hx
  · exact h y (List.mem_eraseIdx_iff_getElem?.mpr ⟨j, hne, hj⟩)

/-- What a process that moves contributes is added to what the others do. -/
theorem perm_filterMap_set {β : Type} {f : α → Option β} (x' : α) (hi : l[i]? = some x)
    (hx : f x = none) :
    ((l.set i x').filterMap f).Perm (l.filterMap f ++ (f x').toList) := by
  induction l generalizing i with
  | nil => cases hi
  | cons a l ih =>
    cases i with
    | zero =>
      obtain rfl : a = x := Option.some.inj hi
      rw [List.set_cons_zero, List.filterMap_cons_none hx]
      cases hx' : f x' with
      | none =>
        rw [List.filterMap_cons_none hx', Option.toList_none, List.append_nil]
      | some b =>
        rw [List.filterMap_cons_some hx', Option.toList_some]
        exact (List.perm_append_singleton b _).symm
    | succ i =>
      have ih := ih (i := i) hi
      rw [List.set_cons_succ]
      cases ha : f a with
      | none =>
        rw [List.filterMap_cons_none ha, List.filterMap_cons_none ha]
        exact ih
      | some b =>
        rw [List.filterMap_cons_some ha, List.filterMap_cons_some ha]
        exact ih.cons b

theorem perm_flatMap {β : Type} (f : α → List β) (hi : l[i]? = some x) :
    (l.flatMap f).Perm (f x ++ (l.eraseIdx i).flatMap f) := by
  induction l generalizing i with
  | nil => cases hi
  | cons a l ih =>
    cases i with
    | zero =>
      obtain rfl : a = x := Option.some.inj hi
      exact .refl _
    | succ i =>
      rw [List.flatMap_cons, List.eraseIdx_cons_succ, List.flatMap_cons]
      exact ((ih hi).append_left (f a)).trans (List.perm_append_comm_assoc _ _ _)

/-- What one of several processes holds, exchanged for what it holds after it moves. -/
theorem perm_flatMap_set {β : Type} (f : α → List β) (x' : α) (hi : l[i]? = some x) :
    ((l.set i x').flatMap f).Perm (f x' ++ (l.eraseIdx i).flatMap f) := by
  have hi' : (l.set i x')[i]? = some x' := by
    rw [List.getElem?_set_self', hi]
    rfl
  have hperm := perm_flatMap f hi'
  rwa [List.eraseIdx_set_eq] at hperm

/-- One process moves: it has to keep apart from the others. -/
theorem Apart.set [Std.Symm R] (h : Apart R l)
    (hx : ∀ j y, j ≠ i → l[j]? = some y → R x' y) : Apart R (l.set i x') := by
  intro j k y z hjk hy hz
  rcases getElem?_set_cases hy with ⟨rfl, rfl⟩ | ⟨hj, hy'⟩
  · rcases getElem?_set_cases hz with ⟨rfl, -⟩ | ⟨hk, hz'⟩
    · exact absurd rfl hjk
    · exact hx k z hk hz'
  · rcases getElem?_set_cases hz with ⟨rfl, rfl⟩ | ⟨hk, hz'⟩
    · exact symm (hx j y hj hy')
    · exact h j k y z hjk hy' hz'

theorem Apart.concat [Std.Symm R] (h : Apart R l) (hx : ∀ y ∈ l, R x y) : Apart R (l ++ [x]) := by
  intro j k y z hjk hy hz
  rcases getElem?_concat_cases hy with hy' | ⟨rfl, rfl⟩
  · rcases getElem?_concat_cases hz with hz' | ⟨rfl, rfl⟩
    · exact h j k y z hjk hy' hz'
    · exact symm (hx y (List.mem_of_getElem? hy'))
  · rcases getElem?_concat_cases hz with hz' | ⟨rfl, rfl⟩
    · exact hx z (List.mem_of_getElem? hz')
    · exact absurd rfl hjk

theorem Apart.nil : Apart R [] := nofun

theorem Apart.pairwise (h : Apart R l) : l.Pairwise R := by
  rw [List.pairwise_iff_getElem]
  intro i j hi hj hij
  exact h i j _ _ (Nat.ne_of_lt hij) (List.getElem?_eq_getElem hi) (List.getElem?_eq_getElem hj)

theorem Apart.of_pairwise [Std.Symm R] (h : l.Pairwise R) : Apart R l := by
  intro i j x y hij hi hj
  obtain ⟨hi', rfl⟩ := List.getElem?_eq_some_iff.mp hi
  obtain ⟨hj', rfl⟩ := List.getElem?_eq_some_iff.mp hj
  rcases Nat.lt_or_gt_of_ne hij with hlt | hlt
  · exact List.pairwise_iff_getElem.mp h i j hi' hj' hlt
  · exact symm (List.pairwise_iff_getElem.mp h j i hj' hi' hlt)

/-- Of elements kept apart by `R`, at most one meets a condition which two
related ones cannot meet. -/
theorem countP_le_one {p : α → Bool} (h : l.Pairwise R)
    (hp : ∀ x ∈ l, ∀ y ∈ l, p x → p y → ¬ R x y) : l.countP p ≤ 1 := by
  induction l with
  | nil => exact Nat.zero_le 1
  | cons x l ih =>
    obtain ⟨hx, hl⟩ := List.pairwise_cons.mp h
    rw [List.countP_cons]
    split
    · rename_i hpx
      have hz : l.countP p = 0 := List.countP_eq_zero.mpr fun y hy hpy ↦
        hp x List.mem_cons_self y (List.mem_cons_of_mem _ hy) hpx hpy (hx y hy)
      omega
    · have hle := ih hl fun y hy z hz ↦
        hp y (List.mem_cons_of_mem _ hy) z (List.mem_cons_of_mem _ hz)
      omega

theorem Apart.countP_eq_one {p : α → Bool} (h : Apart R l)
    (hp : ∀ x ∈ l, ∀ y ∈ l, p x → p y → ¬ R x y) (hx : x ∈ l) (hpx : p x) : l.countP p = 1 := by
  have hle : l.countP p ≤ 1 := countP_le_one h.pairwise hp
  have hpos : 0 < l.countP p := List.countP_pos_iff.mpr ⟨x, hx, hpx⟩
  omega

theorem Apart.unique (h : Apart R l) (hi : l[i]? = some x) (hj : l[j]? = some y)
    (hR : ¬ R x y) : i = j := by
  by_contra hij
  exact hR (h i j x y hij hi hj)

section Noted

/-! Processes with something noted beside each. -/

variable {β : Type} [DecidableEq α] {noted : List (α × β)} {e : α × β} {a : α}

theorem map_eraseP_noted : (noted.eraseP (·.1 = a)).map (·.1) = (noted.map (·.1)).erase a := by
  induction noted with
  | nil => rfl
  | cons e noted ih =>
    by_cases he : e.1 = a
    · simp [he]
    · simp [he, ih]

theorem find?_noted (ha : a ∈ noted.map (·.1)) :
    ∃ b, (a, b) ∈ noted ∧ noted.find? (·.1 = a) = some (a, b) := by
  obtain ⟨e, he, rfl⟩ := List.mem_map.mp ha
  obtain ⟨⟨a, b⟩, hf⟩ : ∃ e', noted.find? (·.1 = e.1) = some e' :=
    Option.isSome_iff_exists.mp (List.find?_isSome.mpr ⟨e, he, decide_eq_true rfl⟩)
  have hp := List.find?_some hf
  obtain rfl : a = e.1 := of_decide_eq_true hp
  exact ⟨b, List.mem_of_find?_eq_some hf, hf⟩

/-- Of processes kept apart, those that stay keep apart from the one that leaves. -/
theorem apart_of_mem_eraseP [Std.Symm R] (h : noted.Pairwise fun e e' ↦ R e.1 e'.1)
    (ha : a ∈ noted.map (·.1)) (he : e ∈ noted.eraseP (·.1 = a)) : R e.1 a := by
  obtain ⟨e₀, he₀, rfl⟩ := List.mem_map.mp ha
  obtain ⟨e₁, l₁, l₂, -, he₁, hl, her⟩ :=
    List.exists_of_eraseP (p := fun e ↦ e.1 = e₀.1) he₀ (decide_eq_true rfl)
  rw [her] at he
  rw [hl] at h
  rw [← of_decide_eq_true he₁]
  obtain ⟨-, hcons, hcross⟩ := List.pairwise_append.mp h
  rcases List.mem_append.mp he with he | he
  · exact hcross e he e₁ List.mem_cons_self
  · exact symm ((List.pairwise_cons.mp hcons).1 e he)

end Noted

end Postbud.Lib.Processes
