import Mathlib.Init

namespace Postbud.Lib.Result

variable {ε α β : Type} {x : Except ε α} {f : α → Except ε β} {err : ε} {b : β}

@[simp]
theorem ok_bind (a : α) : (Except.ok a >>= f) = f a := rfl

/-- `?` passes on an error, or what follows it makes the result. -/
theorem ok_of_bind (h : x >>= f = .ok b) : ∃ a, x = .ok a ∧ f a = .ok b := by
  cases x with
  | ok a => exact ⟨a, rfl, h⟩
  | error err => cases h

theorem error_of_bind (h : x >>= f = .error err) : x = .error err ∨ ∃ a, f a = .error err := by
  cases x with
  | ok a => exact .inr ⟨a, h⟩
  | error err' =>
    obtain rfl : err' = err := Except.error.inj h
    exact .inl rfl

/-- A check that returns early has not returned. -/
theorem ok_of_unless {c : Prop} [Decidable c] {f : Unit → Except ε β}
    (h : (if c then throw err >>= f else f ()) = .ok b) : ¬ c ∧ f () = .ok b := by
  by_cases hc : c
  · rw [if_pos hc] at h
    cases h
  · rw [if_neg hc] at h
    exact ⟨hc, h⟩

theorem ok_of_any {p : α → Bool} (h : x.toOption.any p) : ∃ a, x = .ok a ∧ p a := by
  cases x with
  | ok a => exact ⟨a, rfl, h⟩
  | error err => cases h

section MapM

variable {g : α → Except ε β} {l : List α} {l' : List β}

theorem mapM_cons_eq_ok {a : α} : (a :: l).mapM g = .ok l' ↔
    ∃ b bs, g a = .ok b ∧ l.mapM g = .ok bs ∧ l' = b :: bs := by
  rw [List.mapM_cons]
  constructor
  · intro h
    obtain ⟨b, hb, h⟩ := ok_of_bind h
    obtain ⟨bs, hbs, h⟩ := ok_of_bind h
    exact ⟨b, bs, hb, hbs, (Except.ok.inj h).symm⟩
  · intro h
    obtain ⟨b, bs, hb, hbs, rfl⟩ := h
    rw [hb, hbs]
    rfl

/-- A list is worked through if each of its elements is. -/
theorem mapM_eq_ok_iff : (∃ l', l.mapM g = .ok l') ↔ ∀ a ∈ l, ∃ b, g a = .ok b := by
  induction l with
  | nil => exact iff_of_true ⟨[], rfl⟩ fun _ h ↦ absurd h List.not_mem_nil
  | cons a l ih =>
    rw [List.forall_mem_cons, ← ih]
    constructor
    · intro h
      obtain ⟨l', h⟩ := h
      obtain ⟨b, bs, hb, hbs, -⟩ := mapM_cons_eq_ok.mp h
      exact ⟨⟨b, hb⟩, bs, hbs⟩
    · intro h
      obtain ⟨⟨b, hb⟩, bs, hbs⟩ := h
      exact ⟨b :: bs, mapM_cons_eq_ok.mpr ⟨b, bs, hb, hbs, rfl⟩⟩

theorem mem_of_mapM (h : l.mapM g = .ok l') {b : β} : b ∈ l' ↔ ∃ a ∈ l, g a = .ok b := by
  induction l generalizing l' with
  | nil =>
    obtain rfl := Except.ok.inj h
    exact iff_of_false List.not_mem_nil fun ⟨_, ha, _⟩ ↦ List.not_mem_nil ha
  | cons a l ih =>
    obtain ⟨b', bs, hb, hbs, rfl⟩ := mapM_cons_eq_ok.mp h
    simp only [List.mem_cons, exists_eq_or_imp, ih hbs, hb, Except.ok.injEq]
    exact or_congr_left eq_comm

/-- What the results are read for can be read off what they were made of. -/
theorem map_of_mapM {γ : Type} {F : β → γ} {G : α → γ} (h : l.mapM g = .ok l')
    (hFG : ∀ a ∈ l, ∀ b, g a = .ok b → F b = G a) : l'.map F = l.map G := by
  induction l generalizing l' with
  | nil =>
    obtain rfl := Except.ok.inj h
    rfl
  | cons a l ih =>
    obtain ⟨b, bs, hb, hbs, rfl⟩ := mapM_cons_eq_ok.mp h
    obtain ⟨ha, hl⟩ := List.forall_mem_cons.mp hFG
    rw [List.map_cons, List.map_cons, ha b hb, ih hbs hl]

end MapM

section FilterMapM

variable {g : α → Except ε (Option β)} {l : List α} {l' : List β}

theorem filterMapM_map {γ : Type} {k : γ → α} {l : List γ} :
    (l.map k).filterMapM g = l.filterMapM (g ∘ k) := by
  induction l with
  | nil => rfl
  | cons c l ih => rw [List.map_cons, List.filterMapM_cons, List.filterMapM_cons, ih]; rfl

theorem filterMapM_cons_eq_ok {a : α} : (a :: l).filterMapM g = .ok l' ↔
    ∃ o bs, g a = .ok o ∧ l.filterMapM g = .ok bs ∧ l' = o.toList ++ bs := by
  rw [List.filterMapM_cons]
  constructor
  · intro h
    obtain ⟨o, ho, h⟩ := ok_of_bind h
    cases o with
    | none => exact ⟨none, l', ho, h, rfl⟩
    | some b =>
      obtain ⟨bs, hbs, h⟩ := ok_of_bind h
      exact ⟨some b, bs, ho, hbs, (Except.ok.inj h).symm⟩
  · intro h
    obtain ⟨o, bs, ho, hbs, rfl⟩ := h
    rw [ho]
    cases o with
    | none => exact hbs
    | some b =>
      change List.filterMapM g l >>= _ = _
      rw [hbs]
      rfl

theorem filterMapM_cons_eq_error {a : α} : (a :: l).filterMapM g = .error err ↔
    g a = .error err ∨ (∃ o, g a = .ok o) ∧ l.filterMapM g = .error err := by
  rw [List.filterMapM_cons]
  cases ha : g a with
  | error err' =>
    refine ⟨fun h ↦ .inl (congrArg Except.error (Except.error.inj h)), fun h ↦ ?_⟩
    obtain h | ⟨⟨o, ho⟩, -⟩ := h
    · exact congrArg Except.error (Except.error.inj h)
    · cases ho
  | ok o =>
    have hok : ∃ o', (Except.ok o : Except ε (Option β)) = .ok o' := ⟨o, rfl⟩
    simp only [hok, true_and, reduceCtorEq, false_or]
    cases o with
    | none => exact Iff.rfl
    | some b =>
      change List.filterMapM g l >>= _ = _ ↔ _
      cases List.filterMapM g l with
      | error err' => exact Iff.rfl
      | ok bs => exact iff_of_false nofun nofun

/-- The error of a loop is that of its first round that makes one. -/
theorem filterMapM_eq_error : l.filterMapM g = .error err ↔
    ∃ l₁ a l₂, l = l₁ ++ a :: l₂ ∧ (∃ bs, l₁.filterMapM g = .ok bs) ∧ g a = .error err := by
  induction l with
  | nil =>
    refine iff_of_false nofun fun h ↦ ?_
    obtain ⟨l₁, a, l₂, h, -⟩ := h
    exact List.append_ne_nil_of_right_ne_nil l₁ (List.cons_ne_nil a l₂) h.symm
  | cons a l ih =>
    rw [filterMapM_cons_eq_error, ih]
    constructor
    · intro h
      obtain h | ⟨⟨o, ho⟩, l₁, b, l₂, rfl, ⟨bs, hbs⟩, hb⟩ := h
      · exact ⟨[], a, l, rfl, ⟨[], rfl⟩, h⟩
      · exact ⟨a :: l₁, b, l₂, rfl, ⟨_, filterMapM_cons_eq_ok.mpr ⟨o, bs, ho, hbs, rfl⟩⟩, hb⟩
    · intro h
      obtain ⟨l₁, b, l₂, h, ⟨bs, hbs⟩, hb⟩ := h
      cases l₁ with
      | nil =>
        obtain ⟨rfl, rfl⟩ := List.cons.inj h
        exact .inl hb
      | cons c l₁ =>
        obtain ⟨rfl, rfl⟩ := List.cons.inj h
        obtain ⟨o, bs, ho, hbs, -⟩ := filterMapM_cons_eq_ok.mp hbs
        exact .inr ⟨⟨o, ho⟩, l₁, b, l₂, rfl, ⟨bs, hbs⟩, hb⟩

end FilterMapM

section Run

/-! Computations that may also panic: then they have no result at all. -/

variable {m : ExceptT ε Option α} {k : α → ExceptT ε Option β}

theorem run_ok_of_bind (h : (m >>= k).run = some (.ok b)) :
    ∃ a, m.run = some (.ok a) ∧ (k a).run = some (.ok b) := by
  cases m with
  | none => cases h
  | some r =>
    cases r with
    | error err => cases h
    | ok a => exact ⟨a, rfl, h⟩

theorem run_bind_of_ok {a : α} (h : m.run = some (.ok a)) : (m >>= k).run = (k a).run := by
  obtain rfl : m = some (.ok a) := h
  rfl

end Run

end Postbud.Lib.Result
