import Mathlib.Algebra.GroupWithZero.Nat
import Postbud.Lib.Text

namespace Postbud.Lib.ByteSlice

open Text

/-! Texts cut at byte offsets, and iterators whose closure may panic: a
result that is not there is a panic. -/

def byteLength (t : Text) : ℕ := (t.map Char.utf8Size).sum

/-- `str::is_char_boundary` -/
def IsBoundary (n : ℕ) (t : Text) : Prop := ∃ a b, t = a ++ b ∧ byteLength a = n

/-- `(&t[..n], &t[n..])`, and `t.get(..n)` of the first half. -/
def splitAtByte : ℕ → Text → Option (Text × Text)
  | 0, t => some ([], t)
  | _ + 1, [] => none
  | n + 1, c :: t =>
    if c.utf8Size ≤ n + 1 then
      (splitAtByte (n + 1 - c.utf8Size) t).map fun p ↦ (c :: p.1, p.2)
    else none

theorem byteLength_cons (c : Char) (t : Text) :
    byteLength (c :: t) = c.utf8Size + byteLength t := List.sum_cons

theorem byteLength_append (a b : Text) : byteLength (a ++ b) = byteLength a + byteLength b := by
  simp only [byteLength, List.map_append, List.sum_append]

theorem utf8Size_asciiLower (c : Char) : (asciiLower c).utf8Size = c.utf8Size := by
  obtain ⟨h, -⟩ | ⟨h, hlo, hhi⟩ := asciiLower_cases c
  · rw [h]
  · have hone (d : Char) (hd : d.toNat < 128) : d.utf8Size = 1 :=
      Char.utf8Size_eq_one_iff.mpr (UInt32.le_iff_toNat_le.mpr (Nat.lt_succ_iff.mp hd))
    rw [hone c (by omega), hone (asciiLower c) (by omega)]

theorem byteLength_toAsciiLowercase (t : Text) : byteLength (toAsciiLowercase t) = byteLength t := by
  rw [byteLength, byteLength, toAsciiLowercase, List.map_map]
  exact congrArg List.sum (List.map_congr_left fun c _ ↦ utf8Size_asciiLower c)

theorem eq_nil_of_byteLength {t : Text} (h : byteLength t = 0) : t = [] := by
  cases t with
  | nil => rfl
  | cons c t =>
    have hc := c.utf8Size_pos
    rw [byteLength_cons] at h
    omega

theorem splitAtByte_eq_some {n : ℕ} {t a b : Text} :
    splitAtByte n t = some (a, b) ↔ t = a ++ b ∧ byteLength a = n := by
  induction t generalizing n a b with
  | nil =>
    cases n with
    | zero =>
      simp only [splitAtByte, Option.some.injEq, Prod.mk.injEq, List.nil_eq, List.append_eq_nil_iff]
      constructor
      · rintro ⟨rfl, rfl⟩
        exact ⟨⟨rfl, rfl⟩, rfl⟩
      · rintro ⟨⟨rfl, rfl⟩, -⟩
        exact ⟨rfl, rfl⟩
    | succ n =>
      refine ⟨nofun, ?_⟩
      rintro ⟨h, hn⟩
      obtain ⟨rfl, rfl⟩ := List.append_eq_nil_iff.mp h.symm
      cases hn
  | cons c t ih =>
    have hc := c.utf8Size_pos
    cases n with
    | zero =>
      simp only [splitAtByte, Option.some.injEq, Prod.mk.injEq]
      constructor
      · rintro ⟨rfl, rfl⟩
        exact ⟨rfl, rfl⟩
      · rintro ⟨h, hn⟩
        obtain rfl := eq_nil_of_byteLength hn
        exact ⟨rfl, h⟩
    | succ n =>
      rw [splitAtByte]
      split_ifs with hle
      · simp only [Option.map_eq_some_iff, Prod.mk.injEq, Prod.exists, ih]
        constructor
        · rintro ⟨a, b, ⟨rfl, hn⟩, rfl, rfl⟩
          refine ⟨rfl, ?_⟩
          rw [byteLength_cons]
          omega
        · rintro ⟨h, hn⟩
          cases a with
          | nil => cases hn
          | cons d a =>
            obtain ⟨rfl, rfl⟩ := List.cons.inj h
            rw [byteLength_cons] at hn
            exact ⟨a, b, ⟨rfl, by omega⟩, rfl, rfl⟩
      · refine ⟨nofun, ?_⟩
        rintro ⟨h, hn⟩
        cases a with
        | nil => cases hn
        | cons d a =>
          obtain ⟨rfl, -⟩ := List.cons.inj h
          rw [byteLength_cons] at hn
          omega

/-- Characters of one byte can be cut anywhere. -/
theorem isBoundary_of_bytes {n : ℕ} {t : Text} (h : ∀ c ∈ t, c.utf8Size = 1) (hn : n ≤ t.length)
    (rest : Text) : IsBoundary n (t ++ rest) := by
  have hlength : ∀ u : Text, (∀ c ∈ u, c.utf8Size = 1) → byteLength u = u.length := by
    intro u hu
    induction u with
    | nil => rfl
    | cons c u ih =>
      obtain ⟨hc, hu⟩ := List.forall_mem_cons.mp hu
      rw [byteLength_cons, hc, ih hu, List.length_cons]
      omega
  refine ⟨t.take n, t.drop n ++ rest, by rw [← List.append_assoc, List.take_append_drop], ?_⟩
  rw [hlength _ fun c hc ↦ h c (List.mem_of_mem_take hc), List.length_take_of_le hn]

theorem isSome_splitAtByte {n : ℕ} {t : Text} : (splitAtByte n t).isSome ↔ IsBoundary n t := by
  simp only [Option.isSome_iff_exists, Prod.exists, splitAtByte_eq_some, IsBoundary]

section Panics

variable {α β : Type} {p : α → Option Bool} {f : β → α → Option β} {l : List α}

/-- `filter`, which asks for every element. -/
def tryFilter (p : α → Option Bool) : List α → Option (List α)
  | [] => some []
  | x :: l => do
    let keep ← p x
    let rest ← tryFilter p l
    return if keep then x :: rest else rest

/-- `find`, which stops at the first it is told to keep. -/
def tryFind (p : α → Option Bool) : List α → Option (Option α)
  | [] => some none
  | x :: l => do if ← p x then return some x else tryFind p l

theorem isSome_tryFilter : (tryFilter p l).isSome ↔ ∀ x ∈ l, (p x).isSome := by
  induction l with
  | nil => exact ⟨fun _ ↦ nofun, fun _ ↦ rfl⟩
  | cons x l ih =>
    rw [List.forall_mem_cons, ← ih, tryFilter]
    cases p x with
    | none => simp
    | some keep => cases tryFilter p l <;> simp

theorem tryFilter_of_isSome (h : ∀ x ∈ l, (p x).isSome) :
    tryFilter p l = some (l.filter fun x ↦ p x = some true) := by
  induction l with
  | nil => rfl
  | cons x l ih =>
    obtain ⟨hx, hl⟩ := List.forall_mem_cons.mp h
    obtain ⟨keep, hx⟩ := Option.isSome_iff_exists.mp hx
    rw [tryFilter, hx, ih hl, List.filter_cons]
    cases keep <;> simp [hx]

theorem isSome_tryFind : (tryFind p l).isSome ↔
    ∀ l₁ x l₂, l = l₁ ++ x :: l₂ → (∀ y ∈ l₁, p y = some false) → (p x).isSome := by
  induction l with
  | nil =>
    refine ⟨fun _ l₁ x l₂ h ↦ ?_, fun _ ↦ rfl⟩
    exact absurd (List.append_eq_nil_iff.mp h.symm).2 (List.cons_ne_nil _ _)
  | cons x l ih =>
    rw [tryFind]
    cases hx : p x with
    | none =>
      refine ⟨nofun, fun h ↦ ?_⟩
      have hsome := h [] x l rfl nofun
      rw [hx] at hsome
      cases hsome
    | some keep =>
      cases keep with
      | true =>
        refine ⟨fun _ l₁ y l₂ h hl ↦ ?_, fun _ ↦ rfl⟩
        cases l₁ with
        | nil =>
          obtain ⟨rfl, -⟩ := List.cons.inj h
          rw [hx]
          rfl
        | cons z l₁ =>
          obtain ⟨rfl, -⟩ := List.cons.inj h
          cases hx.symm.trans (hl x List.mem_cons_self)
      | false =>
        refine ih.trans ⟨fun h l₁ y l₂ he hl ↦ ?_, fun h l₁ y l₂ he hl ↦ ?_⟩
        · cases l₁ with
          | nil =>
            obtain ⟨rfl, -⟩ := List.cons.inj he
            rw [hx]
            rfl
          | cons z l₁ =>
            obtain ⟨rfl, rfl⟩ := List.cons.inj he
            exact h l₁ y l₂ rfl fun w hw ↦ hl w (List.mem_cons_of_mem _ hw)
        · exact h (x :: l₁) y l₂ (congrArg _ he) (List.forall_mem_cons.mpr ⟨hx, hl⟩)

/-- How a search through a list may end. -/
inductive Searched (p : α → Option Bool) (l : List α) : Option (Option α) → Prop
  | panic {x : α} (hx : x ∈ l) (h : p x = none) : Searched p l none
  | nothing (h : ∀ x ∈ l, p x = some false) : Searched p l (some none)
  | found {x : α} (hx : x ∈ l) (h : p x = some true) : Searched p l (some (some x))

theorem searched_cons {x : α} (hx : p x = some false) {o : Option (Option α)}
    (h : Searched p l o) : Searched p (x :: l) o := by
  cases h with
  | panic hy h => exact .panic (List.mem_cons_of_mem _ hy) h
  | nothing h => exact .nothing (List.forall_mem_cons.mpr ⟨hx, h⟩)
  | found hy h => exact .found (List.mem_cons_of_mem _ hy) h

theorem tryFind_searched : Searched p l (tryFind p l) := by
  induction l with
  | nil => exact .nothing fun _ h ↦ absurd h List.not_mem_nil
  | cons x l ih =>
    rw [tryFind]
    cases hx : p x with
    | none => exact .panic List.mem_cons_self hx
    | some keep =>
      cases keep with
      | true => exact .found List.mem_cons_self hx
      | false => exact searched_cons hx ih

/-- A search that does not panic finds what there is. -/
theorem find?_of_tryFind {o : Option α} (h : tryFind p l = some o) :
    l.find? (fun x ↦ p x = some true) = o := by
  induction l with
  | nil => exact Option.some.inj h
  | cons x l ih =>
    rw [tryFind] at h
    rw [List.find?_cons]
    cases hx : p x with
    | none => simp [hx] at h
    | some keep => cases keep <;> simp_all

/-- A loop returns when every round does, whatever the rounds before it have left. -/
theorem isSome_foldlM {q : α → Prop} (hf : ∀ b x, (f b x).isSome ↔ q x) (b : β) :
    (l.foldlM f b).isSome ↔ ∀ x ∈ l, q x := by
  induction l generalizing b with
  | nil => exact ⟨fun _ ↦ nofun, fun _ ↦ rfl⟩
  | cons x l ih =>
    rw [List.forall_mem_cons, List.foldlM_cons]
    have hx := hf b x
    cases hb : f b x with
    | none =>
      rw [hb] at hx
      exact ⟨nofun, fun h ↦ absurd (hx.mpr h.1) nofun⟩
    | some b' =>
      rw [hb] at hx
      exact (ih b').trans (and_iff_right (hx.mp rfl)).symm

end Panics

end Postbud.Lib.ByteSlice
