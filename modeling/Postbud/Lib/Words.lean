import Postbud.Lib.Text

namespace Postbud.Lib.Words

open Text

/-! Texts up to their runs of white space. -/

def Solid (t : Text) : Prop := ∀ c ∈ t, isWhitespace c = false

def Blank (t : Text) : Prop := ∀ c ∈ t, isWhitespace c = true

instance (t : Text) : Decidable (Solid t) :=
  inferInstanceAs (Decidable (∀ c ∈ t, isWhitespace c = false))

instance (t : Text) : Decidable (Blank t) :=
  inferInstanceAs (Decidable (∀ c ∈ t, isWhitespace c = true))

def SameWords (a b : Text) : Prop := splitWhitespace a = splitWhitespace b

variable {a b t u w : Text} {c : Char}

/-- A text ends with its first word, or goes on after a character of white space. -/
theorem wordInduction {motive : Text → Prop} (last : ∀ w, Solid w → motive w)
    (split : ∀ w c t, Solid w → isWhitespace c = true → motive t → motive (w ++ c :: t))
    (t : Text) : motive t := by
  have hall : ∀ (t w : Text), Solid w → motive (w ++ t) := by
    intro t
    induction t with
    | nil =>
      intro w hw
      rw [List.append_nil]
      exact last w hw
    | cons c t ih =>
      intro w hw
      cases hc : isWhitespace c with
      | true => exact split w c t hw hc (ih [] fun _ h ↦ absurd h List.not_mem_nil)
      | false =>
        rw [← List.singleton_append, ← List.append_assoc]
        exact ih (w ++ [c]) (List.forall_mem_append.mpr ⟨hw, List.forall_mem_singleton.mpr hc⟩)
  exact hall t [] fun _ h ↦ absurd h List.not_mem_nil

theorem splitWhitespace_nil : splitWhitespace [] = [] := rfl

theorem splitWhitespace_append_cons (hc : isWhitespace c = true) (a b : Text) :
    splitWhitespace (a ++ c :: b) = splitWhitespace a ++ splitWhitespace b := by
  rw [splitWhitespace, List.splitOnP_append_cons a b hc, List.filter_append]
  rfl

theorem splitWhitespace_cons (hc : isWhitespace c = true) (t : Text) :
    splitWhitespace (c :: t) = splitWhitespace t := splitWhitespace_append_cons hc [] t

theorem splitWhitespace_concat (hc : isWhitespace c = true) (t : Text) :
    splitWhitespace (t ++ [c]) = splitWhitespace t := by
  rw [splitWhitespace_append_cons hc, splitWhitespace_nil, List.append_nil]

theorem splitWhitespace_blank_append (h : Blank u) (t : Text) :
    splitWhitespace (u ++ t) = splitWhitespace t := by
  induction u with
  | nil => rfl
  | cons c u ih =>
    obtain ⟨hc, hu⟩ := List.forall_mem_cons.mp h
    rw [List.cons_append, splitWhitespace_cons hc, ih hu]

theorem splitWhitespace_append_blank (h : Blank u) (t : Text) :
    splitWhitespace (t ++ u) = splitWhitespace t := by
  cases u with
  | nil => rw [List.append_nil]
  | cons c u =>
    obtain ⟨hc, hu⟩ := List.forall_mem_cons.mp h
    have hblank : splitWhitespace u = [] := by
      rw [← List.append_nil u, splitWhitespace_blank_append hu, splitWhitespace_nil]
    rw [splitWhitespace_append_cons hc, hblank, List.append_nil]

/-- White space between two texts only parts their words. -/
theorem splitWhitespace_between (h : Blank u) (hne : u ≠ []) (a b : Text) :
    splitWhitespace (a ++ u ++ b) = splitWhitespace a ++ splitWhitespace b := by
  cases u with
  | nil => exact absurd rfl hne
  | cons c u =>
    obtain ⟨hc, hu⟩ := List.forall_mem_cons.mp h
    rw [List.append_assoc, List.cons_append, splitWhitespace_append_cons hc,
      splitWhitespace_blank_append hu]

theorem splitWhitespace_solid (h : Solid w) :
    splitWhitespace w = if w = [] then [] else [w] := by
  rw [splitWhitespace, List.splitOnP_eq_singleton h]
  by_cases hw : w = [] <;> simp [hw]

theorem splitWhitespace_map {f : Char → Char} (hf : ∀ c, isWhitespace (f c) = isWhitespace c)
    (t : Text) : splitWhitespace (t.map f) = (splitWhitespace t).map (List.map f) := by
  have hword : ∀ w, Solid w → splitWhitespace (w.map f) = (splitWhitespace w).map (List.map f) := by
    intro w hw
    have hmap : Solid (w.map f) := by
      intro c hc
      obtain ⟨d, hd, rfl⟩ := List.mem_map.mp hc
      rw [hf, hw d hd]
    rw [splitWhitespace_solid hmap, splitWhitespace_solid hw]
    by_cases hnil : w = [] <;> simp [hnil]
  induction t using wordInduction with
  | last w hw => exact hword w hw
  | split w c t hw hc ih =>
    have hmap : isWhitespace (f c) = true := by rw [hf, hc]
    rw [List.map_append, List.map_cons, splitWhitespace_append_cons hmap, ih,
      splitWhitespace_append_cons hc, List.map_append, hword w hw]

theorem mem_splitWhitespace (h : w ∈ splitWhitespace t) : w ≠ [] ∧ Solid w := by
  induction t using wordInduction with
  | last v hv =>
    rw [splitWhitespace_solid hv] at h
    split_ifs at h with hnil
    · cases h
    · obtain rfl := List.mem_singleton.mp h
      exact ⟨hnil, hv⟩
  | split v c t hv hc ih =>
    rw [splitWhitespace_append_cons hc, splitWhitespace_solid hv] at h
    obtain h | h := List.mem_append.mp h
    · split_ifs at h with hnil
      · cases h
      · obtain rfl := List.mem_singleton.mp h
        exact ⟨hnil, hv⟩
    · exact ih h

/-- Words set one space apart are those of their text. -/
theorem splitWhitespace_intercalate {words : List Text} (h : ∀ w ∈ words, w ≠ [] ∧ Solid w) :
    splitWhitespace ([' '].intercalate words) = words := by
  induction words with
  | nil => rfl
  | cons w words ih =>
    obtain ⟨⟨hne, hw⟩, hwords⟩ := List.forall_mem_cons.mp h
    have hone : splitWhitespace w = [w] := by rw [splitWhitespace_solid hw, if_neg hne]
    cases words with
    | nil => rw [List.intercalate_singleton, hone]
    | cons v words =>
      have hspace : Blank [' '] := List.forall_mem_singleton.mpr rfl
      rw [List.intercalate_cons_cons, splitWhitespace_between hspace (List.cons_ne_nil _ _),
        hone, ih hwords]
      rfl

/-- What `trim` takes off is white space. -/
theorem exists_trim (t : Text) : ∃ u v, t = u ++ trim t ++ v ∧ Blank u ∧ Blank v := by
  refine ⟨t.takeWhile isWhitespace, (t.dropWhile isWhitespace).rtakeWhile isWhitespace, ?_,
    fun _ hc ↦ List.mem_takeWhile_imp hc, fun c hc ↦ ?_⟩
  · rw [trim, List.append_assoc, List.rdropWhile_append_rtakeWhile,
      List.takeWhile_append_dropWhile]
  · rw [List.rtakeWhile, List.mem_reverse] at hc
    exact List.mem_takeWhile_imp hc

theorem mem_of_mem_trim (h : c ∈ trim t) : c ∈ t := by
  obtain ⟨u, v, ht, -, -⟩ := exists_trim t
  rw [ht]
  exact List.mem_append_left _ (List.mem_append_right _ h)

theorem splitWhitespace_trim (t : Text) : splitWhitespace (trim t) = splitWhitespace t := by
  obtain ⟨u, v, ht, hu, hv⟩ := exists_trim t
  conv_rhs => rw [ht]
  rw [splitWhitespace_append_blank hv, splitWhitespace_blank_append hu]

theorem trim_blank_append (h : Blank u) (t : Text) : trim (u ++ t) = trim t := by
  rw [trim, List.dropWhile_append_of_pos h]
  rfl

theorem trim_append_blank (h : Blank u) (t : Text) : trim (t ++ u) = trim t := by
  induction u using List.reverseRecOn with
  | nil => rw [List.append_nil]
  | append_singleton u c ih =>
    obtain ⟨hu, hc⟩ := List.forall_mem_append.mp h
    rw [← List.append_assoc, trim_append_whitespace (hc c List.mem_cons_self), ih hu]

theorem trim_of_head (h : ∀ c ∈ t.head?, isWhitespace c = false) :
    ∃ u, t = trim t ++ u ∧ Blank u := by
  have hstart : t.dropWhile isWhitespace = t := by
    cases t with
    | nil => rfl
    | cons c t => exact List.dropWhile_cons_of_neg (by simp [h c rfl])
  refine ⟨t.rtakeWhile isWhitespace, ?_, fun _ hc ↦ List.mem_rtakeWhile_imp hc⟩
  rw [trim, hstart, List.rdropWhile_append_rtakeWhile]

theorem trim_of_ends_solid (hstart : ∀ c ∈ t.head?, isWhitespace c = false)
    (hend : ∀ c ∈ t.getLast?, isWhitespace c = false) : trim t = t :=
  trimEnds_eq_self_iff.mpr ⟨hstart, hend⟩

/-- Trimming stops on either side of a character that stays. -/
theorem trim_around (hc : isWhitespace c = false) (a b : Text) :
    trim (a ++ c :: b) = a.dropWhile isWhitespace ++ c :: b.rdropWhile isWhitespace := by
  have hstart : (a ++ c :: b).dropWhile isWhitespace = a.dropWhile isWhitespace ++ c :: b := by
    rw [List.dropWhile_append]
    split
    · rename_i h
      rw [List.isEmpty_iff.mp h, List.dropWhile_cons_of_neg (by simp [hc])]
      rfl
    · rfl
  have hend : ∀ x : Text, (x ++ c :: b).rdropWhile isWhitespace =
      x ++ c :: b.rdropWhile isWhitespace := by
    intro x
    rw [List.rdropWhile, List.reverse_append, List.reverse_cons, List.append_assoc,
      List.dropWhile_append]
    split
    · rename_i h
      have hnil : b.rdropWhile isWhitespace = [] := by
        rw [List.rdropWhile, List.isEmpty_iff.mp h]
        rfl
      rw [hnil, List.singleton_append, List.dropWhile_cons_of_neg (by simp [hc])]
      simp
    · simp [List.rdropWhile]
  rw [trim, hstart, hend]

end Postbud.Lib.Words
