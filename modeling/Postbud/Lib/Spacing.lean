import Postbud.Lib.Words

namespace Postbud.Lib.Words

open Text

/-- The same text but for what its runs of white space are made of. -/
inductive Spaced : Text → Text → Prop
  | nil : Spaced [] []
  | cons {c : Char} {a b : Text} (hc : isWhitespace c = false) (h : Spaced a b) :
    Spaced (c :: a) (c :: b)
  | gap {u v a b : Text} (hu : Blank u) (hune : u ≠ []) (hv : Blank v) (hvne : v ≠ [])
    (h : Spaced a b) : Spaced (u ++ a) (v ++ b)

variable {a b t u v w : Text} {c : Char}

theorem Spaced.symm (h : Spaced a b) : Spaced b a := by
  induction h with
  | nil => exact .nil
  | cons hc _ ih => exact .cons hc ih
  | gap hu hune hv hvne _ ih => exact .gap hv hvne hu hune ih

theorem Spaced.solid_append (hw : Solid w) (h : Spaced a b) : Spaced (w ++ a) (w ++ b) := by
  induction w with
  | nil => exact h
  | cons c w ih =>
    obtain ⟨hc, hw⟩ := List.forall_mem_cons.mp hw
    exact .cons hc (ih hw)

theorem spaced_solid (hw : Solid w) : Spaced w w := by
  simpa using Spaced.solid_append hw .nil

theorem Spaced.eq_of_solid (h : Spaced a b) (hb : Solid b) : a = b := by
  induction h with
  | nil => rfl
  | cons _ _ ih => rw [ih (List.forall_mem_cons.mp hb).2]
  | @gap _ v _ _ _ _ hv hvne _ _ =>
    obtain ⟨c, hc⟩ := List.exists_mem_of_ne_nil v hvne
    have hsolid := hb c (List.mem_append_left _ hc)
    rw [hv c hc] at hsolid
    exact absurd hsolid (by decide)

theorem Spaced.mem_iff (h : Spaced a b) {words : List Text} (hw : ∀ w ∈ words, Solid w) :
    a ∈ words ↔ b ∈ words := by
  constructor
  · intro ha
    rwa [h.symm.eq_of_solid (hw a ha)]
  · intro hb
    rwa [h.eq_of_solid (hw b hb)]

theorem Spaced.sameWords (h : Spaced a b) : SameWords a b := by
  have hall : ∀ w, Solid w → splitWhitespace (w ++ a) = splitWhitespace (w ++ b) := by
    induction h with
    | nil => exact fun _ _ ↦ rfl
    | @cons c _ _ hc _ ih =>
      intro w hw
      have hmore := ih (w ++ [c])
        (List.forall_mem_append.mpr ⟨hw, List.forall_mem_singleton.mpr hc⟩)
      simpa using hmore
    | gap hu hune hv hvne _ ih =>
      intro w _
      have hrest := ih [] fun _ h ↦ absurd h List.not_mem_nil
      rw [← List.append_assoc, ← List.append_assoc, splitWhitespace_between hu hune,
        splitWhitespace_between hv hvne]
      exact congrArg _ hrest
  exact hall [] fun _ h ↦ absurd h List.not_mem_nil

theorem notMem_of_blank (hc : isWhitespace c = false) (hu : Blank u) : c ∉ u := by
  intro h
  have := hu c h
  rw [hc] at this
  exact absurd this (by decide)

theorem splitOnce_trim (hc : isWhitespace c = false) (t : Text) :
    splitOnce c (trim t) = (splitOnce c t).map fun p ↦
      (p.1.dropWhile isWhitespace, p.2.rdropWhile isWhitespace) := by
  by_cases h : c ∈ t
  · obtain ⟨a, b, rfl, ha⟩ := List.eq_append_cons_of_mem h
    have ha' : c ∉ a.dropWhile isWhitespace := fun h ↦ ha ((List.dropWhile_sublist _).subset h)
    rw [trim_around hc, splitOnce_of_notMem ha, splitOnce_of_notMem ha', Option.map_some]
  · have htrim : c ∉ trim t := mt mem_of_mem_trim h
    rw [splitOnce_of_no_separator h, splitOnce_of_no_separator htrim, Option.map_none]

theorem trim_rdropWhile (t : Text) : trim (t.rdropWhile isWhitespace) = trim t := by
  have hend : Blank (t.rtakeWhile isWhitespace) := fun _ hc ↦ List.mem_rtakeWhile_imp hc
  conv_rhs => rw [← List.rdropWhile_append_rtakeWhile (p := isWhitespace) (l := t)]
  rw [trim_append_blank hend]

/-- The parts on either side of a character are spaced alike. -/
theorem Spaced.splitOnce (hc : isWhitespace c = false) (h : Spaced a b) :
    Option.Rel (fun p q ↦ Spaced p.1 q.1 ∧ Spaced p.2 q.2)
      (splitOnce c a) (splitOnce c b) := by
  induction h with
  | nil => exact .none
  | @cons d a b hd h ih =>
    by_cases hdc : d = c
    · simp only [Text.splitOnce, hdc, if_true]
      exact .some ⟨.nil, h⟩
    · simp only [Text.splitOnce, hdc, if_false]
      cases ha : Text.splitOnce c a <;> cases hb : Text.splitOnce c b <;> rw [ha, hb] at ih
      · exact .none
      · cases ih
      · cases ih
      · cases ih with
        | some h => exact .some ⟨.cons hd h.1, h.2⟩
  | @gap u v a b hu hune hv hvne h ih =>
    rw [splitOnce_append_of_notMem (notMem_of_blank hc hu),
      splitOnce_append_of_notMem (notMem_of_blank hc hv)]
    cases ha : Text.splitOnce c a <;> cases hb : Text.splitOnce c b <;> rw [ha, hb] at ih
    · exact .none
    · cases ih
    · cases ih
    · cases ih with
      | some h => exact .some ⟨.gap hu hune hv hvne h.1, h.2⟩

/-- Words set out in order, white space between any two of them. -/
inductive Laid : List Text → Text → Prop
  | one {w : Text} (hne : w ≠ []) (hw : Solid w) : Laid [w] w
  | more {w u t : Text} {words : List Text} (hne : w ≠ []) (hw : Solid w) (hu : Blank u)
    (hune : u ≠ []) (h : Laid words t) : Laid (w :: words) (w ++ (u ++ t))

theorem Laid.spaced {words : List Text} (ha : Laid words a) (hb : Laid words b) :
    Spaced a b := by
  induction ha generalizing b with
  | one hne hw =>
    cases hb with
    | one => exact spaced_solid hw
    | more _ _ _ _ h => cases h
  | more hne hw hu hune h ih =>
    cases hb with
    | one => cases h
    | more _ _ hv hvne h' => exact .solid_append hw (.gap hu hune hv hvne (ih h'))

theorem Laid.ne_nil {words : List Text} (h : Laid words t) : t ≠ [] := by
  cases h with
  | one hne _ => exact hne
  | more hne _ _ _ _ => exact List.append_ne_nil_of_left_ne_nil hne _

theorem rdropWhile_append_trim (h : trim t ≠ []) (a : Text) :
    (a ++ trim t).rdropWhile isWhitespace = a ++ trim t := by
  refine List.rdropWhile_eq_self_iff.mpr fun hne ↦ ?_
  rw [List.getLast_append_of_ne_nil hne h]
  exact List.rdropWhile_last_not isWhitespace _ h

theorem trim_append_trim (hne : w ≠ []) (hw : Solid w) (h : trim t ≠ []) (u : Text) :
    trim (w ++ (u ++ trim t)) = w ++ (u ++ trim t) := by
  cases w with
  | nil => exact absurd rfl hne
  | cons c w =>
    have hc := hw c List.mem_cons_self
    have hstart := trim_around hc [] (w ++ (u ++ trim t))
    rw [← List.append_assoc, rdropWhile_append_trim h, List.append_assoc] at hstart
    exact hstart

theorem trim_solid (hw : Solid w) : trim w = w :=
  trim_of_no_whitespace fun c hc ↦ by simp [hw c hc]

/-- A text is blank, or trimmed it is its words laid out. -/
theorem laid_trim (t : Text) :
    trim t = [] ∧ splitWhitespace t = [] ∨ Laid (splitWhitespace t) (trim t) := by
  induction t using wordInduction with
  | last w hw =>
    rw [trim_solid hw, splitWhitespace_solid hw]
    by_cases hne : w = []
    · exact .inl ⟨hne, if_pos hne⟩
    · rw [if_neg hne]
      exact .inr (.one hne hw)
  | split w c t hw hc ih =>
    have hgap : Blank [c] := List.forall_mem_singleton.mpr hc
    rw [splitWhitespace_append_cons hc, splitWhitespace_solid hw]
    by_cases hne : w = []
    · rw [if_pos hne, List.nil_append, hne, List.nil_append, ← List.singleton_append,
        trim_blank_append hgap]
      exact ih
    · rw [if_neg hne, List.singleton_append]
      obtain ⟨u, v, ht, hu, hv⟩ := exists_trim t
      have hcu : Blank (c :: u) := List.forall_mem_cons.mpr ⟨hc, hu⟩
      refine .inr ?_
      obtain ⟨hnil, hwords⟩ | hlaid := ih
      · have hblank : Blank (c :: t) := by
          rw [ht, hnil, List.append_nil]
          exact List.forall_mem_append.mpr ⟨hcu, hv⟩
        rw [hwords, trim_append_blank hblank, trim_solid hw]
        exact .one hne hw
      · have hwhole : trim (w ++ c :: t) = w ++ (c :: u ++ trim t) := by
          have hsplit : w ++ c :: t = w ++ (c :: u ++ trim t) ++ v := by
            conv_lhs => rw [ht]
            simp
          rw [hsplit, trim_append_blank hv, trim_append_trim hne hw hlaid.ne_nil]
        rw [hwhole]
        exact .more hne hw hcu (List.cons_ne_nil _ _) hlaid

theorem SameWords.spaced (h : SameWords a b) : Spaced (trim a) (trim b) := by
  have hb := laid_trim b
  rw [← h] at hb
  obtain ⟨ha, hwords⟩ | ha := laid_trim a
  · obtain ⟨hb, -⟩ | hb := hb
    · rw [ha, hb]
      exact .nil
    · rw [hwords] at hb
      cases hb
  · obtain ⟨-, hwords⟩ | hb := hb
    · rw [hwords] at ha
      cases ha
    · exact ha.spaced hb

end Postbud.Lib.Words
