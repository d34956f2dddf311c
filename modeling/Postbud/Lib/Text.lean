import Mathlib.Data.List.DropRight
import Mathlib.Data.List.Infix

namespace Postbud.Lib

abbrev Text := List Char

abbrev Bytes := List UInt8

instance : LawfulBEq Text := inferInstance

/-- To decide what holds of the characters of a text, only these are looked at. -/
instance (priority := high) {p : Char → Prop} [DecidablePred p] (t : Text) :
    Decidable (∀ c ∈ t, p c) := List.decidableBAll p t

namespace Text

/-- `char::is_whitespace`: the Unicode property `White_Space`. -/
def isWhitespace (c : Char) : Bool :=
  let n := c.toNat
  n == 0x20 || (9 ≤ n && n ≤ 13) || (0x80 ≤ n && (n == 0x85 || n == 0xA0 || n == 0x1680 ||
    (0x2000 ≤ n && n ≤ 0x200A) || n == 0x2028 || n == 0x2029 || n == 0x202F || n == 0x205F ||
    n == 0x3000))

def trimStart (t : Text) : Text := t.dropWhile isWhitespace

def trim (t : Text) : Text := (t.dropWhile isWhitespace).rdropWhile isWhitespace

def asciiLower (c : Char) : Char :=
  if 'A' ≤ c ∧ c ≤ 'Z' then Char.ofNat (c.toNat + 32) else c

def toAsciiLowercase (t : Text) : Text := t.map asciiLower

def splitOnce (c : Char) : Text → Option (Text × Text)
  | [] => none
  | x :: t => if x = c then some ([], t) else (splitOnce c t).map fun p ↦ (x :: p.1, p.2)

def rsplitOnce (c : Char) (t : Text) : Option (Text × Text) :=
  (splitOnce c t.reverse).map fun p ↦ (p.2.reverse, p.1.reverse)

def splitWhitespace (t : Text) : List Text := (t.splitOnP isWhitespace).filter (· ≠ [])

/-- A line without the carriage return that `str::lines` takes for part of its ending. -/
def dropCr (l : Text) : Text := if l.getLast? = some '\r' then l.dropLast else l

/-- `str::lines`: every line but the last one ended with `\n` or `\r\n`, and
a last line is one only if it has text. -/
def lines (t : Text) : List Text :=
  let parts := t.splitOn '\n'
  parts.dropLast.map dropCr ++ (parts.getLast?.filter (· ≠ [])).toList

def stripPrefix (p t : Text) : Option Text := if p <+: t then some (t.drop p.length) else none

def utf8 (t : Text) : Bytes := t.flatMap String.utf8EncodeChar

def decimal (n : ℕ) : Text := (toString n).toList

theorem stripPrefix_append (p t : Text) : stripPrefix p (p ++ t) = some t := by
  rw [stripPrefix, if_pos (List.prefix_append p t), List.drop_left]

theorem eq_append_of_stripPrefix {p t u : Text} (h : stripPrefix p t = some u) : p ++ u = t := by
  obtain ⟨⟨v, rfl⟩, he⟩ := Option.ite_none_right_eq_some.mp h
  rw [List.drop_left] at he
  rw [Option.some.inj he]

section Ends

/-- Both ends of a text taken off as long as they are such characters. -/
def trimEnds (p : Char → Bool) (t : Text) : Text := (t.dropWhile p).rdropWhile p

variable {p : Char → Bool} {t : Text}

theorem mem_of_mem_trimEnds {c : Char} (h : c ∈ trimEnds p t) : c ∈ t :=
  (List.dropWhile_suffix p).subset ((List.rdropWhile_prefix p _).subset h)

theorem dropWhile_congr {q : Char → Bool} (h : ∀ c ∈ t, p c = q c) :
    t.dropWhile p = t.dropWhile q := by
  induction t with
  | nil => rfl
  | cons c t ih =>
    rw [List.dropWhile_cons, List.dropWhile_cons, h c List.mem_cons_self,
      ih fun d hd ↦ h d (List.mem_cons_of_mem c hd)]

/-- What is taken off depends on the characters of the text alone. -/
theorem trimEnds_congr {q : Char → Bool} (h : ∀ c ∈ t, p c = q c) :
    trimEnds p t = trimEnds q t := by
  have hrest : ∀ c ∈ (t.dropWhile q).reverse, p c = q c := fun c hc ↦
    h c ((List.dropWhile_suffix q).subset (List.mem_reverse.mp hc))
  rw [trimEnds, trimEnds, dropWhile_congr h, List.rdropWhile, List.rdropWhile, dropWhile_congr hrest]

theorem dropWhile_trimEnds (p : Char → Bool) (t : Text) :
    (trimEnds p t).dropWhile p = trimEnds p t := by
  obtain ⟨u, hu⟩ : trimEnds p t <+: t.dropWhile p := List.rdropWhile_prefix _ _
  cases ht : trimEnds p t with
  | nil => rfl
  | cons c l =>
    rw [ht, List.cons_append] at hu
    have hne : t.dropWhile p ≠ [] := hu ▸ List.cons_ne_nil _ _
    have hc := List.head_dropWhile_not p hne
    simp only [← hu, List.head_cons] at hc
    rw [List.dropWhile_cons, hc, if_neg Bool.false_ne_true]

theorem trimEnds_trimEnds (p : Char → Bool) (t : Text) :
    trimEnds p (trimEnds p t) = trimEnds p t := by
  have hdrop : (trimEnds p t).dropWhile p = trimEnds p t := dropWhile_trimEnds p t
  rw [trimEnds, hdrop]
  exact List.rdropWhile_idempotent _ _

/-- Nothing is taken off a text that neither starts nor ends with such a character. -/
theorem trimEnds_eq_self_iff : trimEnds p t = t ↔
    (∀ c ∈ t.head?, p c = false) ∧ ∀ c ∈ t.getLast?, p c = false := by
  cases t with
  | nil => exact iff_of_true rfl ⟨nofun, nofun⟩
  | cons d t =>
    have hne : d :: t ≠ [] := List.cons_ne_nil d t
    rw [List.head?_cons, List.getLast?_eq_some_getLast hne]
    simp only [Option.mem_def, Option.some.injEq, forall_eq']
    constructor
    · intro h
      have hstart := dropWhile_trimEnds p (d :: t)
      have hend : (trimEnds p (d :: t)).rdropWhile p = trimEnds p (d :: t) :=
        List.rdropWhile_idempotent _ _
      rw [h] at hstart hend
      refine ⟨?_, Bool.eq_false_iff.mpr (List.rdropWhile_eq_self_iff.mp hend hne)⟩
      by_contra hd
      rw [List.dropWhile_cons_of_pos (Bool.not_eq_false _ ▸ hd)] at hstart
      have hlen := (List.dropWhile_suffix p (l := t)).length_le
      rw [hstart, List.length_cons] at hlen
      omega
    · rintro ⟨hd, hlast⟩
      rw [trimEnds, List.dropWhile_cons_of_neg (Bool.eq_false_iff.mp hd)]
      exact List.rdropWhile_eq_self_iff.mpr fun _ ↦ Bool.eq_false_iff.mp hlast

end Ends

theorem trimStart_trim (t : Text) : trimStart (trim t) = trim t := dropWhile_trimEnds isWhitespace t

theorem trim_trim (t : Text) : trim (trim t) = trim t := trimEnds_trimEnds isWhitespace t

theorem trim_of_no_whitespace {t : Text} (h : ∀ c ∈ t, ¬ isWhitespace c) : trim t = t := by
  have hdrop : ∀ u : Text, (∀ c ∈ u, ¬ isWhitespace c) → u.dropWhile isWhitespace = u := by
    intro u hu
    cases u with
    | nil => rfl
    | cons c u => exact List.dropWhile_cons_of_neg (hu c List.mem_cons_self)
  rw [trim, hdrop t h, List.rdropWhile, hdrop, List.reverse_reverse]
  exact fun c hc ↦ h c (List.mem_reverse.mp hc)

theorem trim_of_ends {c d : Char} {t : Text} (hc : isWhitespace c = false)
    (hd : isWhitespace d = false) : trim (c :: (t ++ [d])) = c :: (t ++ [d]) := by
  rw [trim, List.dropWhile_cons_of_neg (by simp [hc]), ← List.cons_append]
  exact List.rdropWhile_concat_neg _ _ _ (by simp [hd])

theorem trim_append_whitespace {c : Char} (hc : isWhitespace c) (t : Text) :
    trim (t ++ [c]) = trim t := by
  unfold trim
  rw [List.dropWhile_append]
  split
  · rename_i h
    have ht : t.dropWhile isWhitespace = [] := List.isEmpty_iff.mp h
    simp [ht, hc]
  · exact List.rdropWhile_concat_pos _ _ _ hc

theorem splitOnce_append (c d : Char) (hd : d ≠ c) (t : Text) :
    splitOnce c (t ++ [d]) = (splitOnce c t).map fun p ↦ (p.1, p.2 ++ [d]) := by
  induction t with
  | nil => simp [splitOnce, hd]
  | cons x t ih =>
    by_cases hx : x = c
    · simp [splitOnce, hx]
    · simp [splitOnce, hx, ih, Option.map_map, Function.comp_def]

theorem splitOnce_spec {c : Char} {t a b : Text} (h : splitOnce c t = some (a, b)) :
    t = a ++ c :: b ∧ c ∉ a := by
  induction t generalizing a b with
  | nil => simp [splitOnce] at h
  | cons x t ih =>
    by_cases hx : x = c
    · simp only [splitOnce, hx, if_true, Option.some.injEq, Prod.mk.injEq] at h
      obtain ⟨rfl, rfl⟩ := h
      exact ⟨by rw [hx]; rfl, List.not_mem_nil⟩
    · simp only [splitOnce, hx, if_false, Option.map_eq_some_iff, Prod.mk.injEq] at h
      obtain ⟨p, hp, rfl, rfl⟩ := h
      obtain ⟨ht, hc⟩ := ih hp
      exact ⟨by rw [ht]; rfl, by simp [Ne.symm hx, hc]⟩

theorem asciiLower_cases (c : Char) : asciiLower c = c ∧ ¬ (65 ≤ c.toNat ∧ c.toNat ≤ 90) ∨
    (asciiLower c).toNat = c.toNat + 32 ∧ 65 ≤ c.toNat ∧ c.toNat ≤ 90 := by
  have hiff : ('A' ≤ c ∧ c ≤ 'Z') ↔ 65 ≤ c.toNat ∧ c.toNat ≤ 90 := Iff.rfl
  unfold asciiLower
  split
  · rename_i h
    obtain ⟨hlo, hhi⟩ := hiff.mp h
    refine .inr ⟨?_, hlo, hhi⟩
    have hvalid : (c.toNat + 32).isValidChar := .inl (by omega)
    rw [Char.ofNat, dif_pos hvalid]
    rfl
  · rename_i h
    exact .inl ⟨rfl, mt hiff.mpr h⟩

theorem asciiLower_asciiLower (c : Char) : asciiLower (asciiLower c) = asciiLower c := by
  rcases asciiLower_cases c with ⟨h, -⟩ | ⟨h, hlo, hhi⟩
  · rw [h, h]
  · rcases asciiLower_cases (asciiLower c) with ⟨h', -⟩ | ⟨-, hlo', hhi'⟩
    · exact h'
    · omega

theorem toAsciiLowercase_toAsciiLowercase (t : Text) :
    toAsciiLowercase (toAsciiLowercase t) = toAsciiLowercase t := by
  rw [toAsciiLowercase, toAsciiLowercase, List.map_map]
  exact List.map_congr_left fun c _ ↦ asciiLower_asciiLower c

/-- Only letters have an upper case, so no other character comes of one. -/
theorem asciiLower_eq_iff {c d : Char} (hd : ¬ (97 ≤ d.toNat ∧ d.toNat ≤ 122))
    (hd' : ¬ (65 ≤ d.toNat ∧ d.toNat ≤ 90)) : asciiLower c = d ↔ c = d := by
  constructor
  · rintro rfl
    rcases asciiLower_cases c with ⟨h, -⟩ | ⟨h, hlo, hhi⟩
    · exact h.symm
    · omega
  · rintro rfl
    rcases asciiLower_cases c with ⟨h, -⟩ | ⟨-, hup⟩
    · exact h
    · exact absurd hup hd'

theorem mem_toAsciiLowercase {d : Char} (hd : ¬ (97 ≤ d.toNat ∧ d.toNat ≤ 122))
    (hd' : ¬ (65 ≤ d.toNat ∧ d.toNat ≤ 90)) {t : Text} : d ∈ toAsciiLowercase t ↔ d ∈ t := by
  rw [toAsciiLowercase, List.mem_map]
  constructor
  · intro h
    obtain ⟨c, hc, he⟩ := h
    exact (asciiLower_eq_iff hd hd').mp he ▸ hc
  · intro h
    exact ⟨d, h, (asciiLower_eq_iff hd hd').mpr rfl⟩

theorem isWhitespace_asciiLower (c : Char) : isWhitespace (asciiLower c) = isWhitespace c := by
  rcases asciiLower_cases c with ⟨h, -⟩ | ⟨h, hlo, hhi⟩
  · rw [h]
  · have hno (d : Char) (hlo : 65 ≤ d.toNat) (hhi : d.toNat ≤ 122) : isWhitespace d = false := by
      simp only [isWhitespace, Bool.or_eq_false_iff, Bool.and_eq_false_iff, beq_eq_false_iff_ne,
        decide_eq_false_iff_not]
      omega
    rw [hno c hlo (by omega), hno (asciiLower c) (by omega) (by omega)]

theorem trim_toAsciiLowercase (t : Text) : trim (toAsciiLowercase t) = toAsciiLowercase (trim t) := by
  have hcomp : isWhitespace ∘ asciiLower = isWhitespace := funext isWhitespace_asciiLower
  rw [trim, trim, toAsciiLowercase, toAsciiLowercase, List.rdropWhile, List.rdropWhile,
    List.dropWhile_map, hcomp, ← List.map_reverse, List.dropWhile_map, hcomp, List.map_reverse]

theorem splitOnce_of_notMem {c : Char} {a : Text} (h : c ∉ a) (b : Text) :
    splitOnce c (a ++ c :: b) = some (a, b) := by
  induction a with
  | nil => simp [splitOnce]
  | cons x a ih =>
    rw [List.mem_cons, not_or] at h
    obtain ⟨hx, ha⟩ := h
    simp only [List.cons_append, splitOnce, Ne.symm hx, if_false, ih ha, Option.map_some]

theorem splitOnce_append_of_notMem {c : Char} {u : Text} (h : c ∉ u) (t : Text) :
    splitOnce c (u ++ t) = (splitOnce c t).map fun p ↦ (u ++ p.1, p.2) := by
  induction u with
  | nil => simp
  | cons d u ih =>
    rw [List.mem_cons, not_or] at h
    simp [splitOnce, Ne.symm h.1, ih h.2, Option.map_map, Function.comp_def]

theorem splitOnce_of_no_separator {c : Char} {t : Text} (h : c ∉ t) : splitOnce c t = none := by
  simpa [splitOnce] using splitOnce_append_of_notMem h []

theorem rsplitOnce_of_notMem {c : Char} {b : Text} (h : c ∉ b) (a : Text) :
    rsplitOnce c (a ++ c :: b) = some (a, b) := by
  have hrev : (a ++ c :: b).reverse = b.reverse ++ c :: a.reverse := by simp
  rw [rsplitOnce, hrev, splitOnce_of_notMem (mt List.mem_reverse.mp h)]
  simp

theorem rsplitOnce_spec {c : Char} {t a b : Text} (h : rsplitOnce c t = some (a, b)) :
    t = a ++ c :: b ∧ c ∉ b := by
  obtain ⟨p, hp, he⟩ := Option.map_eq_some_iff.mp h
  obtain ⟨rfl, rfl⟩ := Prod.mk.inj he
  obtain ⟨ht, hc⟩ := splitOnce_spec hp
  refine ⟨?_, mt List.mem_reverse.mp hc⟩
  rw [← List.reverse_reverse t, ht]
  simp

theorem exists_rsplitOnce {c : Char} {t : Text} (h : c ∈ t) :
    ∃ a b, rsplitOnce c t = some (a, b) := by
  obtain ⟨b, a, hrev, hb⟩ := List.eq_append_cons_of_mem (List.mem_reverse.mpr h)
  refine ⟨a.reverse, b.reverse, ?_⟩
  rw [rsplitOnce, hrev, splitOnce_of_notMem hb]
  rfl

theorem mem_of_mem_splitOn {c d : Char} {t part : Text} (h : part ∈ t.splitOn d) (hc : c ∈ part) :
    c ∈ t ∧ c ≠ d := by
  rw [List.splitOn_eq_splitOnP] at h
  induction t generalizing part with
  | nil =>
    obtain rfl := List.mem_singleton.mp h
    cases hc
  | cons e t ih =>
    have hlater : ∀ part ∈ t.splitOnP (· == d), c ∈ part → c ∈ e :: t ∧ c ≠ d := fun part hp hc ↦
      ⟨List.mem_cons_of_mem _ (ih hp hc).1, (ih hp hc).2⟩
    rw [List.splitOnP_cons_eq_if_modifyHead] at h
    obtain ⟨first, rest, hsplit⟩ := List.exists_cons_of_ne_nil (List.splitOnP_ne_nil (· == d) t)
    rw [hsplit] at h hlater
    split_ifs at h with he
    · obtain rfl | h := List.mem_cons.mp h
      · cases hc
      · exact hlater part h hc
    · rw [List.modifyHead_cons] at h
      obtain rfl | h := List.mem_cons.mp h
      · obtain rfl | hc := List.mem_cons.mp hc
        · exact ⟨List.mem_cons_self, fun h ↦ he (beq_iff_eq.mpr h)⟩
        · exact hlater first List.mem_cons_self hc
      · exact hlater part (List.mem_cons_of_mem _ h) hc

theorem notMem_of_mem_splitOn {c : Char} {t part : Text} (h : part ∈ t.splitOn c) : c ∉ part :=
  fun hc ↦ (mem_of_mem_splitOn h hc).2 rfl

theorem splitOn_of_notMem {c : Char} {t : Text} (h : c ∉ t) : t.splitOn c = [t] :=
  List.splitOn_eq_singleton_of_beq_eq_false fun _ hx ↦
    beq_eq_false_iff_ne.mpr fun he ↦ h (he ▸ hx)

theorem head?_splitOn (c : Char) (t : Text) :
    (t.splitOn c).head? = some (((splitOnce c t).map Prod.fst).getD t) := by
  by_cases h : c ∈ t
  · obtain ⟨a, b, rfl, ha⟩ := List.eq_append_cons_of_mem h
    have hsplit : (a ++ c :: b).splitOn c = a.splitOn c ++ b.splitOn c := by
      simp only [List.splitOn_eq_splitOnP]
      exact List.splitOnP_append_cons a b (by simp)
    rw [hsplit, splitOn_of_notMem ha, splitOnce_of_notMem ha]
    rfl
  · rw [splitOn_of_notMem h, splitOnce_of_no_separator h]
    rfl

theorem lines_append (a b : Text) :
    lines (a ++ '\n' :: b) = (a.splitOn '\n').map dropCr ++ lines b := by
  have h : (a ++ '\n' :: b).splitOn '\n' = a.splitOn '\n' ++ b.splitOn '\n' := by
    simp only [List.splitOn_eq_splitOnP]
    exact List.splitOnP_append_cons a b (by simp)
  have hb : b.splitOn '\n' ≠ [] := List.splitOn_ne_nil _ _
  simp only [lines, h, List.dropLast_append_of_ne_nil hb, List.getLast?_append_of_ne_nil _ hb,
    List.map_append, List.append_assoc]

theorem dropCr_append (l : Text) : dropCr (l ++ ['\r']) = l := by simp [dropCr]

theorem dropCr_of_ne {l : Text} (h : l.getLast? ≠ some '\r') : dropCr l = l := if_neg h

theorem dropCr_cases (l : Text) : dropCr l = l ∨ l = dropCr l ++ ['\r'] := by
  by_cases h : l.getLast? = some '\r'
  · right
    obtain ⟨l, rfl⟩ := List.getLast?_eq_some_iff.mp h
    rw [dropCr_append]
  · exact .inl (dropCr_of_ne h)

theorem mem_of_mem_lines {c : Char} {t line : Text} (h : line ∈ lines t) (hc : c ∈ line) :
    c ∈ t ∧ c ≠ '\n' := by
  unfold lines at h
  rcases List.mem_append.mp h with h | h
  · obtain ⟨part, hpart, rfl⟩ := List.mem_map.mp h
    apply mem_of_mem_splitOn (List.mem_of_mem_dropLast hpart)
    rcases dropCr_cases part with he | he
    · rwa [he] at hc
    · rw [he]
      exact List.mem_append_left _ hc
  · obtain ⟨hlast, -⟩ := Option.filter_eq_some_iff.mp (Option.mem_toList.mp h)
    exact mem_of_mem_splitOn (List.mem_of_getLast? hlast) hc

end Text

end Postbud.Lib
