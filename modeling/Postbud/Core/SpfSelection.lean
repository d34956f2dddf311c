import Postbud.Core.DnsCheck
import Postbud.Lib.Words

namespace Postbud.DnsCheck

open Lib Lib.Text Lib.ByteSlice Lib.Words

/-! Which records RFC 7208 selects. -/

/-- The version is exactly `v=spf1`: a space follows it or nothing. -/
def IsSpf (t : Text) : Prop :=
  toAsciiLowercase (t.take 6) = "v=spf1".toList ∧ (t.drop 6).head? ∈ [none, some ' ']

instance (t : Text) : Decidable (IsSpf t) := inferInstanceAs (Decidable (_ ∧ _))

def selected (records : List Text) : List Text := records.filter (IsSpf ·)

/-- Equal but for runs of white space and ASCII case. -/
def SameRecord (a b : Text) : Prop := SameWords (toAsciiLowercase a) (toAsciiLowercase b)

instance (a b : Text) : Decidable (SameRecord a b) :=
  inferInstanceAs (Decidable (splitWhitespace _ = splitWhitespace _))

/-- The verdict is the one that the selected records make. -/
def FollowsSelection (records : List Text) (expected : Text) : Prop :=
  ∃ r, checkSpf records expected = some r ∧ (r.status = .missing ↔ selected records = []) ∧
    (r.status = .ok ↔ ∃ record, selected records = [record] ∧ SameRecord record expected)

section Same

variable {a b : Text}

theorem toAsciiLowercase_normalizeSpaces (t : Text) : toAsciiLowercase (normalizeSpaces t) =
    [' '].intercalate (splitWhitespace (toAsciiLowercase t)) := by
  have hmap : ∀ words : List Text, toAsciiLowercase ([' '].intercalate words) =
      [' '].intercalate (words.map toAsciiLowercase) := by
    intro words
    induction words with
    | nil => rfl
    | cons w words ih =>
      cases words with
      | nil => simp only [List.intercalate_singleton, List.map_cons, List.map_nil]
      | cons v words =>
        rw [List.map_cons, List.map_cons, List.intercalate_cons_cons, List.intercalate_cons_cons,
          ← List.map_cons, ← ih, toAsciiLowercase, toAsciiLowercase, List.map_append,
          List.map_append]
        rfl
  have hwords : splitWhitespace (toAsciiLowercase t) = (splitWhitespace t).map toAsciiLowercase :=
    splitWhitespace_map isWhitespace_asciiLower t
  rw [hwords, ← hmap]
  rfl

theorem same_iff :
    eqIgnoreAsciiCase (normalizeSpaces a) (normalizeSpaces b) = true ↔ SameRecord a b := by
  rw [eqIgnoreAsciiCase, decide_eq_true_eq, toAsciiLowercase_normalizeSpaces,
    toAsciiLowercase_normalizeSpaces, SameRecord, SameWords]
  constructor
  · intro h
    have hwords := congrArg splitWhitespace h
    rwa [splitWhitespace_intercalate fun _ ↦ mem_splitWhitespace,
      splitWhitespace_intercalate fun _ ↦ mem_splitWhitespace] at hwords
  · intro h
    rw [h]

end Same

section Verdict

variable {expected : Text} {status : Status} {l : List Text}

/-- What `check_spf` makes of the records it finds. -/
def verdict (expected : Text) : List Text → Status
  | [] => .missing
  | [record] => if SameRecord record expected then .ok else .mismatch
  | _ :: _ :: _ => .mismatch

theorem verdict_of_two (h : 2 ≤ l.length) : verdict expected l = .mismatch := by
  match l, h with
  | _ :: _ :: _, _ => rfl

theorem eq_verdict_iff : status = verdict expected l ↔ (status = .missing ↔ l = []) ∧
    (status = .ok ↔ ∃ record, l = [record] ∧ SameRecord record expected) := by
  match l with
  | [] => cases status <;> simp [verdict]
  | [record] => by_cases h : SameRecord record expected <;> cases status <;> simp [verdict, h]
  | _ :: _ :: _ => cases status <;> simp [verdict]

/-- Records that are not selected change the verdict, but for one that is a
mismatch without them. -/
theorem verdict_filter {p : Text → Bool} : verdict expected l = verdict expected (l.filter p) ↔
    (∀ t ∈ l, p t) ∨ 2 ≤ (l.filter p).length ∨
      ∃ record, l.filter p = [record] ∧ ¬ SameRecord record expected := by
  by_cases hall : ∀ t ∈ l, p t
  · rw [List.filter_eq_self.mpr hall]
    exact iff_of_true rfl (.inl hall)
  have hlt : (l.filter p).length < l.length :=
    List.length_filter_lt_length_iff_exists.mpr (by simpa using hall)
  rw [or_iff_right hall]
  generalize l.filter p = kept at hlt ⊢
  match kept with
  | [] =>
    refine iff_of_false (fun h ↦ ?_) (by simp)
    have hnil := (eq_verdict_iff.mp h.symm).1.mp rfl
    rw [hnil] at hlt
    exact Nat.lt_irrefl _ hlt
  | [record] =>
    rw [verdict_of_two hlt]
    by_cases h : SameRecord record expected <;> simp [verdict, h]
  | _ :: _ :: _ =>
    have htwo : 2 ≤ l.length := by
      simp only [List.length_cons] at hlt
      omega
    rw [verdict_of_two htwo]
    exact iff_of_true rfl (.inl (by simp))

end Verdict

section Select

variable {t : Text} {records : List Text}

theorem hasVersion_of_isSpf (h : IsSpf t) : HasVersion "v=spf1".toList t := by
  obtain ⟨hversion, -⟩ := h
  have htrim : trimStart t = t := by
    obtain ⟨c, rest, ht, hc, -⟩ := List.map_eq_cons_iff.mp hversion
    have hsolid : isWhitespace c = false := by
      rw [← isWhitespace_asciiLower, hc]
      rfl
    rw [← List.take_append_drop 6 t, ht]
    exact List.dropWhile_cons_of_neg (by simp [hsolid])
  refine ⟨t.take 6, t.drop 6, by rw [htrim, List.take_append_drop], ?_, ?_⟩
  · rw [← byteLength_toAsciiLowercase, hversion]
  · rw [eqIgnoreAsciiCase, hversion]
    rfl

/-- The search of `check_spf` finds every selected record, and others that
share their prefix. -/
theorem selected_eq :
    selected records = (records.filter fun t ↦ isSpf t = some true).filter (IsSpf ·) := by
  rw [List.filter_filter, selected]
  refine List.filter_congr fun t _ ↦ ?_
  by_cases hspf : IsSpf t
  · simp [hspf, isSpf_eq_true.mpr (hasVersion_of_isSpf hspf)]
  · simp [hspf]

theorem checkSpf_eq (expected : Text) (h : ∀ t ∈ records, Cuttable 6 (trimStart t)) :
    ∃ r, checkSpf records expected = some r ∧
      r.status = verdict expected (records.filter fun t ↦ isSpf t = some true) := by
  have hsome : ∀ t ∈ records, (isSpf t).isSome := fun t ht ↦ isSome_startsAt.mpr (h t ht)
  rw [checkSpf, tryFilter_of_isSome hsome]
  cases records.filter fun t ↦ isSpf t = some true with
  | nil => exact ⟨_, rfl, rfl⟩
  | cons record others =>
    cases others with
    | nil =>
      refine ⟨_, rfl, ?_⟩
      by_cases hsame : SameRecord record expected
      · simp only [same_iff.mpr hsame, verdict, hsame, if_true]
      · simp only [mt same_iff.mp hsame, verdict, hsame]
        rfl
    | cons record' others => exact ⟨_, rfl, rfl⟩

/-- A record that only shares the prefix may change the verdict. -/
theorem checkSpf_follows (records : List Text) (expected : Text) :
    FollowsSelection records expected ↔ (∀ t ∈ records, Cuttable 6 (trimStart t)) ∧
      ((∀ t ∈ records, HasVersion "v=spf1".toList t → IsSpf t) ∨ 2 ≤ (selected records).length ∨
        ∃ record, selected records = [record] ∧ ¬ SameRecord record expected) := by
  by_cases h : ∀ t ∈ records, Cuttable 6 (trimStart t)
  · rw [and_iff_right h]
    have hall : (∀ t ∈ records, HasVersion "v=spf1".toList t → IsSpf t) ↔
        ∀ t ∈ records.filter fun t ↦ isSpf t = some true, decide (IsSpf t) = true := by
      simp only [List.mem_filter, decide_eq_true_eq, and_imp, isSpf_eq_true]
    obtain ⟨r, hr, hstatus⟩ := checkSpf_eq expected h
    rw [hall, selected_eq, ← verdict_filter, ← selected_eq, ← hstatus, eq_verdict_iff]
    constructor
    · rintro ⟨r', hr', hverdict⟩
      obtain rfl := Option.some.inj (hr.symm.trans hr')
      exact hverdict
    · exact fun hverdict ↦ ⟨r, hr, hverdict⟩
  · refine iff_of_false (fun hfollows ↦ ?_) fun h' ↦ h h'.1
    obtain ⟨r, hr, -⟩ := hfollows
    refine h ((isSome_checkSpf expected).mp ?_)
    rw [hr]
    rfl

end Select

/-- A longer version makes a duplicate of a record that receivers take. -/
theorem longer_version_counts : ¬ ∀ (records : List Text) (expected : Text),
    FollowsSelection records expected := by
  intro h
  obtain ⟨r, hr, -, hok⟩ := h ["v=spf1 -all".toList, "v=spf10 x".toList] "v=spf1 -all".toList
  have hselected : selected ["v=spf1 -all".toList, "v=spf10 x".toList] = ["v=spf1 -all".toList] := by
    decide
  have hstatus := hok.mpr ⟨_, hselected, rfl⟩
  obtain rfl := Option.some.inj hr
  cases hstatus

end Postbud.DnsCheck
