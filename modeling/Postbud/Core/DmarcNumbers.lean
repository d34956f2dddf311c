import Mathlib.Data.List.Forall2
import Postbud.Core.DmarcProlog
import Postbud.Lib.Numeral

namespace Postbud.Dmarc

open Lib Lib.Text Lib.Utf8 Lib.Result Lib.Numeral

def InI32 (n : ℤ) : Prop := -2147483648 ≤ n ∧ n ≤ 2147483647

namespace Raw

/-! The numbers of a document, as it writes them. -/

def Feedback.begin_ (feedback : Feedback) : Option Text :=
  (feedback.reportMetadata.bind (·.dateRange)).bind (·.begin_)

def Feedback.end_ (feedback : Feedback) : Option Text :=
  (feedback.reportMetadata.bind (·.dateRange)).bind (·.end_)

def Feedback.pct (feedback : Feedback) : Option Text := feedback.policyPublished.bind (·.pct)

def Record.count (rec : Record) : Option Text := rec.row.bind (·.count)

end Raw

/-- The field has this integer between white space or none. -/
def Carries (field : Option Text) (n : ℤ) : Prop := ∃ value ∈ field, Writes (trim value) n

section Number

variable {t : Text} {field : Option Text} {n m : ℤ}

theorem Carries.unique (hn : Carries field n) (hm : Carries field m) : n = m := by
  obtain ⟨value, hvalue, hn⟩ := hn
  obtain ⟨value', hvalue', hm⟩ := hm
  obtain rfl := Option.mem_unique hvalue hvalue'
  exact hn.unique hm

theorem digit?_eq_some {c : Char} {k : ℕ} :
    digit? c = some k ↔ ∃ d : Fin 10, c = d.val.digitChar ∧ k = d := by
  have hrange : ('0' ≤ c ∧ c ≤ '9') ↔ 48 ≤ c.toNat ∧ c.toNat ≤ 57 := Iff.rfl
  rw [digit?, Option.ite_none_right_eq_some, hrange, Option.some.injEq]
  constructor
  · intro h
    obtain ⟨⟨hlo, hhi⟩, rfl⟩ := h
    refine ⟨⟨c.toNat - 48, by omega⟩, Char.toNat_inj.mp ?_, rfl⟩
    rw [Nat.toNat_digitChar_of_lt_ten (by omega)]
    exact (Nat.add_sub_cancel' hlo).symm
  · intro h
    obtain ⟨d, rfl, rfl⟩ := h
    rw [Nat.toNat_digitChar_of_lt_ten d.isLt]
    omega

theorem mapM_digit? {values : List ℕ} : t.mapM digit? = some values ↔
    ∃ ds, t = spell ds ∧ values = ds.map Fin.val := by
  induction t generalizing values with
  | nil =>
    constructor
    · intro h
      obtain rfl := Option.some.inj h
      exact ⟨[], rfl, rfl⟩
    · intro h
      obtain ⟨ds, hds, rfl⟩ := h
      obtain rfl := spell_eq_nil.mp hds.symm
      rfl
  | cons c t ih =>
    simp only [List.mapM_cons, Option.bind_eq_bind, Option.bind_eq_some_iff, digit?_eq_some, ih]
    constructor
    · intro hread
      obtain ⟨_, ⟨d, rfl, rfl⟩, _, ⟨ds, rfl, rfl⟩, h⟩ := hread
      obtain rfl := Option.some.inj h
      exact ⟨d :: ds, rfl, rfl⟩
    · intro h
      obtain ⟨ds, hds, rfl⟩ := h
      cases ds with
      | nil => cases hds
      | cons d ds =>
        obtain ⟨rfl, rfl⟩ := List.cons.inj hds
        exact ⟨d, ⟨d, rfl, rfl⟩, _, ⟨ds, rfl, rfl⟩, rfl⟩

/-- What `parseI64` makes of the digits after the sign. -/
def signed (negative : Bool) (digits : Text) : Option ℤ :=
  if digits = [] then none
  else (digits.mapM digit?).bind fun values ↦
    let magnitude := values.foldl (fun (n : ℤ) (d : ℕ) ↦ n * 10 + d) 0
    let n := if negative then -magnitude else magnitude
    if inI64 n then some n else none

theorem parseI64_eq (t : Text) : parseI64 t =
    let p : Bool × Text := match t with
      | '-' :: digits => (true, digits)
      | '+' :: digits => (false, digits)
      | digits => (false, digits)
    signed p.1 p.2 := by
  have hfold (l : List ℕ) : (do let d ← l; pure (d : ℤ)).foldl (fun n d ↦ n * 10 + d) 0 =
      l.foldl (fun (n : ℤ) (d : ℕ) ↦ n * 10 + d) 0 := by
    rw [List.bind_eq_flatMap, ← Function.comp_def pure, List.flatMap_pure_eq_map, List.foldl_map]
  unfold parseI64
  simp only [hfold]
  rfl

theorem signed_eq_some {negative : Bool} : signed negative t = some n ↔ inI64 n ∧
    ∃ ds ≠ [], t = spell ds ∧ n = if negative then -(value ds : ℤ) else (value ds : ℤ) := by
  simp only [signed, Option.ite_none_left_eq_some, Option.bind_eq_some_iff, mapM_digit?]
  constructor
  · intro hread
    obtain ⟨hne, _, ⟨ds, rfl, rfl⟩, h⟩ := hread
    rw [foldl_eq_value] at h
    obtain ⟨hfits, h⟩ := Option.ite_none_right_eq_some.mp h
    obtain rfl := Option.some.inj h
    exact ⟨hfits, ds, mt spell_eq_nil.mpr hne, rfl, rfl⟩
  · intro h
    obtain ⟨hfits, ds, hne, rfl, rfl⟩ := h
    refine ⟨mt spell_eq_nil.mp hne, _, ⟨ds, rfl, rfl⟩, ?_⟩
    rw [foldl_eq_value]
    exact if_pos hfits

/-- What is read as an `i64` is a numeral of one, and every numeral of one is. -/
theorem parseI64_eq_some : parseI64 t = some n ↔ Writes t n ∧ inI64 n := by
  rw [parseI64_eq, and_comm]
  split
  · rw [signed_eq_some, writes_minus]
    rfl
  · rw [signed_eq_some, writes_plus]
    rfl
  · rename_i hminus hplus
    rw [signed_eq_some, writes_plain hminus hplus]
    rfl

theorem mem_trimmed {value : Text} : trimmed field = some value ↔
    ∃ padded ∈ field, value = trim padded ∧ value ≠ [] := by
  simp only [trimmed, trimmedOpt, Option.bind_eq_some_iff, Option.ite_none_left_eq_some,
    Option.some.injEq, Option.mem_def]
  constructor
  · intro h
    obtain ⟨padded, hpadded, hne, rfl⟩ := h
    exact ⟨padded, hpadded, rfl, hne⟩
  · intro h
    obtain ⟨padded, hpadded, rfl, hne⟩ := h
    exact ⟨padded, hpadded, hne, rfl⟩

theorem number_eq_some : number field = some n ↔ Carries field n ∧ inI64 n := by
  simp only [number, Option.bind_eq_some_iff, mem_trimmed, parseI64_eq_some]
  constructor
  · intro h
    obtain ⟨_, ⟨padded, hpadded, rfl, -⟩, hwrites, hfits⟩ := h
    exact ⟨⟨padded, hpadded, hwrites⟩, hfits⟩
  · intro h
    obtain ⟨⟨padded, hpadded, hwrites⟩, hfits⟩ := h
    exact ⟨_, ⟨padded, hpadded, rfl, hwrites.ne_nil⟩, hwrites, hfits⟩

theorem number_eq_none : number field = none ↔ ∀ n, Carries field n → ¬ inI64 n := by
  simp only [Option.eq_none_iff_forall_ne_some, ne_eq, number_eq_some, not_and]

end Number

/-- What a report says of a number: the integer in its field, or a default
where the field is missing or has none that fits. -/
inductive Stated (field : Option Text) (fits : ℤ → Prop) {α : Type} (default : α)
    (given : ℤ → α) : α → Prop
  | written {n : ℤ} (h : Carries field n) : Stated field fits default given (given n)
  | unreadable (h : ∀ n, Carries field n → ¬ fits n) : Stated field fits default given default

/-- Every number of the report is one that the document has, or the default. -/
structure States (feedback : Raw.Feedback) (report : Report) : Prop where
  begin_ : Stated feedback.begin_ (inI64 ·) 0 id report.begin_
  end_ : Stated feedback.end_ (inI64 ·) 0 id report.end_
  pct : Stated feedback.pct InI32 none some report.pct
  count : List.Forall₂ (fun rec r ↦ Stated rec.count (inI64 ·) 0 id r.count)
    feedback.records report.records

section Stated

variable {field : Option Text}

theorem stated_number (field : Option Text) :
    Stated field (inI64 ·) 0 id ((number field).getD 0) := by
  cases h : number field with
  | none => exact .unreadable (number_eq_none.mp h)
  | some n => exact .written (number_eq_some.mp h).1

theorem stated_count (rec : Raw.Record) :
    Stated rec.count (inI64 ·) 0 id (record rec).count := by
  have hcount : (record rec).count = (number rec.count).getD 0 := by
    rw [record, Raw.Record.count]
    cases rec.row <;> rfl
  rw [hcount]
  exact stated_number _

theorem bmod_eq_self {n : ℤ} : n.bmod 4294967296 = n ↔ InI32 n := by
  rw [InI32, Int.bmod_def]
  omega

/-- The narrowing shows in an `i64` beyond those of an `i32`, and in no other number. -/
theorem stated_narrowed :
    Stated field InI32 none some ((number field).map fun n ↦ n.bmod 4294967296) ↔
      ∀ n, Carries field n → inI64 n → InI32 n := by
  constructor
  · intro h n hn hfits
    rw [number_eq_some.mpr ⟨hn, hfits⟩, Option.map_some] at h
    generalize hpct : some (n.bmod 4294967296) = pct at h
    cases h with
    | written hm =>
      obtain rfl := hn.unique hm
      exact bmod_eq_self.mp (Option.some.inj hpct)
    | unreadable => cases hpct
  · intro h
    cases hnumber : number field with
    | none =>
      refine .unreadable fun n hn hfits ↦ number_eq_none.mp hnumber n hn ?_
      obtain ⟨hlo, hhi⟩ := hfits
      rw [inI64_iff]
      omega
    | some n =>
      obtain ⟨hn, hfits⟩ := number_eq_some.mp hnumber
      rw [Option.map_some, bmod_eq_self.mpr (h n hn hfits)]
      exact .written hn

end Stated

section Parse

theorem orNotAReport_eq_ok {α : Type} {missing : Text} {o : Option α} {a : α} :
    orNotAReport missing o = .ok a ↔ o = some a := by
  cases o with
  | none => exact iff_of_false nofun nofun
  | some b => rw [orNotAReport, Except.ok.injEq, Option.some.injEq]

variable [Formats] {xml : Bytes} {feedback : Raw.Feedback} {report : Report}

theorem parse_numbers (hread : Formats.xml (documentText xml) = .ok feedback)
    (h : parse xml = .ok report) : report.begin_ = (number feedback.begin_).getD 0 ∧
      report.end_ = (number feedback.end_).getD 0 ∧
      report.pct = (number feedback.pct).map (fun n ↦ n.bmod 4294967296) ∧
      report.records = feedback.records.map record := by
  unfold parse at h
  obtain ⟨-, h⟩ := ok_of_unless h
  dsimp only at h
  split at h
  · rename_i read hparsed
    obtain rfl : read = feedback := Except.ok.inj (hparsed.symm.trans hread)
    obtain ⟨_, hpure, h⟩ := ok_of_bind h
    obtain rfl := Except.ok.inj hpure
    obtain ⟨meta_, hmeta, h⟩ := ok_of_bind h
    obtain ⟨policy, hpolicy, h⟩ := ok_of_bind h
    obtain ⟨reportId, -, h⟩ := ok_of_bind h
    obtain ⟨domain, -, h⟩ := ok_of_bind h
    obtain rfl := Except.ok.inj h
    rw [orNotAReport_eq_ok] at hmeta hpolicy
    have hrange {field : Raw.DateRange → Option Text} (hnone : field {} = none) :
        field (meta_.dateRange.getD {}) =
          (read.reportMetadata.bind (·.dateRange)).bind field := by
      rw [hmeta, Option.bind_some]
      cases meta_.dateRange with
      | none => exact hnone
      | some range => rfl
    refine ⟨?_, ?_, ?_, rfl⟩
    · exact congrArg (fun field ↦ (number field).getD 0) (hrange rfl)
    · exact congrArg (fun field ↦ (number field).getD 0) (hrange rfl)
    · rw [Raw.Feedback.pct, hpolicy]
      rfl
  · cases h

/-- Every number but `pct` is stated as the document has it, and `pct` unless
it is beyond an `i32`. -/
theorem states_iff (hread : Formats.xml (documentText xml) = .ok feedback)
    (h : parse xml = .ok report) :
    States feedback report ↔ ∀ n, Carries feedback.pct n → inI64 n → InI32 n := by
  obtain ⟨hbegin, hend, hpct, hrecords⟩ := parse_numbers hread h
  rw [← stated_narrowed, ← hpct]
  constructor
  · intro hstates
    exact hstates.pct
  · intro hstated
    refine ⟨?_, ?_, hstated, ?_⟩
    · rw [hbegin]
      exact stated_number _
    · rw [hend]
      exact stated_number _
    · rw [hrecords, List.forall₂_map_right_iff]
      exact List.forall₂_same.mpr fun rec _ ↦ stated_count rec

end Parse

section Pct

/-- A report with that `pct`. -/
def withPct (pct : Text) : Text :=
  '<' :: ("feedback><report_metadata><report_id>1</report_id><date_range>".toList ++
    "<begin>1787011200</begin><end>1787097599</end></date_range></report_metadata>".toList ++
    "<policy_published><domain>example.com</domain><pct>".toList ++ pct ++
    "</pct></policy_published><record><row><count>31</count></row></record></feedback".toList ++
    ['>'])

def rawWithPct (pct : Text) : Raw.Feedback where
  reportMetadata := some
    { reportId := some ['1']
      dateRange := some
        { begin_ := some "1787011200".toList
          end_ := some "1787097599".toList } }
  policyPublished := some
    { domain := some "example.com".toList
      pct := some pct }
  records := [{ row := some { count := some "31".toList } }]

/-- A deserialiser that reads that report. -/
@[reducible] def readsPct (pct : Text) : Formats where
  __ := Formats.none
  xml text := if text = withPct pct then .ok (rawWithPct pct)
    else .error "unexpected end".toList

theorem documentText_withPct (pct : Text) : documentText (utf8 (withPct pct)) = withPct pct := by
  rw [documentText, fromUtf8Lossy_utf8, withPct, List.dropWhile_cons_of_neg (by decide)]
  exact trim_of_ends rfl rfl

theorem readsPct_xml (pct : Text) :
    (readsPct pct).xml (documentText (utf8 (withPct pct))) = .ok (rawWithPct pct) := by
  rw [documentText_withPct]
  exact if_pos rfl

theorem parse_withPct (pct : Text) (h : '!' ∉ withPct pct) :
    ∃ report, @parse (readsPct pct) (utf8 (withPct pct)) = .ok report := by
  refine @parse_ok (readsPct pct) _ _ _ _ _ _ ?_ (readsPct_xml pct) rfl rfl rfl rfl
  rw [documentText_withPct]
  exact not_declares_of_notMem h

def hundred : Text := "100".toList

theorem states_iff_hundred : ∃ report, @parse (readsPct hundred) (utf8 (withPct hundred)) =
    .ok report ∧ States (rawWithPct hundred) report := by
  obtain ⟨report, hreport⟩ := parse_withPct hundred (by decide +kernel)
  have hhundred : number (some hundred) = some 100 := by decide
  refine ⟨report, hreport, (@states_iff (readsPct _) _ _ _ (readsPct_xml _) hreport).mpr ?_⟩
  intro n hn _
  obtain rfl := hn.unique (number_eq_some.mp hhundred).1
  exact ⟨by decide, by decide⟩

def wide : Text := "4294967396".toList

theorem number_wide : number (some wide) = some 4294967396 := by decide +kernel

theorem parse_wide : ∃ report, @parse (readsPct wide) (utf8 (withPct wide)) = .ok report ∧
    report.pct = some 100 := by
  obtain ⟨report, hreport⟩ := parse_withPct wide (by decide +kernel)
  obtain ⟨-, -, hpct, -⟩ := @parse_numbers (readsPct _) _ _ _ (readsPct_xml _) hreport
  change report.pct = (number (some wide)).map _ at hpct
  rw [number_wide] at hpct
  exact ⟨report, hreport, hpct⟩

/-- The report has a `pct` of 100 where the document has 4294967396. -/
theorem wide_not_states : ¬ ∀ (_ : Formats) (xml : Bytes) (feedback : Raw.Feedback)
    (report : Report), Formats.xml (documentText xml) = .ok feedback → parse xml = .ok report →
      States feedback report := by
  intro h
  obtain ⟨report, hreport, hpct⟩ := parse_wide
  have hstated := (h (readsPct wide) _ _ report (readsPct_xml wide) hreport).pct
  rw [hpct] at hstated
  have hwide : Carries (some wide) 4294967396 := (number_eq_some.mp number_wide).1
  cases hstated with
  | written hhundred => exact absurd (hwide.unique hhundred) (by decide)

end Pct

end Postbud.Dmarc
