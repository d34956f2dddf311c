import Mathlib.Data.Char
import Mathlib.Data.List.Lex
import Postbud.Db.DmarcOnce

namespace Postbud.Dmarc

open Lib Lib.Text Lib.Join Lib.Transition

section Summary

theorem bigint_eq_ok {n m : ℤ} : bigint n = .ok m ↔ inI64 n ∧ n = m := by
  unfold bigint
  split_ifs with h
  · simp only [Except.ok.injEq, h, true_and]
  · exact iff_of_false (fun he ↦ by cases he) fun he ↦ h he.1

variable {db : Tables} {domain : Text} {rows : List (ReportRow × Option RecordRow)}
  {d : DomainSummary} {out : List DomainSummary}

/-- A domain is summarised if its two totals are `bigint`s, and then by them. -/
theorem DomainSummary.of_eq_ok (h : DomainSummary.of domain rows = .ok d) :
    inI64 (messagesOf rows) ∧ inI64 (passedOf rows) ∧ d.messages = messagesOf rows ∧
      d.passed = passedOf rows := by
  obtain ⟨messages, hm, h⟩ := Result.ok_of_bind h
  obtain ⟨passed, hp, h⟩ := Result.ok_of_bind h
  obtain ⟨hm', rfl⟩ := bigint_eq_ok.mp hm
  obtain ⟨hp', rfl⟩ := bigint_eq_ok.mp hp
  obtain rfl := Except.ok.inj h
  exact ⟨hm', hp', rfl, rfl⟩

theorem DomainSummary.exists_of (hm : inI64 (messagesOf rows)) (hp : inI64 (passedOf rows)) :
    ∃ d, DomainSummary.of domain rows = .ok d := by
  rw [DomainSummary.of, bigint_eq_ok.mpr ⟨hm, rfl⟩, bigint_eq_ok.mpr ⟨hp, rfl⟩]
  exact ⟨_, rfl⟩

variable [Collation]

theorem mem_groups {g : Text × List (ReportRow × Option RecordRow)} :
    g ∈ (groupBy (·.1.policyDomain) db.joined).insertionSort (fun g g' ↦ Collation.le g.1 g'.1) ↔
      (∃ r ∈ db.report, r.policyDomain = g.1) ∧ g.2 = db.joinedFor g.1 := by
  rw [List.mem_insertionSort, mem_groupBy]
  refine and_congr_left fun _ ↦ ⟨fun h ↦ ?_, fun h ↦ ?_⟩
  · obtain ⟨e, he, hd⟩ := h
    exact ⟨e.1, mem_map_fst_leftJoin.mp ⟨e, he, rfl⟩, hd⟩
  · obtain ⟨r, hr, hd⟩ := h
    obtain ⟨e, he, her⟩ := mem_map_fst_leftJoin.mpr hr
    exact ⟨e, he, her ▸ hd⟩

/-- Every domain that a report is held for has its line in the summary, and no other. -/
theorem mem_summary (h : summary db = .ok out) : d ∈ out ↔
    ∃ r ∈ db.report, DomainSummary.of r.policyDomain (db.joinedFor r.policyDomain) = .ok d := by
  rw [Result.mem_of_mapM h]
  constructor
  · intro hd
    obtain ⟨g, hg, hd⟩ := hd
    obtain ⟨⟨r, hr, he⟩, hrows⟩ := mem_groups.mp hg
    rw [hrows, ← he] at hd
    exact ⟨r, hr, hd⟩
  · intro hd
    obtain ⟨r, hr, hd⟩ := hd
    exact ⟨(r.policyDomain, _), mem_groups.mpr ⟨⟨r, hr, rfl⟩, rfl⟩, hd⟩

theorem summary_eq_ok_iff : (∃ out, summary db = .ok out) ↔ ∀ r ∈ db.report,
    inI64 (messagesOf (db.joinedFor r.policyDomain)) ∧
      inI64 (passedOf (db.joinedFor r.policyDomain)) := by
  rw [summary, Result.mapM_eq_ok_iff]
  constructor
  · intro h r hr
    have hg := (mem_groups (g := (r.policyDomain, db.joinedFor r.policyDomain))).mpr
      ⟨⟨r, hr, rfl⟩, rfl⟩
    obtain ⟨d, hd⟩ := h _ hg
    obtain ⟨hm, hp, -⟩ := DomainSummary.of_eq_ok hd
    exact ⟨hm, hp⟩
  · intro h g hg
    obtain ⟨⟨r, hr, he⟩, hrows⟩ := mem_groups.mp hg
    obtain ⟨hm, hp⟩ := h r hr
    rw [hrows, ← he]
    exact DomainSummary.exists_of hm hp

/-- The summary answers, its totals agree and their difference is an `i64`,
and the overview that reads it answers as well. -/
def Answers (db : Tables) : Prop :=
  (∃ out, summary db = .ok out ∧
    ∀ d ∈ out, 0 ≤ d.passed ∧ d.passed ≤ d.messages ∧ inI64 (d.messages - d.passed)) ∧
  ∃ failing, dmarcFailing db = .ok failing

/-- The totals of every domain of a report decide whether the overview answers. -/
theorem answers_iff : Answers db ↔ ∀ r ∈ db.report,
    0 ≤ passedOf (db.joinedFor r.policyDomain) ∧
      passedOf (db.joinedFor r.policyDomain) ≤ messagesOf (db.joinedFor r.policyDomain) ∧
      messagesOf (db.joinedFor r.policyDomain) ≤ 9223372036854775807 := by
  constructor
  · intro h r hr
    obtain ⟨⟨out, hout, hsound⟩, -⟩ := h
    obtain ⟨hm, hp⟩ := summary_eq_ok_iff.mp ⟨out, hout⟩ r hr
    obtain ⟨d, hd⟩ : ∃ d, DomainSummary.of r.policyDomain (db.joinedFor r.policyDomain) = .ok d :=
      DomainSummary.exists_of hm hp
    obtain ⟨-, -, hmessages, hpassed⟩ := DomainSummary.of_eq_ok hd
    obtain ⟨hnonneg, hle, -⟩ := hsound d ((mem_summary hout).mpr ⟨r, hr, hd⟩)
    rw [hpassed] at hnonneg hle
    rw [hmessages] at hle
    exact ⟨hnonneg, hle, (inI64_iff.mp hm).2⟩
  · intro h
    have hfits : ∀ r ∈ db.report, inI64 (messagesOf (db.joinedFor r.policyDomain)) ∧
        inI64 (passedOf (db.joinedFor r.policyDomain)) := by
      intro r hr
      obtain ⟨hnonneg, hle, hmax⟩ := h r hr
      rw [inI64_iff, inI64_iff]
      omega
    obtain ⟨out, hout⟩ := summary_eq_ok_iff.mpr hfits
    refine ⟨⟨out, hout, fun d hd ↦ ?_⟩, _, by rw [dmarcFailing, hout]; rfl⟩
    obtain ⟨r, hr, hd⟩ := (mem_summary hout).mp hd
    obtain ⟨-, -, hmessages, hpassed⟩ := DomainSummary.of_eq_ok hd
    obtain ⟨hnonneg, hle, hmax⟩ := h r hr
    rw [hmessages, hpassed, inI64_iff]
    omega

end Summary

/-- The counts that the reports of a domain add up to: those of the records
that pass, and those of the records that do not. -/
structure Bounded (reports : List Report) (domain : Text) : Prop where
  passed : 0 ≤ ((reports.filter (·.domain = domain)).map Report.passed).sum
  failed : 0 ≤ ((reports.filter (·.domain = domain)).map Report.failed).sum
  total : ((reports.filter (·.domain = domain)).map Report.passed).sum +
    ((reports.filter (·.domain = domain)).map Report.failed).sum ≤ 9223372036854775807

theorem Report.passed_add_failed (report : Report) :
    report.passed + report.failed = report.messages := by
  unfold Report.passed Report.failed Report.messages
  induction report.records with
  | nil => rfl
  | cons record records ih =>
    cases hp : record.passed <;>
    · simp only [List.filter_cons, hp, Bool.not_true, Bool.not_false, Bool.false_eq_true, if_true,
        if_false, List.map_cons, List.sum_cons]
      omega

theorem sum_passed_add_failed (reports : List Report) :
    (reports.map Report.passed).sum + (reports.map Report.failed).sum =
      (reports.map Report.messages).sum := by
  rw [← List.sum_map_add]
  exact congrArg List.sum (List.map_congr_left fun report _ ↦ report.passed_add_failed)

theorem bounded_iff {reports : List Report} {domain : Text} : Bounded reports domain ↔
    0 ≤ ((reports.filter (·.domain = domain)).map Report.passed).sum ∧
      ((reports.filter (·.domain = domain)).map Report.passed).sum ≤
        ((reports.filter (·.domain = domain)).map Report.messages).sum ∧
      ((reports.filter (·.domain = domain)).map Report.messages).sum ≤ 9223372036854775807 := by
  have hsum := sum_passed_add_failed (reports.filter (·.domain = domain))
  constructor
  · intro h
    obtain ⟨hp, hf, ht⟩ := h
    omega
  · intro h
    obtain ⟨hp, hle, ht⟩ := h
    constructor <;> omega

section Runs

variable [Collation] {l : List DmarcStore.Action} {s : DmarcStore.State}

/-- Whatever documents are stored, and whatever interleaves, the overview
answers exactly as long as the counts that strangers have written stay in bounds. -/
theorem overview_answers_iff (h : Run DmarcStore.step {} l s) :
    Answers s.db ↔ ∀ domain, Bounded s.winning domain := by
  have hi := DmarcStore.inv_of_run h
  simp only [answers_iff, bounded_iff, ← hi.messagesOf_joinedFor, ← hi.passedOf_joinedFor]
  refine ⟨fun hall domain ↦ ?_, fun hall r _ ↦ hall r.policyDomain⟩
  by_cases hheld : ∃ r ∈ s.db.report, r.policyDomain = domain
  · obtain ⟨r, hr, rfl⟩ := hheld
    exact hall r hr
  · -- A domain that no report is held for has no records.
    have hnil : s.db.report.filter (·.policyDomain = domain) = [] :=
      List.filter_eq_nil_iff.mpr fun r hr he ↦ hheld ⟨r, hr, of_decide_eq_true he⟩
    have hnone : partners (s.db.joinedFor domain) = [] := by
      rw [partners_joinedFor, hnil]
      rfl
    rw [passedOf, messagesOf, hnone]
    decide

end Runs

/-- The order of the code points. -/
@[reducible] def Collation.codepoints : Collation where
  le t t' := t ≤ t'

/-- A document that a stranger may write: the second count overflows the sum. -/
def overflowing : Text :=
  "<feedback><report_metadata><report_id>1</report_id></report_metadata>".toList ++
    "<policy_published><domain>example.com</domain></policy_published>".toList ++
    "<record><row><count>9223372036854775807</count></row></record>".toList ++
    "<record><row><count>1</count></row></record></feedback>".toList

def overflowingFeedback : Raw.Feedback where
  reportMetadata := some { reportId := some "1".toList }
  policyPublished := some { domain := some "example.com".toList }
  records := [{ row := some { count := some "9223372036854775807".toList } },
    { row := some { count := some "1".toList } }]

/-- The readers of formats, as they answer for the document above. -/
@[reducible] def Formats.overflowing : Formats where
  gunzip _ _ := .error "invalid gzip header".toList
  unzip _ := .error "invalid Zip archive".toList
  xml t := if t = Dmarc.overflowing then .ok overflowingFeedback else .error "syntax error".toList

attribute [local instance] Collation.codepoints Formats.overflowing

def overflowingReport : Report where
  orgName := "unknown".toList
  email := none
  reportId := "1".toList
  begin_ := 0
  end_ := 0
  domain := "example.com".toList
  p := none
  sp := none
  pct := none
  adkim := none
  aspf := none
  records := [9223372036854775807, 1].map fun count ↦
    { sourceIp := [], count, disposition := "unknown".toList, dkimAligned := "unknown".toList
      spfAligned := "unknown".toList, headerFrom := [] }

def storeOverflowing : List DmarcStore.Action :=
  .call overflowingReport overflowing 0 :: List.replicate 5 (.statement 0)

theorem run_storeOverflowing : ∃ s, Run DmarcStore.step {} storeOverflowing s ∧
    s.calls.map DmarcStore.Call.answer = [some true] ∧ (summary s.db).toOption = none ∧
    (dmarcFailing s.db).toOption = none := by
  have hrun : (exec DmarcStore.step {} storeOverflowing).any fun s ↦
      s.calls.map DmarcStore.Call.answer = [some true] && (summary s.db).toOption.isNone &&
        (dmarcFailing s.db).toOption.isNone := by decide +kernel
  obtain ⟨s, hs, hp⟩ := run_of_any hrun
  simp only [Bool.and_eq_true, decide_eq_true_eq, Option.isNone_iff_eq_none] at hp
  obtain ⟨⟨hans, hsummary⟩, hfailing⟩ := hp
  exact ⟨s, hs, hans, hsummary, hfailing⟩

theorem overflowing_breaks_overview :
    (parse (utf8 overflowing)).toOption = some overflowingReport ∧
    ∃ s, Run DmarcStore.step {} storeOverflowing s ∧
      s.calls.map DmarcStore.Call.answer = [some true] ∧ (summary s.db).toOption = none ∧
      (dmarcFailing s.db).toOption = none ∧ ¬ Answers s.db := by
  obtain ⟨s, hs, hans, hsummary, hfailing⟩ := run_storeOverflowing
  refine ⟨by decide +kernel, s, hs, hans, hsummary, hfailing, fun h ↦ ?_⟩
  obtain ⟨⟨out, hout, -⟩, -⟩ := h
  rw [hout] at hsummary
  cases hsummary

theorem overview_answers_iff_overflowing : ∃ s, Run DmarcStore.step {} storeOverflowing s ∧
    (Answers s.db ↔ ∀ domain, Bounded s.winning domain) := by
  obtain ⟨s, hs, -⟩ := run_storeOverflowing
  exact ⟨s, hs, overview_answers_iff hs⟩

end Postbud.Dmarc
