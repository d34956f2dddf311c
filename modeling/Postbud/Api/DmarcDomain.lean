import Postbud.Api.Auth
import Postbud.Core.DmarcNumbers
import Postbud.Db.DmarcDetail

namespace Postbud.Api

open Lib Lib.Text Lib.Result Lib.Transition Dmarc DmarcStore

/-- What the page of a domain shows. -/
structure DmarcDetail where
  sources : List SourceRollup
  daily : List DailyPoint
  deriving DecidableEq

section Handlers

variable [Collation]

/-- The two queries go to different connections, and read what is committed
when each of them is at its start. -/
def dmarcDomain (db db' : Tables) (now now' : Time) (domain : Text) (days : Option ℤ) :
    Except ApiError DmarcDetail :=
  let days := max 1 (min (days.getD 30) 3650)
  let domain := toAsciiLowercase (trim domain)
  match Dmarc.sources db now domain days, Dmarc.daily db' now' domain days with
  | .ok sources, .ok daily => .ok { sources, daily }
  | _, _ => .error .internal

def dmarcDomains (db : Tables) : Except ApiError (List DomainSummary) :=
  match summary db with
  | .ok rows => .ok rows
  | .error _ => .error .internal

end Handlers

/-- Where a page begins that is asked for so many days. -/
def pageStart (now : Time) (days : Option ℤ) : Time :=
  now - seconds (86400 * max 1 (min (days.getD 30) 3650))

theorem windowStart_clamp (now : Time) (days : Option ℤ) :
    windowStart now (max 1 (min (days.getD 30) 3650)) = pageStart now days := by
  have hbounds : 1 ≤ max 1 (min (days.getD 30) 3650) ∧ max 1 (min (days.getD 30) 3650) ≤ 3650 := by
    omega
  have hsmall : (max 1 (min (days.getD 30) 3650)).bmod 4294967296 =
      max 1 (min (days.getD 30) 3650) := by
    rw [Int.bmod_def]
    omega
  rw [windowStart, pageStart, hsmall]

theorem dmarcDomain_eq_ok [Collation] {db db' : Tables} {now now' : Time} {domain : Text}
    {days : Option ℤ} {detail : DmarcDetail} (h : dmarcDomain db db' now now' domain days = .ok detail) :
    Dmarc.sources db now (toAsciiLowercase (trim domain)) (max 1 (min (days.getD 30) 3650)) =
        .ok detail.sources ∧
      Dmarc.daily db' now' (toAsciiLowercase (trim domain)) (max 1 (min (days.getD 30) 3650)) =
        .ok detail.daily := by
  simp only [dmarcDomain] at h
  split at h
  · rename_i sources daily hsources hdaily
    obtain rfl := Except.ok.inj h
    exact ⟨hsources, hdaily⟩
  · cases h

section Page

variable [Collation] {l l' : List Action} {s s' : State} {now now' : Time} {domain : Text}
  {days : Option ℤ} {detail : DmarcDetail}

/-- Whatever is stored, and whatever is being stored, the page of a domain splits
up the counts of the reports that start in its window: by source, each
listed once and the busiest first, and by day, in their order. -/
theorem dmarcDomain_totals (h : Run DmarcStore.step {} l s) (h' : Run DmarcStore.step {} l' s')
    (hd : dmarcDomain s.db s'.db now now' domain days = .ok detail) :
    ((detail.sources.map (·.sourceIp)).Nodup ∧
      (detail.sources.map (·.messages)).Pairwise (· ≥ ·) ∧
      (detail.sources.map (·.messages)).sum = ((s.winning.filter
        (within (toAsciiLowercase (trim domain)) (pageStart now days))).map Report.messages).sum ∧
      (detail.sources.map (·.passed)).sum = ((s.winning.filter
        (within (toAsciiLowercase (trim domain)) (pageStart now days))).map Report.passed).sum) ∧
    (detail.daily.map (·.day)).Pairwise (· < ·) ∧
      (detail.daily.map (·.messages)).sum = ((s'.winning.filter
        (within (toAsciiLowercase (trim domain)) (pageStart now' days))).map Report.messages).sum ∧
      (detail.daily.map (·.passed)).sum = ((s'.winning.filter
        (within (toAsciiLowercase (trim domain)) (pageStart now' days))).map Report.passed).sum := by
  obtain ⟨hsources, hdaily⟩ := dmarcDomain_eq_ok hd
  obtain ⟨hips, hsorted, hmessages, hpassed⟩ := sources_totals hsources
  obtain ⟨hdays, hmessages', hpassed'⟩ := daily_totals hdaily
  rw [windowStart_clamp] at hmessages hpassed hmessages' hpassed'
  have hi := inv_of_run h
  have hi' := inv_of_run h'
  have hall (reports : List Report) :
      (reports.map fun report ↦ ((report.records.filter fun _ ↦ true).map (·.count)).sum) =
        reports.map Report.messages :=
    List.map_congr_left fun report _ ↦ by rw [List.filter_true]; rfl
  refine ⟨⟨hips, hsorted, hmessages.trans ?_, hpassed.trans ?_⟩, hdays, hmessages'.trans ?_,
    hpassed'.trans ?_⟩
  · rw [← hall]
    exact hi.countOf_window _ _ fun _ ↦ true
  · exact hi.countOf_window _ _ Record.passed
  · rw [← hall]
    exact hi'.countOf_window _ _ fun _ ↦ true
  · exact hi'.countOf_window _ _ Record.passed

end Page

section Witness

attribute [local instance] Collation.codepoints

theorem redelivery_totals : ∃ s detail, Run DmarcStore.step {} redelivery s ∧
    dmarcDomain s.db s.db (seconds 1788307200) (seconds 1788307200) " Example.COM".toList none =
      .ok detail ∧
    detail.sources.map (·.passed) = [47, 0] ∧ (detail.daily.map (·.messages)).sum = 49 ∧
    (detail.daily.map (·.messages)).sum = ((s.winning.filter (within "example.com".toList
      (pageStart (seconds 1788307200) none))).map Report.messages).sum := by
  have hrun : (exec DmarcStore.step {} redelivery).any fun s ↦
      (dmarcDomain s.db s.db (seconds 1788307200) (seconds 1788307200)
        " Example.COM".toList none).toOption.any fun detail ↦
          detail.sources.map (·.passed) = [47, 0] && (detail.daily.map (·.messages)).sum = 49 := by
    decide +kernel
  obtain ⟨s, hs, hp⟩ := run_of_any hrun
  obtain ⟨detail, hdetail, hp⟩ := ok_of_any hp
  obtain ⟨hpassed, hmessages⟩ := Bool.and_eq_true_iff.mp hp
  have hlookup : toAsciiLowercase (trim " Example.COM".toList) = "example.com".toList := by
    decide +kernel
  have htotals := (dmarcDomain_totals hs hs hdetail).2.2.1
  rw [hlookup] at htotals
  exact ⟨s, detail, hs, hdetail, of_decide_eq_true hpassed, of_decide_eq_true hmessages, htotals⟩

end Witness

/-! ### The line of a domain and its page -/

section Line

variable [Formats] {report : Report} {xml : Bytes}

/-- The domain of a report is written as the page looks it up. -/
theorem lookup_parse (h : parse xml = .ok report) :
    toAsciiLowercase (trim report.domain) = report.domain := by
  unfold parse at h
  obtain ⟨-, h⟩ := ok_of_unless h
  dsimp only at h
  split at h
  · obtain ⟨feedback, -, h⟩ := ok_of_bind h
    obtain ⟨meta_, -, h⟩ := ok_of_bind h
    obtain ⟨policy, -, h⟩ := ok_of_bind h
    obtain ⟨reportId, -, h⟩ := ok_of_bind h
    obtain ⟨domain, hdomain, h⟩ := ok_of_bind h
    obtain rfl := Except.ok.inj h
    obtain ⟨padded, -, rfl, -⟩ := mem_trimmed.mp (orNotAReport_eq_ok.mp hdomain)
    rw [trim_toAsciiLowercase, trim_trim, toAsciiLowercase_toAsciiLowercase]
  · cases h

/-- The reports that are stored are ones that were read from documents. -/
def Parsed (_ : State) : Action → Prop
  | .call report _ _ => ∃ xml, parse xml = .ok report
  | _ => True

variable {l : List Action} {s : State}

omit [Formats] in
theorem report_of_step {db db' : Tables} {others : List DmarcStore.Call} {c c' : DmarcStore.Call}
    (h : DmarcStore.Call.Step db others c db' c') : c'.report = c.report := by
  cases h <;> rfl

theorem parsed_calls (h : Run DmarcStore.step {} l s) (hl : Along DmarcStore.step Parsed {} l) :
    ∀ c ∈ s.calls, ∃ xml, parse xml = .ok c.report := by
  refine h.invariant_along (fun s ↦ ∀ c ∈ s.calls, ∃ xml, parse xml = .ok c.report) ?_ hl
    fun c hc ↦ absurd hc List.not_mem_nil
  intro s a s' hcalls hP hs
  cases DmarcStore.step_spec hs with
  | call report raw now => exact Processes.forall_mem_concat hcalls hP
  | statement i c c' db hi hc =>
    refine Processes.forall_mem_set ?_ fun y hy ↦ hcalls y (List.mem_of_mem_eraseIdx hy)
    rw [report_of_step hc]
    exact hcalls c (List.mem_of_getElem? hi)
  | abort i c hi =>
    refine Processes.forall_mem_set ?_ fun y hy ↦ hcalls y (List.mem_of_mem_eraseIdx hy)
    exact hcalls c (List.mem_of_getElem? hi)

variable [Collation] {out : List DomainSummary} {d : DomainSummary} {detail : DmarcDetail}
  {now now' : Time} {days : Option ℤ}

omit [Formats] [Collation] in
theorem domain_of {domain : Text} {rows : List (ReportRow × Option Dmarc.RecordRow)}
    (h : DomainSummary.of domain rows = .ok d) : d.domain = domain := by
  obtain ⟨messages, -, h⟩ := ok_of_bind h
  obtain ⟨passed, -, h⟩ := ok_of_bind h
  obtain rfl := Except.ok.inj h
  rfl

/-- A line of the list and the page behind it count the same, provided that the
page goes back far enough. -/
theorem line_eq_page (h : Run DmarcStore.step {} l s) (hl : Along DmarcStore.step Parsed {} l)
    (hout : dmarcDomains s.db = .ok out) (hd : d ∈ out)
    (hdetail : dmarcDomain s.db s.db now now' d.domain days = .ok detail)
    (hold : ∀ r ∈ s.db.report, r.policyDomain = d.domain →
      pageStart now days ≤ r.periodStart ∧ pageStart now' days ≤ r.periodStart) :
    d.messages = (detail.sources.map (·.messages)).sum ∧
      d.passed = (detail.sources.map (·.passed)).sum ∧
      d.messages = (detail.daily.map (·.messages)).sum ∧
      d.passed = (detail.daily.map (·.passed)).sum := by
  have hi := inv_of_run h
  have hsummary : summary s.db = .ok out := by
    unfold dmarcDomains at hout
    split at hout
    · rename_i rows hrows
      rw [hrows, Except.ok.inj hout]
    · cases hout
  obtain ⟨r, hr, hof⟩ := (mem_summary hsummary).mp hd
  obtain ⟨-, -, hmessages, hpassed⟩ := DomainSummary.of_eq_ok hof
  have hdomain : d.domain = r.policyDomain := domain_of hof
  have hlookup : toAsciiLowercase (trim d.domain) = d.domain := by
    obtain ⟨c, hc, b, hb, rfl⟩ := hi.mem_report_iff.mp hr
    obtain ⟨xml, hxml⟩ := parsed_calls h hl c hc
    rw [hdomain, (hi.storedBy hc hb).row, Report.policyDomain_row]
    exact lookup_parse hxml
  obtain ⟨⟨-, -, hsm, hsp⟩, -, hdm, hdp⟩ := dmarcDomain_totals h h hdetail
  rw [hlookup, hi.filter_within fun r hr hdom ↦ (hold r hr hdom).1] at hsm hsp
  rw [hlookup, hi.filter_within fun r hr hdom ↦ (hold r hr hdom).2] at hdm hdp
  rw [hsm, hsp, hdm, hdp, hmessages, hpassed, hdomain, hi.messagesOf_joinedFor,
    hi.passedOf_joinedFor]
  exact ⟨rfl, rfl, rfl, rfl⟩

end Line

section Witness

def dailyDocument : Text :=
  "<feedback><report_metadata><report_id>7</report_id>".toList ++
    "<date_range><begin>1788220800</begin></date_range></report_metadata>".toList ++
    "<policy_published><domain> Example.com </domain></policy_published>".toList ++
    "<record><row><count>3</count></row></record></feedback>".toList

def dailyFeedback : Raw.Feedback where
  reportMetadata := some
    { reportId := some "7".toList, dateRange := some { begin_ := some "1788220800".toList } }
  policyPublished := some { domain := some " Example.com ".toList }
  records := [{ row := some { count := some "3".toList } }]

def parsedReport : Report where
  orgName := "unknown".toList
  email := none
  reportId := "7".toList
  begin_ := 1788220800
  end_ := 0
  domain := "example.com".toList
  p := none
  sp := none
  pct := none
  adkim := none
  aspf := none
  records := [
    { sourceIp := [], count := 3, disposition := "unknown".toList, dkimAligned := "unknown".toList
      spfAligned := "unknown".toList, headerFrom := [] }]

/-- The readers of formats, as they answer for the document above. -/
@[reducible] def Formats.daily : Formats where
  gunzip _ _ := .error "invalid gzip header".toList
  unzip _ := .error "invalid Zip archive".toList
  xml t := if t = dailyDocument then .ok dailyFeedback else .error "syntax error".toList

attribute [local instance] Collation.codepoints Formats.daily

def storeDaily : List Action := .call parsedReport dailyDocument 0 :: List.replicate 4 (.statement 0)

theorem storeDaily_line_eq_page : ∃ s out d detail, Run DmarcStore.step {} storeDaily s ∧
    dmarcDomains s.db = .ok out ∧ d ∈ out ∧
    dmarcDomain s.db s.db (seconds 1788307200) (seconds 1788307200) d.domain (some 7) =
      .ok detail ∧
    d.messages = 3 ∧ d.messages = (detail.sources.map (·.messages)).sum := by
  have hrun : (exec DmarcStore.step {} storeDaily).any fun s ↦
      s.db.report.all (fun r ↦ pageStart (seconds 1788307200) (some 7) ≤ r.periodStart) &&
      (dmarcDomains s.db).toOption.any fun out ↦ out.any fun d ↦ d.messages = 3 &&
        (dmarcDomain s.db s.db (seconds 1788307200) (seconds 1788307200) d.domain
          (some 7)).toOption.any fun _ ↦ true := by
    decide +kernel
  have hparse : parse (utf8 dailyDocument) = .ok parsedReport := by decide +kernel
  have hparsed : Along DmarcStore.step Parsed {} storeDaily := by
    refine along_of_forall fun s a ha ↦ ?_
    rcases List.mem_cons.mp ha with rfl | ha
    · exact ⟨_, hparse⟩
    · rw [List.eq_of_mem_replicate ha]
      trivial
  obtain ⟨s, hs, hp⟩ := run_of_any hrun
  obtain ⟨hold, hp⟩ := Bool.and_eq_true_iff.mp hp
  obtain ⟨out, hout, hp⟩ := ok_of_any hp
  obtain ⟨d, hd, hp⟩ := List.any_eq_true.mp hp
  obtain ⟨hmessages, hp⟩ := Bool.and_eq_true_iff.mp hp
  obtain ⟨detail, hdetail, -⟩ := ok_of_any hp
  have hstart : ∀ r ∈ s.db.report, r.policyDomain = d.domain →
      pageStart (seconds 1788307200) (some 7) ≤ r.periodStart ∧
        pageStart (seconds 1788307200) (some 7) ≤ r.periodStart := by
    intro r hr _
    have hle := of_decide_eq_true (List.all_eq_true.mp hold r hr)
    exact ⟨hle, hle⟩
  have hline := line_eq_page hs hparsed hout hd hdetail hstart
  exact ⟨s, out, d, detail, hs, hout, hd, hdetail, of_decide_eq_true hmessages, hline.1⟩

end Witness

end Postbud.Api
