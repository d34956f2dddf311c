import Postbud.Core.Dmarc
import Postbud.Db.Message

namespace Postbud.Dmarc

open Lib

/-- A row of `dmarc_report`. -/
structure ReportRow where
  id : ℤ
  orgName : Text
  reportId : Text
  email : Option Text
  periodStart : Time
  periodEnd : Time
  policyDomain : Text
  policyP : Option Text
  policySp : Option Text
  policyPct : Option ℤ
  policyAdkim : Option Text
  policyAspf : Option Text
  raw : Text
  receivedAt : Time
  deriving DecidableEq

/-- A row of `dmarc_record`. -/
structure RecordRow where
  id : ℤ
  report : ℤ
  sourceIp : Text
  messageCount : ℤ
  disposition : Text
  dkimAligned : Text
  spfAligned : Text
  headerFrom : Text
  authResults : AuthResults
  reasons : List Reason
  deriving DecidableEq

/-- The dedupe key. -/
def ReportRow.identity (r : ReportRow) : Text × Text := (r.orgName, r.reportId)

def Report.identity (report : Report) : Text × Text := (report.orgName, report.reportId)

/-- The primary key, and `dmarc_report_identity`. -/
def ReportRow.Clash (r r' : ReportRow) : Prop := r.id = r'.id ∨ r.identity = r'.identity

instance (r r' : ReportRow) : Decidable (r.Clash r') := by unfold ReportRow.Clash; infer_instance

/-- The two tables, and the sequences behind their ids. -/
structure Tables where
  report : List ReportRow := []
  record : List RecordRow := []
  reportSeq : ℤ := 0
  recordSeq : ℤ := 0
  deriving DecidableEq

def Tables.recordsOf (db : Tables) (id : ℤ) : List RecordRow := db.record.filter (·.report = id)

/-- What a row of `dmarc_record` says, without its place in the table. -/
def RecordRow.record (d : RecordRow) : Record where
  sourceIp := d.sourceIp
  count := d.messageCount
  disposition := d.disposition
  dkimAligned := d.dkimAligned
  spfAligned := d.spfAligned
  headerFrom := d.headerFrom
  auth := d.authResults
  reasons := d.reasons

/-- A second that `chrono` has no instant for is the epoch. -/
def stamp (secs : ℤ) : Time :=
  if -8334601228800 ≤ secs ∧ secs ≤ 8210266876799 then seconds secs else 0

def Report.row (report : Report) (id : ℤ) (raw : Text) (now : Time) : ReportRow where
  id
  orgName := report.orgName
  reportId := report.reportId
  email := report.email
  periodStart := stamp report.begin_
  periodEnd := stamp report.end_
  policyDomain := report.domain
  policyP := report.p
  policySp := report.sp
  policyPct := report.pct
  policyAdkim := report.adkim
  policyAspf := report.aspf
  raw
  receivedAt := now

def Record.row (record : Record) (id report : ℤ) : RecordRow where
  id
  report
  sourceIp := record.sourceIp
  messageCount := record.count
  disposition := record.disposition
  dkimAligned := record.dkimAligned
  spfAligned := record.spfAligned
  headerFrom := record.headerFrom
  authResults := record.auth
  reasons := record.reasons

/-- Postgres stores no NUL in a text, and no instant before 4713 BC. -/
def ReportRow.storable (r : ReportRow) : Bool :=
  ([r.orgName, r.reportId, r.policyDomain, r.raw] ++ r.email.toList ++ r.policyP.toList ++
    r.policySp.toList ++ r.policyAdkim.toList ++ r.policyAspf.toList).all ('\x00' ∉ ·) &&
  inTimestampRange r.periodStart && inTimestampRange r.periodEnd

def AuthResults.texts (auth : AuthResults) : List Text :=
  auth.dkim.flatMap (fun d ↦ [d.domain, d.result] ++ d.selector.toList) ++
    auth.spf.flatMap fun s ↦ [s.domain, s.result]

def RecordRow.storable (d : RecordRow) : Bool :=
  ([d.sourceIp, d.disposition, d.dkimAligned, d.spfAligned, d.headerFrom] ++ d.authResults.texts ++
    d.reasons.flatMap fun r ↦ r.type :: r.comment.toList).all ('\x00' ∉ ·)

/-- `d.dkim_aligned = 'pass' or d.spf_aligned = 'pass'`. -/
def RecordRow.passed (d : RecordRow) : Bool :=
  d.dkimAligned = "pass".toList || d.spfAligned = "pass".toList

variable (report : Report) (record : Record) (id : ℤ) (raw : Text) (now : Time)

@[simp] theorem Report.identity_row : (report.row id raw now).identity = report.identity := rfl

@[simp] theorem Report.policyDomain_row : (report.row id raw now).policyDomain = report.domain := rfl

@[simp] theorem Record.record_row (report : ℤ) : (record.row id report).record = record := rfl

instance : Std.Symm ReportRow.Clash where
  symm _ _ h := h.imp Eq.symm Eq.symm

end Postbud.Dmarc
