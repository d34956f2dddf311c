import Mathlib.Data.List.Sort
import Postbud.Db.Dmarc
import Postbud.Lib.Join
import Postbud.Lib.Result

namespace Postbud.Dmarc

open Lib Lib.Join

/-- The order of texts in the database. -/
class Collation where
  le : Text → Text → Bool

/-- One domain's totals over the reports held. -/
structure DomainSummary where
  domain : Text
  reports : ℕ
  reporters : ℕ
  messages : ℤ
  passed : ℤ
  firstSeen : Option Time
  lastSeen : Option Time
  policy : Option Text
  alignment : Alignment
  deriving DecidableEq

def Tables.joined (db : Tables) : List (ReportRow × Option RecordRow) :=
  leftJoin (fun r d ↦ d.report = r.id) db.report db.record

/-- `coalesce(sum(d.message_count), 0)`, which is exact. -/
def messagesOf (rows : List (ReportRow × Option RecordRow)) : ℤ :=
  ((partners rows).map (·.messageCount)).sum

def passedOf (rows : List (ReportRow × Option RecordRow)) : ℤ :=
  (((partners rows).filter (·.passed)).map (·.messageCount)).sum

/-- The cast `::bigint`. -/
def bigint (n : ℤ) : Except Text ℤ :=
  if inI64 n then .ok n else .error "summarising dmarc reports".toList

/-- `(array_agg(r.policy_p order by r.period_start desc))[1]`. -/
def policyOf (rows : List (ReportRow × Option RecordRow)) : Option Text :=
  ((rows.map (·.1)).insertionSort fun r r' ↦ r'.periodStart ≤ r.periodStart).head?.bind (·.policyP)

def DomainSummary.of (domain : Text) (rows : List (ReportRow × Option RecordRow)) :
    Except Text DomainSummary := do
  let messages ← bigint (messagesOf rows)
  let passed ← bigint (passedOf rows)
  return {
    domain
    reports := (rows.map (·.1.id)).dedup.length
    reporters := (rows.map (·.1.orgName)).dedup.length
    messages
    passed
    firstSeen := (rows.map (·.1.periodStart)).min?
    lastSeen := (rows.map (·.1.periodEnd)).max?
    policy := policyOf rows
    alignment := Dmarc.alignment messages passed }

variable [Collation]

/-- A roll-up for the operator. -/
def summary (db : Tables) : Except Text (List DomainSummary) :=
  ((groupBy (·.1.policyDomain) db.joined).insertionSort fun g g' ↦ Collation.le g.1 g'.1).mapM
    fun g ↦ DomainSummary.of g.1 g.2

/-- What the overview says of the domains whose mail fails to authenticate. -/
def dmarcFailing (db : Tables) : Except Text (List Text) := do
  return ((← summary db).filter (·.alignment.isFailing)).map (·.domain)

/-- The rows of a domain in the join. -/
def Tables.joinedFor (db : Tables) (domain : Text) : List (ReportRow × Option RecordRow) :=
  db.joined.filter (·.1.policyDomain = domain)

variable {db : Tables} {domain : Text}

omit [Collation] in
/-- The records of a domain are those of its reports. -/
theorem partners_joinedFor : partners (db.joinedFor domain) =
    (db.report.filter (·.policyDomain = domain)).flatMap fun r ↦ db.recordsOf r.id := by
  unfold Tables.joinedFor Tables.joined
  rw [filter_leftJoin (fun r : ReportRow ↦ decide (r.policyDomain = domain)), partners_leftJoin]
  rfl

end Postbud.Dmarc
