import Postbud.Db.DmarcOverview
import Postbud.Db.Volume

namespace Postbud.Dmarc

open Lib Lib.Join Admin

/-- One sending source's traffic for a domain. -/
structure SourceRollup where
  sourceIp : Text
  messages : ℤ
  passed : ℤ
  dkimPassed : ℤ
  spfPassed : ℤ
  dispositions : List Text
  auth : Option AuthResults
  deriving DecidableEq

/-- A day of a domain's history. -/
structure DailyPoint where
  day : ℤ
  messages : ℤ
  passed : ℤ
  deriving DecidableEq

def RecordRow.dkimPassed (d : RecordRow) : Bool := d.dkimAligned = "pass".toList

def RecordRow.spfPassed (d : RecordRow) : Bool := d.spfAligned = "pass".toList

/-- `now() - make_interval(days => $2::int)`, where `days as i32` keeps the low 32 bits. -/
def windowStart (now : Time) (days : ℤ) : Time := now - seconds (86400 * days.bmod 4294967296)

/-- The rows that the two queries are about. -/
def Tables.window (db : Tables) (domain : Text) (since : Time) : List (RecordRow × ReportRow) :=
  (join (fun d r ↦ d.report = r.id) db.record db.report).filter fun e ↦
    e.2.policyDomain = domain && since ≤ e.2.periodStart

/-- `sum(d.message_count) filter (where p)`. -/
def countOf (p : RecordRow → Bool) (rows : List (RecordRow × ReportRow)) : ℤ :=
  ((rows.filter (p ·.1)).map (·.1.messageCount)).sum

/-- The cast `::bigint` in a query of this context. -/
def bigintIn (context : Text) (n : ℤ) : Except Text ℤ := if inI64 n then .ok n else .error context

variable [Collation]

def SourceRollup.of (sourceIp : Text) (rows : List (RecordRow × ReportRow)) :
    Except Text SourceRollup := do
  let bigint := bigintIn "rolling up dmarc sources".toList
  let messages ← bigint (countOf (fun _ ↦ true) rows)
  let passed ← bigint (countOf RecordRow.passed rows)
  let dkimPassed ← bigint (countOf RecordRow.dkimPassed rows)
  let spfPassed ← bigint (countOf RecordRow.spfPassed rows)
  return {
    sourceIp
    messages
    passed
    dkimPassed
    spfPassed
    dispositions := (rows.map (·.1.disposition)).dedup.insertionSort (Collation.le · ·)
    auth := ((rows.map (·.1)).insertionSort fun d d' ↦
      d'.messageCount ≤ d.messageCount).head?.map (·.authResults) }

def sources (db : Tables) (now : Time) (domain : Text) (days : ℤ) :
    Except Text (List SourceRollup) := do
  let rows ← (groupBy (·.1.sourceIp) (db.window domain (windowStart now days))).mapM fun g ↦
    SourceRollup.of g.1 g.2
  return rows.insertionSort fun r r' ↦ r'.messages ≤ r.messages

omit [Collation] in
def DailyPoint.of (day : ℤ) (rows : List (RecordRow × ReportRow)) : Except Text DailyPoint := do
  let bigint := bigintIn "rolling up dmarc history".toList
  let messages ← bigint (countOf (fun _ ↦ true) rows)
  let passed ← bigint (countOf RecordRow.passed rows)
  return { day, messages, passed }

omit [Collation] in
def daily (db : Tables) (now : Time) (domain : Text) (days : ℤ) : Except Text (List DailyPoint) :=
  let groups := groupBy (fun e ↦ date e.2.periodStart) (db.window domain (windowStart now days))
  (groups.insertionSort fun g g' ↦ g.1 ≤ g'.1).mapM fun g ↦ DailyPoint.of g.1 g.2

section Totals

variable {p : RecordRow → Bool} {rows rows' : List (RecordRow × ReportRow)} {db : Tables}
  {domain : Text} {since now : Time} {days : ℤ}

omit [Collation]

theorem bigintIn_eq_ok {context : Text} {n m : ℤ} :
    bigintIn context n = .ok m ↔ inI64 n ∧ n = m := by
  unfold bigintIn
  split_ifs with h
  · simp only [Except.ok.injEq, h, true_and]
  · exact iff_of_false (fun he ↦ by cases he) fun he ↦ h he.1

theorem countOf_perm (h : rows.Perm rows') : countOf p rows = countOf p rows' :=
  ((h.filter _).map _).sum_eq

theorem countOf_flatMap {α : Type} (f : α → List (RecordRow × ReportRow)) (l : List α) :
    countOf p (l.flatMap f) = (l.map fun a ↦ countOf p (f a)).sum := by
  rw [countOf, List.filter_flatMap, List.map_flatMap, List.flatMap_def, List.sum_flatten,
    List.map_map]
  rfl

/-- The groups of a query count what its rows count. -/
theorem sum_countOf_groupBy {κ : Type} [DecidableEq κ] (key : RecordRow × ReportRow → κ) :
    ((groupBy key rows).map fun g ↦ countOf p g.2).sum = countOf p rows := by
  rw [← countOf_flatMap fun g : κ × List (RecordRow × ReportRow) ↦ g.2]
  exact countOf_perm (perm_groupBy key rows)

/-- The rows count what the records of the reports in the window count. -/
theorem countOf_window (q : Record → Bool) : countOf (fun d ↦ q d.record) (db.window domain since) =
    ((db.report.filter fun r ↦ r.policyDomain = domain && since ≤ r.periodStart).map fun r ↦
      ((((db.recordsOf r.id).map RecordRow.record).filter q).map (·.count)).sum).sum := by
  let cond (r : ReportRow) : Bool := r.policyDomain = domain && since ≤ r.periodStart
  have hswap := (perm_join_swap (fun r d ↦ decide (d.report = r.id)) db.report db.record).filter
    fun e ↦ cond e.2
  have hrow (r : ReportRow) :
      countOf (fun d ↦ q d.record) ((db.recordsOf r.id).map fun d ↦ (d, r)) =
        ((((db.recordsOf r.id).map RecordRow.record).filter q).map (·.count)).sum := by
    rw [countOf, List.filter_map, List.filter_map, List.map_map, List.map_map]
    rfl
  calc countOf (fun d ↦ q d.record) (db.window domain since)
    _ = countOf (fun d ↦ q d.record) ((db.report.filter cond).flatMap fun r ↦
          (db.recordsOf r.id).map fun d ↦ (d, r)) := by
      refine countOf_perm (hswap.symm.trans (.of_eq ?_))
      rw [List.filter_map, Function.comp_def]
      simp only [Prod.snd_swap]
      rw [filter_join, join, List.map_flatMap]
      simp only [List.map_map]
      rfl
    _ = _ := by
      rw [countOf_flatMap]
      exact congrArg List.sum (List.map_congr_left fun r _ ↦ hrow r)

theorem DailyPoint.of_eq_ok {day : ℤ} {point : DailyPoint} (h : DailyPoint.of day rows = .ok point) :
    point.day = day ∧ point.messages = countOf (fun _ ↦ true) rows ∧
      point.passed = countOf RecordRow.passed rows := by
  obtain ⟨messages, hm, h⟩ := Result.ok_of_bind h
  obtain ⟨passed, hp, h⟩ := Result.ok_of_bind h
  obtain ⟨-, rfl⟩ := bigintIn_eq_ok.mp hm
  obtain ⟨-, rfl⟩ := bigintIn_eq_ok.mp hp
  obtain rfl := Except.ok.inj h
  exact ⟨rfl, rfl, rfl⟩

/-- The points of a history are apart and in order, and add up to the window. -/
theorem daily_totals {points : List DailyPoint} (h : daily db now domain days = .ok points) :
    (points.map (·.day)).Pairwise (· < ·) ∧
      (points.map (·.messages)).sum =
        countOf (fun _ ↦ true) (db.window domain (windowStart now days)) ∧
      (points.map (·.passed)).sum =
        countOf RecordRow.passed (db.window domain (windowStart now days)) := by
  let key (e : RecordRow × ReportRow) : ℤ := date e.2.periodStart
  let rows := db.window domain (windowStart now days)
  let le (g g' : ℤ × List (RecordRow × ReportRow)) : Prop := g.1 ≤ g'.1
  have hperm : ((groupBy key rows).insertionSort le).Perm (groupBy key rows) :=
    List.perm_insertionSort _ _
  have hdays := Result.map_of_mapM h fun g _ point hpoint ↦ (DailyPoint.of_eq_ok hpoint).1
  have hmessages := Result.map_of_mapM h fun g _ point hpoint ↦ (DailyPoint.of_eq_ok hpoint).2.1
  have hpassed := Result.map_of_mapM h fun g _ point hpoint ↦ (DailyPoint.of_eq_ok hpoint).2.2
  rw [hdays, hmessages, hpassed, (hperm.map _).sum_eq, (hperm.map _).sum_eq,
    sum_countOf_groupBy, sum_countOf_groupBy]
  refine ⟨?_, rfl, rfl⟩
  have htotal : Std.Total le := ⟨fun g g' ↦ Int.le_total g.1 g'.1⟩
  have htrans : IsTrans _ le := ⟨fun _ _ _ ↦ Int.le_trans⟩
  have hsorted := List.pairwise_map.mpr (List.pairwise_insertionSort le (groupBy key rows))
  have hnodup : (((groupBy key rows).insertionSort le).map (·.1)).Nodup :=
    (hperm.map _).nodup_iff.mpr (nodup_groupBy key rows)
  exact (hsorted.and hnodup).imp fun hle ↦ lt_of_le_of_ne hle.1 hle.2

variable [Collation]

theorem SourceRollup.of_eq_ok {sourceIp : Text} {rollup : SourceRollup}
    (h : SourceRollup.of sourceIp rows = .ok rollup) :
    rollup.sourceIp = sourceIp ∧ rollup.messages = countOf (fun _ ↦ true) rows ∧
      rollup.passed = countOf RecordRow.passed rows := by
  obtain ⟨messages, hm, h⟩ := Result.ok_of_bind h
  obtain ⟨passed, hp, h⟩ := Result.ok_of_bind h
  obtain ⟨dkimPassed, -, h⟩ := Result.ok_of_bind h
  obtain ⟨spfPassed, -, h⟩ := Result.ok_of_bind h
  obtain ⟨-, rfl⟩ := bigintIn_eq_ok.mp hm
  obtain ⟨-, rfl⟩ := bigintIn_eq_ok.mp hp
  obtain rfl := Except.ok.inj h
  exact ⟨rfl, rfl, rfl⟩

/-- The sources are apart and the busiest comes first, and they add up to the window. -/
theorem sources_totals {out : List SourceRollup} (h : sources db now domain days = .ok out) :
    (out.map (·.sourceIp)).Nodup ∧ (out.map (·.messages)).Pairwise (· ≥ ·) ∧
      (out.map (·.messages)).sum =
        countOf (fun _ ↦ true) (db.window domain (windowStart now days)) ∧
      (out.map (·.passed)).sum =
        countOf RecordRow.passed (db.window domain (windowStart now days)) := by
  let key (e : RecordRow × ReportRow) : Text := e.1.sourceIp
  let rows := db.window domain (windowStart now days)
  let le (r r' : SourceRollup) : Prop := r'.messages ≤ r.messages
  obtain ⟨rollups, hrollups, h⟩ := Result.ok_of_bind h
  obtain rfl : rollups.insertionSort le = out := Except.ok.inj h
  have hperm : (rollups.insertionSort le).Perm rollups := List.perm_insertionSort _ _
  have hips := Result.map_of_mapM hrollups fun g _ r hr ↦ (SourceRollup.of_eq_ok hr).1
  have hmessages := Result.map_of_mapM hrollups fun g _ r hr ↦ (SourceRollup.of_eq_ok hr).2.1
  have hpassed := Result.map_of_mapM hrollups fun g _ r hr ↦ (SourceRollup.of_eq_ok hr).2.2
  rw [(hperm.map _).nodup_iff, (hperm.map _).sum_eq, (hperm.map _).sum_eq, hips, hmessages, hpassed,
    sum_countOf_groupBy, sum_countOf_groupBy]
  refine ⟨nodup_groupBy key rows, ?_, rfl, rfl⟩
  have htotal : Std.Total le := ⟨fun r r' ↦ Int.le_total r'.messages r.messages⟩
  have htrans : IsTrans _ le := ⟨fun _ _ _ h h' ↦ h'.trans h⟩
  exact List.pairwise_map.mpr (List.pairwise_insertionSort le rollups)

end Totals

end Postbud.Dmarc

namespace Postbud.DmarcStore

open Lib Lib.Transition Dmarc

variable {s : State} {l : List Action} {c : Call}

/-- A report that a query over the window of a domain is about. -/
def within (domain : Text) (since : Time) (report : Report) : Bool :=
  report.domain = domain && since ≤ stamp report.begin_

/-- The rows of `dmarc_report`, with their records, are the reports of the winners. -/
theorem Inv.perm_winning (h : Inv s) :
    (s.db.report.map fun r ↦
      (r.policyDomain, r.periodStart, (s.db.recordsOf r.id).map RecordRow.record)).Perm
      (s.winning.map fun report ↦ (report.domain, stamp report.begin_, report.records)) := by
  have hall (calls : List Call) (hcalls : ∀ c ∈ calls, c ∈ s.calls) :
      ((calls.filterMap Call.stored).map fun b ↦ (b.row.policyDomain, b.row.periodStart,
        (s.db.recordsOf b.row.id).map RecordRow.record)) =
        ((calls.filter (·.answer = some true)).map (·.report)).map fun report ↦
          (report.domain, stamp report.begin_, report.records) := by
    induction calls with
    | nil => rfl
    | cons c calls ih =>
      have ih := ih fun c' hc' ↦ hcalls c' (List.mem_cons_of_mem c hc')
      cases hs : c.stored with
      | none =>
        have hans : ¬ c.answer = some true := by
          rw [Call.answer_eq_true, hs]
          exact fun ⟨_, hb⟩ ↦ by cases hb
        rw [List.filterMap_cons_none hs, List.filter_cons_of_neg (by simpa using hans), ih]
      | some b =>
        have hans : c.answer = some true := Call.answer_eq_true.mpr ⟨b, hs⟩
        obtain ⟨hrow, hrecords⟩ := h.storedBy (hcalls c List.mem_cons_self) hs
        rw [List.filterMap_cons_some hs, List.filter_cons_of_pos (by simpa using hans),
          List.map_cons, List.map_cons, List.map_cons, ih, hrecords, hrow]
        rfl
  refine (h.reports.map _).trans (.of_eq ?_)
  rw [List.map_map]
  exact hall s.calls fun _ hc ↦ hc

/-- The window of a domain counts what the winning reports in it count. -/
theorem Inv.countOf_window (h : Inv s) (domain : Text) (since : Time) (q : Record → Bool) :
    countOf (fun d ↦ q d.record) (s.db.window domain since) =
      ((s.winning.filter (within domain since)).map fun report ↦
        ((report.records.filter q).map (·.count)).sum).sum := by
  let cond (e : Text × Time × List Record) : Bool := e.1 = domain && since ≤ e.2.1
  let tally (e : Text × Time × List Record) : ℤ := ((e.2.2.filter q).map (·.count)).sum
  have hsum := ((h.perm_winning.filter cond).map tally).sum_eq
  rw [List.filter_map, List.filter_map, List.map_map, List.map_map] at hsum
  rw [Dmarc.countOf_window]
  exact hsum

/-- A window that no report is older than leaves none out. -/
theorem Inv.filter_within (h : Inv s) {domain : Text} {since : Time}
    (hold : ∀ r ∈ s.db.report, r.policyDomain = domain → since ≤ r.periodStart) :
    s.winning.filter (within domain since) = s.winning.filter (·.domain = domain) := by
  refine List.filter_congr fun report hreport ↦ ?_
  obtain ⟨c, hc, rfl⟩ := List.mem_map.mp hreport
  obtain ⟨hc, hans⟩ := List.mem_filter.mp hc
  obtain ⟨b, hb⟩ := Call.answer_eq_true.mp (of_decide_eq_true hans)
  have hrow := (h.storedBy hc hb).row
  have hheld := hold b.row (h.mem_report_iff.mpr ⟨c, hc, b, hb, rfl⟩)
  rw [hrow] at hheld
  by_cases hd : c.report.domain = domain
  · have hstart : since ≤ stamp c.report.begin_ := hheld hd
    simp only [within, hd, hstart, decide_true, Bool.and_self]
  · simp only [within, hd, decide_false, Bool.false_and]

end Postbud.DmarcStore
