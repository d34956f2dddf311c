import Postbud.Db.Dmarc
import Postbud.Lib.Processes
import Postbud.Lib.Transition

namespace Postbud.DmarcStore

open Lib Lib.Processes Lib.Transition Dmarc

/-- What a transaction has inserted: the row of a report, and the rows of its
records so far. -/
structure Block where
  row : ReportRow
  records : List RecordRow := []
  deriving DecidableEq

/-- Where a call stands between two statements of its transaction. Its insert
draws an id, and then waits for a transaction with the same identity. A call
that returns answers whether it has stored anything. -/
inductive Stage
  | start
  | insert (id : ℤ)
  | records (block : Block)
  | returned (stored : Option Block)
  | failed
  deriving DecidableEq

structure Call where
  report : Report
  raw : Text
  now : Time
  stage : Stage := .start
  deriving DecidableEq

namespace Call

def answer (c : Call) : Option Bool :=
  match c.stage with
  | .returned stored => some stored.isSome
  | _ => none

def stored (c : Call) : Option Block :=
  match c.stage with
  | .returned stored => stored
  | _ => none

/-- The block that a call is writing, or has stored. -/
def block (c : Call) : Option Block :=
  match c.stage with
  | .records block => some block
  | .returned stored => stored
  | _ => none

/-- The id that a call has drawn and may still use, or has used. -/
def id? (c : Call) : Option ℤ :=
  match c.stage with
  | .insert id => some id
  | .records block => some block.row.id
  | .returned stored => stored.map (·.row.id)
  | _ => none

/-- The row that another transaction with the same identity waits for. -/
def Blocks (report : Report) (c : Call) : Prop :=
  ∃ block, c.stage = .records block ∧ block.row.identity = report.identity

instance (report : Report) (c : Call) : Decidable (c.Blocks report) := by
  unfold Blocks
  cases c.stage with
  | records block =>
    exact decidable_of_iff (block.row.identity = report.identity)
      ⟨fun h ↦ ⟨block, rfl, h⟩, fun ⟨_, hb, h⟩ ↦ Stage.records.inj hb ▸ h⟩
  | _ => exact .isFalse fun ⟨_, hb, _⟩ ↦ by cases hb

def close (c : Call) (stage : Stage) : Call := { c with stage }

/-- One statement of `store`: the insert of the report, in two parts, the
insert of the next record, and the commit after the last one. -/
def step (db : Tables) (others : List Call) (c : Call) : Option (Tables × Call) :=
  match c.stage with
  | .start =>
    if (c.report.row (db.reportSeq + 1) c.raw c.now).storable then
      some ({ db with reportSeq := db.reportSeq + 1 }, c.close (.insert (db.reportSeq + 1)))
    else some (db, c.close .failed)
  | .insert id =>
    if ∃ y ∈ others, y.Blocks c.report then none
    else if ∃ r ∈ db.report, r.identity = c.report.identity then
      some (db, c.close (.returned none))
    else some (db, c.close (.records { row := c.report.row id c.raw c.now }))
  | .records block =>
    match c.report.records[block.records.length]? with
    | some record =>
      let d := record.row (db.recordSeq + 1) block.row.id
      if d.storable then
        some ({ db with recordSeq := db.recordSeq + 1 },
          c.close (.records { block with records := block.records ++ [d] }))
      else some (db, c.close .failed)
    | none =>
      some ({ db with report := db.report ++ [block.row], record := db.record ++ block.records },
        c.close (.returned (some block)))
  | .returned _ | .failed => none

/-- An error, a lost connection or a crash: the transaction is rolled back. -/
def abort (c : Call) : Option Call :=
  match c.stage with
  | .returned _ | .failed => none
  | _ => some (c.close .failed)

inductive Step (db : Tables) (others : List Call) (c : Call) : Tables → Call → Prop
  | failed (hopen : c.stored = none) : Step db others c db (c.close .failed)
  | drawn (hc : c.stage = .start) :
    Step db others c { db with reportSeq := db.reportSeq + 1 }
      (c.close (.insert (db.reportSeq + 1)))
  | duplicate (id : ℤ) (hc : c.stage = .insert id) (r : ReportRow) (hr : r ∈ db.report)
      (hsame : r.identity = c.report.identity) :
    Step db others c db (c.close (.returned none))
  | inserted (id : ℤ) (hc : c.stage = .insert id) (hfree : ∀ y ∈ others, ¬ y.Blocks c.report)
      (hnew : ∀ r ∈ db.report, r.identity ≠ c.report.identity) :
    Step db others c db (c.close (.records { row := c.report.row id c.raw c.now }))
  | recorded (block : Block) (record : Record) (hc : c.stage = .records block)
      (hr : c.report.records[block.records.length]? = some record) :
    Step db others c { db with recordSeq := db.recordSeq + 1 }
      (c.close (.records { block with
        records := block.records ++ [record.row (db.recordSeq + 1) block.row.id] }))
  | committed (block : Block) (hc : c.stage = .records block)
      (hlast : c.report.records[block.records.length]? = none) :
    Step db others c
      { db with report := db.report ++ [block.row], record := db.record ++ block.records }
      (c.close (.returned (some block)))

variable {db db' : Tables} {others : List Call} {c c' : Call}

theorem step_spec (h : step db others c = some (db', c')) : Step db others c db' c' := by
  unfold step at h
  cases hc : c.stage with
  | start =>
    simp only [hc] at h
    split_ifs at h <;> obtain ⟨rfl, rfl⟩ := Prod.mk.inj (Option.some.inj h)
    · exact .drawn hc
    · exact .failed (by rw [stored, hc])
  | insert id =>
    simp only [hc] at h
    split_ifs at h with hblocks hsame <;> obtain ⟨rfl, rfl⟩ := Prod.mk.inj (Option.some.inj h)
    · obtain ⟨r, hr, hsame⟩ := hsame
      exact .duplicate id hc r hr hsame
    · exact .inserted id hc (fun y hy hb ↦ hblocks ⟨y, hy, hb⟩) fun r hr he ↦ hsame ⟨r, hr, he⟩
  | records block =>
    cases hr : c.report.records[block.records.length]? with
    | some record =>
      simp only [hc, hr] at h
      split_ifs at h <;> obtain ⟨rfl, rfl⟩ := Prod.mk.inj (Option.some.inj h)
      · exact .recorded block record hc hr
      · exact .failed (by rw [stored, hc])
    | none =>
      simp only [hc, hr] at h
      obtain ⟨rfl, rfl⟩ := Prod.mk.inj (Option.some.inj h)
      exact .committed block hc hr
  | returned stored =>
    simp only [hc] at h
    cases h
  | failed =>
    simp only [hc] at h
    cases h

theorem abort_spec (h : c.abort = some c') : c.stored = none ∧ c' = c.close .failed := by
  obtain ⟨report, raw, now, stage⟩ := c
  cases stage with
  | returned stored => cases h
  | failed => cases h
  | _ => exact ⟨rfl, (Option.some.inj h).symm⟩

end Call

/-- What is committed, and the calls. -/
structure State where
  db : Tables := {}
  calls : List Call := []
  deriving DecidableEq

inductive Action
  | call (report : Report) (raw : Text) (now : Time)
  | statement (i : ℕ)
  | abort (i : ℕ)
  deriving DecidableEq

def step (s : State) : Action → Option State
  | .call report raw now => some { s with calls := s.calls ++ [{ report, raw, now }] }
  | .statement i => do
    let c ← s.calls[i]?
    let (db, c) ← c.step s.db (s.calls.eraseIdx i)
    some { db, calls := s.calls.set i c }
  | .abort i => do
    let c ← s.calls[i]?
    let c ← c.abort
    some { s with calls := s.calls.set i c }

inductive Step (s : State) : Action → State → Prop
  | call (report : Report) (raw : Text) (now : Time) :
    Step s (.call report raw now) { s with calls := s.calls ++ [{ report, raw, now }] }
  | statement (i : ℕ) (c c' : Call) (db : Tables) (hi : s.calls[i]? = some c)
      (h : Call.Step s.db (s.calls.eraseIdx i) c db c') :
    Step s (.statement i) { db, calls := s.calls.set i c' }
  | abort (i : ℕ) (c : Call) (hi : s.calls[i]? = some c) (hopen : c.stored = none) :
    Step s (.abort i) { s with calls := s.calls.set i (c.close .failed) }

theorem step_spec {s s' : State} {a : Action} (h : step s a = some s') : Step s a s' := by
  cases a with
  | call report raw now => exact Option.some.inj h ▸ .call report raw now
  | statement i =>
    obtain ⟨c, hi, h⟩ := Option.bind_eq_some_iff.mp h
    obtain ⟨⟨db, c'⟩, hc, h⟩ := Option.bind_eq_some_iff.mp h
    exact Option.some.inj h ▸ .statement i c c' db hi (Call.step_spec hc)
  | abort i =>
    obtain ⟨c, hi, h⟩ := Option.bind_eq_some_iff.mp h
    obtain ⟨c', hc, h⟩ := Option.bind_eq_some_iff.mp h
    obtain ⟨hopen, rfl⟩ := Call.abort_spec hc
    exact Option.some.inj h ▸ .abort i c hi hopen

end Postbud.DmarcStore
