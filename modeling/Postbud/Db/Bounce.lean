import Postbud.Db.Suppression

namespace Postbud.Bounce

open Lib Dsn

structure Ingested where
  reports : ℕ := 0
  suppressed : ℕ := 0
  unmatched : ℕ := 0
  deriving DecidableEq

/-- The next statement of a call of `ingest`, with the local variables of its loop. -/
inductive Stage
  | storeRaw
  | lookup (queueId : Text) (report : Report) (rest : List Report) (out : Ingested)
  | store (messageId : Option Uuid) (report : Report) (rest : List Report) (out : Ingested)
  | suppress (address : Text) (report : Report) (rest : List Report) (out : Ingested)
  | returned (out : Ingested)
  | failed
  deriving DecidableEq

/-- A call of `ingest`. Each of its statements is a transaction of its own. -/
structure Call where
  raw : Text
  stage : Stage
  deriving DecidableEq

def toClassification : Classification → BounceClassification
  | .permanent => .permanent
  | .transient => .transient
  | _ => .unknown

def next (out : Ingested) : List Report → Stage
  | [] => .returned out
  | report :: rest =>
    let out := { out with reports := out.reports + 1 }
    match report.relayQueueId with
    | some queueId => .lookup queueId report rest out
    | none => .store none report rest { out with unmatched := out.unmatched + 1 }

/-- The end of the loop's body: only a verdict on an address reaches the list. -/
def afterStore (report : Report) (rest : List Report) (out : Ingested) : Stage :=
  match report.shouldSuppress, report.finalRecipient with
  | true, some address => .suppress address report rest out
  | _, _ => next out rest

def start (raw : Text) : Call :=
  ⟨raw, match parse raw with
    | [] => .storeRaw
    | reports => next {} reports⟩

def Call.fail (c : Call) : Option Call :=
  match c.stage with
  | .returned _ | .failed => none
  | _ => some { c with stage := .failed }

theorem Call.fail_spec {c c' : Call} (h : c.fail = some c') :
    (∀ out, c.stage ≠ .returned out) ∧ c' = { c with stage := .failed } := by
  obtain ⟨raw, stage⟩ := c
  cases stage with
  | returned out => cases h
  | failed => cases h
  | _ => exact ⟨nofun, (Option.some.inj h).symm⟩

def Call.left (c : Call) : List Report :=
  match c.stage with
  | .lookup _ report rest _ | .store _ report rest _ | .suppress _ report rest _ => report :: rest
  | _ => []

@[simp] theorem left_next (raw : Text) (out : Ingested) (reports : List Report) :
    Call.left ⟨raw, next out reports⟩ = reports := by
  cases reports with
  | nil => rfl
  | cons report rest =>
    simp only [next]
    cases report.relayQueueId <;> rfl

theorem left_start (raw : Text) : (start raw).left = parse raw := by
  unfold start
  split
  · rename_i h
    rw [h]
    rfl
  · exact left_next raw {} _

theorem left_afterStore (raw : Text) (report : Report) (rest : List Report) (out : Ingested) :
    (Call.left ⟨raw, afterStore report rest out⟩ = report :: rest ∧ report.shouldSuppress ∧
      ∃ address ∈ report.finalRecipient,
        afterStore report rest out = .suppress address report rest out) ∨
    (Call.left ⟨raw, afterStore report rest out⟩ = rest ∧
      ¬ (report.shouldSuppress ∧ report.finalRecipient.isSome) ∧
      afterStore report rest out = next out rest) := by
  cases hs : report.shouldSuppress with
  | false => simp [afterStore, hs]
  | true =>
    cases hr : report.finalRecipient with
    | none => simp [afterStore, hs, hr]
    | some address => simp [afterStore, hs, hr, Call.left]

variable [Platform]

def bounceRow (now : Time) (raw : Text) (messageId : Option Uuid) (r : Report) : BounceReport where
  receivedAt := now
  raw
  relayQueueId := r.relayQueueId
  messageId
  finalRcpt := r.finalRecipient
  statusCode := r.status
  diagnostic := r.diagnostic
  classification := some (toClassification r.classification)

namespace Call

def step (db : Db) (now : Time) (c : Call) : Option (Db × Call) :=
  match c.stage with
  | .storeRaw =>
    some ({ db with bounceReport := db.bounceReport ++ [{ receivedAt := now, raw := c.raw }] },
      { c with stage := .returned {} })
  | .lookup queueId report rest out =>
    match db.message.rows.find? (·.relayQueueId = some queueId) with
    | some m => some (db, { c with stage := .store (some m.id) report rest out })
    | none =>
      some (db, { c with
        stage := .store none report rest { out with unmatched := out.unmatched + 1 } })
  | .store messageId report rest out =>
    some ({ db with bounceReport := db.bounceReport ++ [bounceRow now c.raw messageId report] },
      { c with stage := afterStore report rest out })
  | .suppress address report rest out =>
    some (Suppression.add db now none address .hardBounce "dsn".toList report.diagnostic,
      { c with stage := next { out with suppressed := out.suppressed + 1 } rest })
  | .returned _ | .failed => none

inductive Step (db : Db) (now : Time) (c : Call) : Db → Call → Prop
  | storedRaw (hc : c.stage = .storeRaw) :
    Step db now c
      { db with bounceReport := db.bounceReport ++ [{ receivedAt := now, raw := c.raw }] }
      { c with stage := .returned {} }
  | lookedUp (queueId : Text) (messageId : Option Uuid) (report : Report) (rest : List Report)
      (out out' : Ingested) (hc : c.stage = .lookup queueId report rest out) :
    Step db now c db { c with stage := .store messageId report rest out' }
  | stored (messageId : Option Uuid) (report : Report) (rest : List Report) (out : Ingested)
      (hc : c.stage = .store messageId report rest out) :
    Step db now c
      { db with bounceReport := db.bounceReport ++ [bounceRow now c.raw messageId report] }
      { c with stage := afterStore report rest out }
  | suppressed (address : Text) (report : Report) (rest : List Report) (out : Ingested)
      (hc : c.stage = .suppress address report rest out) :
    Step db now c (Suppression.add db now none address .hardBounce "dsn".toList report.diagnostic)
      { c with stage := next { out with suppressed := out.suppressed + 1 } rest }

variable {db db' : Db} {now : Time} {c c' : Call}

theorem step_spec (h : c.step db now = some (db', c')) : Step db now c db' c' := by
  obtain ⟨raw, stage⟩ := c
  cases stage with
  | storeRaw =>
    obtain ⟨rfl, rfl⟩ := Prod.mk.inj (Option.some.inj h)
    exact .storedRaw rfl
  | lookup queueId report rest out =>
    simp only [step] at h
    split at h
    · obtain ⟨rfl, rfl⟩ := Prod.mk.inj (Option.some.inj h)
      exact .lookedUp queueId _ report rest out _ rfl
    · obtain ⟨rfl, rfl⟩ := Prod.mk.inj (Option.some.inj h)
      exact .lookedUp queueId _ report rest out _ rfl
  | store messageId report rest out =>
    obtain ⟨rfl, rfl⟩ := Prod.mk.inj (Option.some.inj h)
    exact .stored messageId report rest out rfl
  | suppress address report rest out =>
    obtain ⟨rfl, rfl⟩ := Prod.mk.inj (Option.some.inj h)
    exact .suppressed address report rest out rfl
  | returned out => cases h
  | failed => cases h

theorem Step.raw (h : Step db now c db' c') : c'.raw = c.raw := by cases h <;> rfl

theorem Step.not_failed (h : Step db now c db' c') : c.stage ≠ .failed := by
  intro hf
  cases h <;> simp_all only [reduceCtorEq]

theorem Step.message (h : Step db now c db' c') : db'.message = db.message := by cases h <;> rfl

theorem Step.messageAttachment (h : Step db now c db' c') :
    db'.messageAttachment = db.messageAttachment := by cases h <;> rfl

theorem Step.deliveryAttempt (h : Step db now c db' c') :
    db'.deliveryAttempt = db.deliveryAttempt := by cases h <;> rfl

end Call

end Postbud.Bounce
