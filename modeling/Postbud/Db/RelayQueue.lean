import Postbud.Core.RelayQueue
import Postbud.Db.Schema

namespace Postbud.RelayQueue

open Lib

structure Reconciled where
  queued : ℕ := 0
  delivered : ℕ := 0
  unmatched : ℕ := 0
  deriving DecidableEq

def stateOf (queueName : Text) : RelayState :=
  if queueName ∈ ["active".toList, "incoming".toList, "maildrop".toList] then .active else .deferred

def changes (entry : Queued) (m : Message) : Bool :=
  m.relayQueueId = some entry.queueId &&
    (m.relayState ≠ some (stateOf entry.queueName) || m.relayStateDetail ≠ entry.reason)

def observe (now : Time) (entry : Queued) (m : Message) : Message :=
  { m with
    relayState := some (stateOf entry.queueName)
    relayStateDetail := entry.reason
    relayStateAt := some now }

def deliver (now : Time) (m : Message) : Message :=
  { m with relayState := some .delivered, relayStateDetail := none, relayStateAt := some now }

def observed (now : Time) (entries : List Queued) (m : Message) : Message :=
  entries.foldl (fun m entry ↦ if changes entry m then observe now entry m else m) m

theorem observed_spec (now : Time) (entries : List Queued) (m : Message) :
    observed now entries m = m ∨ ∃ entry ∈ entries, m.relayQueueId = some entry.queueId ∧
      ∃ state detail, state ≠ .delivered ∧ observed now entries m =
        { m with relayState := some state, relayStateDetail := detail, relayStateAt := some now } := by
  induction entries generalizing m with
  | nil => exact .inl rfl
  | cons entry entries ih =>
    have hstate : stateOf entry.queueName ≠ .delivered := by
      unfold stateOf
      split <;> exact nofun
    by_cases hc : changes entry m
    · have hq : m.relayQueueId = some entry.queueId := by
        simp only [changes, Bool.and_eq_true, decide_eq_true_eq] at hc
        exact hc.1
      have hstep : observed now (entry :: entries) m =
          observed now entries (observe now entry m) := by
        simp only [observed, List.foldl_cons, hc, if_true]
      refine .inr ?_
      rcases ih (observe now entry m) with h | ⟨e, he, heq, state, detail, hs, h⟩
      · exact ⟨entry, List.mem_cons_self, hq, _, _, hstate, hstep.trans h⟩
      · exact ⟨e, List.mem_cons_of_mem _ he, heq, state, detail, hs, hstep.trans h⟩
    · have hstep : observed now (entry :: entries) m = observed now entries m := by
        simp only [observed, List.foldl_cons, hc, if_false, Bool.false_eq_true]
      rcases ih m with h | ⟨e, he, heq, h⟩
      · exact .inl (hstep.trans h)
      · exact .inr ⟨e, List.mem_cons_of_mem _ he, heq, hstep.symm ▸ h⟩

variable [Platform]

def present (now : Time) (p : Db × Reconciled) (entry : Queued) : Db × Reconciled :=
  let (db, out) := p
  let unmatched := if db.message.rows.countP (changes entry) = 0 ∧
      db.message.rows.countP (·.relayQueueId = some entry.queueId) = 0
    then out.unmatched + 1 else out.unmatched
  (db.updateMessage (changes entry) (observe now entry),
    { out with queued := out.queued + 1, unmatched })

/-- Handed over before the grace, not in the queue and never bounced. -/
def absent (db : Db) (now : Time) (ids : List Text) (graceSecs : ℤ) (m : Message) : Bool :=
  match m.relayQueueId with
  | none => false
  | some queueId =>
    m.status = .sent && m.relayState ≠ some .delivered &&
      m.completedAt.any (· < now - seconds graceSecs) && queueId ∉ ids &&
      db.bounceReport.all fun b ↦ b.relayQueueId ≠ some queueId

def reconcile (db : Db) (now : Time) (entries : List Queued) (graceSecs : ℤ) : Db × Reconciled :=
  let ids := entries.map (·.queueId)
  let (db, out) := entries.foldl (present now) (db, {})
  (db.updateMessage (absent db now ids graceSecs) (deliver now),
    { out with delivered := db.message.rows.countP (absent db now ids graceSecs) })

variable {db : Db} {now : Time} {entries : List Queued} {graceSecs : ℤ} {m : Message}

theorem foldl_present (now : Time) (entries : List Queued) (p : Db × Reconciled) :
    (entries.foldl (present now) p).1.message.rows = p.1.message.rows.map (observed now entries) ∧
      (entries.foldl (present now) p).1 =
        { p.1 with message := (entries.foldl (present now) p).1.message } := by
  induction entries generalizing p with
  | nil => exact ⟨(List.map_id _).symm, rfl⟩
  | cons entry entries ih =>
    obtain ⟨hrows, hdb⟩ := ih (present now p entry)
    refine ⟨?_, hdb⟩
    rw [List.foldl_cons, hrows]
    change (p.1.message.rows.map _).map _ = _
    rw [List.map_map]
    exact List.map_congr_left fun m _ ↦ rfl

/-- A row that has left the queue is in no entry, so the entries leave it alone. -/
theorem absent_observed (db' : Db) (now : Time) (entries : List Queued) (graceSecs : ℤ)
    (m : Message) (hb : db'.bounceReport = db.bounceReport) :
    absent db' now (entries.map (·.queueId)) graceSecs (observed now entries m) =
        absent db now (entries.map (·.queueId)) graceSecs m ∧
      (absent db now (entries.map (·.queueId)) graceSecs m → observed now entries m = m) := by
  rcases observed_spec now entries m with h | ⟨entry, he, hq, state, detail, -, h⟩
  · rw [h]
    refine ⟨?_, fun _ ↦ rfl⟩
    simp only [absent, hb]
  · have hmem : entry.queueId ∈ entries.map (·.queueId) := List.mem_map_of_mem he
    have hno : absent db now (entries.map (·.queueId)) graceSecs m = false := by
      simp only [absent, hq, hmem, not_true_eq_false, decide_false, Bool.and_false, Bool.false_and]
    rw [hno, h]
    simp only [absent, hq, hmem, not_true_eq_false, decide_false, Bool.and_false, Bool.false_and,
      Bool.false_eq_true, false_imp_iff, and_self]

theorem rows_reconcile : (reconcile db now entries graceSecs).1.message.rows =
    db.message.rows.map fun m ↦ if absent db now (entries.map (·.queueId)) graceSecs m then
      deliver now m else observed now entries m := by
  obtain ⟨hrows, hdb⟩ := foldl_present now entries (db, {})
  have hb : (entries.foldl (present now) (db, {})).1.bounceReport = db.bounceReport := by rw [hdb]
  change ((entries.foldl (present now) (db, {})).1.message.rows).map _ = _
  rw [hrows, List.map_map]
  apply List.map_congr_left
  intro m _
  obtain ⟨habs, hself⟩ := absent_observed _ now entries graceSecs m hb
  simp only [Function.comp_apply, habs]
  split_ifs with h
  · rw [hself h]
  · rfl

theorem reconcile_frame : (reconcile db now entries graceSecs).1 =
    { db with message := (reconcile db now entries graceSecs).1.message } := by
  obtain ⟨-, hdb⟩ := foldl_present now entries (db, {})
  simp only [reconcile, Db.updateMessage]
  rw [hdb]

end Postbud.RelayQueue
