import Postbud.Db.BounceRetry
import Postbud.System.Outcomes

namespace Postbud.Bounce

open Lib Lib.Transition Dsn

section Order

variable [Platform]

/-- The message that `ingest` joins a report to. -/
def link (message : List Message) (report : Report) : Option Uuid :=
  report.relayQueueId.bind fun queueId ↦
    (message.find? (·.relayQueueId = some queueId)).map (·.id)

/-- The bounces in the detail of a message. -/
def bouncesOf (db : Db) (messageId : Uuid) : List BounceReport :=
  (db.bounceReport.filter (·.messageId = some messageId)).insertionSort (·.receivedAt ≤ ·.receivedAt)

/-- The rows that a call stores for its reports, when no statement fails. -/
def storedRows (raw : Text) (message : List Message) : List Report → List Time → List BounceReport
  | [], _ => []
  | report :: rest, times =>
    let times := if report.relayQueueId.isSome then times.drop 1 else times
    bounceRow (times.headD 0) raw (link message report) report ::
      storedRows raw message rest
        (if report.shouldSuppress && report.finalRecipient.isSome then times.drop 2
        else times.drop 1)

def newRows (raw : Text) (message : List Message) (times : List Time) : List BounceReport :=
  match parse raw with
  | [] => [{ receivedAt := times.headD 0, raw }]
  | reports => storedRows raw message reports times

variable {raw : Text} {db db' : Db} {now : Time} {times : List Time} {out out' : Ingested}
  {report : Report} {rest reports : List Report} {c : Call}

theorem rows_of_store
    (ih : ∀ db out times, Run alone (db, ⟨raw, next out rest⟩) times (db', ⟨raw, .returned out'⟩) →
      db'.bounceReport = db.bounceReport ++ storedRows raw db.message.rows rest times)
    (h : Run alone (db, ⟨raw, .store (link db.message.rows report) report rest out⟩) times
      (db', ⟨raw, .returned out'⟩)) :
    db'.bounceReport = db.bounceReport ++ (bounceRow (times.headD 0) raw (link db.message.rows report) report ::
      storedRows raw db.message.rows rest
        (if report.shouldSuppress && report.finalRecipient.isSome then times.drop 2
        else times.drop 1)) := by
  cases h with
  | cons hs h =>
    cases hs
    rcases left_afterStore raw report rest out with ⟨-, hsupp, address, hr, he⟩ | ⟨-, hno, he⟩
    · have hc : (report.shouldSuppress && report.finalRecipient.isSome) = true := by
        rw [hsupp, hr]
        rfl
      rw [he] at h
      cases h with
      | cons hs h =>
        cases hs
        rw [if_pos hc]
        exact (ih _ _ _ h).trans (List.append_assoc _ _ _)
    · have hc : ¬ (report.shouldSuppress && report.finalRecipient.isSome) = true := by
        rwa [Bool.and_eq_true]
      rw [he] at h
      rw [if_neg hc]
      exact (ih _ _ _ h).trans (List.append_assoc _ _ _)

theorem rows_of_next
    (h : Run alone (db, ⟨raw, next out reports⟩) times (db', ⟨raw, .returned out'⟩)) :
    db'.bounceReport = db.bounceReport ++ storedRows raw db.message.rows reports times := by
  induction reports generalizing db out times with
  | nil =>
    cases h with
    | nil => exact (List.append_nil _).symm
    | cons hs h => cases hs
  | cons report rest ih =>
    simp only [next] at h
    cases hq : report.relayQueueId with
    | none =>
      rw [hq] at h
      have hlink : link db.message.rows report = none := by simp only [link, hq, Option.bind_none]
      rw [← hlink] at h
      have hrows := rows_of_store (fun db out times h ↦ ih h) h
      simpa only [storedRows, hq, Option.isSome_none, Bool.false_eq_true, if_false] using hrows
    | some queueId =>
      rw [hq] at h
      cases h with
      | @cons _ _ _ now times hs h =>
        have hlookup : ∃ out₁, alone (db, ⟨raw, .lookup queueId report rest
            { out with reports := out.reports + 1 }⟩) now =
              some (db, ⟨raw, .store (link db.message.rows report) report rest out₁⟩) := by
          simp only [alone, Call.step, link, hq, Option.bind_some]
          cases db.message.rows.find? (·.relayQueueId = some queueId) with
          | none => exact ⟨_, rfl⟩
          | some m => exact ⟨_, rfl⟩
        obtain ⟨out₁, hlookup⟩ := hlookup
        obtain rfl := Option.some.inj (hlookup.symm.trans hs)
        have hrows := rows_of_store (fun db out times h ↦ ih h) h
        simpa only [storedRows, hq, Option.isSome_some, if_true, List.drop_one, List.tail_cons]
          using hrows

theorem rows_of_ingest (h : ingest raw db times = some (db', out)) :
    db'.bounceReport = db.bounceReport ++ newRows raw db.message.rows times := by
  obtain ⟨⟨raw', stage⟩, hrun, hc⟩ := ingest_eq_some.mp h
  obtain rfl : stage = .returned out := hc
  obtain rfl : raw' = raw := (run_stores hrun).1
  unfold start at hrun
  unfold newRows
  cases hp : parse raw' with
  | nil =>
    rw [hp] at hrun
    cases hrun with
    | cons hs hrun =>
      cases hs
      cases hrun with
      | nil => rfl
      | cons hs hrun => cases hs
  | cons report rest =>
    rw [hp] at hrun
    exact rows_of_next hrun

omit [Platform] in
theorem mem_storedRows {raw : Text} {message : List Message} {reports : List Report}
    {times : List Time} {b : BounceReport} (h : b ∈ storedRows raw message reports times) :
    ∃ now, ∃ report ∈ reports, b = bounceRow now raw (link message report) report := by
  induction reports generalizing times with
  | nil => cases h
  | cons report rest ih =>
    simp only [storedRows] at h
    rcases List.mem_cons.mp h with h | h
    · exact ⟨_, report, List.mem_cons_self, h⟩
    · obtain ⟨now, report', hr, hb⟩ := ih h
      exact ⟨now, report', List.mem_cons_of_mem _ hr, hb⟩

omit [Platform] in
theorem joined_of_mem_newRows {raw : Text} {message : List Message} {times : List Time}
    {b : BounceReport} (h : b ∈ newRows raw message times) {queueId : Text} {id : Uuid}
    (hq : b.relayQueueId = some queueId) (hid : b.messageId = some id) :
    ∃ m ∈ message, m.id = id ∧ m.relayQueueId = some queueId := by
  unfold newRows at h
  cases hp : parse raw with
  | nil =>
    rw [hp] at h
    obtain rfl := List.mem_singleton.mp h
    cases hid
  | cons report rest =>
    rw [hp] at h
    obtain ⟨now, report', -, rfl⟩ := mem_storedRows h
    have hq : report'.relayQueueId = some queueId := hq
    have hid : link message report' = some id := hid
    simp only [link, hq, Option.bind_some, Option.map_eq_some_iff] at hid
    obtain ⟨m, hm, hmid⟩ := hid
    have hmq := List.find?_some hm
    exact ⟨m, List.mem_of_find?_eq_some hm, hmid, of_decide_eq_true hmq⟩

end Order

open Postbud.System

/-- The relay has taken a message and the worker has not yet recorded it. -/
def taken : List Action :=
  [.submit invoice, .accept 0 7, .accept 0 7, .accept 0 7, .accept 0 7, .claim "w1".toList 20 [],
    .handoff ⟨"w1".toList, claimedInvoice, 0, none⟩ (.accepted (some "08785F9FED".toList))]

attribute [local instance] Platform.ascii

end Postbud.Bounce
