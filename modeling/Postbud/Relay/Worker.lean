import Postbud.Db.Message

namespace Postbud

open Lib

namespace Retry

def MINUTE : ℕ := 60

def HOUR : ℕ := 60 * MINUTE

def SCHEDULE : List ℕ :=
  [MINUTE, 5 * MINUTE, 15 * MINUTE, HOUR, 3 * HOUR, 6 * HOUR, 12 * HOUR, 24 * HOUR, 24 * HOUR]

def backoff (schedule : List ℕ) (attemptsMade : ℕ) : Option ℕ := schedule[attemptsMade]?

end Retry

inductive Outcome
  | accepted (queueId : Option Text)
  | transient (code : Option ℤ) (detail : Text)
  | permanent (code : Option ℤ) (detail : Text)
  deriving DecidableEq

namespace Worker

def givingUp (attempt : ℕ) (detail : Text) : Text :=
  "giving up after ".toList ++ Text.decimal attempt ++ " attempts: ".toList ++ detail

/-- `deliver_one` once the relay has answered. -/
def deliverOne [Platform] (schedule : List ℕ) (db : Db) (now : Time) (msg : Claimed)
    (outcome : Outcome) : Db :=
  let attempt := msg.attempts + 1
  match outcome with
  | .accepted queueId => recordAccepted db now msg.id attempt queueId
  | .permanent code detail => recordFailed db now msg.id attempt code detail
  | .transient code detail =>
    match Retry.backoff schedule attempt with
    | some delay => recordTransient db now msg.id attempt code detail delay
    | none => recordFailed db now msg.id attempt code (givingUp attempt detail)

def settle (schedule : List ℕ) (now : Time) (msg : Claimed) (outcome : Outcome) : Message → Message :=
  let attempt := msg.attempts + 1
  match outcome with
  | .accepted queueId => .accept attempt queueId now
  | .permanent _ detail => .giveUp attempt detail now
  | .transient _ detail =>
    match Retry.backoff schedule attempt with
    | some delay => .retry attempt (now + seconds delay) detail
    | none => .giveUp attempt (givingUp attempt detail) now

/-- What `deliver_one` logs. -/
def logRow (schedule : List ℕ) (now : Time) (msg : Claimed) (outcome : Outcome) : DeliveryAttempt :=
  let attempt := msg.attempts + 1
  match outcome with
  | .accepted queueId => ⟨msg.id, attempt, now, now, .accepted, some 250, queueId, none⟩
  | .permanent code detail => ⟨msg.id, attempt, now, now, .permanent, code, none, some detail⟩
  | .transient code detail =>
    match Retry.backoff schedule attempt with
    | some _ => ⟨msg.id, attempt, now, now, .transient, code, none, some detail⟩
    | none => ⟨msg.id, attempt, now, now, .permanent, code, none, some (givingUp attempt detail)⟩

variable {schedule : List ℕ} {now : Time} {msg : Claimed} {outcome : Outcome}

theorem logRow_spec (schedule : List ℕ) (now : Time) (msg : Claimed) (outcome : Outcome) :
    (logRow schedule now msg outcome).messageId = msg.id ∧
      (logRow schedule now msg outcome).attempt = msg.attempts + 1 := by
  cases outcome with
  | accepted queueId => exact ⟨rfl, rfl⟩
  | permanent code detail => exact ⟨rfl, rfl⟩
  | transient code detail =>
    simp only [logRow]
    cases Retry.backoff schedule (msg.attempts + 1) <;> exact ⟨rfl, rfl⟩

/-- The row and the log say the same of an attempt. -/
theorem settle_logRow (schedule : List ℕ) (now : Time) (msg : Claimed) (outcome : Outcome) :
    (∃ queueId, settle schedule now msg outcome = .accept (msg.attempts + 1) queueId now ∧
      (logRow schedule now msg outcome).outcome = .accepted ∧
      (logRow schedule now msg outcome).relayQueueId = queueId) ∨
    (∃ detail, settle schedule now msg outcome = .giveUp (msg.attempts + 1) detail now ∧
      (logRow schedule now msg outcome).outcome = .permanent) ∨
    ∃ next detail, settle schedule now msg outcome = .retry (msg.attempts + 1) next detail ∧
      (logRow schedule now msg outcome).outcome = .transient ∧
      msg.attempts + 1 < schedule.length := by
  cases outcome with
  | accepted queueId => exact .inl ⟨queueId, rfl, rfl, rfl⟩
  | permanent code detail => exact .inr (.inl ⟨detail, rfl, rfl⟩)
  | transient code detail =>
    cases hb : Retry.backoff schedule (msg.attempts + 1) with
    | some delay =>
      have hlt : msg.attempts + 1 < schedule.length := (List.getElem?_eq_some_iff.mp hb).1
      have hs : settle schedule now msg (.transient code detail) =
          .retry (msg.attempts + 1) (now + seconds delay) detail := by simp only [settle, hb]
      have hl : (logRow schedule now msg (.transient code detail)).outcome = .transient := by
        simp only [logRow, hb]
      exact .inr (.inr ⟨_, detail, hs, hl, hlt⟩)
    | none =>
      have hs : settle schedule now msg (.transient code detail) =
          .giveUp (msg.attempts + 1) (givingUp (msg.attempts + 1) detail) now := by
        simp only [settle, hb]
      have hl : (logRow schedule now msg (.transient code detail)).outcome = .permanent := by
        simp only [logRow, hb]
      exact .inr (.inl ⟨_, hs, hl⟩)

theorem settle_cases (schedule : List ℕ) (now : Time) (msg : Claimed) (outcome : Outcome) :
    (∃ queueId, outcome = .accepted queueId ∧
      settle schedule now msg outcome = .accept (msg.attempts + 1) queueId now) ∨
    (∃ detail, settle schedule now msg outcome = .giveUp (msg.attempts + 1) detail now ∧
      ∀ queueId, outcome ≠ .accepted queueId) ∨
    ∃ next detail, settle schedule now msg outcome = .retry (msg.attempts + 1) next detail ∧
      ∀ queueId, outcome ≠ .accepted queueId := by
  cases outcome with
  | accepted queueId => exact .inl ⟨queueId, rfl, rfl⟩
  | permanent code detail => exact .inr (.inl ⟨detail, rfl, nofun⟩)
  | transient code detail =>
    simp only [settle]
    cases Retry.backoff schedule (msg.attempts + 1) with
    | some delay => exact .inr (.inr ⟨_, detail, rfl, nofun⟩)
    | none => exact .inr (.inl ⟨_, rfl, nofun⟩)

theorem status_settle {m : Message} (h : m.status ≠ .suppressed) :
    (settle schedule now msg outcome m).status ≠ .suppressed := by
  rcases settle_cases schedule now msg outcome with
    ⟨queueId, -, hs⟩ | ⟨detail, hs, -⟩ | ⟨next, detail, hs, -⟩ <;> rw [hs]
  · exact nofun
  · exact nofun
  · exact h

theorem relayState_settle {m : Message} :
    (settle schedule now msg outcome m).relayState = m.relayState := by
  rcases settle_cases schedule now msg outcome with
    ⟨queueId, -, h⟩ | ⟨detail, h, -⟩ | ⟨next, detail, h, -⟩ <;> rw [h] <;> rfl

variable [Platform] {db : Db}

theorem rows_deliverOne : (deliverOne schedule db now msg outcome).message.rows =
    db.message.rows.map fun m ↦ if m.id = msg.id then settle schedule now msg outcome m else m := by
  cases outcome with
  | accepted queueId =>
    simp only [deliverOne, recordAccepted, logAttempt, Db.rows_updateMessage, decide_eq_true_eq,
      settle]
  | permanent code detail =>
    simp only [deliverOne, recordFailed, logAttempt, Db.rows_updateMessage, decide_eq_true_eq,
      settle]
  | transient code detail =>
    simp only [deliverOne, settle]
    cases Retry.backoff schedule (msg.attempts + 1) with
    | some delay =>
      simp only [recordTransient, logAttempt, Db.rows_updateMessage, decide_eq_true_eq]
    | none => simp only [recordFailed, logAttempt, Db.rows_updateMessage, decide_eq_true_eq]

theorem deliveryAttempt_deliverOne : (deliverOne schedule db now msg outcome).deliveryAttempt =
    db.deliveryAttempt ++ [logRow schedule now msg outcome] := by
  cases outcome with
  | accepted queueId => rfl
  | permanent code detail => rfl
  | transient code detail =>
    simp only [deliverOne, logRow]
    cases Retry.backoff schedule (msg.attempts + 1) <;> rfl

theorem settle_mem_deliverOne (schedule : List ℕ) (now : Time) (outcome : Outcome) {m : Message}
    (hm : m ∈ db.message) (hid : m.id = msg.id) :
    settle schedule now msg outcome m ∈ (deliverOne schedule db now msg outcome).message := by
  rw [Table.mem_def, rows_deliverOne]
  exact List.mem_map.mpr ⟨m, hm, if_pos hid⟩

theorem deliverOne_frame : deliverOne schedule db now msg outcome =
    { db with
      message := (deliverOne schedule db now msg outcome).message
      deliveryAttempt := (deliverOne schedule db now msg outcome).deliveryAttempt } := by
  cases outcome with
  | accepted queueId => rfl
  | permanent code detail => rfl
  | transient code detail =>
    simp only [deliverOne]
    cases Retry.backoff schedule (msg.attempts + 1) <;> rfl

end Worker

end Postbud
