import Postbud.Db.Accept

namespace Postbud

open Lib

structure Claimed where
  id : Uuid
  attempts : ℕ
  mailFrom : Text
  fromName : Option Text
  rcptTo : Text
  replyTo : Option Text
  subject : Text
  bodyText : Option Text
  bodyHtml : Option Text
  attachments : List Attachment
  deriving DecidableEq

namespace Message

def CLAIM_TIMEOUT_MINUTES : ℤ := 10

/-- A queued message whose time has come and that no worker holds, or has
held for longer than the timeout. -/
def due (now : Time) (m : Message) : Bool :=
  m.status = .queued && m.nextAttemptAt ≤ now &&
    m.claimedAt.all fun t ↦ t < now - minutes CLAIM_TIMEOUT_MINUTES

def claimBy (worker : Text) (now : Time) (m : Message) : Message :=
  { m with claimedAt := some now, claimedBy := some worker }

def accept (attempt : ℕ) (queueId : Option Text) (now : Time) (m : Message) : Message :=
  { m with
    status := .sent
    attempts := attempt
    relayQueueId := queueId
    claimedAt := none
    claimedBy := none
    completedAt := some now
    lastError := none }

def retry (attempt : ℕ) (next : Time) (detail : Text) (m : Message) : Message :=
  { m with
    attempts := attempt
    nextAttemptAt := next
    lastError := some detail
    claimedAt := none
    claimedBy := none }

def giveUp (attempt : ℕ) (detail : Text) (now : Time) (m : Message) : Message :=
  { m with
    status := .failed
    attempts := attempt
    lastError := some detail
    claimedAt := none
    claimedBy := none
    completedAt := some now }

def blank (now : Time) (m : Message) : Message :=
  { m with bodyText := none, bodyHtml := none, bodyPurgedAt := some now }

theorem keepsKeys_blank (now : Time) : KeepsKeys (·.blank now) :=
  ⟨fun _ ↦ rfl, fun _ ↦ rfl, fun _ ↦ rfl⟩

def expired (cutoff : Time) (m : Message) : Bool :=
  m.completedAt.any (· < cutoff) && m.bodyPurgedAt.isNone

theorem status_of_due {now : Time} {m : Message} (h : m.due now) : m.status = .queued := by
  simp only [due, Bool.and_eq_true, decide_eq_true_eq] at h
  exact h.1.1

theorem not_due_of_claimed {now t : Time} {m : Message} (ht : m.claimedAt = some t)
    (hnow : now ≤ t + minutes CLAIM_TIMEOUT_MINUTES) : ¬ m.due now := by
  intro hdue
  simp only [due, ht, Option.all_some, Bool.and_eq_true, decide_eq_true_eq] at hdue
  have hlt : t + minutes CLAIM_TIMEOUT_MINUTES < now := Int.add_lt_of_lt_sub_right hdue.2
  exact absurd hnow (Int.not_le.mpr hlt)

end Message

variable [Platform]

def attachmentsFor (db : Db) (messageId : Uuid) : List Attachment :=
  ((db.messageAttachment.filter (·.messageId = messageId)).insertionSort fun a b ↦
    a.position < b.position ∨ a.position = b.position ∧ a.id ≤ b.id).map fun r ↦
      ⟨r.filename, r.contentType, r.content⟩

/-- The rows `claim` takes. `locked` are rows that other transactions hold a lock on. -/
def claimIds (db : Db) (now : Time) (batch : ℕ) (locked : List Uuid) : List Uuid :=
  (((db.message.rows.filter fun m ↦ m.due now && m.id ∉ locked).insertionSort fun m m' ↦
    m.nextAttemptAt ≤ m'.nextAttemptAt).take batch).map (·.id)

def claim (db : Db) (now : Time) (worker : Text) (batch : ℕ) (locked : List Uuid) :
    Db × List Claimed :=
  let ids := claimIds db now batch locked
  (db.updateMessage (·.id ∈ ids) (·.claimBy worker now),
    (db.message.rows.filter (·.id ∈ ids)).map fun m ↦
      ⟨m.id, m.attempts, m.mailFrom, m.fromName, m.rcptTo, m.replyTo, m.subject, m.bodyText,
        m.bodyHtml, attachmentsFor db m.id⟩)

def logAttempt (db : Db) (now : Time) (id : Uuid) (attempt : ℕ) (outcome : AttemptOutcome)
    (smtpCode : Option ℤ) (queueId detail : Option Text) : Db :=
  { db with
    deliveryAttempt :=
      db.deliveryAttempt ++ [⟨id, attempt, now, now, outcome, smtpCode, queueId, detail⟩] }

def recordAccepted (db : Db) (now : Time) (id : Uuid) (attempt : ℕ) (queueId : Option Text) : Db :=
  logAttempt (db.updateMessage (·.id = id) (·.accept attempt queueId now))
    now id attempt .accepted (some 250) queueId none

def recordTransient (db : Db) (now : Time) (id : Uuid) (attempt : ℕ) (smtpCode : Option ℤ)
    (detail : Text) (retryIn : ℕ) : Db :=
  logAttempt (db.updateMessage (·.id = id) (·.retry attempt (now + seconds retryIn) detail))
    now id attempt .transient smtpCode none (some detail)

def recordFailed (db : Db) (now : Time) (id : Uuid) (attempt : ℕ) (smtpCode : Option ℤ)
    (detail : Text) : Db :=
  logAttempt (db.updateMessage (·.id = id) (·.giveUp attempt detail now))
    now id attempt .permanent smtpCode none (some detail)

/-- The range of `timestamptz`, from 4713 BC to the end of 294276. -/
def inTimestampRange (t : Time) : Bool := -211813488000000000 ≤ t && t < 9223371331200000000

def purgeAttachments (db : Db) (cutoff : Time) : Db :=
  let ids := (db.message.rows.filter (·.expired cutoff)).map (·.id)
  { db with messageAttachment := db.messageAttachment.filter (·.messageId ∉ ids) }

def blankBodies (db : Db) (now cutoff : Time) : Db :=
  db.updateMessage (·.expired cutoff) (·.blank now)

/-- `days as i32` keeps the low 32 bits. A cutoff no timestamp can hold is an
error of the statement, and nothing changes. -/
def purgeBodies (db : Db) (now : Time) (days : ℤ) : Option Db :=
  let cutoff := now - seconds (86400 * days.bmod 4294967296)
  if inTimestampRange cutoff then some (blankBodies (purgeAttachments db cutoff) now cutoff)
  else none

variable {db : Db} {now : Time} {worker : Text} {batch : ℕ} {locked : List Uuid}

theorem mem_claimIds {id : Uuid} (h : id ∈ claimIds db now batch locked) :
    ∃ m ∈ db.message, m.id = id ∧ m.due now ∧ id ∉ locked := by
  obtain ⟨m, hm, rfl⟩ := List.mem_map.mp h
  have hm := (List.mem_insertionSort _).mp (List.mem_of_mem_take hm)
  obtain ⟨hm, hdue⟩ := List.mem_filter.mp hm
  simp only [Bool.and_eq_true, decide_eq_true_eq] at hdue
  exact ⟨m, hm, rfl, hdue.1, hdue.2⟩

theorem rows_claim : (claim db now worker batch locked).1.message.rows =
    db.message.rows.map fun m ↦
      if m.id ∈ claimIds db now batch locked then m.claimBy worker now else m := by
  simp only [claim, Db.rows_updateMessage, decide_eq_true_eq]

theorem rows_blankBodies (cutoff : Time) : (blankBodies db now cutoff).message.rows =
    db.message.rows.map fun m ↦ if m.expired cutoff then m.blank now else m := by
  simp only [blankBodies, Db.rows_updateMessage]

/-- No two messages of a batch are the same. -/
theorem claim_pairwise :
    (claim db now worker batch locked).2.Pairwise fun c c' ↦ c.id ≠ c'.id := by
  refine List.pairwise_map.mpr ((db.message.unique.filter _).imp fun h hid ↦ ?_)
  exact h (.inl hid)

theorem mem_claim {x : Claimed} (h : x ∈ (claim db now worker batch locked).2) :
    ∃ m ∈ db.message, m.due now ∧ m.id = x.id ∧ m.attempts = x.attempts ∧ m.rcptTo = x.rcptTo := by
  obtain ⟨m, hm, rfl⟩ := List.mem_map.mp h
  obtain ⟨hm, hid⟩ := List.mem_filter.mp hm
  obtain ⟨m', hm', he, hdue, -⟩ := mem_claimIds (of_decide_eq_true hid)
  obtain rfl : m = m' := db.message_eq_of_id hm hm' he.symm
  exact ⟨m, hm, hdue, rfl, rfl, rfl⟩

end Postbud
