import Postbud.Lib.Table
import Postbud.Core.Dsn

namespace Postbud

open Lib

/-- What the program uses and does not define: `lower` of Postgres, SHA-256
and the decoder of standard base64. -/
class Platform where
  lower : Text → Text
  sha256 : Bytes → Bytes
  base64Decode : Text → Except Text Bytes

@[reducible] def Platform.ascii : Platform where
  lower := Text.toAsciiLowercase
  sha256 := id
  base64Decode _ := .ok []

abbrev Uuid := ℕ

abbrev Time := ℤ

def seconds (n : ℤ) : Time := n * 1000000

def minutes (n : ℤ) : Time := seconds (n * 60)

inductive Status
  | queued
  | sent
  | failed
  | suppressed
  deriving DecidableEq, Repr

inductive RelayState
  | active
  | deferred
  | delivered
  deriving DecidableEq, Repr

structure Message where
  id : Uuid
  tenantId : Uuid
  idempotencyKey : Text
  mailFrom : Text
  fromName : Option Text
  rcptTo : Text
  replyTo : Option Text
  subject : Text
  bodyText : Option Text
  bodyHtml : Option Text
  status : Status := .queued
  attempts : ℕ := 0
  nextAttemptAt : Time
  claimedAt : Option Time := none
  claimedBy : Option Text := none
  relayQueueId : Option Text := none
  lastError : Option Text := none
  createdAt : Time
  completedAt : Option Time := none
  bodyPurgedAt : Option Time := none
  relayState : Option RelayState := none
  relayStateDetail : Option Text := none
  relayStateAt : Option Time := none
  deriving DecidableEq

/-- The primary key, and `unique (tenant_id, idempotency_key)`. -/
def Message.Clash (m m' : Message) : Prop :=
  m.id = m'.id ∨ m.tenantId = m'.tenantId ∧ m.idempotencyKey = m'.idempotencyKey

structure MessageAttachment where
  id : Uuid
  messageId : Uuid
  filename : Text
  contentType : Text
  content : Bytes
  sha256 : Bytes
  position : ℕ
  deriving DecidableEq

inductive AttemptOutcome
  | accepted
  | transient
  | permanent
  deriving DecidableEq, Repr

structure DeliveryAttempt where
  messageId : Uuid
  attempt : ℕ
  startedAt : Time
  finishedAt : Time
  outcome : AttemptOutcome
  smtpCode : Option ℤ
  relayQueueId : Option Text
  detail : Option Text
  deriving DecidableEq

inductive SuppressionReason
  | hardBounce
  | complaint
  | manual
  | invalid
  deriving DecidableEq, Repr

structure Suppression where
  id : ℕ
  tenantId : Option Uuid
  address : Text
  reason : SuppressionReason
  source : Text
  detail : Option Text
  createdAt : Time
  removedAt : Option Time := none
  removedBy : Option Text := none
  deriving DecidableEq

def Suppression.active (s : Suppression) : Bool := s.removedAt.isNone

/-- The primary key, and `suppression_active`: an index on the tenant and the
folded address of active rows in which a null tenant equals a null tenant. -/
def Suppression.Clash [Platform] (s s' : Suppression) : Prop :=
  s.id = s'.id ∨ s.active ∧ s'.active ∧ s.tenantId = s'.tenantId ∧
    Platform.lower s.address = Platform.lower s'.address

inductive BounceClassification
  | permanent
  | transient
  | unknown
  deriving DecidableEq, Repr

structure BounceReport where
  receivedAt : Time
  raw : Text
  relayQueueId : Option Text := none
  messageId : Option Uuid := none
  finalRcpt : Option Text := none
  statusCode : Option Text := none
  diagnostic : Option Text := none
  classification : Option BounceClassification := none
  deriving DecidableEq

instance (m m' : Message) : Decidable (m.Clash m') := by unfold Message.Clash; infer_instance

instance [Platform] (s s' : Suppression) : Decidable (s.Clash s') := by
  unfold Suppression.Clash; infer_instance

instance : Std.Symm Message.Clash where
  symm _ _ h := h.imp Eq.symm fun h ↦ ⟨h.1.symm, h.2.symm⟩

instance [Platform] : Std.Symm Suppression.Clash where
  symm _ _ h := h.imp Eq.symm fun h ↦ ⟨h.2.1, h.1, h.2.2.1.symm, h.2.2.2.symm⟩

/-- The tables that the queue, the suppression list and the delivery record
live in. Rows of `delivery_attempt` and `bounce_report` are only ever added;
`suppressionSeq` is the sequence behind `suppression.id`. -/
structure Db [Platform] where
  message : Table Message Message.Clash := .empty
  messageAttachment : List MessageAttachment := []
  deliveryAttempt : List DeliveryAttempt := []
  suppression : Table Suppression Suppression.Clash := .empty
  suppressionSeq : ℕ := 0
  bounceReport : List BounceReport := []

section Update

/-- A change of columns outside the unique keys of `message`. -/
structure Message.KeepsKeys (f : Message → Message) : Prop where
  id : ∀ m, (f m).id = m.id
  tenantId : ∀ m, (f m).tenantId = m.tenantId
  idempotencyKey : ∀ m, (f m).idempotencyKey = m.idempotencyKey

theorem Message.KeepsKeys.clash {f : Message → Message} (hf : KeepsKeys f) (p : Message → Bool)
    (m m' : Message) (h : (if p m then f m else m).Clash (if p m' then f m' else m')) :
    m.Clash m' := by
  split_ifs at h <;> simpa only [Clash, hf.id, hf.tenantId, hf.idempotencyKey] using h

variable [Platform]

def Suppression.lift (s : Suppression) (now : Time) (removedBy : Text) : Suppression :=
  { s with removedAt := some now, removedBy := some removedBy }

theorem Suppression.lift_clash (p : Suppression → Bool) (now : Time) (removedBy : Text)
    (s s' : Suppression)
    (h : (if p s then s.lift now removedBy else s).Clash (if p s' then s'.lift now removedBy else s')) :
    s.Clash s' := by
  rcases h with h | ⟨ha, ha', ht, hl⟩
  · refine .inl ?_
    split_ifs at h <;> exact h
  · split_ifs at ha ha' ht hl
    · simp only [lift, active, Option.isNone_some, Bool.false_eq_true] at ha
    · simp only [lift, active, Option.isNone_some, Bool.false_eq_true] at ha
    · simp only [lift, active, Option.isNone_some, Bool.false_eq_true] at ha'
    · exact .inr ⟨ha, ha', ht, hl⟩

/-- `update message set ... where ...`, for columns outside the unique keys. -/
def Db.updateMessage (db : Db) (p : Message → Bool) (f : Message → Message)
    (hf : Message.KeepsKeys f := by exact ⟨fun _ ↦ rfl, fun _ ↦ rfl, fun _ ↦ rfl⟩) : Db :=
  { db with message := db.message.update (fun m ↦ if p m then f m else m) (hf.clash p) }

def Db.endSuppression (db : Db) (p : Suppression → Bool) (now : Time) (removedBy : Text) : Db :=
  { db with
    suppression := db.suppression.update (fun s ↦ if p s then s.lift now removedBy else s)
      (Suppression.lift_clash p now removedBy) }

variable {db : Db} {p : Message → Bool} {f : Message → Message} {hf : Message.KeepsKeys f}

theorem Db.rows_updateMessage : (db.updateMessage p f hf).message.rows =
    db.message.rows.map fun m ↦ if p m then f m else m := rfl

theorem Db.mem_endSuppression {q : Suppression → Bool} {now : Time} {removedBy : Text}
    {s : Suppression} : s ∈ (db.endSuppression q now removedBy).suppression ↔
      ∃ s₀ ∈ db.suppression, (if q s₀ then s₀.lift now removedBy else s₀) = s :=
  Table.mem_update (Suppression.lift_clash q now removedBy)

theorem Db.message_eq_of_id {m m' : Message} (hm : m ∈ db.message) (hm' : m' ∈ db.message)
    (h : m.id = m'.id) : m = m' := Table.eq_of_clash hm hm' (.inl h)

end Update

end Postbud
