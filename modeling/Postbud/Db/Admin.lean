import Mathlib.Data.Prod.Lex
import Postbud.Db.AttachmentBatch
import Postbud.Db.Tenant
import Postbud.Lib.Join
import Postbud.Lib.Keyset

namespace Postbud

open Lib

/-- What the operator's pages read: the tables, the tenants their rows belong
to, and the numbers that the rows of the insert-only tables were given. -/
structure AdminDb [Platform] extends Db where
  tenant : Table TenantRow TenantRow.Clash
  attemptIds : List ℤ
  bounceIds : List ℤ
  tenantOf : ∀ m ∈ message, ∃ t ∈ tenant, t.id = m.tenantId
  attachmentIds : (messageAttachment.map (·.id)).Nodup
  digest : ∀ a ∈ messageAttachment, a.sha256 = Platform.sha256 a.content
  attemptNumbers : attemptIds.length = deliveryAttempt.length
  bounceNumbers : bounceIds.length = bounceReport.length
  bounceIds_nodup : bounceIds.Nodup

def Status.text : Status → Text
  | .queued => "queued".toList
  | .sent => "sent".toList
  | .failed => "failed".toList
  | .suppressed => "suppressed".toList

namespace Admin

/-- `encode(_, 'hex')` -/
def hex (bytes : Bytes) : Text := bytes.flatMap Api.hexByte

/-- `like`. A pattern that ends in a backslash is an error, and none of those
asked for does. -/
def like : Text → Text → Bool
  | [], t => t.isEmpty
  | '%' :: p, t => t.tails.any (like p)
  | '_' :: p, t => t.tail?.any (like p)
  | '\\' :: c :: p, t => t.head? = some c && like p t.tail
  | c :: p, t => t.head? = some c && like p t.tail

structure MessageRow where
  id : Uuid
  tenant : Text
  mailFrom : Text
  rcptTo : Text
  subject : Text
  status : Status
  attempts : ℕ
  relayQueueId : Option Text
  lastError : Option Text
  relayState : Option RelayState
  relayStateDetail : Option Text
  relayStateAt : Option Time
  createdAt : Time
  completedAt : Option Time
  deriving DecidableEq

structure MessageFilter where
  tenant : Option Text := none
  status : Option Text := none
  rcpt : Option Text := none
  before : Option (Time × Uuid) := none
  limit : ℤ
  deriving DecidableEq

structure AttemptRow where
  attempt : ℕ
  outcome : AttemptOutcome
  smtpCode : Option ℤ
  relayQueueId : Option Text
  detail : Option Text
  finishedAt : Time
  deriving DecidableEq

structure BounceRow where
  id : ℤ
  receivedAt : Time
  finalRcpt : Option Text
  statusCode : Option Text
  classification : Option BounceClassification
  diagnostic : Option Text
  relayQueueId : Option Text
  messageId : Option Uuid
  deriving DecidableEq

structure AttachmentMeta where
  filename : Text
  contentType : Text
  size : ℕ
  sha256 : Text
  deriving DecidableEq

structure MessageDetail where
  row : MessageRow
  idempotencyKey : Text
  fromName : Option Text
  replyTo : Option Text
  bodyText : Option Text
  bodyHtml : Option Text
  hasHtml : Bool
  bodyPurgedAt : Option Time
  attachments : List AttachmentMeta
  deliveryAttempts : List AttemptRow
  bounces : List BounceRow
  deriving DecidableEq

structure SuppressionRow where
  id : ℕ
  tenant : Option Text
  address : Text
  reason : SuppressionReason
  source : Text
  detail : Option Text
  createdAt : Time
  removedAt : Option Time
  removedBy : Option Text
  deriving DecidableEq

def messageRow (m : Message) (t : TenantRow) : MessageRow where
  id := m.id
  tenant := t.name
  mailFrom := m.mailFrom
  rcptTo := m.rcptTo
  subject := m.subject
  status := m.status
  attempts := m.attempts
  relayQueueId := m.relayQueueId
  lastError := m.lastError
  relayState := m.relayState
  relayStateDetail := m.relayStateDetail
  relayStateAt := m.relayStateAt
  createdAt := m.createdAt
  completedAt := m.completedAt

def attachmentMeta (a : MessageAttachment) : AttachmentMeta :=
  ⟨a.filename, a.contentType, a.content.length, hex a.sha256⟩

def attemptRow (a : DeliveryAttempt) : AttemptRow :=
  ⟨a.attempt, a.outcome, a.smtpCode, a.relayQueueId, a.detail, a.finishedAt⟩

def bounceRow (id : ℤ) (b : BounceReport) : BounceRow where
  id := id
  receivedAt := b.receivedAt
  finalRcpt := b.finalRcpt
  statusCode := b.statusCode
  classification := b.classification
  diagnostic := b.diagnostic
  relayQueueId := b.relayQueueId
  messageId := b.messageId

def suppressionRow (s : Suppression) (t : Option TenantRow) : SuppressionRow :=
  ⟨s.id, t.map (·.name), s.address, s.reason, s.source, s.detail, s.createdAt, s.removedAt,
    s.removedBy⟩

def MessageRow.key (r : MessageRow) : Time ×ₗ Uuid := toLex (r.createdAt, r.id)

/-- `limit.clamp(1, 201)` -/
def fetchLimit (limit : ℤ) : ℕ := (max 1 (min limit 201)).toNat

variable [Platform]

def ilike (t p : Text) : Bool := like (Platform.lower p) (Platform.lower t)

def containing (x : Text) : Text := '%' :: x ++ ['%']

/-- `message m join tenant t on t.id = m.tenant_id` -/
def messageRows (db : AdminDb) : List MessageRow :=
  (Join.join (fun (m : Message) (t : TenantRow) ↦ t.id = m.tenantId)
    db.message.rows db.tenant.rows).map fun p ↦ messageRow p.1 p.2

def MessageFilter.accepts (filter : MessageFilter) (r : MessageRow) : Bool :=
  filter.tenant.all (r.tenant = ·) && filter.status.all (r.status.text = ·) &&
    filter.rcpt.all fun x ↦ ilike r.rcptTo (containing x)

def messages (db : AdminDb) (filter : MessageFilter) : List MessageRow :=
  Keyset.newest MessageRow.key ((messageRows db).filter filter.accepts)
    (filter.before.map toLex) (fetchLimit filter.limit)

/-- `suppression s left join tenant t on t.id = s.tenant_id` -/
def suppressionRows (db : AdminDb) : List SuppressionRow :=
  (Join.leftJoin (fun (s : Suppression) (t : TenantRow) ↦ s.tenantId = some t.id)
    db.suppression.rows db.tenant.rows).map fun p ↦ suppressionRow p.1 p.2

def suppressions (db : AdminDb) (address : Option Text) (includeRemoved : Bool)
    (beforeId : Option ℤ) (limit : ℤ) : List SuppressionRow :=
  Keyset.newest (fun r ↦ (r.id : ℤ))
    ((suppressionRows db).filter fun r ↦ address.all (fun x ↦ ilike r.address (containing x)) &&
      (includeRemoved || r.removedAt.isNone))
    beforeId (fetchLimit limit)

def bounceRows (db : AdminDb) : List BounceRow :=
  (db.bounceIds.zip db.bounceReport).map fun p ↦ bounceRow p.1 p.2

def bounces (db : AdminDb) (beforeId : Option ℤ) (limit : ℤ) : List BounceRow :=
  Keyset.newest BounceRow.id (bounceRows db) beforeId (fetchLimit limit)

/-- `message_attachment where message_id = $1 order by id` -/
def attachmentsOf (db : Db) (id : Uuid) : List MessageAttachment :=
  (db.messageAttachment.filter (·.messageId = id)).insertionSort fun a b ↦ a.id ≤ b.id

/-- `order by attempt, id` -/
def attemptsOf (db : AdminDb) (id : Uuid) : List DeliveryAttempt :=
  (((db.attemptIds.zip db.deliveryAttempt).filter (·.2.messageId = id)).insertionSort fun a b ↦
    toLex (a.2.attempt, a.1) ≤ toLex (b.2.attempt, b.1)).map (·.2)

def bouncesOf (db : AdminDb) (id : Uuid) : List BounceRow :=
  ((bounceRows db).filter (·.messageId = some id)).insertionSort fun a b ↦
    a.receivedAt ≤ b.receivedAt

def detailOf (db : AdminDb) (m : Message) (t : TenantRow) : MessageDetail where
  row := messageRow m t
  idempotencyKey := m.idempotencyKey
  fromName := m.fromName
  replyTo := m.replyTo
  bodyText := m.bodyText
  bodyHtml := m.bodyHtml
  hasHtml := m.bodyHtml.isSome
  bodyPurgedAt := m.bodyPurgedAt
  attachments := (attachmentsOf db.toDb m.id).map attachmentMeta
  deliveryAttempts := (attemptsOf db m.id).map attemptRow
  bounces := bouncesOf db m.id

def messageDetail (db : AdminDb) (id : Uuid) : Option MessageDetail := do
  let m ← db.message.rows.find? (·.id = id)
  let t ← db.tenant.rows.find? (·.id = m.tenantId)
  some (detailOf db m t)

variable {db : AdminDb}

theorem map_id_messageRows : (messageRows db).map (·.id) = db.message.rows.map (·.id) := by
  have hone : ∀ m ∈ db.message.rows,
      (db.tenant.rows.filter fun t ↦ t.id = m.tenantId).length = 1 := by
    intro m hm
    obtain ⟨t, ht, hid⟩ := db.tenantOf m hm
    have hmem : t ∈ db.tenant.rows.filter fun t ↦ t.id = m.tenantId :=
      List.mem_filter.mpr ⟨ht, decide_eq_true hid⟩
    refine Nat.le_antisymm (Table.length_filter_le_one fun x y hx hy ↦ ?_)
      (List.length_pos_of_mem hmem)
    exact .inl ((of_decide_eq_true hx).trans (of_decide_eq_true hy).symm)
  have hjoin := congrArg (List.map (·.id)) (Join.map_fst_join hone)
  rw [List.map_map] at hjoin
  rw [messageRows, List.map_map]
  exact hjoin

theorem map_id_suppressionRows :
    (suppressionRows db).map (·.id) = db.suppression.rows.map (·.id) := by
  have hone : ∀ s ∈ db.suppression.rows,
      (db.tenant.rows.filter fun t ↦ s.tenantId = some t.id).length ≤ 1 := by
    intro s _
    refine Table.length_filter_le_one fun x y hx hy ↦ .inl (Option.some.inj ?_)
    exact (of_decide_eq_true hx).symm.trans (of_decide_eq_true hy)
  have hjoin := congrArg (List.map (·.id)) (Join.map_fst_leftJoin hone)
  rw [List.map_map] at hjoin
  rw [suppressionRows, List.map_map]
  exact hjoin

theorem map_id_bounceRows : (bounceRows db).map (·.id) = db.bounceIds := by
  rw [bounceRows, List.map_map]
  exact List.map_fst_zip (Nat.le_of_eq db.bounceNumbers)

theorem nodup_message_ids : ((messageRows db).map (·.id)).Nodup := by
  rw [map_id_messageRows]
  exact List.pairwise_map.mpr (db.message.unique.imp fun h he ↦ h (.inl he))

theorem nodup_suppression_ids : ((suppressionRows db).map (·.id)).Nodup := by
  rw [map_id_suppressionRows]
  exact List.pairwise_map.mpr (db.suppression.unique.imp fun h he ↦ h (.inl he))

theorem nodup_bounce_ids : ((bounceRows db).map (·.id)).Nodup := by
  rw [map_id_bounceRows]
  exact db.bounceIds_nodup

end Admin

end Postbud
