import Postbud.Api.Auth
import Postbud.Core.Address
import Postbud.Db.Accept

namespace Postbud.Api

open Lib Lib.Text

structure Tenant where
  id : Uuid
  name : Text
  fromDomains : List Text
  deriving DecidableEq

structure AttachmentRequest where
  filename : Text
  contentType : Text
  contentBase64 : Text
  deriving DecidableEq

structure SubmitRequest where
  idempotencyKey : Option Text := none
  mailFrom : Text
  fromName : Option Text := none
  rcptTo : Text
  replyTo : Option Text := none
  subject : Text
  text : Option Text := none
  html : Option Text := none
  attachments : List AttachmentRequest := []
  deriving DecidableEq

structure SubmitResponse where
  id : Uuid
  status : Status
  deduplicated : Bool
  deriving DecidableEq

structure StatusResponse where
  id : Uuid
  status : Status
  attempts : ℕ
  rcptTo : Text
  subject : Text
  relayQueueId : Option Text
  lastError : Option Text
  relayState : Option RelayState
  relayStateDetail : Option Text
  createdAt : Time
  completedAt : Option Time
  deriving DecidableEq

structure Entry where
  id : ℕ
  address : Text
  reason : SuppressionReason
  source : Text
  detail : Option Text
  isGlobal : Bool
  createdAt : Time
  deriving DecidableEq

inductive Request
  | submit (req : SubmitRequest)
  | status (id : Uuid)
  | list (address : Option Text)
  | add (address : Text) (detail : Option Text)
  | remove (id : ℤ)
  deriving DecidableEq

inductive Response
  | accepted (r : SubmitResponse)
  | status (r : StatusResponse)
  | entries (l : List Entry)
  | created
  | noContent
  | error (err : ApiError)
  deriving DecidableEq

/-- A request and what meets it: the time, the random ids that are drawn, and
how many statements the database answers before the connection is lost. -/
structure Call where
  now : Time
  uuid : ℕ → Uuid
  answers : ℕ
  request : Request

def uuidText (id : Uuid) : Text :=
  let digits := (Nat.toDigits 16 id).leftpad 32 '0'
  digits.take 8 ++ '-' :: (digits.drop 8).take 4 ++ '-' :: (digits.drop 12).take 4 ++
    '-' :: (digits.drop 16).take 4 ++ '-' :: digits.drop 20

def Call.query {α : Type} (call : Call) (lost answer : α) : α :=
  if call.answers = 0 then lost else answer

variable [Platform]

namespace Messages

def decodeAttachment (a : AttachmentRequest) : Except ApiError Attachment :=
  match Platform.base64Decode a.contentBase64 with
  | .ok content => .ok ⟨a.filename, a.contentType, content⟩
  | .error err => .error <| .badRequest <| "attachment '".toList ++ a.filename ++
      "': content_base64 is not valid base64: ".toList ++ err

def normalize (field : Text) (address : Text) : Except ApiError Text :=
  match Address.normalize address with
  | .ok address => .ok address
  | .error err => .error <| .badRequest <| field ++ ": ".toList ++ err.message

def newMessage (tenant : Tenant) (key : Text) (req : SubmitRequest) :
    Except ApiError NewMessage := do
  let mailFrom ← normalize "from".toList req.mailFrom
  let rcptTo ← normalize "to".toList req.rcptTo
  let replyTo ← req.replyTo.mapM (normalize "reply_to".toList)
  if !Authz.maySendAs mailFrom tenant.fromDomains then
    throw <| .badRequest <| "tenant '".toList ++ tenant.name ++ "' may not send as ".toList ++
      mailFrom ++ " (allowed domains: ".toList ++
      ", ".toList.intercalate tenant.fromDomains ++ ")".toList
  if req.text.isNone && req.html.isNone then
    throw (.badRequest "one of 'text' or 'html' is required".toList)
  if trim req.subject = [] then
    throw (.badRequest "subject is required".toList)
  let attachments ← req.attachments.mapM decodeAttachment
  return {
    tenantId := tenant.id
    idempotencyKey := req.idempotencyKey.getD key
    mailFrom
    fromName := req.fromName
    rcptTo
    replyTo
    subject := req.subject
    bodyText := req.text
    bodyHtml := req.html
    attachments }

def submit (tenant : Tenant) (db : Db) (call : Call) (req : SubmitRequest) : Db × Response :=
  match newMessage tenant (uuidText (call.uuid call.answers)) req with
  | .error err => (db, .error err)
  | .ok msg =>
    match accept db call.now call.uuid call.answers msg with
    | (db, some a) => (db, .accepted ⟨a.id, a.status, a.deduplicated⟩)
    | (db, none) => (db, .error .internal)

def statusResponse (m : Message) : StatusResponse where
  id := m.id
  status := m.status
  attempts := m.attempts
  rcptTo := m.rcptTo
  subject := m.subject
  relayQueueId := m.relayQueueId
  lastError := m.lastError
  relayState := m.relayState
  relayStateDetail := m.relayStateDetail
  createdAt := m.createdAt
  completedAt := m.completedAt

def status (tenant : Tenant) (db : Db) (call : Call) (id : Uuid) : Response :=
  call.query (.error .internal) <|
    match db.message.rows.find? fun m ↦ m.id = id && m.tenantId = tenant.id with
    | some m => .status (statusResponse m)
    | none => .error .notFound

end Messages

namespace Suppressions

def list (tenant : Tenant) (db : Db) (call : Call) (address : Option Text) : Response :=
  call.query (.error .internal) <| .entries <|
    (Suppression.list db tenant.id address).map fun e ↦
      ⟨e.id, e.address, e.reason, e.source, e.detail, e.tenantId.isNone, e.createdAt⟩

/-- A manual addition is always scoped to the calling tenant. -/
def add (tenant : Tenant) (db : Db) (call : Call) (address : Text) (detail : Option Text) :
    Db × Response :=
  match Messages.normalize "address".toList address with
  | .error err => (db, .error err)
  | .ok address => call.query (db, .error .internal)
    (Suppression.add db call.now (some tenant.id) address .manual tenant.name detail, .created)

def remove (tenant : Tenant) (db : Db) (call : Call) (id : ℤ) : Db × Response :=
  call.query (db, .error .internal) <|
    match Suppression.remove db call.now id tenant.name with
    | (db, true) => (db, .noContent)
    | (db, false) => (db, .error .notFound)

end Suppressions

def handle (tenant : Tenant) (db : Db) (call : Call) : Db × Response :=
  match call.request with
  | .submit req => Messages.submit tenant db call req
  | .status id => (db, Messages.status tenant db call id)
  | .list address => (db, Suppressions.list tenant db call address)
  | .add address detail => Suppressions.add tenant db call address detail
  | .remove id => Suppressions.remove tenant db call id

end Postbud.Api
