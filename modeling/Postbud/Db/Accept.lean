import Postbud.Db.Suppression

namespace Postbud

open Lib

structure Attachment where
  filename : Text
  contentType : Text
  content : Bytes
  deriving DecidableEq

structure NewMessage where
  tenantId : Uuid
  idempotencyKey : Text
  mailFrom : Text
  fromName : Option Text
  rcptTo : Text
  replyTo : Option Text
  subject : Text
  bodyText : Option Text
  bodyHtml : Option Text
  attachments : List Attachment
  deriving DecidableEq

structure Accepted where
  id : Uuid
  status : Status
  deduplicated : Bool
  deriving DecidableEq

def NewMessage.row (msg : NewMessage) (id : Uuid) (suppressed : Bool) (now : Time) : Message where
  id
  tenantId := msg.tenantId
  idempotencyKey := msg.idempotencyKey
  mailFrom := msg.mailFrom
  fromName := msg.fromName
  rcptTo := msg.rcptTo
  replyTo := msg.replyTo
  subject := msg.subject
  bodyText := msg.bodyText
  bodyHtml := msg.bodyHtml
  status := if suppressed then .suppressed else .queued
  nextAttemptAt := now
  createdAt := now
  completedAt := if suppressed then some now else none

def Message.SameKey (m m' : Message) : Prop :=
  m.tenantId = m'.tenantId ∧ m.idempotencyKey = m'.idempotencyKey

instance (m m' : Message) : Decidable (m.SameKey m') := by unfold Message.SameKey; infer_instance

variable [Platform]

def Attachment.row (a : Attachment) (id messageId : Uuid) (position : ℕ) : MessageAttachment where
  id
  messageId
  filename := a.filename
  contentType := a.contentType
  content := a.content
  sha256 := Platform.sha256 a.content
  position

/-- Where a call of `accept` stands between two statements of its
transaction. A row that is inserted and not committed is the call's own. -/
inductive AcceptStage
  | check
  | insert (suppressed : Bool)
  | load
  | loaded (id : Uuid) (status : Status)
  | store (id : Uuid) (suppressed : Bool) (stored : List MessageAttachment)
  | commit (id : Uuid) (suppressed : Bool) (stored : List MessageAttachment)
  | returned (accepted : Accepted)
  | failed
  deriving DecidableEq

/-- A call of `accept`. `seen` is a ghost: the last number drawn for a row of
the suppression list when the call consulted it. `notified` says whether its
transaction has committed a wake-up. -/
structure AcceptCall where
  msg : NewMessage
  now : Time
  stage : AcceptStage := .check
  seen : ℕ := 0
  notified : Bool := false
  deriving DecidableEq

namespace AcceptCall

def pending (c : AcceptCall) : Option Message :=
  match c.stage with
  | .store id suppressed _ | .commit id suppressed _ => some (c.msg.row id suppressed c.now)
  | _ => none

def row (c : AcceptCall) : Option Message :=
  match c.stage with
  | .store id suppressed _ | .commit id suppressed _ => some (c.msg.row id suppressed c.now)
  | .returned ⟨id, status, false⟩ => some (c.msg.row id (status = .suppressed) c.now)
  | _ => none

/-- The next statement of a call. `others` are the rows that other open
transactions have inserted: an insert that clashes with one of them waits
until that transaction has ended. -/
def step (db : Db) (others : List Message) (uuid : Uuid) (c : AcceptCall) :
    Option (Db × AcceptCall) :=
  match c.stage with
  | .check =>
    let suppressed := Suppression.isSuppressedTx db c.msg.tenantId c.msg.rcptTo
    some (db, { c with stage := .insert suppressed, seen := db.suppressionSeq })
  | .insert suppressed =>
    let row := c.msg.row uuid suppressed c.now
    if ∃ m ∈ db.message.rows, m.SameKey row then some (db, { c with stage := .load })
    else if ∃ m ∈ others, m.Clash row then none
    else if ∃ m ∈ db.message.rows, m.id = uuid then some (db, { c with stage := .failed })
    else some (db, { c with stage := .store uuid suppressed [] })
  | .load =>
    match db.message.rows.find? fun m ↦
        m.tenantId = c.msg.tenantId && m.idempotencyKey = c.msg.idempotencyKey with
    | some m => some (db, { c with stage := .loaded m.id m.status })
    | none => some (db, { c with stage := .failed })
  | .loaded id status => some (db, { c with stage := .returned ⟨id, status, true⟩ })
  | .store id suppressed stored =>
    match c.msg.attachments[stored.length]? with
    | some a =>
      some (db, { c with stage := .store id suppressed (stored ++ [a.row uuid id stored.length]) })
    | none => some (db, { c with stage := .commit id suppressed stored })
  | .commit id suppressed stored =>
    let row := c.msg.row id suppressed c.now
    match db.message.insert? row with
    | some message =>
      some ({ db with message, messageAttachment := db.messageAttachment ++ stored },
        { c with stage := .returned ⟨id, row.status, false⟩, notified := !suppressed })
    | none => some (db, { c with stage := .failed })
  | .returned _ | .failed => none

def fail (c : AcceptCall) : Option AcceptCall :=
  match c.stage with
  | .returned _ | .failed => none
  | _ => some { c with stage := .failed }

omit [Platform] in
theorem fail_spec {c c' : AcceptCall} (h : c.fail = some c') :
    (∀ accepted, c.stage ≠ .returned accepted) ∧ c' = { c with stage := .failed } := by
  obtain ⟨msg, now, stage, seen, notified⟩ := c
  cases stage with
  | returned accepted => cases h
  | failed => cases h
  | _ => exact ⟨nofun, (Option.some.inj h).symm⟩

inductive Step (db : Db) (others : List Message) (uuid : Uuid) (c : AcceptCall) :
    Db → AcceptCall → Prop
  | check (hc : c.stage = .check) :
    Step db others uuid c db
      { c with
        stage := .insert (Suppression.isSuppressedTx db c.msg.tenantId c.msg.rcptTo)
        seen := db.suppressionSeq }
  | conflict (suppressed : Bool) (m : Message) (hc : c.stage = .insert suppressed)
      (hm : m ∈ db.message) (ht : m.tenantId = c.msg.tenantId)
      (hk : m.idempotencyKey = c.msg.idempotencyKey) :
    Step db others uuid c db { c with stage := .load }
  | inserted (suppressed : Bool) (hc : c.stage = .insert suppressed)
      (hdb : ∀ m ∈ db.message, ¬ m.Clash (c.msg.row uuid suppressed c.now))
      (hothers : ∀ m ∈ others, ¬ m.Clash (c.msg.row uuid suppressed c.now)) :
    Step db others uuid c db { c with stage := .store uuid suppressed [] }
  | found (m : Message) (hc : c.stage = .load) (hm : m ∈ db.message)
      (ht : m.tenantId = c.msg.tenantId) (hk : m.idempotencyKey = c.msg.idempotencyKey) :
    Step db others uuid c db { c with stage := .loaded m.id m.status }
  | loaded (id : Uuid) (status : Status) (hc : c.stage = .loaded id status) :
    Step db others uuid c db { c with stage := .returned ⟨id, status, true⟩ }
  | stored (id : Uuid) (suppressed : Bool) (stored : List MessageAttachment) (a : Attachment)
      (hc : c.stage = .store id suppressed stored) (ha : c.msg.attachments[stored.length]? = some a) :
    Step db others uuid c db
      { c with stage := .store id suppressed (stored ++ [a.row uuid id stored.length]) }
  | all (id : Uuid) (suppressed : Bool) (stored : List MessageAttachment)
      (hc : c.stage = .store id suppressed stored) (ha : c.msg.attachments.length ≤ stored.length) :
    Step db others uuid c db { c with stage := .commit id suppressed stored }
  | committed (id : Uuid) (suppressed : Bool) (stored : List MessageAttachment)
      (message : Table Message Message.Clash) (hc : c.stage = .commit id suppressed stored)
      (ht : db.message.insert? (c.msg.row id suppressed c.now) = some message) :
    Step db others uuid c { db with message, messageAttachment := db.messageAttachment ++ stored }
      { c with
        stage := .returned ⟨id, (c.msg.row id suppressed c.now).status, false⟩
        notified := !suppressed }
  | failed (hc : ∀ accepted, c.stage ≠ .returned accepted) :
    Step db others uuid c db { c with stage := .failed }

variable {db db' : Db} {others : List Message} {uuid : Uuid} {c c' : AcceptCall}

theorem step_spec (h : c.step db others uuid = some (db', c')) : Step db others uuid c db' c' := by
  obtain ⟨msg, now, stage, seen, notified⟩ := c
  cases stage with
  | check =>
    obtain ⟨rfl, rfl⟩ := Prod.mk.inj (Option.some.inj h)
    exact .check rfl
  | insert suppressed =>
    simp only [step] at h
    split_ifs at h with hkey hwait hid
    · obtain ⟨rfl, rfl⟩ := Prod.mk.inj (Option.some.inj h)
      obtain ⟨m, hm, ht, hk⟩ := hkey
      exact .conflict suppressed m rfl hm ht hk
    · obtain ⟨rfl, rfl⟩ := Prod.mk.inj (Option.some.inj h)
      exact .failed fun _ ↦ nofun
    · obtain ⟨rfl, rfl⟩ := Prod.mk.inj (Option.some.inj h)
      refine .inserted suppressed rfl (fun m hm hc ↦ ?_) fun m hm hc ↦ hwait ⟨m, hm, hc⟩
      rcases hc with hc | hc
      · exact hid ⟨m, hm, hc⟩
      · exact hkey ⟨m, hm, hc⟩
  | load =>
    simp only [step] at h
    split at h
    · rename_i m hm
      obtain ⟨rfl, rfl⟩ := Prod.mk.inj (Option.some.inj h)
      have hk := List.find?_some hm
      simp only [Bool.and_eq_true, decide_eq_true_eq] at hk
      exact .found m rfl (List.mem_of_find?_eq_some hm) hk.1 hk.2
    · obtain ⟨rfl, rfl⟩ := Prod.mk.inj (Option.some.inj h)
      exact .failed fun _ ↦ nofun
  | loaded id status =>
    obtain ⟨rfl, rfl⟩ := Prod.mk.inj (Option.some.inj h)
    exact .loaded id status rfl
  | store id suppressed stored =>
    simp only [step] at h
    split at h
    · rename_i a ha
      obtain ⟨rfl, rfl⟩ := Prod.mk.inj (Option.some.inj h)
      exact .stored id suppressed stored a rfl ha
    · rename_i ha
      obtain ⟨rfl, rfl⟩ := Prod.mk.inj (Option.some.inj h)
      exact .all id suppressed stored rfl (List.getElem?_eq_none_iff.mp ha)
  | commit id suppressed stored =>
    simp only [step] at h
    split at h
    · rename_i message ht
      obtain ⟨rfl, rfl⟩ := Prod.mk.inj (Option.some.inj h)
      exact .committed id suppressed stored message rfl ht
    · obtain ⟨rfl, rfl⟩ := Prod.mk.inj (Option.some.inj h)
      exact .failed fun _ ↦ nofun
  | returned accepted => cases h
  | failed => cases h

theorem Step.not_returned (h : Step db others uuid c db' c') (accepted : Accepted) :
    c.stage ≠ .returned accepted := by
  intro hr
  cases h with
  | failed hc => exact hc accepted hr
  | _ => simp_all only [reduceCtorEq]

theorem Step.msg (h : Step db others uuid c db' c') : c'.msg = c.msg := by cases h <;> rfl

theorem Step.suppression (h : Step db others uuid c db' c') :
    db'.suppression = db.suppression ∧ db'.suppressionSeq = db.suppressionSeq := by
  cases h <;> exact ⟨rfl, rfl⟩

theorem Step.bounceReport (h : Step db others uuid c db' c') :
    db'.bounceReport = db.bounceReport := by
  cases h <;> rfl

theorem Step.deliveryAttempt (h : Step db others uuid c db' c') :
    db'.deliveryAttempt = db.deliveryAttempt := by
  cases h <;> rfl

/-- A statement adds the call's own row, or no row. -/
theorem Step.message (h : Step db others uuid c db' c') : db' = db ∨
    ∃ id suppressed stored, c.stage = .commit id suppressed stored ∧
      c'.stage = .returned ⟨id, (c.msg.row id suppressed c.now).status, false⟩ ∧
      db'.message.rows = db.message.rows ++ [c.msg.row id suppressed c.now] ∧
      (∀ m ∈ db.message, ¬ m.Clash (c.msg.row id suppressed c.now)) ∧
      db'.messageAttachment = db.messageAttachment ++ stored := by
  cases h with
  | committed id suppressed stored message hc ht =>
    obtain ⟨hfree, hrows⟩ := Table.insert?_eq_some.mp ht
    exact .inr ⟨id, suppressed, stored, hc, rfl, hrows, hfree, rfl⟩
  | _ => exact .inl rfl

theorem Step.mem_message (h : Step db others uuid c db' c') {m : Message} (hm : m ∈ db.message) :
    m ∈ db'.message := by
  rcases h.message with rfl | ⟨id, suppressed, stored, -, -, hrows, -⟩
  · exact hm
  · rw [Table.mem_def, hrows]
    exact List.mem_append_left _ hm

def alone (uuid : ℕ → Uuid) : ℕ → Db → AcceptCall → Db × AcceptCall
  | 0, db, c => (db, c)
  | n + 1, db, c =>
    match c.step db [] (uuid n) with
    | some (db', c') => alone uuid n db' c'
    | none => (db, c)

theorem suppression_alone (uuid : ℕ → Uuid) (n : ℕ) (db : Db) (c : AcceptCall) :
    (alone uuid n db c).1.suppression = db.suppression := by
  induction n generalizing db c with
  | zero => rfl
  | succ n ih =>
    unfold alone
    split
    · rename_i db' c' h
      rw [ih db' c', (step_spec h).suppression.1]
    · rfl

end AcceptCall

/-- `accept`, over a connection that is lost after `answers` statements. -/
def accept (db : Db) (now : Time) (uuid : ℕ → Uuid) (answers : ℕ) (msg : NewMessage) :
    Db × Option Accepted :=
  let r := AcceptCall.alone uuid answers db { msg, now }
  (r.1, match r.2.stage with
    | .returned accepted => some accepted
    | _ => none)

theorem suppression_accept (db : Db) (now : Time) (uuid : ℕ → Uuid) (answers : ℕ)
    (msg : NewMessage) : (accept db now uuid answers msg).1.suppression = db.suppression :=
  AcceptCall.suppression_alone uuid answers db { msg, now }

end Postbud
