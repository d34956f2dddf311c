import Postbud.Db.Message
import Postbud.Lib.Transition

namespace Postbud.Purging

open Lib Lib.Transition

/-- What a worker records of a delivery. -/
inductive Record
  | accepted (relayQueueId : Option Text)
  | transient (smtpCode : Option ℤ) (detail : Text) (retryIn : ℕ)
  | failed (smtpCode : Option ℤ) (detail : Text)
  deriving DecidableEq

/-- Where a `record_*` call stands between two statements: the row of its
message is locked from the update on. -/
inductive RecordStage
  | start
  | updated
  | logged
  | returned
  | failed
  deriving DecidableEq

/-- A call and its `now()`, which is the start of its transaction. -/
structure RecordCall where
  id : Uuid
  attempt : ℕ
  record : Record
  now : Time
  stage : RecordStage := .start
  deriving DecidableEq

/-- Where a purge stands. `delete` and `update` have taken the snapshot of
their statement, in which these messages are up for it, and may have to wait
for rows; `deleted` has deleted these attachments, and `blanked` has locked
and blanked those of the messages that are still up for it. -/
inductive PurgeStage
  | start
  | delete (ids : List Uuid)
  | deleted (rows : List MessageAttachment)
  | update (rows : List MessageAttachment) (ids : List Uuid)
  | blanked (rows : List MessageAttachment) (ids : List Uuid)
  | returned (purged : ℕ)
  | failed
  deriving DecidableEq

structure PurgeCall where
  days : ℤ
  now : Time
  stage : PurgeStage := .start
  deriving DecidableEq

def RecordCall.locks (c : RecordCall) : List Uuid :=
  match c.stage with
  | .updated | .logged => [c.id]
  | _ => []

namespace PurgeCall

/-- `now() - make_interval(days => $1)`. -/
def cutoff (p : PurgeCall) : Time := p.now - seconds (86400 * p.days.bmod 4294967296)

def locks (p : PurgeCall) : List Uuid :=
  match p.stage with
  | .blanked _ ids => ids
  | _ => []

/-- The attachments that a purge has deleted and not committed. -/
def taken (p : PurgeCall) : List MessageAttachment :=
  match p.stage with
  | .deleted rows | .update rows _ | .blanked rows _ => rows
  | _ => []

end PurgeCall

variable [Platform]

/-- The messages that a statement of a purge finds. -/
def expiredIds (db : Db) (cutoff : Time) : List Uuid :=
  (db.message.rows.filter (·.expired cutoff)).map (·.id)

def Record.write (record : Record) (db : Db) (now : Time) (id : Uuid) (attempt : ℕ) : Db :=
  match record with
  | .accepted relayQueueId => recordAccepted db now id attempt relayQueueId
  | .transient smtpCode detail retryIn => recordTransient db now id attempt smtpCode detail retryIn
  | .failed smtpCode detail => recordFailed db now id attempt smtpCode detail

/-- One statement of a `record_*` call. `locked` are the rows that other
transactions hold; the attempt of no message cannot be logged. -/
def RecordCall.step (db : Db) (locked : List Uuid) (c : RecordCall) : Option (Db × RecordCall) :=
  match c.stage with
  | .start =>
    if c.id ∈ locked then none
    else if ∃ m ∈ db.message.rows, m.id = c.id then some (db, { c with stage := .updated })
    else some (db, { c with stage := .failed })
  | .updated => some (db, { c with stage := .logged })
  | .logged => some (c.record.write db c.now c.id c.attempt, { c with stage := .returned })
  | .returned | .failed => none

/-- What a purge commits. -/
def purged (db : Db) (now : Time) (rows : List MessageAttachment) (ids : List Uuid) : Db :=
  { db with messageAttachment := db.messageAttachment.filter (· ∉ rows) }.updateMessage
    (·.id ∈ ids) (·.blank now) (Message.keepsKeys_blank now)

/-- One step of a statement of `purge_bodies`. `taken` are the attachments
that other transactions have deleted. -/
def PurgeCall.step (db : Db) (locked : List Uuid) (taken : List MessageAttachment)
    (p : PurgeCall) : Option (Db × PurgeCall) :=
  match p.stage with
  | .start =>
    if inTimestampRange p.cutoff then
      some (db, { p with stage := .delete (expiredIds db p.cutoff) })
    else some (db, { p with stage := .failed })
  | .delete ids =>
    let rows := db.messageAttachment.filter (·.messageId ∈ ids)
    if ∃ a ∈ rows, a ∈ taken then none else some (db, { p with stage := .deleted rows })
  | .deleted rows => some (db, { p with stage := .update rows (expiredIds db p.cutoff) })
  | .update rows ids =>
    if ∃ id ∈ ids, id ∈ locked then none
    else some (db, { p with stage := .blanked rows (ids.filter (· ∈ expiredIds db p.cutoff)) })
  | .blanked rows ids => some (purged db p.now rows ids, { p with stage := .returned ids.length })
  | .returned _ | .failed => none

/-- The clock, what is committed, and the calls. -/
structure State where
  now : Time
  db : Db
  records : List RecordCall := []
  purges : List PurgeCall := []

inductive Action
  | tick (dt : ℕ)
  | record (id : Uuid) (attempt : ℕ) (record : Record)
  | recordStep (i : ℕ)
  | recordAborts (i : ℕ)
  | purge (days : ℤ)
  | purgeStep (i : ℕ)
  | purgeAborts (i : ℕ)
  deriving DecidableEq

def locksOf (records : List RecordCall) (purges : List PurgeCall) : List Uuid :=
  records.flatMap RecordCall.locks ++ purges.flatMap PurgeCall.locks

def step (s : State) : Action → Option State
  | .tick dt => some { s with now := s.now + dt }
  | .record id attempt record =>
    some { s with records := s.records ++ [{ id, attempt, record, now := s.now }] }
  | .recordStep i => do
    let c ← s.records[i]?
    let (db, c) ← c.step s.db (locksOf (s.records.eraseIdx i) s.purges)
    some { s with db, records := s.records.set i c }
  | .recordAborts i => do
    let c ← s.records[i]?
    if c.stage = .returned then none
    else some { s with records := s.records.set i { c with stage := .failed } }
  | .purge days => some { s with purges := s.purges ++ [{ days, now := s.now }] }
  | .purgeStep i => do
    let p ← s.purges[i]?
    let (db, p) ← p.step s.db (locksOf s.records (s.purges.eraseIdx i))
      ((s.purges.eraseIdx i).flatMap PurgeCall.taken)
    some { s with db, purges := s.purges.set i p }
  | .purgeAborts i => do
    let p ← s.purges[i]?
    match p.stage with
    | .returned _ => none
    | _ => some { s with purges := s.purges.set i { p with stage := .failed } }

inductive RecordCall.Step (db : Db) (c : RecordCall) : Db → RecordCall → Prop
  | moved (stage : RecordStage) : Step db c db { c with stage }
  | committed (hc : c.stage = .logged) :
    Step db c (c.record.write db c.now c.id c.attempt) { c with stage := .returned }

inductive PurgeCall.Step (db : Db) (p : PurgeCall) : Db → PurgeCall → Prop
  | failed : Step db p db { p with stage := .failed }
  | found (hp : p.stage = .start) :
    Step db p db { p with stage := .delete (expiredIds db p.cutoff) }
  | deleted (ids : List Uuid) (hp : p.stage = .delete ids) :
    Step db p db { p with stage := .deleted (db.messageAttachment.filter (·.messageId ∈ ids)) }
  | foundAgain (rows : List MessageAttachment) (hp : p.stage = .deleted rows) :
    Step db p db { p with stage := .update rows (expiredIds db p.cutoff) }
  | blanked (rows : List MessageAttachment) (ids : List Uuid) (hp : p.stage = .update rows ids) :
    Step db p db { p with stage := .blanked rows (ids.filter (· ∈ expiredIds db p.cutoff)) }
  | committed (rows : List MessageAttachment) (ids : List Uuid) (hp : p.stage = .blanked rows ids) :
    Step db p (purged db p.now rows ids) { p with stage := .returned ids.length }

inductive Step (s : State) : Action → State → Prop
  | tick (dt : ℕ) : Step s (.tick dt) { s with now := s.now + dt }
  | record (id : Uuid) (attempt : ℕ) (record : Record) :
    Step s (.record id attempt record)
      { s with records := s.records ++ [{ id, attempt, record, now := s.now }] }
  | recordStep (i : ℕ) (c c' : RecordCall) (db : Db) (hi : s.records[i]? = some c)
      (h : RecordCall.Step s.db c db c') :
    Step s (.recordStep i) { s with db, records := s.records.set i c' }
  | recordAborts (i : ℕ) (c : RecordCall) (hi : s.records[i]? = some c) :
    Step s (.recordAborts i) { s with records := s.records.set i { c with stage := .failed } }
  | purge (days : ℤ) :
    Step s (.purge days) { s with purges := s.purges ++ [{ days, now := s.now }] }
  | purgeStep (i : ℕ) (p p' : PurgeCall) (db : Db) (hi : s.purges[i]? = some p)
      (h : PurgeCall.Step s.db p db p') :
    Step s (.purgeStep i) { s with db, purges := s.purges.set i p' }
  | purgeAborts (i : ℕ) (p : PurgeCall) (hi : s.purges[i]? = some p) :
    Step s (.purgeAborts i) { s with purges := s.purges.set i { p with stage := .failed } }

variable {db db' : Db} {locked : List Uuid} {taken : List MessageAttachment} {c c' : RecordCall}
  {p p' : PurgeCall} {s s' : State} {a : Action}

theorem RecordCall.step_spec (h : c.step db locked = some (db', c')) :
    RecordCall.Step db c db' c' := by
  unfold RecordCall.step at h
  split at h
  · split_ifs at h <;> obtain ⟨rfl, rfl⟩ := Prod.mk.inj (Option.some.inj h) <;> exact .moved _
  · obtain ⟨rfl, rfl⟩ := Prod.mk.inj (Option.some.inj h)
    exact .moved _
  · rename_i hc
    obtain ⟨rfl, rfl⟩ := Prod.mk.inj (Option.some.inj h)
    exact .committed hc
  · cases h
  · cases h

theorem PurgeCall.step_spec (h : p.step db locked taken = some (db', p')) :
    PurgeCall.Step db p db' p' := by
  unfold PurgeCall.step at h
  split at h
  · rename_i hp
    split_ifs at h <;> obtain ⟨rfl, rfl⟩ := Prod.mk.inj (Option.some.inj h)
    · exact .found hp
    · exact .failed
  · rename_i ids hp
    dsimp only at h
    split_ifs at h
    obtain ⟨rfl, rfl⟩ := Prod.mk.inj (Option.some.inj h)
    exact .deleted ids hp
  · rename_i rows hp
    obtain ⟨rfl, rfl⟩ := Prod.mk.inj (Option.some.inj h)
    exact .foundAgain rows hp
  · rename_i rows ids hp
    split_ifs at h
    obtain ⟨rfl, rfl⟩ := Prod.mk.inj (Option.some.inj h)
    exact .blanked rows ids hp
  · rename_i rows ids hp
    obtain ⟨rfl, rfl⟩ := Prod.mk.inj (Option.some.inj h)
    exact .committed rows ids hp
  · cases h
  · cases h

theorem step_spec (h : step s a = some s') : Step s a s' := by
  cases a with
  | tick dt => exact Option.some.inj h ▸ .tick dt
  | record id attempt record => exact Option.some.inj h ▸ .record id attempt record
  | recordStep i =>
    obtain ⟨c, hi, h⟩ := Option.bind_eq_some_iff.mp h
    obtain ⟨⟨db, c'⟩, hc, h⟩ := Option.bind_eq_some_iff.mp h
    exact Option.some.inj h ▸ .recordStep i c c' db hi (RecordCall.step_spec hc)
  | recordAborts i =>
    obtain ⟨c, hi, h⟩ := Option.bind_eq_some_iff.mp h
    split_ifs at h
    exact Option.some.inj h ▸ .recordAborts i c hi
  | purge days => exact Option.some.inj h ▸ .purge days
  | purgeStep i =>
    obtain ⟨p, hi, h⟩ := Option.bind_eq_some_iff.mp h
    obtain ⟨⟨db, p'⟩, hp, h⟩ := Option.bind_eq_some_iff.mp h
    exact Option.some.inj h ▸ .purgeStep i p p' db hi (PurgeCall.step_spec hp)
  | purgeAborts i =>
    obtain ⟨p, hi, h⟩ := Option.bind_eq_some_iff.mp h
    split at h
    · cases h
    · exact Option.some.inj h ▸ .purgeAborts i p hi

theorem mem_expiredIds {cutoff : Time} {id : Uuid} :
    id ∈ expiredIds db cutoff ↔ ∃ m ∈ db.message, m.expired cutoff ∧ m.id = id := by
  simp only [expiredIds, List.mem_map, List.mem_filter, and_assoc, Table.mem_def]

theorem updateMessage_congr {q r : Message → Bool} {f : Message → Message}
    (hf : Message.KeepsKeys f) (h : ∀ m ∈ db.message, q m = r m) :
    db.updateMessage q f hf = db.updateMessage r f hf := by
  have hrows : db.message.update (fun m ↦ if q m then f m else m) (hf.clash q) =
      db.message.update (fun m ↦ if r m then f m else m) (hf.clash r) := by
    refine Table.ext (List.map_congr_left fun m hm ↦ ?_)
    rw [h m hm]
  rw [Db.updateMessage, hrows]
  rfl

/-- What a purge commits that nobody got in the way of. -/
theorem purged_expired (db : Db) (now cutoff : Time) :
    purged db now (db.messageAttachment.filter (·.messageId ∈ expiredIds db cutoff))
      (expiredIds db cutoff) = blankBodies (purgeAttachments db cutoff) now cutoff := by
  have hattachments : db.messageAttachment.filter
        (· ∉ db.messageAttachment.filter (·.messageId ∈ expiredIds db cutoff)) =
      db.messageAttachment.filter (·.messageId ∉ expiredIds db cutoff) := by
    refine List.filter_congr fun a ha ↦ ?_
    simp only [List.mem_filter, ha, decide_eq_true_eq, true_and]
  rw [purged, hattachments]
  refine updateMessage_congr _ fun m hm ↦ Bool.eq_iff_iff.mpr ?_
  rw [decide_eq_true_eq, mem_expiredIds]
  constructor
  · intro h
    obtain ⟨m', hm', he, hid⟩ := h
    exact Table.eq_of_clash hm' hm (.inl hid) ▸ he
  · exact fun h ↦ ⟨m, hm, h, rfl⟩

theorem step_alone {now : Time} (h : p.step db [] [] = some (db', p')) :
    step { now, db, purges := [p] } (.purgeStep 0) = some { now, db := db', purges := [p'] } := by
  show ((p.step db [] []).bind _ : Option State) = _
  rw [h]
  rfl

/-- A purge with nobody beside it is the one that takes one step. -/
theorem purge_alone {now : Time} {days : ℤ} (h : purgeBodies db now days = some db') :
    ∃ s, Run step { now, db } (.purge days :: List.replicate 5 (.purgeStep 0)) s ∧ s.db = db' := by
  unfold purgeBodies at h
  dsimp only at h
  split_ifs at h with hr
  obtain rfl := Option.some.inj h
  rw [← purged_expired]
  let p : PurgeCall := { days, now }
  let ids := expiredIds db p.cutoff
  let rows := db.messageAttachment.filter (·.messageId ∈ ids)
  have hids : ids.filter (· ∈ expiredIds db p.cutoff) = ids :=
    List.filter_eq_self.mpr fun id hid ↦ decide_eq_true hid
  have h₁ : p.step db [] [] = some (db, { p with stage := .delete ids }) := if_pos hr
  have h₂ : PurgeCall.step db [] [] { p with stage := .delete ids } =
      some (db, { p with stage := .deleted rows }) :=
    if_neg fun ⟨_, _, ha⟩ ↦ List.not_mem_nil ha
  have h₃ : PurgeCall.step db [] [] { p with stage := .deleted rows } =
      some (db, { p with stage := .update rows ids }) := rfl
  have h₄ : PurgeCall.step db [] [] { p with stage := .update rows ids } =
      some (db, { p with stage := .blanked rows (ids.filter (· ∈ expiredIds db p.cutoff)) }) :=
    if_neg fun ⟨_, _, hid⟩ ↦ List.not_mem_nil hid
  rw [hids] at h₄
  exact ⟨_, .cons rfl (.cons (step_alone h₁) (.cons (step_alone h₂) (.cons (step_alone h₃)
    (.cons (step_alone h₄) (.one (step_alone rfl)))))), rfl⟩

end Postbud.Purging
