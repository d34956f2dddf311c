import Postbud.Db.PurgeCall
import Postbud.Lib.Processes

namespace Postbud.Purging

open Lib Lib.Processes Lib.Transition

variable {m : Message} {p p' : PurgeCall} {c c' : RecordCall}

def Record.set (record : Record) (now : Time) (attempt : ℕ) (m : Message) : Message :=
  match record with
  | .accepted relayQueueId => m.accept attempt relayQueueId now
  | .transient _ detail retryIn => m.retry attempt (now + seconds retryIn) detail
  | .failed _ detail => m.giveUp attempt detail now

/-- The calls that complete a message. -/
def Record.completes : Record → Bool
  | .transient .. => false
  | _ => true

/-- A record keeps the content of a message, and when it was purged. -/
structure Keeps (m m' : Message) : Prop where
  id : m'.id = m.id
  bodyText : m'.bodyText = m.bodyText
  bodyHtml : m'.bodyHtml = m.bodyHtml
  bodyPurgedAt : m'.bodyPurgedAt = m.bodyPurgedAt

theorem Record.keeps_set (record : Record) (now : Time) (attempt : ℕ) (m : Message) :
    Keeps m (record.set now attempt m) := by
  cases record <;> exact ⟨rfl, rfl, rfl, rfl⟩

/-- A record that makes a message expire completes it before the cutoff. -/
theorem Record.expired_set {record : Record} {now cutoff : Time} {attempt : ℕ}
    (h : (record.set now attempt m).expired cutoff) :
    m.expired cutoff ∨ record.completes ∧ now < cutoff ∧ m.bodyPurgedAt = none := by
  cases record with
  | transient smtpCode detail retryIn => exact .inl h
  | accepted relayQueueId =>
    obtain ⟨hlt, hnone⟩ := Bool.and_eq_true_iff.mp h
    exact .inr ⟨rfl, of_decide_eq_true hlt, Option.isNone_iff_eq_none.mp hnone⟩
  | failed smtpCode detail =>
    obtain ⟨hlt, hnone⟩ := Bool.and_eq_true_iff.mp h
    exact .inr ⟨rfl, of_decide_eq_true hlt, Option.isNone_iff_eq_none.mp hnone⟩

section Invariant

variable [Platform] {db db' : Db} {s s' : State} {a : Action} {l : List Action}

/-- A purged message keeps no content. -/
def Clean (db : Db) : Prop :=
  ∀ m ∈ db.message, m.bodyPurgedAt.isSome → m.bodyText = none ∧ m.bodyHtml = none ∧
    ∀ a ∈ db.messageAttachment, a.messageId ≠ m.id

/-- What a purge has found so far covers the content of whatever it may blank. -/
def PurgeCall.Covers (db : Db) (p : PurgeCall) : Prop :=
  match p.stage with
  | .delete ids => ∀ m ∈ db.message, m.expired p.cutoff → ∀ a ∈ db.messageAttachment,
      a.messageId = m.id → m.id ∈ ids
  | .deleted rows => ∀ m ∈ db.message, m.expired p.cutoff → ∀ a ∈ db.messageAttachment,
      a.messageId = m.id → a ∈ rows
  | .update rows ids | .blanked rows ids =>
    ∀ a ∈ db.messageAttachment, a.messageId ∈ ids → a ∈ rows
  | _ => True

/-- The purge is between the snapshots of its two statements. -/
def PurgeCall.between (p : PurgeCall) : Bool :=
  match p.stage with
  | .delete _ | .deleted _ => true
  | _ => false

/-- No call that completes a message, begun before the cutoff of a purge that
is between its statements, commits then, unless the purge has found the
message, or nothing is there to be purged. -/
def Undisturbed (s : State) : Action → Prop
  | .recordStep i => ∀ c ∈ s.records[i]?, c.stage = .logged → c.record.completes →
    ∀ p ∈ s.purges, p.between → c.now < p.cutoff → ∀ m ∈ s.db.message.rows, m.id = c.id →
      m.bodyPurgedAt = none → (∃ a ∈ s.db.messageAttachment, a.messageId = m.id) →
        m.expired p.cutoff
  | _ => True

instance (s : State) : ∀ a, Decidable (Undisturbed s a)
  | .recordStep i => inferInstanceAs (Decidable (∀ c ∈ s.records[i]?, _))
  | .tick _ | .record .. | .recordAborts _ | .purge _ | .purgeStep _ | .purgeAborts _ =>
    .isTrue trivial

instance (db : Db) : Decidable (Clean db) :=
  inferInstanceAs (Decidable (∀ m ∈ db.message.rows, _))

/-- Whatever a purge finds old enough has no attachment once it commits. -/
def NoneEscapes (db : Db) : Prop :=
  ∀ now days db', purgeBodies db now days = some db' → ∀ m ∈ db.message,
    m.completedAt.any (· < now - seconds (86400 * days.bmod 4294967296)) →
      ∀ a ∈ db'.messageAttachment, a.messageId ≠ m.id

theorem Clean.noneEscapes (h : Clean db) : NoneEscapes db := by
  intro now days db' hpurge m hm hold a ha hid
  unfold purgeBodies at hpurge
  dsimp only at hpurge
  split_ifs at hpurge
  obtain rfl := Option.some.inj hpurge
  obtain ⟨ha, hkept⟩ := List.mem_filter.mp ha
  by_cases hpurged : m.bodyPurgedAt.isSome
  · exact (h m hm hpurged).2.2 a ha hid
  · have hnone : m.bodyPurgedAt = none := Option.not_isSome_iff_eq_none.mp hpurged
    have he : m.expired (now - seconds (86400 * days.bmod 4294967296)) :=
      Bool.and_eq_true_iff.mpr ⟨hold, Option.isNone_iff_eq_none.mpr hnone⟩
    exact of_decide_eq_true hkept (mem_expiredIds.mpr ⟨m, hm, he, hid.symm⟩)

structure Inv (s : State) : Prop where
  clean : Clean s.db
  covers : ∀ p ∈ s.purges, p.Covers s.db

theorem write_spec (record : Record) (db : Db) (now : Time) (id : Uuid) (attempt : ℕ) :
    (record.write db now id attempt).messageAttachment = db.messageAttachment ∧
      ∀ m', m' ∈ (record.write db now id attempt).message ↔
        ∃ m ∈ db.message, (if m.id = id then record.set now attempt m else m) = m' := by
  have hmem (f : Message → Message) (hf : Message.KeepsKeys f) (m' : Message) :
      m' ∈ (db.updateMessage (·.id = id) f hf).message ↔
        ∃ m ∈ db.message, (if m.id = id then f m else m) = m' := by
    rw [Table.mem_def, Db.rows_updateMessage, List.mem_map]
    simp only [decide_eq_true_eq, Table.mem_def]
  have hkeys : Message.KeepsKeys (record.set now attempt) := by
    cases record <;> exact ⟨fun _ ↦ rfl, fun _ ↦ rfl, fun _ ↦ rfl⟩
  cases record with
  | accepted relayQueueId => exact ⟨rfl, hmem _ hkeys⟩
  | transient smtpCode detail retryIn => exact ⟨rfl, hmem _ hkeys⟩
  | failed smtpCode detail => exact ⟨rfl, hmem _ hkeys⟩

/-- What a purge covers it covers while attachments only go, and as long as
no message with attachments expires while it is between its statements. -/
theorem PurgeCall.Covers.mono (h : p.Covers db)
    (hattachment : ∀ a ∈ db'.messageAttachment, a ∈ db.messageAttachment)
    (hexpired : p.between → ∀ m' ∈ db'.message, m'.expired p.cutoff →
      (∃ a ∈ db'.messageAttachment, a.messageId = m'.id) →
        ∃ m ∈ db.message, m.id = m'.id ∧ m.expired p.cutoff) : p.Covers db' := by
  unfold Covers at h ⊢
  unfold between at hexpired
  cases hs : p.stage with
  | delete ids =>
    simp only [hs] at h hexpired ⊢
    intro m' hm' he a ha hid
    obtain ⟨m, hm, hmid, hme⟩ := hexpired trivial m' hm' he ⟨a, ha, hid⟩
    exact hmid ▸ h m hm hme a (hattachment a ha) (hid.trans hmid.symm)
  | deleted rows =>
    simp only [hs] at h hexpired ⊢
    intro m' hm' he a ha hid
    obtain ⟨m, hm, hmid, hme⟩ := hexpired trivial m' hm' he ⟨a, ha, hid⟩
    exact h m hm hme a (hattachment a ha) (hid.trans hmid.symm)
  | update rows ids =>
    simp only [hs] at h ⊢
    exact fun a ha ↦ h a (hattachment a ha)
  | blanked rows ids =>
    simp only [hs] at h ⊢
    exact fun a ha ↦ h a (hattachment a ha)
  | _ => trivial

/-- A record commits. -/
theorem Inv.record (h : Inv s) {i : ℕ} (hi : s.records[i]? = some c) (hc : c.stage = .logged)
    (hu : Undisturbed s (.recordStep i)) :
    Inv { s with
      db := c.record.write s.db c.now c.id c.attempt
      records := s.records.set i { c with stage := .returned } } := by
  obtain ⟨hattachment, hmessage⟩ := write_spec c.record s.db c.now c.id c.attempt
  refine ⟨fun m' hm' hp ↦ ?_, fun p hp ↦ ?_⟩
  · obtain ⟨m, hm, rfl⟩ := (hmessage m').mp hm'
    have hkeeps : Keeps m (if m.id = c.id then c.record.set c.now c.attempt m else m) := by
      split_ifs
      · exact c.record.keeps_set c.now c.attempt m
      · exact ⟨rfl, rfl, rfl, rfl⟩
    rw [hkeeps.bodyPurgedAt] at hp
    rw [hkeeps.bodyText, hkeeps.bodyHtml, hkeeps.id, hattachment]
    exact h.clean m hm hp
  · refine (h.covers p hp).mono (fun a ha ↦ hattachment ▸ ha) fun hbetween m' hm' he hheld ↦ ?_
    rw [hattachment] at hheld
    obtain ⟨m, hm, rfl⟩ := (hmessage m').mp hm'
    split_ifs at he hheld ⊢ with hid
    · have hkeeps := c.record.keeps_set c.now c.attempt m
      refine ⟨m, hm, hkeeps.id.symm, ?_⟩
      rcases Record.expired_set he with hme | ⟨hcompletes, hlt, hnone⟩
      · exact hme
      · exact hu c hi hc hcompletes p hp hbetween hlt m hm hid hnone (hkeeps.id ▸ hheld)
    · exact ⟨m, hm, rfl, he⟩

/-- A purge commits. -/
theorem Inv.commit (h : Inv s) {i : ℕ} {rows : List MessageAttachment} {ids : List Uuid}
    (hi : s.purges[i]? = some p) (hp : p.stage = .blanked rows ids) :
    Inv { s with
      db := purged s.db p.now rows ids
      purges := s.purges.set i { p with stage := .returned ids.length } } := by
  have hcovers := h.covers p (List.mem_of_getElem? hi)
  simp only [PurgeCall.Covers, hp] at hcovers
  have hmessage (m' : Message) : m' ∈ (purged s.db p.now rows ids).message ↔
      ∃ m ∈ s.db.message, (if m.id ∈ ids then m.blank p.now else m) = m' := by
    rw [Table.mem_def, purged, Db.rows_updateMessage, List.mem_map]
    simp only [decide_eq_true_eq, Table.mem_def]
  have hattachment : ∀ a ∈ (purged s.db p.now rows ids).messageAttachment,
      a ∈ s.db.messageAttachment ∧ a ∉ rows := by
    intro a ha
    obtain ⟨ha, hrows⟩ := List.mem_filter.mp ha
    exact ⟨ha, of_decide_eq_true hrows⟩
  refine ⟨fun m' hm' hpurged ↦ ?_, forall_mem_set trivial fun p' hp' ↦ ?_⟩
  · obtain ⟨m, hm, rfl⟩ := (hmessage m').mp hm'
    split_ifs at hpurged ⊢ with hid
    · refine ⟨rfl, rfl, fun a ha he ↦ ?_⟩
      obtain ⟨ha, hrows⟩ := hattachment a ha
      have he : a.messageId = m.id := he
      exact hrows (hcovers a ha (he ▸ hid))
    · obtain ⟨htext, hhtml, hnone⟩ := h.clean m hm hpurged
      exact ⟨htext, hhtml, fun a ha ↦ hnone a (hattachment a ha).1⟩
  · refine (h.covers p' (List.mem_of_mem_eraseIdx hp')).mono (fun a ha ↦ (hattachment a ha).1)
      fun _ m' hm' he _ ↦ ?_
    obtain ⟨m, hm, rfl⟩ := (hmessage m').mp hm'
    split_ifs at he with hid
    · simp only [Message.expired, Message.blank, Option.isNone_some, Bool.and_false,
        Bool.false_eq_true] at he
    · rw [if_neg hid]
      exact ⟨m, hm, rfl, he⟩

/-- A purge that commits nothing covers what it has found. -/
theorem PurgeCall.Step.covers (h : PurgeCall.Step db p db' p') (hp : p.Covers db)
    (hdb : ∀ rows ids, p.stage ≠ .blanked rows ids) : db' = db ∧ p'.Covers db := by
  cases h with
  | failed => exact ⟨rfl, trivial⟩
  | found => exact ⟨rfl, fun m hm he a _ _ ↦ mem_expiredIds.mpr ⟨m, hm, he, rfl⟩⟩
  | deleted ids hs =>
    simp only [Covers, hs] at hp
    refine ⟨rfl, fun m hm he a ha hid ↦ List.mem_filter.mpr ⟨ha, decide_eq_true ?_⟩⟩
    exact hid ▸ hp m hm he a ha hid
  | foundAgain rows hs =>
    simp only [Covers, hs] at hp
    refine ⟨rfl, fun a ha hid ↦ ?_⟩
    obtain ⟨m, hm, he, hmid⟩ := mem_expiredIds.mp hid
    exact hp m hm he a ha hmid.symm
  | blanked rows ids hs =>
    simp only [Covers, hs] at hp
    exact ⟨rfl, fun a ha hid ↦ hp a ha (List.mem_of_mem_filter hid)⟩
  | committed rows ids hs => exact absurd hs (hdb rows ids)

theorem Inv.step (h : Inv s) (hu : Undisturbed s a) (hs : Step s a s') : Inv s' := by
  cases hs with
  | tick dt => exact ⟨h.clean, h.covers⟩
  | record id attempt record => exact ⟨h.clean, h.covers⟩
  | recordStep i c c' db hi hc =>
    cases hc with
    | moved stage => exact ⟨h.clean, h.covers⟩
    | committed hc => exact h.record hi hc hu
  | recordAborts i c hi => exact ⟨h.clean, h.covers⟩
  | purge days => exact ⟨h.clean, forall_mem_concat h.covers trivial⟩
  | purgeStep i p p' db hi hp =>
    by_cases hb : ∃ rows ids, p.stage = .blanked rows ids
    · obtain ⟨rows, ids, hb⟩ := hb
      cases hp with
      | committed rows' ids' hb' => exact h.commit hi hb'
      | failed =>
        exact ⟨h.clean, forall_mem_set trivial fun y hy ↦ h.covers y (List.mem_of_mem_eraseIdx hy)⟩
      | found hp | deleted ids hp | foundAgain rows hp | blanked rows ids hp => cases hb.symm.trans hp
    · have hcovers := h.covers p (List.mem_of_getElem? hi)
      obtain ⟨rfl, hcovers'⟩ := hp.covers hcovers fun rows ids he ↦ hb ⟨rows, ids, he⟩
      exact ⟨h.clean, forall_mem_set hcovers' fun y hy ↦ h.covers y (List.mem_of_mem_eraseIdx hy)⟩
  | purgeAborts i p hi =>
    exact ⟨h.clean, forall_mem_set trivial fun y hy ↦ h.covers y (List.mem_of_mem_eraseIdx hy)⟩

/-- From a clean database, however purges and records interleave, no state of
a run has a purged message with content, nor an attachment that the next purge
would leave behind, as long as no record disturbs a purge. -/
theorem purge_clean (db : Db) (now : Time) (l : List Action) (h : Clean db)
    (hu : Along step Undisturbed { now, db } l) :
    Always step (fun s ↦ Clean s.db ∧ NoneEscapes s.db) { now, db } l := by
  have hinv : Inv { now, db } := ⟨h, fun p hp ↦ absurd hp List.not_mem_nil⟩
  intro l' t hl ht
  have hinv' := always_of_along (fun s a s' hi hu ha ↦ hi.step hu (step_spec ha)) hu hinv l' t hl ht
  exact ⟨hinv'.clean, hinv'.clean.noneEscapes⟩

end Invariant

section Runs

attribute [local instance] Platform.ascii

/-- One queued message with an attachment. -/
def invoiceDb : Db where
  message := ⟨[{
    id := 1, tenantId := 7, idempotencyKey := "invoice-1".toList
    mailFrom := "billing@example.com".toList, fromName := none
    rcptTo := "a@example.org".toList, replyTo := none, subject := "Invoice".toList
    bodyText := some "See the attachment.".toList, bodyHtml := none
    nextAttemptAt := 0, createdAt := 0 }], List.pairwise_singleton _ _⟩
  messageAttachment := [{
    id := 2, messageId := 1, filename := "invoice.pdf".toList
    contentType := "application/pdf".toList, content := [37, 80, 68, 70], sha256 := [], position := 0 }]

/-- The worker records before the first statement of the purge. -/
def recordedBefore : List Action :=
  [.record 1 1 (.accepted none), .tick 1, .purge 0, .recordStep 0, .recordStep 0, .recordStep 0,
    .purgeStep 0, .purgeStep 0, .purgeStep 0, .purgeStep 0, .purgeStep 0]

theorem purge_clean_recordedBefore : ∃ s, Run step { now := 0, db := invoiceDb } recordedBefore s ∧
    s.db.messageAttachment = [] ∧ s.db.message.rows.map (·.bodyPurgedAt) = [some 1] ∧
    Clean s.db ∧ NoneEscapes s.db := by
  have hrun : (exec step { now := 0, db := invoiceDb } recordedBefore).any fun s ↦
      s.db.messageAttachment = [] && s.db.message.rows.map (·.bodyPurgedAt) = [some 1] := by
    decide +kernel
  obtain ⟨s, hs, hp⟩ := run_of_any hrun
  simp only [Bool.and_eq_true, decide_eq_true_eq] at hp
  have hclean := purge_clean invoiceDb 0 recordedBefore (by decide +kernel) (by decide +kernel)
  exact ⟨s, hs, hp.1, hp.2, hclean _ s List.prefix_rfl hs⟩

/-- The worker records after the purge has looked for attachments, and before
it looks for bodies: the next purges no longer look at the message. -/
def recordedBetween : List Action :=
  [.record 1 1 (.accepted none), .tick 1, .purge 0, .purgeStep 0, .purgeStep 0,
    .recordStep 0, .recordStep 0, .recordStep 0, .purgeStep 0, .purgeStep 0, .purgeStep 0,
    .tick 86400000000, .purge 0, .purgeStep 1, .purgeStep 1, .purgeStep 1, .purgeStep 1, .purgeStep 1]

theorem recordedBetween_keeps_attachment : Clean invoiceDb ∧
    ∃ s, Run step { now := 0, db := invoiceDb } recordedBetween s ∧ ¬ Clean s.db ∧
      s.db.messageAttachment = invoiceDb.messageAttachment ∧
      s.db.message.rows.map (·.bodyPurgedAt) = [some 1] := by
  have hrun : (exec step { now := 0, db := invoiceDb } recordedBetween).any fun s ↦
      ! decide (Clean s.db) && s.db.messageAttachment = invoiceDb.messageAttachment &&
        s.db.message.rows.map (·.bodyPurgedAt) = [some 1] := by
    decide +kernel
  obtain ⟨s, hs, hp⟩ := run_of_any hrun
  simp only [Bool.and_eq_true, Bool.not_eq_true', decide_eq_true_eq, decide_eq_false_iff_not] at hp
  exact ⟨by decide +kernel, s, hs, hp.1.1, hp.1.2, hp.2⟩

end Runs

end Postbud.Purging
