import Postbud.Lib.Processes
import Postbud.System.Rows

namespace Postbud

open Lib Lib.Processes

variable [Platform]

def Db.attachmentsOf (db : Db) (messageId : Uuid) : List MessageAttachment :=
  db.messageAttachment.filter (·.messageId = messageId)

structure Holds (messageId : Uuid) (attachments : List Attachment)
    (rows : List MessageAttachment) : Prop where
  content : rows.map (fun r ↦ (⟨r.filename, r.contentType, r.content⟩ : Attachment)) = attachments
  position : rows.map (·.position) = List.range attachments.length
  row : ∀ r ∈ rows, r.messageId = messageId ∧ r.sha256 = Platform.sha256 r.content

theorem Holds.nil (messageId : Uuid) : Holds messageId [] [] := ⟨rfl, rfl, nofun⟩

theorem Holds.concat {messageId : Uuid} {attachments : List Attachment}
    {rows : List MessageAttachment} (h : Holds messageId attachments rows) (a : Attachment)
    (uuid : Uuid) :
    Holds messageId (attachments ++ [a]) (rows ++ [a.row uuid messageId rows.length]) where
  content := by rw [List.map_append, h.content]; rfl
  position := by
    have hlen : rows.length = attachments.length := by rw [← h.content, List.length_map]
    rw [List.map_append, h.position, List.length_append, List.length_singleton,
      List.range_succ, hlen]
    rfl
  row r hr := by
    rcases List.mem_append.mp hr with hr | hr
    · exact h.row r hr
    · obtain rfl := List.mem_singleton.mp hr
      exact ⟨rfl, rfl⟩

/-- What every action leaves of a database: messages keep their mail and,
until they are purged, their attachments; a suppression that is active was
active before or has a new number; and numbers are not given back. -/
structure Db.Follows (db db' : Db) : Prop where
  message : ∀ m ∈ db.message, ∃ m' ∈ db'.message, m.SameMail m' ∧
    (m'.bodyPurgedAt = none → db'.attachmentsOf m.id = db.attachmentsOf m.id)
  suppression : ∀ x ∈ db'.suppression, x.active → x ∈ db.suppression ∨ db.suppressionSeq < x.id
  seq : db.suppressionSeq ≤ db'.suppressionSeq

namespace AcceptCall

/-- What a call knows of the list it consulted: if it found nothing, then
what covers its recipient now has been added since. -/
def Consulted (db : Db) (c : AcceptCall) (suppressed : Bool) : Prop :=
  c.seen ≤ db.suppressionSeq ∧ (suppressed = false → ∀ x ∈ db.suppression, x.active →
    x.covers c.msg.tenantId c.msg.rcptTo → c.seen < x.id)

def Names (db : Db) (c : AcceptCall) (id : Uuid) : Prop :=
  ∃ m ∈ db.message, m.id = id ∧ m.tenantId = c.msg.tenantId ∧
    m.idempotencyKey = c.msg.idempotencyKey

def Stored (db : Db) (c : AcceptCall) (id : Uuid) (suppressed : Bool) : Prop :=
  ∃ m ∈ db.message, (c.msg.row id suppressed c.now).SameMail m ∧
    (m.bodyPurgedAt = none → Holds id c.msg.attachments (db.attachmentsOf id))

/-- What holds of a call between any two statements. -/
def Sound (db : Db) (c : AcceptCall) : Prop :=
  match c.stage with
  | .check | .failed => c.notified = false
  | .insert suppressed => c.notified = false ∧ c.Consulted db suppressed
  | .load => c.notified = false ∧ ∃ id, c.Names db id
  | .loaded id _ => c.notified = false ∧ c.Names db id
  | .store id suppressed stored =>
    c.notified = false ∧ c.Consulted db suppressed ∧
      Holds id (c.msg.attachments.take stored.length) stored
  | .commit id suppressed stored =>
    c.notified = false ∧ c.Consulted db suppressed ∧ Holds id c.msg.attachments stored
  | .returned ⟨id, _, true⟩ => c.notified = false ∧ c.Names db id
  | .returned ⟨id, status, false⟩ =>
    ∃ suppressed, status = (c.msg.row id suppressed c.now).status ∧ c.notified = !suppressed ∧
      c.Consulted db suppressed ∧ c.Stored db id suppressed

variable {db db' : Db} {others : List Message} {uuid id : Uuid} {c c' : AcceptCall}
  {suppressed : Bool}

theorem Consulted.mono (hf : db.Follows db') (h : c.Consulted db suppressed) :
    c.Consulted db' suppressed := by
  refine ⟨h.1.trans hf.seq, fun hs x hx ha hc ↦ ?_⟩
  rcases hf.suppression x hx ha with hx | hx
  · exact h.2 hs x hx ha hc
  · exact lt_of_le_of_lt h.1 hx

theorem Names.mono (hf : db.Follows db') (h : c.Names db id) : c.Names db' id := by
  obtain ⟨m, hm, hid, ht, hk⟩ := h
  obtain ⟨m', hm', hmail, -⟩ := hf.message m hm
  exact ⟨m', hm', hmail.id.trans hid, hmail.tenantId.trans ht, hmail.idempotencyKey.trans hk⟩

theorem Stored.mono (hf : db.Follows db') (h : c.Stored db id suppressed) :
    c.Stored db' id suppressed := by
  obtain ⟨m, hm, hmail, hatt⟩ := h
  obtain ⟨m', hm', hmail', hatt'⟩ := hf.message m hm
  refine ⟨m', hm', hmail.trans hmail', fun hp ↦ ?_⟩
  have hid : m.id = id := hmail.id
  rw [← hid, hatt' hp, hid]
  exact hatt (hmail'.body hp).1

theorem Sound.mono (hf : db.Follows db') (h : c.Sound db) : c.Sound db' := by
  obtain ⟨msg, now, stage, seen, notified⟩ := c
  cases stage with
  | check => exact h
  | failed => exact h
  | insert suppressed => exact ⟨h.1, h.2.mono hf⟩
  | load =>
    obtain ⟨hn, id, h⟩ := h
    exact ⟨hn, id, h.mono hf⟩
  | loaded id status => exact ⟨h.1, h.2.mono hf⟩
  | store id suppressed stored => exact ⟨h.1, h.2.1.mono hf, h.2.2⟩
  | commit id suppressed stored => exact ⟨h.1, h.2.1.mono hf, h.2.2⟩
  | returned accepted =>
    obtain ⟨id, status, deduplicated⟩ := accepted
    cases deduplicated with
    | true => exact ⟨h.1, h.2.mono hf⟩
    | false =>
      obtain ⟨suppressed, hs, hn, hc, hst⟩ := h
      exact ⟨suppressed, hs, hn, hc.mono hf, hst.mono hf⟩

theorem Sound.notified (h : c.Sound db) (hc : ∀ accepted, c.stage ≠ .returned accepted) :
    c.notified = false := by
  obtain ⟨msg, now, stage, seen, notified⟩ := c
  cases stage with
  | check => exact h
  | failed => exact h
  | returned accepted => exact absurd rfl (hc accepted)
  | _ => exact h.1

theorem Step.follows (h : Step db others uuid c db' c') (hs : c.Sound db) : db.Follows db' := by
  refine ⟨fun m hm ↦ ⟨m, h.mem_message hm, .refl m, fun _ ↦ ?_⟩, ?_, h.suppression.2.ge⟩
  · rcases h.message with rfl | ⟨id, suppressed, stored, hc, -, hrows, hfree, hatt⟩
    · rfl
    · rw [Sound, hc] at hs
      have hno : stored.filter (·.messageId = m.id) = [] := by
        refine List.filter_eq_nil_iff.mpr fun r hr hid ↦ hfree m hm (.inl ?_)
        exact (of_decide_eq_true hid).symm.trans (hs.2.2.row r hr).1
      rw [Db.attachmentsOf, hatt, List.filter_append, hno, List.append_nil]
      rfl
  · intro x hx _
    rw [h.suppression.1] at hx
    exact .inl hx

/-- A call stays sound through its own statements. -/
theorem Step.sound (h : Step db others uuid c db' c') (hs : c.Sound db)
    (hatt : ∀ r ∈ db.messageAttachment, ∃ m ∈ db.message, m.id = r.messageId) : c'.Sound db' := by
  have hf := h.follows hs
  cases h with
  | check hc =>
    rw [Sound, hc] at hs
    refine ⟨hs, le_rfl, fun hno x hx ha hcov ↦ ?_⟩
    have hyes := Suppression.isSuppressedTx_iff.mpr ⟨x, hx, ha, hcov⟩
    rw [hno] at hyes
    cases hyes
  | conflict suppressed m hc hm ht hk =>
    rw [Sound, hc] at hs
    exact ⟨hs.1, m.id, m, hm, rfl, ht, hk⟩
  | inserted suppressed hc hdb hothers =>
    rw [Sound, hc] at hs
    exact ⟨hs.1, hs.2, .nil uuid⟩
  | found m hc hm ht hk =>
    rw [Sound, hc] at hs
    exact ⟨hs.1, m, hm, rfl, ht, hk⟩
  | loaded id status hc =>
    rw [Sound, hc] at hs
    exact ⟨hs.1, hs.2⟩
  | stored id suppressed stored a hc ha =>
    rw [Sound, hc] at hs
    refine ⟨hs.1, hs.2.1, ?_⟩
    have hholds := hs.2.2.concat a uuid
    rw [List.length_append, List.length_singleton, List.take_add_one, ha]
    exact hholds
  | all id suppressed stored hc ha =>
    rw [Sound, hc] at hs
    refine ⟨hs.1, hs.2.1, ?_⟩
    have hholds := hs.2.2
    rwa [List.take_of_length_le ha] at hholds
  | committed id suppressed stored message hc ht =>
    rw [Sound, hc] at hs
    obtain ⟨hn, hcons, hholds⟩ := hs
    obtain ⟨hfree, hrows⟩ := Table.insert?_eq_some.mp ht
    refine ⟨suppressed, rfl, rfl, hcons.mono hf, c.msg.row id suppressed c.now, ?_, .refl _, ?_⟩
    · rw [Table.mem_def, hrows]
      exact List.mem_append_right _ List.mem_cons_self
    · intro _
      have hold : db.messageAttachment.filter (·.messageId = id) = [] := by
        apply List.filter_eq_nil_iff.mpr
        intro r hr hid
        obtain ⟨m, hm, hmid⟩ := hatt r hr
        exact hfree m hm (.inl (hmid.trans (of_decide_eq_true hid)))
      have hnew : stored.filter (·.messageId = id) = stored :=
        List.filter_eq_self.mpr fun r hr ↦ decide_eq_true (hholds.row r hr).1
      rw [Db.attachmentsOf, List.filter_append, hold, hnew, List.nil_append]
      exact hholds
  | failed hc => exact hs.notified hc

end AcceptCall

end Postbud

namespace Postbud

open Lib Lib.Processes

variable [Platform]

namespace AcceptCall

variable {db db' : Db} {others : List Message} {uuid : Uuid} {c c' d : AcceptCall}

def RowsApart (c d : AcceptCall) : Prop := ∀ r ∈ c.row, ∀ r' ∈ d.row, ¬ r.Clash r'

omit [Platform] in
instance : Std.Symm RowsApart where
  symm _ _ h r hr r' hr' hc := h r' hr' r hr (symm hc)

/-- The row was inserted by this call, and is still suppressed if it was then. -/
def Owns (c : AcceptCall) (m : Message) : Prop :=
  ∃ status, c.stage = .returned ⟨m.id, status, false⟩ ∧
    (status = .suppressed → m.status = .suppressed ∧ m.completedAt.isSome)

theorem Step.row (h : Step db others uuid c db' c') : c'.row = none ∨ c'.row = c.row ∨
    ∃ suppressed, c'.row = some (c.msg.row uuid suppressed c.now) ∧
      (∀ m ∈ db.message, ¬ m.Clash (c.msg.row uuid suppressed c.now)) ∧
      ∀ m ∈ others, ¬ m.Clash (c.msg.row uuid suppressed c.now) := by
  cases h with
  | inserted suppressed hc hdb hothers => exact .inr (.inr ⟨suppressed, rfl, hdb, hothers⟩)
  | stored id suppressed stored a hc ha =>
    refine .inr (.inl ?_)
    simp only [AcceptCall.row, hc]
  | all id suppressed stored hc ha =>
    refine .inr (.inl ?_)
    simp only [AcceptCall.row, hc]
  | committed id suppressed stored message hc ht =>
    refine .inr (.inl ?_)
    cases suppressed <;> simp [AcceptCall.row, hc, NewMessage.row]
  | _ => exact .inl rfl

/-- A row that a call has inserted is pending, or its key and id are taken in the table. -/
theorem Sound.row_cases (hs : d.Sound db) {r : Message} (hr : r ∈ d.row) :
    r ∈ d.pending ∨ ∃ m ∈ db.message, ∀ r', r.Clash r' → m.Clash r' := by
  obtain ⟨msg, now, stage, seen, notified⟩ := d
  cases stage with
  | store id suppressed stored => exact .inl hr
  | commit id suppressed stored => exact .inl hr
  | returned accepted =>
    obtain ⟨id, status, deduplicated⟩ := accepted
    cases deduplicated with
    | true => cases hr
    | false =>
      obtain ⟨suppressed, -, -, -, m, hm, hmail, -⟩ := hs
      obtain rfl := Option.some.inj hr
      refine .inr ⟨m, hm, fun r' hc ↦ ?_⟩
      rcases hc with hid | ⟨ht, hk⟩
      · exact .inl (hmail.id.trans hid)
      · exact .inr ⟨hmail.tenantId.trans ht, hmail.idempotencyKey.trans hk⟩
  | _ => cases hr

end AcceptCall

namespace System

/-- What holds in every state of the system. -/
structure Inv (s : State) : Prop where
  numbered : s.db.Numbered
  sound : ∀ c ∈ s.accepts, c.Sound s.db
  apart : Apart AcceptCall.RowsApart s.accepts
  owned : ∀ m ∈ s.db.message, ∃ c ∈ s.accepts, c.Owns m
  attached : ∀ r ∈ s.db.messageAttachment, ∃ m ∈ s.db.message, m.id = r.messageId
  held : ∀ d ∈ s.held, ∃ m ∈ s.db.message, m.id = d.claimed.id ∧ m.status ≠ .suppressed

theorem inv_init (now : Time) : Inv { now } where
  numbered _ hx := absurd hx (Table.not_mem_empty _)
  sound _ hc := absurd hc List.not_mem_nil
  apart _ _ _ _ _ hc := absurd hc.symm (Option.some_ne_none _)
  owned _ hm := absurd hm (Table.not_mem_empty _)
  attached _ hr := absurd hr List.not_mem_nil
  held _ hd := absurd hd List.not_mem_nil

variable {s s' : State} {a : Action}

theorem Step.accepts (h : Step s a s') : s'.accepts = s.accepts ∨
    (∃ msg, s'.accepts = s.accepts ++ [{ msg, now := s.now }]) ∨
    ∃ i uuid c c', s.accepts[i]? = some c ∧ s'.accepts = s.accepts.set i c' ∧
      AcceptCall.Step s.db (s.others i) uuid c s'.db c' := by
  cases h with
  | submit msg => exact .inr (.inl ⟨msg, rfl⟩)
  | accept i uuid c c' db hi h => exact .inr (.inr ⟨i, uuid, c, c', hi, rfl, h⟩)
  | acceptFails i c hi hc => exact .inr (.inr ⟨i, 0, c, _, hi, rfl, .failed hc⟩)
  | _ => exact .inl rfl

theorem Step.mem_accepts (h : Step s a s') {c : AcceptCall} (hc : c ∈ s.accepts)
    {accepted : Accepted} (hr : c.stage = .returned accepted) : c ∈ s'.accepts := by
  rcases h.accepts with he | ⟨msg, he⟩ | ⟨i, uuid, c₀, c', hi, he, hstep⟩
  · exact he.symm ▸ hc
  · rw [he]
    exact List.mem_append_left _ hc
  · rw [he]
    apply mem_set_of_ne hi hc
    intro he
    subst he
    exact hstep.not_returned accepted hr

theorem Step.mem_held (h : Step s a s') {d : Delivery} (hd : d ∈ s'.held) :
    (∃ d₀ ∈ s.held, d₀.claimed = d.claimed ∧ d₀.seen = d.seen) ∨
    ∃ worker batch locked, d.claimed ∈ (Postbud.claim s.db s.now worker batch locked).2 ∧
      d.seen = s.db.suppressionSeq ∧ s'.db = (Postbud.claim s.db s.now worker batch locked).1 := by
  cases h with
  | claim worker batch locked =>
    rcases List.mem_append.mp hd with hd | hd
    · exact .inl ⟨d, hd, rfl, rfl⟩
    · obtain ⟨x, hx, rfl⟩ := List.mem_map.mp hd
      exact .inr ⟨worker, batch, locked, hx, rfl, rfl⟩
  | handoff d₀ outcome hd₀ ho =>
    rcases List.mem_append.mp hd with hd | hd
    · exact .inl ⟨d, List.mem_of_mem_erase hd, rfl, rfl⟩
    · obtain rfl := List.mem_singleton.mp hd
      exact .inl ⟨d₀, hd₀, rfl, rfl⟩
  | record d₀ outcome hd₀ ho => exact .inl ⟨d, List.mem_of_mem_erase hd, rfl, rfl⟩
  | abandon d₀ hd₀ => exact .inl ⟨d, List.mem_of_mem_erase hd, rfl, rfl⟩
  | _ => exact .inl ⟨d, hd, rfl, rfl⟩

theorem Step.numbered (h : Step s a s') (hn : s.db.Numbered) : s'.db.Numbered := by
  cases h with
  | accept i uuid c c' db hi h =>
    obtain ⟨hs, hq⟩ := h.suppression
    simpa only [Db.Numbered, hs, hq] using hn
  | record d outcome hd ho =>
    rw [Worker.deliverOne_frame]
    exact hn
  | suppress tenantId address reason source detail => exact Suppression.numbered_add hn
  | lift id removedBy => exact Suppression.numbered_remove hn
  | ingest i c c' db hi h =>
    cases h with
    | suppressed address report rest out hc => exact Suppression.numbered_add hn
    | _ => exact hn
  | reconcile entries graceSecs =>
    rw [RelayQueue.reconcile_frame]
    exact hn
  | purge days db h =>
    obtain ⟨-, h⟩ := Option.ite_none_right_eq_some.mp h
    obtain rfl := Option.some.inj h
    exact hn
  | _ => exact hn

theorem attachmentsOf_purge {db : Db} {now cutoff : Time} {m m' : Message} (hm : m ∈ db.message)
    (hm' : m' ∈ (blankBodies (purgeAttachments db cutoff) now cutoff).message)
    (hid : m'.id = m.id) (hp : m'.bodyPurgedAt = none) :
    (purgeAttachments db cutoff).attachmentsOf m.id = db.attachmentsOf m.id := by
  rw [Table.mem_def, rows_blankBodies] at hm'
  obtain ⟨m₀, hm₀, rfl⟩ := List.mem_map.mp hm'
  have hkeep : ¬ m₀.expired cutoff := by
    intro he
    rw [if_pos he] at hp
    cases hp
  rw [if_neg hkeep] at hid
  obtain rfl : m₀ = m := db.message_eq_of_id hm₀ hm hid
  have hno : m₀.id ∉ (db.message.rows.filter (·.expired cutoff)).map (·.id) := by
    intro hmem
    obtain ⟨m₁, hm₁, hid₁⟩ := List.mem_map.mp hmem
    obtain ⟨hm₁, he⟩ := List.mem_filter.mp hm₁
    obtain rfl : m₁ = m₀ := db.message_eq_of_id hm₁ hm hid₁
    exact hkeep he
  simp only [Db.attachmentsOf, purgeAttachments, List.filter_filter]
  apply List.filter_congr
  intro r _
  by_cases hr : r.messageId = m₀.id
  · simp only [hr, hno, not_false_eq_true, decide_true, Bool.and_self]
  · simp only [hr, decide_false, Bool.false_and]

theorem Step.follows (h : Step s a s') (hi : Inv s) : s.db.Follows s'.db := by
  have hmail (m : Message) (hm : m ∈ s.db.message) : ∃ m' ∈ s'.db.message, m.SameMail m' := by
    obtain ⟨m', hm', hmail, -⟩ := h.message hm
    exact ⟨m', hm', hmail⟩
  -- Only a commit and a purge touch attachments, and only three actions the list.
  have hmessage (hatt : ∀ id, s'.db.attachmentsOf id = s.db.attachmentsOf id) (m : Message)
      (hm : m ∈ s.db.message) : ∃ m' ∈ s'.db.message, m.SameMail m' ∧
        (m'.bodyPurgedAt = none → s'.db.attachmentsOf m.id = s.db.attachmentsOf m.id) := by
    obtain ⟨m', hm', hmail⟩ := hmail m hm
    exact ⟨m', hm', hmail, fun _ ↦ hatt m.id⟩
  cases h with
  | accept i uuid c c' db hi' h => exact h.follows (hi.sound c (List.mem_of_getElem? hi'))
  | record d outcome hd ho =>
    rw [Worker.deliverOne_frame] at hmessage ⊢
    exact ⟨hmessage fun _ ↦ rfl, fun x hx _ ↦ .inl hx, le_rfl⟩
  | suppress tenantId address reason source detail =>
    exact ⟨hmessage fun _ ↦ rfl, fun x hx _ ↦ Suppression.mem_or_lt_of_mem_add hx, Nat.le_succ _⟩
  | lift id removedBy =>
    exact ⟨hmessage fun _ ↦ rfl, fun x hx ha ↦ .inl (Suppression.mem_of_active_remove hx ha), le_rfl⟩
  | ingest i c c' db hi' h =>
    cases h with
    | suppressed address report rest out hc =>
      exact ⟨hmessage fun _ ↦ rfl, fun x hx _ ↦ Suppression.mem_or_lt_of_mem_add hx, Nat.le_succ _⟩
    | _ => exact ⟨hmessage fun _ ↦ rfl, fun x hx _ ↦ .inl hx, le_rfl⟩
  | reconcile entries graceSecs =>
    rw [RelayQueue.reconcile_frame] at hmessage ⊢
    exact ⟨hmessage fun _ ↦ rfl, fun x hx _ ↦ .inl hx, le_rfl⟩
  | purge days db h' =>
    obtain ⟨-, h'⟩ := Option.ite_none_right_eq_some.mp h'
    obtain rfl := Option.some.inj h'
    refine ⟨fun m hm ↦ ?_, fun x hx _ ↦ .inl hx, le_rfl⟩
    obtain ⟨m', hm', hmail⟩ := hmail m hm
    exact ⟨m', hm', hmail, attachmentsOf_purge hm hm' hmail.id⟩
  | _ => exact ⟨hmessage fun _ ↦ rfl, fun x hx _ ↦ .inl hx, le_rfl⟩

theorem Step.sound (h : Step s a s') (hi : Inv s) : ∀ c ∈ s'.accepts, c.Sound s'.db := by
  have hf := h.follows hi
  intro c hc
  rcases h.accepts with he | ⟨msg, he⟩ | ⟨i, uuid, c₀, c', hget, he, hstep⟩
  · exact (hi.sound c (he ▸ hc)).mono hf
  · rw [he] at hc
    rcases List.mem_append.mp hc with hc | hc
    · exact (hi.sound c hc).mono hf
    · obtain rfl := List.mem_singleton.mp hc
      exact rfl
  · rw [he] at hc
    rcases List.mem_or_eq_of_mem_set hc with hc | rfl
    · exact (hi.sound c hc).mono hf
    · exact hstep.sound (hi.sound c₀ (List.mem_of_getElem? hget)) hi.attached

theorem Step.apart (h : Step s a s') (hi : Inv s) : Apart AcceptCall.RowsApart s'.accepts := by
  rcases h.accepts with he | ⟨msg, he⟩ | ⟨i, uuid, c₀, c', hget, he, hstep⟩
  · exact he.symm ▸ hi.apart
  · rw [he]
    exact hi.apart.concat fun d _ r hr ↦ absurd hr.symm (Option.some_ne_none _)
  · rw [he]
    apply hi.apart.set
    intro j d hj hd r hr r' hr'
    rcases hstep.row with hrow | hrow | ⟨suppressed, hrow, hfree, hothers⟩
    · rw [hrow] at hr
      cases hr
    · exact hi.apart i j c₀ d (Ne.symm hj) hget hd r (hrow ▸ hr) r' hr'
    -- A row just inserted clashes with no pending row and with no row of the table.
    · obtain rfl := Option.some.inj (hrow.symm.trans hr)
      intro hc
      rcases (hi.sound d (List.mem_of_getElem? hd)).row_cases hr' with hpend | ⟨m, hm, hclash⟩
      · have hmem : d ∈ s.accepts.eraseIdx i :=
          List.mem_eraseIdx_iff_getElem?.mpr ⟨j, hj, hd⟩
        exact hothers r' (List.mem_filterMap.mpr ⟨d, hmem, hpend⟩) (symm hc)
      · exact hfree m hm (hclash _ (symm hc))

theorem Step.owned (h : Step s a s') (hi : Inv s) :
    ∀ m ∈ s'.db.message, ∃ c ∈ s'.accepts, c.Owns m := by
  intro m' hm'
  have hold (m : Message) (hm : m ∈ s.db.message) (hid : m'.id = m.id) :
      ∃ c ∈ s'.accepts, c.Owns m' := by
    obtain ⟨c, hc, status, hstage, hsupp⟩ := hi.owned m hm
    refine ⟨c, h.mem_accepts hc hstage, status, hid ▸ hstage, fun hst ↦ ?_⟩
    obtain ⟨-, hout | ⟨d, outcome, -, hd, -, hdid, -⟩⟩ := h.message_of_id hm hm' hid
    · rw [hout.status, hout.completedAt]
      exact hsupp hst
    · obtain ⟨m₀, hm₀, hm₀id, hne⟩ := hi.held d hd
      obtain rfl : m₀ = m := s.db.message_eq_of_id hm₀ hm (hm₀id.trans hdid)
      exact absurd (hsupp hst).1 hne
  rcases h.rows with ⟨i, c, c', id, suppressed, stored, hget, he, -, hc', hrows, -⟩ | ⟨f, hrows, hf⟩
  · rw [Table.mem_def, hrows] at hm'
    rcases List.mem_append.mp hm' with hm' | hm'
    · exact hold m' hm' rfl
    · obtain rfl := List.mem_singleton.mp hm'
      refine ⟨c', he ▸ mem_set_self hget, _, hc', fun hst ↦ ⟨hst, ?_⟩⟩
      cases suppressed with
      | true => rfl
      | false => cases hst
  · have hmem := hm'
    rw [Table.mem_def, hrows] at hmem
    obtain ⟨m, hm, rfl⟩ := List.mem_map.mp hmem
    exact hold m hm (hf m hm).1.id

/-- Attachments come with the commit of an accept, and with their message. -/
theorem Step.mem_messageAttachment (h : Step s a s') (hi : Inv s) {r : MessageAttachment}
    (hr : r ∈ s'.db.messageAttachment) : r ∈ s.db.messageAttachment ∨
      (∃ m ∈ s'.db.message, m.id = r.messageId) ∧ r.sha256 = Platform.sha256 r.content := by
  cases h with
  | accept i uuid c c' db hget h =>
    rcases h.message with rfl | ⟨id, suppressed, stored, hc, -, hrows, -, hatt⟩
    · exact .inl hr
    · change r ∈ db.messageAttachment at hr
      rw [hatt] at hr
      rcases List.mem_append.mp hr with hr | hr
      · exact .inl hr
      · have hs := hi.sound c (List.mem_of_getElem? hget)
        rw [AcceptCall.Sound, hc] at hs
        obtain ⟨hid, hsha⟩ := hs.2.2.row r hr
        refine .inr ⟨⟨c.msg.row id suppressed c.now, ?_, hid.symm⟩, hsha⟩
        rw [Table.mem_def, hrows]
        exact List.mem_append_right _ List.mem_cons_self
  | record d outcome hd ho =>
    rw [Worker.deliverOne_frame] at hr
    exact .inl hr
  | ingest i c c' db hget h => exact .inl (h.messageAttachment ▸ hr)
  | reconcile entries graceSecs =>
    rw [RelayQueue.reconcile_frame] at hr
    exact .inl hr
  | purge days db h =>
    obtain ⟨-, h⟩ := Option.ite_none_right_eq_some.mp h
    obtain rfl := Option.some.inj h
    exact .inl (List.mem_of_mem_filter hr)
  | _ => exact .inl hr

theorem Step.attached (h : Step s a s') (hi : Inv s) :
    ∀ r ∈ s'.db.messageAttachment, ∃ m ∈ s'.db.message, m.id = r.messageId := by
  intro r hr
  rcases h.mem_messageAttachment hi hr with hold | ⟨hnew, -⟩
  · obtain ⟨m, hm, hid⟩ := hi.attached r hold
    obtain ⟨m', hm', hmail, -⟩ := h.message hm
    exact ⟨m', hm', hmail.id.trans hid⟩
  · exact hnew

theorem Step.held (h : Step s a s') (hi : Inv s) :
    ∀ d ∈ s'.held, ∃ m ∈ s'.db.message, m.id = d.claimed.id ∧ m.status ≠ .suppressed := by
  have hkeep (m : Message) (hm : m ∈ s.db.message) (hne : m.status ≠ .suppressed) :
      ∃ m' ∈ s'.db.message, m'.id = m.id ∧ m'.status ≠ .suppressed := by
    obtain ⟨m', hm', hmail, hout | ⟨d, outcome, -, -, -, -, rfl⟩⟩ := h.message hm
    · exact ⟨m', hm', hmail.id, hout.status ▸ hne⟩
    · exact ⟨_, hm', hmail.id, Worker.status_settle hne⟩
  intro d hd
  rcases h.mem_held hd with ⟨d₀, hd₀, hcl, -⟩ | ⟨worker, batch, locked, hx, -, -⟩
  · obtain ⟨m, hm, hid, hne⟩ := hi.held d₀ hd₀
    obtain ⟨m', hm', hid', hne'⟩ := hkeep m hm hne
    exact ⟨m', hm', hcl ▸ hid'.trans hid, hne'⟩
  · obtain ⟨m, hm, hdue, hid, -⟩ := mem_claim hx
    obtain ⟨m', hm', hid', hne'⟩ := hkeep m hm (Message.status_of_due hdue ▸ nofun)
    exact ⟨m', hm', hid'.trans hid, hne'⟩

theorem Inv.step (hi : Inv s) (h : System.step s a = some s') : Inv s' where
  numbered := (step_spec h).numbered hi.numbered
  sound := (step_spec h).sound hi
  apart := (step_spec h).apart hi
  owned := (step_spec h).owned hi
  attached := (step_spec h).attached hi
  held := (step_spec h).held hi

open Lib.Transition

theorem Inv.run {l : List Action} (hi : Inv s) (h : Run System.step s l s') : Inv s' :=
  h.invariant Inv (fun _ _ _ hi hs ↦ hi.step hs) hi

/-- The invariant holds in every state that a run from an empty database reaches. -/
theorem inv_of_run {now : Time} {l : List Action} (h : Run System.step { now } l s) : Inv s :=
  (inv_init now).run h

/-- The digest beside an attachment is that of its content. -/
theorem digest_of_run {now : Time} {l : List Action} (h : Run System.step { now } l s) :
    ∀ r ∈ s.db.messageAttachment, r.sha256 = Platform.sha256 r.content := by
  have hkept := h.invariant
    (fun s ↦ Inv s ∧ ∀ r ∈ s.db.messageAttachment, r.sha256 = Platform.sha256 r.content)
    (fun s a s' hs hstep ↦ ⟨hs.1.step hstep, fun r hr ↦
      ((step_spec hstep).mem_messageAttachment hs.1 hr).elim (hs.2 r) And.right⟩)
    ⟨inv_init now, fun _ hr ↦ absurd hr List.not_mem_nil⟩
  exact hkept.2

end System

end Postbud
