import Postbud.System

namespace Postbud

open Lib

/-- The mail of a row: who it is from and to, and what it says until that is purged. -/
structure Message.SameMail (m m' : Message) : Prop where
  id : m'.id = m.id
  tenantId : m'.tenantId = m.tenantId
  idempotencyKey : m'.idempotencyKey = m.idempotencyKey
  mailFrom : m'.mailFrom = m.mailFrom
  fromName : m'.fromName = m.fromName
  rcptTo : m'.rcptTo = m.rcptTo
  replyTo : m'.replyTo = m.replyTo
  subject : m'.subject = m.subject
  body : m'.bodyPurgedAt = none →
    m.bodyPurgedAt = none ∧ m'.bodyText = m.bodyText ∧ m'.bodyHtml = m.bodyHtml

structure Message.SameOutcome (m m' : Message) : Prop where
  status : m'.status = m.status
  attempts : m'.attempts = m.attempts
  relayQueueId : m'.relayQueueId = m.relayQueueId
  completedAt : m'.completedAt = m.completedAt

namespace Message

theorem SameMail.refl (m : Message) : m.SameMail m :=
  ⟨rfl, rfl, rfl, rfl, rfl, rfl, rfl, rfl, fun h ↦ ⟨h, rfl, rfl⟩⟩

theorem SameMail.trans {m m' m'' : Message} (h : m.SameMail m') (h' : m'.SameMail m'') :
    m.SameMail m'' where
  id := h'.id.trans h.id
  tenantId := h'.tenantId.trans h.tenantId
  idempotencyKey := h'.idempotencyKey.trans h.idempotencyKey
  mailFrom := h'.mailFrom.trans h.mailFrom
  fromName := h'.fromName.trans h.fromName
  rcptTo := h'.rcptTo.trans h.rcptTo
  replyTo := h'.replyTo.trans h.replyTo
  subject := h'.subject.trans h.subject
  body hp := by
    obtain ⟨hp', ht', hh'⟩ := h'.body hp
    obtain ⟨hp, ht, hh⟩ := h.body hp'
    exact ⟨hp, ht'.trans ht, hh'.trans hh⟩

theorem SameOutcome.refl (m : Message) : m.SameOutcome m := ⟨rfl, rfl, rfl, rfl⟩

theorem SameMail.settle (schedule : List ℕ) (now : Time) (msg : Claimed) (outcome : Outcome)
    (m : Message) : m.SameMail (Worker.settle schedule now msg outcome m) := by
  rcases Worker.settle_cases schedule now msg outcome with
    ⟨queueId, -, h⟩ | ⟨detail, h, -⟩ | ⟨next, detail, h, -⟩ <;> rw [h] <;>
    exact ⟨rfl, rfl, rfl, rfl, rfl, rfl, rfl, rfl, fun hp ↦ ⟨hp, rfl, rfl⟩⟩

theorem sameMail_observed (now : Time) (entries : List Queued) (m : Message) :
    m.SameMail (RelayQueue.observed now entries m) ∧
      m.SameOutcome (RelayQueue.observed now entries m) := by
  rcases RelayQueue.observed_spec now entries m with h | ⟨_, _, _, state, detail, _, h⟩ <;> rw [h]
  · exact ⟨.refl m, .refl m⟩
  · exact ⟨⟨rfl, rfl, rfl, rfl, rfl, rfl, rfl, rfl, fun hp ↦ ⟨hp, rfl, rfl⟩⟩, ⟨rfl, rfl, rfl, rfl⟩⟩

end Message

section Split

variable [Platform] {db : Db} {before after : List Message} {m : Message}

theorem Db.ids_of_rows (hrows : db.message.rows = before ++ m :: after) :
    (∀ x ∈ before, x.id ≠ m.id) ∧ ∀ x ∈ after, x.id ≠ m.id := by
  have hunique := db.message.unique
  rw [hrows] at hunique
  obtain ⟨-, hcons, hcross⟩ := List.pairwise_append.mp hunique
  constructor
  · intro x hx hid
    exact hcross x hx m List.mem_cons_self (.inl hid)
  · intro x hx hid
    exact (List.pairwise_cons.mp hcons).1 x hx (.inl hid.symm)

/-- An update by id changes that row alone. -/
theorem Db.map_rows_of_split (hrows : db.message.rows = before ++ m :: after)
    (f : Message → Message) :
    db.message.rows.map (fun x ↦ if x.id = m.id then f x else x) = before ++ f m :: after := by
  obtain ⟨hbefore, hafter⟩ := Db.ids_of_rows hrows
  have hkeep (l : List Message) (hl : ∀ x ∈ l, x.id ≠ m.id) :
      l.map (fun x ↦ if x.id = m.id then f x else x) = l :=
    (List.map_congr_left fun x hx ↦ if_neg (hl x hx)).trans (List.map_id l)
  simp only [hrows, List.map_append, List.map_cons, if_true, hkeep before hbefore,
    hkeep after hafter]

end Split

namespace System

variable [Platform] {s s' : State} {a : Action}

/-- The row of a message that an action settles: its worker records what the relay answered. -/
def Settles (s : State) (a : Action) (m m' : Message) : Prop :=
  ∃ d outcome, a = .record d ∧ d ∈ s.held ∧ d.outcome = some outcome ∧ d.claimed.id = m.id ∧
    m' = Worker.settle Retry.SCHEDULE s.now d.claimed outcome m

/-- An action that adds no message changes rows one by one, and only
recording an outcome changes what was recorded of a delivery. -/
def Rewrites (s : State) (a : Action) (s' : State) (f : Message → Message) : Prop :=
  s'.db.message.rows = s.db.message.rows.map f ∧
    ∀ m ∈ s.db.message, m.SameMail (f m) ∧ (m.SameOutcome (f m) ∨ Settles s a m (f m))

def Commits (s s' : State) : Prop :=
  ∃ i c c' id suppressed stored, s.accepts[i]? = some c ∧ s'.accepts = s.accepts.set i c' ∧
    c.stage = .commit id suppressed stored ∧
    c'.stage = .returned ⟨id, (c.msg.row id suppressed c.now).status, false⟩ ∧
    s'.db.message.rows = s.db.message.rows ++ [c.msg.row id suppressed c.now] ∧
    (∀ m ∈ s.db.message, ¬ m.Clash (c.msg.row id suppressed c.now)) ∧
    s'.db.messageAttachment = s.db.messageAttachment ++ stored

/-- What one action does to the row of a message. -/
inductive Touched (s : State) (a : Action) (m : Message) : Message → Prop
  | kept : Touched s a m m
  | claimed (worker : Text) (batch : ℕ) (locked : List Uuid) (ha : a = .claim worker batch locked)
      (hm : m.id ∈ claimIds s.db s.now batch locked) : Touched s a m (m.claimBy worker s.now)
  | settled (d : Delivery) (outcome : Outcome) (ha : a = .record d) (hd : d ∈ s.held)
      (ho : d.outcome = some outcome) (hid : d.claimed.id = m.id) :
    Touched s a m (Worker.settle Retry.SCHEDULE s.now d.claimed outcome m)
  | observed (entries : List Queued) (graceSecs : ℤ) (ha : a = .reconcile entries graceSecs) :
    Touched s a m (RelayQueue.observed s.now entries m)
  | delivered (entries : List Queued) (graceSecs : ℤ) (ha : a = .reconcile entries graceSecs)
      (habs : RelayQueue.absent s.db s.now (entries.map (·.queueId)) graceSecs m) :
    Touched s a m (RelayQueue.deliver s.now m)
  | blanked (days : ℤ) (cutoff : Time) (ha : a = .purge days) (he : m.expired cutoff) :
    Touched s a m (m.blank s.now)

theorem Step.touched (h : Step s a s') : Commits s s' ∨
    ∃ f, s'.db.message.rows = s.db.message.rows.map f ∧ ∀ m ∈ s.db.message, Touched s a m (f m) := by
  have hkept {s' : State} (he : s'.db.message = s.db.message) :
      ∃ f, s'.db.message.rows = s.db.message.rows.map f ∧ ∀ m ∈ s.db.message, Touched s a m (f m) :=
    ⟨fun m ↦ m, by rw [he, List.map_id'], fun _ _ ↦ .kept⟩
  cases h with
  | accept i uuid c c' db hi h =>
    rcases h.message with rfl | ⟨id, suppressed, stored, hc, hc', hrows, hfree, hatt⟩
    · exact .inr (hkept rfl)
    · exact .inl ⟨i, c, c', id, suppressed, stored, hi, rfl, hc, hc', hrows, hfree, hatt⟩
  | claim worker batch locked =>
    refine .inr ⟨_, rows_claim, fun m _ ↦ ?_⟩
    split
    · rename_i hm
      exact .claimed worker batch locked rfl hm
    · exact .kept
  | record d outcome hd ho =>
    refine .inr ⟨_, Worker.rows_deliverOne, fun m _ ↦ ?_⟩
    split
    · rename_i hm
      exact .settled d outcome rfl hd ho hm.symm
    · exact .kept
  | ingest i c c' db hi h => exact .inr (hkept h.message)
  | reconcile entries graceSecs =>
    refine .inr ⟨_, RelayQueue.rows_reconcile, fun m _ ↦ ?_⟩
    split
    · rename_i habs
      exact .delivered entries graceSecs rfl habs
    · exact .observed entries graceSecs rfl
  | purge days db h =>
    obtain ⟨-, h⟩ := Option.ite_none_right_eq_some.mp h
    obtain rfl := Option.some.inj h
    refine .inr ⟨_, rows_blankBodies _, fun m _ ↦ ?_⟩
    split
    · rename_i he
      exact .blanked days _ rfl he
    · exact .kept
  | _ => exact .inr (hkept rfl)

theorem Touched.mail {m m' : Message} (h : Touched s a m m') :
    m.SameMail m' ∧ (m.SameOutcome m' ∨ Settles s a m m') := by
  cases h with
  | kept => exact ⟨.refl m, .inl (.refl m)⟩
  | claimed worker batch locked ha hm =>
    exact ⟨⟨rfl, rfl, rfl, rfl, rfl, rfl, rfl, rfl, fun hp ↦ ⟨hp, rfl, rfl⟩⟩,
      .inl ⟨rfl, rfl, rfl, rfl⟩⟩
  | settled d outcome ha hd ho hid => exact ⟨.settle _ _ _ _ m, .inr ⟨d, outcome, ha, hd, ho, hid, rfl⟩⟩
  | observed entries graceSecs ha =>
    obtain ⟨hmail, hout⟩ := Message.sameMail_observed s.now entries m
    exact ⟨hmail, .inl hout⟩
  | delivered entries graceSecs ha habs =>
    exact ⟨⟨rfl, rfl, rfl, rfl, rfl, rfl, rfl, rfl, fun hp ↦ ⟨hp, rfl, rfl⟩⟩,
      .inl ⟨rfl, rfl, rfl, rfl⟩⟩
  | blanked days cutoff ha he =>
    exact ⟨⟨rfl, rfl, rfl, rfl, rfl, rfl, rfl, rfl, nofun⟩, .inl ⟨rfl, rfl, rfl, rfl⟩⟩

theorem Step.rows (h : Step s a s') : Commits s s' ∨ ∃ f, Rewrites s a s' f := by
  rcases h.touched with hc | ⟨f, hrows, hf⟩
  · exact .inl hc
  · exact .inr ⟨f, hrows, fun m hm ↦ (hf m hm).mail⟩

theorem Step.exists_touched (h : Step s a s') {m : Message} (hm : m ∈ s.db.message) :
    ∃ m' ∈ s'.db.message, Touched s a m m' := by
  rcases h.touched with ⟨i, c, c', id, suppressed, stored, -, -, -, -, hrows, -⟩ | ⟨f, hrows, hf⟩
  · refine ⟨m, ?_, .kept⟩
    rw [Table.mem_def, hrows]
    exact List.mem_append_left _ hm
  · refine ⟨f m, ?_, hf m hm⟩
    rw [Table.mem_def, hrows]
    exact List.mem_map_of_mem hm

/-- Where a row comes from: an accept has added it, or it was there before. -/
theorem Step.added_or_touched (h : Step s a s') {m' : Message} (hm' : m' ∈ s'.db.message) :
    (∃ (c : AcceptCall) (id : Uuid) (suppressed : Bool), m' = c.msg.row id suppressed c.now ∧
      ∀ m ∈ s.db.message, ¬ m.Clash m') ∨ ∃ m ∈ s.db.message, Touched s a m m' := by
  rw [Table.mem_def] at hm'
  rcases h.touched with
    ⟨i, c, c', id, suppressed, stored, -, -, -, -, hrows, hfree, -⟩ | ⟨f, hrows, hf⟩
  · rw [hrows] at hm'
    rcases List.mem_append.mp hm' with hm' | hm'
    · exact .inr ⟨m', hm', .kept⟩
    · obtain rfl := List.mem_singleton.mp hm'
      exact .inl ⟨c, id, suppressed, rfl, hfree⟩
  · rw [hrows] at hm'
    obtain ⟨m, hm, rfl⟩ := List.mem_map.mp hm'
    exact .inr ⟨m, hm, hf m hm⟩

theorem Step.message (h : Step s a s') {m : Message} (hm : m ∈ s.db.message) :
    ∃ m' ∈ s'.db.message, m.SameMail m' ∧ (m.SameOutcome m' ∨ Settles s a m m') := by
  obtain ⟨m', hm', ht⟩ := h.exists_touched hm
  exact ⟨m', hm', ht.mail⟩

theorem Step.message_of_id (h : Step s a s') {m m' : Message} (hm : m ∈ s.db.message)
    (hm' : m' ∈ s'.db.message) (hid : m'.id = m.id) :
    m.SameMail m' ∧ (m.SameOutcome m' ∨ Settles s a m m') := by
  obtain ⟨m'', hm'', hmail, hout⟩ := h.message hm
  obtain rfl : m' = m'' := s'.db.message_eq_of_id hm' hm'' (hid.trans hmail.id.symm)
  exact ⟨hmail, hout⟩

end System

end Postbud
