import Postbud.Relay.Build
import Postbud.System.Idempotency
import Postbud.System.Outcomes

namespace Postbud

open Lib Lib.Result

/-- A message is complete when it is queued no more, and purged only then. -/
structure Message.Finished (m : Message) : Prop where
  completed : m.completedAt = none ↔ m.status = .queued
  purged : m.bodyPurgedAt.isSome → m.completedAt.isSome

def NewMessage.HasBody (msg : NewMessage) : Prop := msg.bodyText.isSome ∨ msg.bodyHtml.isSome

theorem Message.Finished.row (msg : NewMessage) (id : Uuid) (suppressed : Bool) (now : Time) :
    (msg.row id suppressed now).Finished := by
  cases suppressed
  · exact ⟨⟨fun _ ↦ rfl, fun _ ↦ rfl⟩, nofun⟩
  · exact ⟨⟨nofun, nofun⟩, fun _ ↦ rfl⟩

theorem Message.Finished.settle {m : Message} (h : m.Finished) (now : Time) (msg : Claimed)
    (outcome : Outcome) : (Worker.settle Retry.SCHEDULE now msg outcome m).Finished := by
  rcases Worker.settle_cases Retry.SCHEDULE now msg outcome with
    ⟨queueId, -, hs⟩ | ⟨detail, hs, -⟩ | ⟨next, detail, hs, -⟩ <;> rw [hs]
  · exact ⟨⟨nofun, nofun⟩, fun _ ↦ rfl⟩
  · exact ⟨⟨nofun, nofun⟩, fun _ ↦ rfl⟩
  -- A retry leaves both columns, also when it is stale and the message is complete.
  · exact ⟨h.completed, h.purged⟩

section Claims

variable [Platform]

/-- The attachments of a message that is not purged, in the order they were submitted. -/
theorem attachmentsFor_of_holds {db : Db} {id : Uuid} {attachments : List Attachment}
    (h : Holds id attachments (db.attachmentsOf id)) : attachmentsFor db id = attachments := by
  have hlt : (db.attachmentsOf id).Pairwise fun a b ↦
      a.position < b.position ∨ a.position = b.position ∧ a.id ≤ b.id := by
    have hrange : ((db.attachmentsOf id).map (·.position)).Pairwise (· < ·) := by
      rw [h.position]
      exact List.pairwise_lt_range
    exact (List.pairwise_map.mp hrange).imp .inl
  have hsorted := hlt.insertionSort_eq
  rw [← h.content]
  exact congrArg (List.map _) hsorted

def FromApi (msg : NewMessage) : Prop :=
  ∃ tenant key req, Api.Messages.newMessage tenant key req = .ok msg

theorem hasBody_of_fromApi {msg : NewMessage} (h : FromApi msg) : msg.HasBody := by
  obtain ⟨tenant, key, req, h⟩ := h
  simp only [Api.Messages.newMessage] at h
  obtain ⟨mailFrom, -, h⟩ := ok_of_bind h
  obtain ⟨rcptTo, -, h⟩ := ok_of_bind h
  obtain ⟨replyTo, -, h⟩ := ok_of_bind h
  obtain ⟨-, h⟩ := ok_of_unless h
  obtain ⟨hbody, h⟩ := ok_of_unless h
  obtain ⟨-, h⟩ := ok_of_unless h
  obtain ⟨attachments, -, h⟩ := ok_of_bind h
  obtain rfl := Except.ok.inj h
  simpa only [NewMessage.HasBody, Bool.and_eq_true, not_and_or, Bool.not_eq_true,
    Option.isNone_eq_false_iff] using hbody

end Claims

namespace System

open Lib.Transition

section Runs

variable [Platform] {s s' : State} {a : Action} {m m' : Message}

theorem Touched.finished (h : Touched s a m m') (hf : m.Finished) : m'.Finished := by
  cases h with
  | kept => exact hf
  | claimed worker batch locked ha hid => exact ⟨hf.completed, hf.purged⟩
  | settled d outcome ha hd ho hid => exact hf.settle s.now d.claimed outcome
  | observed entries graceSecs ha =>
    rcases RelayQueue.observed_spec s.now entries m with he | ⟨-, -, -, state, detail, -, he⟩
    · rwa [he]
    · rw [he]
      exact ⟨hf.completed, hf.purged⟩
  | delivered entries graceSecs ha habs => exact ⟨hf.completed, hf.purged⟩
  | blanked days cutoff ha he =>
    refine ⟨hf.completed, fun _ ↦ ?_⟩
    simp only [Message.expired, Bool.and_eq_true] at he
    obtain ⟨t, ht, -⟩ := (Option.any_eq_true _ _).mp he.1
    exact Option.isSome_iff_exists.mpr ⟨t, ht⟩

theorem Step.finished (h : Step s a s') (hf : ∀ m ∈ s.db.message, m.Finished) :
    ∀ m ∈ s'.db.message, m.Finished := by
  intro m' hm'
  rcases h.added_or_touched hm' with ⟨c, id, suppressed, rfl, -⟩ | ⟨m, hm, htouched⟩
  · exact .row c.msg id suppressed c.now
  · exact htouched.finished (hf m hm)

/-- What every submitted message meets, every message that is being accepted meets. -/
theorem Step.forall_msg {P : NewMessage → Prop} (h : Step s a s') (hb : ∀ c ∈ s.accepts, P c.msg)
    (ha : ∀ msg, a = .submit msg → P msg) : ∀ c ∈ s'.accepts, P c.msg := by
  intro c hc
  cases h with
  | submit msg => exact Processes.forall_mem_concat hb (ha msg rfl) c hc
  | accept i uuid c₀ c' db hi h =>
    rcases List.mem_or_eq_of_mem_set hc with hc | rfl
    · exact hb c hc
    · exact h.msg ▸ hb c₀ (List.mem_of_getElem? hi)
  | acceptFails i c₀ hi hf =>
    rcases List.mem_or_eq_of_mem_set hc with hc | rfl
    · exact hb c hc
    · exact hb c₀ (List.mem_of_getElem? hi)
  | _ => exact hb c hc

/-- What a worker is given of a message is all that was submitted, and `build`
finds a body in it. -/
structure Whole (s : State) (c : Claimed) : Prop where
  submitted : ∃ call ∈ s.accepts, call.stage = .returned ⟨c.id, .queued, false⟩ ∧
    c.bodyText = call.msg.bodyText ∧ c.bodyHtml = call.msg.bodyHtml ∧
    c.attachments = call.msg.attachments
  body : c.bodyText.isSome ∨ c.bodyHtml.isSome
  built : ∀ (Mailbox ContentType Mime : Type) (lettre : Relay.Lettre Mailbox ContentType Mime),
    Relay.build lettre c ≠ .error [Relay.NO_BODY]

theorem whole_of_claim (hi : Inv s) (hf : ∀ m ∈ s.db.message, m.Finished)
    (hb : ∀ c ∈ s.accepts, c.msg.HasBody) {worker : Text} {batch : ℕ} {locked : List Uuid}
    {c : Claimed} (hc : c ∈ (claim s.db s.now worker batch locked).2) : Whole s c := by
  obtain ⟨m, hm, rfl⟩ := List.mem_map.mp hc
  obtain ⟨hm, hid⟩ := List.mem_filter.mp hm
  obtain ⟨m', hm', hmid, hdue, -⟩ := mem_claimIds (of_decide_eq_true hid)
  obtain rfl : m' = m := s.db.message_eq_of_id hm' hm hmid
  have hqueued : m'.status = .queued := Message.status_of_due hdue
  have hkept : m'.bodyPurgedAt = none := by
    cases hp : m'.bodyPurgedAt with
    | none => rfl
    | some t =>
      have hsome := (hf m' hm).purged (by rw [hp]; rfl)
      rw [(hf m' hm).completed.mpr hqueued] at hsome
      cases hsome
  obtain ⟨call, hcall, status, hst, hsupp⟩ := hi.owned m' hm
  obtain ⟨hstatus, -, m₁, hm₁, hmail, hholds⟩ := sound_first (hi.sound call hcall) hst
  obtain rfl : m₁ = m' := s.db.message_eq_of_id hm₁ hm hmail.id
  obtain rfl : status = .queued := by
    rcases hstatus with ⟨rfl, -⟩ | ⟨rfl, -⟩
    · rfl
    · rw [(hsupp rfl).1] at hqueued
      cases hqueued
  obtain ⟨-, htext, hhtml⟩ := hmail.body hkept
  have hbody : m₁.bodyText.isSome ∨ m₁.bodyHtml.isSome := by
    rw [htext, hhtml]
    exact hb call hcall
  refine ⟨⟨call, hcall, hst, htext, hhtml, attachmentsFor_of_holds (hholds hkept)⟩, hbody, ?_⟩
  intro Mailbox ContentType Mime lettre hbuild
  obtain ⟨hno, hno'⟩ := Relay.body_of_build hbuild
  rcases hbody with hbody | hbody
  · rw [show m₁.bodyText = none from hno] at hbody
    cases hbody
  · rw [show m₁.bodyHtml = none from hno'] at hbody
    cases hbody

/-- In every state that submits through the API and everything else lead to,
only complete messages are purged, and what is claimed is whole. -/
theorem purge_spares_deliveries (now : Time) (l : List Action)
    (h : ∀ msg, .submit msg ∈ l → FromApi msg) :
    Always step (fun s ↦ (∀ m ∈ s.db.message, m.Finished) ∧ ∀ worker batch locked,
      ∀ c ∈ (claim s.db s.now worker batch locked).2, Whole s c) { now } l := by
  have hsub : Along step (fun _ a ↦ ∀ msg, a = .submit msg → FromApi msg) { now } l :=
    along_of_forall fun s a ha msg hmsg ↦ h msg (hmsg ▸ ha)
  have hinv := always_of_along
    (I := fun s ↦ Inv s ∧ (∀ m ∈ s.db.message, m.Finished) ∧ ∀ c ∈ s.accepts, c.msg.HasBody)
    (fun s a s' hi ha hs ↦ ⟨hi.1.step hs, (step_spec hs).finished hi.2.1,
      (step_spec hs).forall_msg hi.2.2 fun msg hmsg ↦ hasBody_of_fromApi (ha msg hmsg)⟩) hsub
    ⟨inv_init now, fun _ hm ↦ absurd hm (Table.not_mem_empty _), fun _ hc ↦ absurd hc List.not_mem_nil⟩
  intro l' s hl hs
  obtain ⟨hi, hf, hb⟩ := hinv l' s hl hs
  exact ⟨hf, fun worker batch locked c hc ↦ whole_of_claim hi hf hb hc⟩

end Runs

def submitInvoice : Api.SubmitRequest where
  idempotencyKey := some invoice.idempotencyKey
  mailFrom := invoice.mailFrom
  rcptTo := invoice.rcptTo
  subject := invoice.subject
  text := invoice.bodyText

/-- A message is delivered at the second attempt and purged three months later. -/
def deliverAndPurge : List Action :=
  let busy : Outcome := .transient none "timed out".toList
  let ok : Outcome := .accepted (some "4bXlNq2Qh8z1Yk".toList)
  let first : Delivery := ⟨"w1".toList, claimedInvoice, 0, none⟩
  let second : Delivery := ⟨"w1".toList, { claimedInvoice with attempts := 1 }, 0, none⟩
  [.submit invoice, .accept 0 7, .accept 0 7, .accept 0 7, .accept 0 7,
    .claim "w1".toList 20 [], .handoff first busy, .record { first with outcome := some busy },
    .purge 0, .tick 300000000, .claim "w1".toList 20 [], .handoff second ok,
    .record { second with outcome := some ok }, .tick 7776000000000, .purge 30]

attribute [local instance] Platform.ascii

theorem deliverAndPurge_whole : (∀ msg, .submit msg ∈ deliverAndPurge → FromApi msg) ∧
    Always step (fun s ↦ (∀ m ∈ s.db.message, m.Finished) ∧ ∀ worker batch locked,
      ∀ c ∈ (claim s.db s.now worker batch locked).2, Whole s c) { now := 0 } deliverAndPurge := by
  have hsubmit : Api.Messages.newMessage ⟨1, "acme".toList, ["example.com".toList]⟩ []
      submitInvoice = .ok invoice := by decide +kernel
  have h : ∀ msg, .submit msg ∈ deliverAndPurge → FromApi msg := by
    intro msg hmsg
    simp only [deliverAndPurge, List.mem_cons, Action.submit.injEq, reduceCtorEq, or_false,
      List.not_mem_nil] at hmsg
    exact ⟨_, _, _, hmsg ▸ hsubmit⟩
  exact ⟨h, purge_spares_deliveries 0 deliverAndPurge h⟩

end System

end Postbud
