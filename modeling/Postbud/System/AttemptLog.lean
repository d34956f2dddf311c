import Postbud.System.Outcomes
import Postbud.System.Timed

namespace Postbud

open Lib

/-- The attempts logged of a message, in the order they were logged. -/
def Db.attemptsOf [Platform] (db : Db) (messageId : Uuid) : List DeliveryAttempt :=
  db.deliveryAttempt.filter (·.messageId = messageId)

def AttemptOutcome.status : AttemptOutcome → Status
  | .accepted => .sent
  | .transient => .queued
  | .permanent => .failed

/-- The log of a message says what the row of the message says. -/
structure Message.Reconstructed (m : Message) (log : List DeliveryAttempt) : Prop where
  numbers : log.map (·.attempt) = List.range' 1 m.attempts
  earlier : ∀ r ∈ log.dropLast, r.outcome = .transient
  suppressed : m.status = .suppressed → log = []
  sent : m.status = .sent ↔ ∃ r ∈ log.getLast?, r.outcome = .accepted
  queueId : ∀ r ∈ log.getLast?, r.outcome = .accepted → r.relayQueueId = m.relayQueueId
  failed : m.status = .failed ↔ ∃ r ∈ log.getLast?, r.outcome = .permanent
  queued : m.status = .queued ↔
    m.status ≠ .suppressed ∧ ∀ r ∈ log.getLast?, r.outcome = .transient
  attempts : m.attempts ≤ Retry.SCHEDULE.length
  retries : m.status = .queued → m.attempts < Retry.SCHEDULE.length

namespace Message.Reconstructed

variable {m m' : Message} {log : List DeliveryAttempt}

theorem of_sameOutcome (h : m.Reconstructed log) (ho : m.SameOutcome m') : m'.Reconstructed log where
  numbers := ho.attempts ▸ h.numbers
  earlier := h.earlier
  suppressed := ho.status ▸ h.suppressed
  sent := ho.status ▸ h.sent
  queueId := ho.relayQueueId ▸ h.queueId
  failed := ho.status ▸ h.failed
  queued := ho.status ▸ h.queued
  attempts := ho.attempts ▸ h.attempts
  retries := ho.status ▸ ho.attempts ▸ h.retries

theorem row (msg : NewMessage) (id : Uuid) (suppressed : Bool) (now : Time) :
    (msg.row id suppressed now).Reconstructed [] := by
  cases suppressed <;> constructor <;> simp [NewMessage.row, Retry.SCHEDULE]

theorem transient_of_queued (h : m.Reconstructed log) (hq : m.status = .queued)
    {r : DeliveryAttempt} (hr : r ∈ log) : r.outcome = .transient := by
  cases hl : log.getLast? with
  | none =>
    rw [List.getLast?_eq_none_iff.mp hl] at hr
    cases hr
  | some last =>
    rw [← List.dropLast_append_getLast? last hl] at hr
    rcases List.mem_append.mp hr with hr | hr
    · exact h.earlier r hr
    · obtain rfl := List.mem_singleton.mp hr
      exact (h.queued.mp hq).2 r hl

theorem concat (h : m.Reconstructed log) (hq : m.status = .queued) {r : DeliveryAttempt}
    (hr : r.attempt = m.attempts + 1) (ha : m'.attempts = m.attempts + 1)
    (hs : m'.status = r.outcome.status)
    (hid : r.outcome = .accepted → r.relayQueueId = m'.relayQueueId)
    (hmore : r.outcome = .transient → m.attempts + 1 < Retry.SCHEDULE.length) :
    m'.Reconstructed (log ++ [r]) where
  numbers := by
    rw [List.map_append, h.numbers, ha, List.range'_1_concat, Nat.add_comm 1]
    exact congrArg _ (congrArg (· :: []) hr)
  earlier r' hr' := by
    rw [List.dropLast_concat] at hr'
    exact h.transient_of_queued hq hr'
  suppressed hsupp := by
    rw [hs] at hsupp
    cases hout : r.outcome <;> rw [hout] at hsupp <;> cases hsupp
  sent := by
    rw [List.getLast?_concat, hs]
    cases hout : r.outcome <;> simp [AttemptOutcome.status, hout]
  queueId r' hr' hout := by
    rw [List.getLast?_concat] at hr'
    obtain rfl := Option.some.inj hr'
    exact hid hout
  failed := by
    rw [List.getLast?_concat, hs]
    cases hout : r.outcome <;> simp [AttemptOutcome.status, hout]
  queued := by
    rw [List.getLast?_concat, hs]
    cases hout : r.outcome <;> simp [AttemptOutcome.status, hout]
  attempts := ha ▸ h.retries hq
  retries hq' := by
    rw [hs] at hq'
    cases hout : r.outcome with
    | transient => exact ha ▸ hmore hout
    | accepted =>
      rw [hout] at hq'
      cases hq'
    | permanent =>
      rw [hout] at hq'
      cases hq'

/-- An outcome of a claim that the row still carries is logged as it is recorded. -/
theorem settle (h : m.Reconstructed log) (hq : m.status = .queued) {msg : Claimed}
    (ha : m.attempts = msg.attempts) (now : Time) (outcome : Outcome) :
    (Worker.settle Retry.SCHEDULE now msg outcome m).Reconstructed
      (log ++ [Worker.logRow Retry.SCHEDULE now msg outcome]) := by
  have hattempt : (Worker.logRow Retry.SCHEDULE now msg outcome).attempt = m.attempts + 1 :=
    ha.symm ▸ (Worker.logRow_spec Retry.SCHEDULE now msg outcome).2
  rcases Worker.settle_logRow Retry.SCHEDULE now msg outcome with
    ⟨queueId, hs, hout, hid⟩ | ⟨detail, hs, hout⟩ | ⟨next, detail, hs, hout, hmore⟩ <;> rw [hs, ← ha]
  · exact h.concat hq hattempt rfl (hout ▸ rfl) (fun _ ↦ hid) (hout ▸ nofun)
  · exact h.concat hq hattempt rfl (hout ▸ rfl) (hout ▸ nofun) (hout ▸ nofun)
  · exact h.concat hq hattempt rfl (hout ▸ hq) (hout ▸ nofun) (fun _ ↦ ha ▸ hmore)

end Message.Reconstructed

namespace System

open Lib.Transition

section Runs

variable [Platform] {s s' : State} {x x' : Timed} {a : Action}

structure Logged (s : State) : Prop where
  known : ∀ r ∈ s.db.deliveryAttempt, ∃ m ∈ s.db.message, m.id = r.messageId
  reconstructed : ∀ m ∈ s.db.message, m.Reconstructed (s.db.attemptsOf m.id)

theorem Step.deliveryAttempt (h : Step s a s') (ha : ∀ d, a ≠ .record d) :
    s'.db.deliveryAttempt = s.db.deliveryAttempt := by
  cases h with
  | accept i uuid c c' db hi h => exact h.deliveryAttempt
  | record d outcome hd ho => exact absurd rfl (ha d)
  | ingest i c c' db hi h => exact h.deliveryAttempt
  | reconcile entries graceSecs => rw [RelayQueue.reconcile_frame]
  | purge days db h =>
    obtain ⟨-, h⟩ := Option.ite_none_right_eq_some.mp h
    obtain rfl := Option.some.inj h
    rfl
  | _ => rfl

theorem Logged.known_step (hl : Logged s) (h : Step s a s') (hheld : ∀ d ∈ s.held,
      ∃ m ∈ s.db.message, m.id = d.claimed.id) :
    ∀ r ∈ s'.db.deliveryAttempt, ∃ m ∈ s'.db.message, m.id = r.messageId := by
  have hkeep {id : Uuid} (hm : ∃ m ∈ s.db.message, m.id = id) : ∃ m ∈ s'.db.message, m.id = id := by
    obtain ⟨m, hm, hid⟩ := hm
    obtain ⟨m', hm', hmail, -⟩ := h.message hm
    exact ⟨m', hm', hmail.id.trans hid⟩
  intro r hr
  by_cases ha : ∃ d, a = .record d
  · obtain ⟨d, rfl⟩ := ha
    cases h with
    | record _ outcome hd ho =>
      simp only [Worker.deliveryAttempt_deliverOne] at hr
      rcases List.mem_append.mp hr with hr | hr
      · exact hkeep (hl.known r hr)
      · obtain rfl := List.mem_singleton.mp hr
        rw [(Worker.logRow_spec _ _ _ _).1]
        exact hkeep (hheld d hd)
  · rw [h.deliveryAttempt fun d hd ↦ ha ⟨d, hd⟩] at hr
    exact hkeep (hl.known r hr)

theorem attemptsOf_deliverOne {schedule : List ℕ} {db : Db} {now : Time} {msg : Claimed}
    {outcome : Outcome} (id : Uuid) :
    (Worker.deliverOne schedule db now msg outcome).attemptsOf id =
      if id = msg.id then db.attemptsOf id ++ [Worker.logRow schedule now msg outcome]
      else db.attemptsOf id := by
  obtain ⟨hid, -⟩ := Worker.logRow_spec schedule now msg outcome
  simp only [Db.attemptsOf, Worker.deliveryAttempt_deliverOne, List.filter_append]
  split
  · rename_i he
    simp [hid, he]
  · rename_i he
    simp [hid, Ne.symm he]

/-- What is recorded of a claim that the row still carries. -/
theorem Logged.record_step (hl : Logged s) {d : Delivery} {outcome : Outcome} {m : Message} {t : Time}
    (hm : m ∈ s.db.message) (hc : Carries m d t) :
    ∀ m' ∈ (Worker.deliverOne Retry.SCHEDULE s.db s.now d.claimed outcome).message,
      m'.Reconstructed
        ((Worker.deliverOne Retry.SCHEDULE s.db s.now d.claimed outcome).attemptsOf m'.id) := by
  intro m' hm'
  rw [Table.mem_def, Worker.rows_deliverOne] at hm'
  obtain ⟨m₀, hm₀, rfl⟩ := List.mem_map.mp hm'
  split
  · rename_i hmid
    obtain rfl : m = m₀ := s.db.message_eq_of_id hm hm₀ (hc.id.trans hmid.symm)
    have hid : (Worker.settle Retry.SCHEDULE s.now d.claimed outcome m).id = m.id :=
      (Message.SameMail.settle _ _ _ _ m).id
    rw [hid, attemptsOf_deliverOne, if_pos hmid]
    exact (hl.reconstructed m hm).settle hc.status hc.attempts s.now outcome
  · rename_i hmid
    rw [attemptsOf_deliverOne, if_neg hmid]
    exact hl.reconstructed m₀ hm₀

theorem Logged.step (hl : Logged s) (h : Step s a s')
    (hcar : ∀ d ∈ s.held, ∃ m ∈ s.db.message, ∃ t, Carries m d t) : Logged s' where
  known := hl.known_step h fun d hd ↦ by
    obtain ⟨m, hm, t, hc⟩ := hcar d hd
    exact ⟨m, hm, hc.id⟩
  reconstructed := by
    by_cases ha : ∃ d, a = .record d
    · obtain ⟨d, rfl⟩ := ha
      cases h with
      | record _ outcome hd ho =>
        obtain ⟨m, hm, t, hc⟩ := hcar d hd
        exact hl.record_step hm hc
    · have hlog := h.deliveryAttempt fun d hd ↦ ha ⟨d, hd⟩
      intro m' hm'
      simp only [Db.attemptsOf, hlog]
      rcases h.added_or_touched hm' with ⟨c, id, suppressed, rfl, hfree⟩ | ⟨m, hm, htouched⟩
      · have hnone : s.db.deliveryAttempt.filter
            (·.messageId = (c.msg.row id suppressed c.now).id) = [] := by
          apply List.filter_eq_nil_iff.mpr
          intro r hr hid
          obtain ⟨m, hm, hmid⟩ := hl.known r hr
          exact hfree m hm (.inl (hmid.trans (of_decide_eq_true hid)))
        rw [hnone]
        exact .row c.msg id suppressed c.now
      · obtain ⟨hmail, hout | ⟨d, -, hd, -⟩⟩ := htouched.mail
        · rw [hmail.id]
          exact (hl.reconstructed m hm).of_sameOutcome hout
        · exact absurd ⟨d, hd⟩ ha

theorem logged_init (now : Time) : Logged { now } where
  known _ hr := absurd hr List.not_mem_nil
  reconstructed _ hm := absurd hm (Table.not_mem_empty _)

theorem Claims.carries_of_held (h : Claims x) {d : Delivery} (hd : d ∈ x.state.held) :
    ∃ m ∈ x.state.db.message, ∃ t, (d, t) ∈ x.since ∧ Carries m d t := by
  rw [← h.held] at hd
  obtain ⟨⟨d, t⟩, he, rfl⟩ := List.mem_map.mp hd
  obtain ⟨m, hm, hc⟩ := h.carried (d, t) he
  exact ⟨m, hm, t, he, hc⟩

/-- What holds of every run in which no claim outlives the timeout. -/
theorem claims_logged_step (h : Claims x ∧ Logged x.state) (ht : InTime x)
    (hs : x.step a = some x') : Claims x' ∧ Logged x'.state := by
  refine ⟨h.1.step ht hs, h.2.step (step_spec (Timed.step_eq_some.mp hs).1) fun d hd ↦ ?_⟩
  obtain ⟨m, hm, t, -, hc⟩ := h.1.carries_of_held hd
  exact ⟨m, hm, t, hc⟩

/-- In a run in which no claim outlives the timeout, the log says what the queue says. -/
theorem attempts_reconstruct_queue (now : Time) (l : List Action)
    (h : Along Timed.step (fun x _ ↦ InTime x) ⟨{ now }, []⟩ l) :
    Always Timed.step (fun x ↦ Logged x.state) ⟨{ now }, []⟩ l := by
  have hinv := always_of_along (I := fun x ↦ Claims x ∧ Logged x.state)
    (fun _ _ _ hi ht hs ↦ claims_logged_step hi ht hs) h ⟨claims_init now, logged_init now⟩
  intro l' x hl hx
  exact (hinv l' x hl hx).2

end Runs

/-- A worker dies with a claim in hand; two others need an attempt each. -/
def diesAndRetries : List Action :=
  let second : Delivery := ⟨"w2".toList, claimedInvoice, 0, none⟩
  let third : Delivery := ⟨"w3".toList, { claimedInvoice with attempts := 1 }, 0, none⟩
  let busy : Outcome := .transient (some 451) "try later".toList
  let ok : Outcome := .accepted (some "4bXlNq2Qh8z1Yk".toList)
  [.submit invoice, .accept 0 7, .accept 0 7, .accept 0 7, .accept 0 7,
    .claim "w1".toList 20 [], .abandon ⟨"w1".toList, claimedInvoice, 0, none⟩,
    .tick 660000000, .claim "w2".toList 20 [], .handoff second busy,
    .record { second with outcome := some busy }, .tick 300000000, .claim "w3".toList 20 [],
    .handoff third ok, .record { third with outcome := some ok }]

attribute [local instance] Platform.ascii

theorem diesAndRetries_reconstructs :
    Along Timed.step (fun x _ ↦ InTime x) ⟨{ now := 0 }, []⟩ diesAndRetries ∧
      Always Timed.step (fun x ↦ Logged x.state) ⟨{ now := 0 }, []⟩ diesAndRetries := by
  have h : Along Timed.step (fun x _ ↦ InTime x) ⟨{ now := 0 }, []⟩ diesAndRetries := by
    decide +kernel
  exact ⟨h, attempts_reconstruct_queue 0 diesAndRetries h⟩

end System

end Postbud
