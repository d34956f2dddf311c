import Postbud.System.Rows

namespace Postbud.System

open Lib Lib.Transition

/-- A terminal status stays, a queue id stays, and attempts are not taken back. -/
structure Kept (m m' : Message) : Prop where
  status : m.status ≠ .queued → m'.status = m.status
  relayQueueId : ∀ queueId, m.relayQueueId = some queueId → m'.relayQueueId = some queueId
  attempts : m.attempts ≤ m'.attempts

/-- An outcome that agrees with what is recorded of the message: no attempt
after this one is, a success follows no failure and repeats the queue id, and
a failure follows no success. -/
def Fits (msg : Claimed) (m : Message) : Outcome → Prop
  | .accepted queueId =>
    m.attempts ≤ msg.attempts + 1 ∧ (m.status = .queued ∨ m.status = .sent) ∧
      (m.relayQueueId = none ∨ m.relayQueueId = queueId)
  | .transient _ _ =>
    m.attempts ≤ msg.attempts + 1 ∧
      (Retry.backoff Retry.SCHEDULE (msg.attempts + 1) = none →
        m.status = .queued ∨ m.status = .failed)
  | .permanent _ _ =>
    m.attempts ≤ msg.attempts + 1 ∧ (m.status = .queued ∨ m.status = .failed)

theorem Kept.trans {m m' m'' : Message} (h : Kept m m') (h' : Kept m' m'') : Kept m m'' where
  status hm := by
    have hs := h.status hm
    exact (h'.status (hs ▸ hm)).trans hs
  relayQueueId q hq := h'.relayQueueId q (h.relayQueueId q hq)
  attempts := h.attempts.trans h'.attempts

theorem Kept.of_sameOutcome {m m' : Message} (h : m.SameOutcome m') : Kept m m' where
  status _ := h.status
  relayQueueId _ hq := h.relayQueueId.trans hq
  attempts := h.attempts.ge

theorem kept_accept_iff {msg : Claimed} {m : Message} {queueId : Option Text} {now : Time} :
    Kept m (m.accept (msg.attempts + 1) queueId now) ↔ Fits msg m (.accepted queueId) := by
  constructor
  · intro h
    refine ⟨h.attempts, ?_, ?_⟩
    · by_cases hs : m.status = .queued
      · exact .inl hs
      · exact .inr (h.status hs).symm
    · cases hq : m.relayQueueId with
      | none => exact .inl rfl
      | some q => exact .inr (h.relayQueueId q hq).symm
  · intro h
    obtain ⟨ha, hs, hq⟩ := h
    refine ⟨fun hm ↦ (hs.resolve_left hm).symm, fun q hmq ↦ ?_, ha⟩
    rcases hq with hq | hq
    · rw [hq] at hmq
      cases hmq
    · exact hq.symm.trans hmq

theorem kept_giveUp_iff {msg : Claimed} {m : Message} {detail : Text} {now : Time} :
    Kept m (m.giveUp (msg.attempts + 1) detail now) ↔
      m.attempts ≤ msg.attempts + 1 ∧ (m.status = .queued ∨ m.status = .failed) := by
  constructor
  · intro h
    refine ⟨h.attempts, ?_⟩
    by_cases hs : m.status = .queued
    · exact .inl hs
    · exact .inr (h.status hs).symm
  · intro h
    obtain ⟨ha, hs⟩ := h
    exact ⟨fun hm ↦ (hs.resolve_left hm).symm, fun _ hq ↦ hq, ha⟩

theorem kept_retry_iff {msg : Claimed} {m : Message} {detail : Text} {next : Time} :
    Kept m (m.retry (msg.attempts + 1) next detail) ↔ m.attempts ≤ msg.attempts + 1 :=
  ⟨fun h ↦ h.attempts, fun ha ↦ ⟨fun _ ↦ rfl, fun _ hq ↦ hq, ha⟩⟩

theorem kept_settle_iff (now : Time) (msg : Claimed) (outcome : Outcome) (m : Message) :
    Kept m (Worker.settle Retry.SCHEDULE now msg outcome m) ↔ Fits msg m outcome := by
  cases outcome with
  | accepted queueId => exact kept_accept_iff
  | permanent code detail => exact kept_giveUp_iff
  | transient code detail =>
    simp only [Worker.settle, Fits]
    cases Retry.backoff Retry.SCHEDULE (msg.attempts + 1) with
    | some delay =>
      simp only [reduceCtorEq, false_imp_iff, and_true]
      exact kept_retry_iff
    | none =>
      simp only [forall_const]
      exact kept_giveUp_iff

section Runs

variable [Platform] {s s' : State} {a : Action}

def Stable (s s' : State) : Prop :=
  ∀ m ∈ s.db.message, ∃ m' ∈ s'.db.message, m'.id = m.id ∧ Kept m m'

def RecordFits (s : State) (a : Action) : Prop :=
  ∀ d outcome, a = .record d → d.outcome = some outcome →
    ∀ m ∈ s.db.message, m.id = d.claimed.id → Fits d.claimed m outcome

theorem Stable.refl (s : State) : Stable s s :=
  fun m hm ↦ ⟨m, hm, rfl, .of_sameOutcome (.refl m)⟩

theorem Stable.trans (s t u : State) (h : Stable s t) (h' : Stable t u) : Stable s u := by
  intro m hm
  obtain ⟨m', hm', hid, hk⟩ := h m hm
  obtain ⟨m'', hm'', hid', hk'⟩ := h' m' hm'
  exact ⟨m'', hm'', hid'.trans hid, hk.trans hk'⟩

theorem stable_step_iff (h : Step s a s') : Stable s s' ↔ RecordFits s a := by
  constructor
  · intro hst d outcome he ho m hm hid
    subst he
    obtain ⟨m', hm', hid', hk⟩ := hst m hm
    cases h with
    | record _ outcome' hd ho' =>
      obtain rfl := Option.some.inj (ho.symm.trans ho')
      have hset := Worker.settle_mem_deliverOne Retry.SCHEDULE s.now outcome hm hid
      obtain rfl := Db.message_eq_of_id hm' hset
        (hid'.trans (Message.SameMail.settle _ _ _ _ m).id.symm)
      exact (kept_settle_iff _ _ _ _).mp hk
  · intro hfit m hm
    obtain ⟨m', hm', hmail, hout | ⟨d, outcome, rfl, hd, ho, hid, rfl⟩⟩ := h.message hm
    · exact ⟨m', hm', hmail.id, .of_sameOutcome hout⟩
    · exact ⟨_, hm', hmail.id,
        (kept_settle_iff _ _ _ _).mpr (hfit d outcome rfl ho m hm hid.symm)⟩

/-- Outcomes are stable over a run exactly when every worker that records one
records an outcome that agrees with what is recorded already. -/
theorem outcomes_stable_iff (s : State) (l : List Action) :
    Throughout step Stable s l ↔ Along step RecordFits s l :=
  throughout_iff Stable.refl Stable.trans (fun _ _ _ _ _ ↦ trivial)
    (fun _ _ _ _ h ↦ stable_step_iff (step_spec h)) trivial

end Runs

def invoice : NewMessage where
  tenantId := 1
  idempotencyKey := "invoice-1".toList
  mailFrom := "no-reply@example.com".toList
  fromName := none
  rcptTo := "ola@example.net".toList
  replyTo := none
  subject := "Invoice".toList
  bodyText := some "Due on the 1st.".toList
  bodyHtml := none
  attachments := []

def claimedInvoice : Claimed where
  id := 7
  attempts := 0
  mailFrom := invoice.mailFrom
  fromName := none
  rcptTo := invoice.rcptTo
  replyTo := none
  subject := invoice.subject
  bodyText := invoice.bodyText
  bodyHtml := none
  attachments := []

/-- A worker is slow, a second one claims its message after the timeout, and
both hand it to the relay: the first records that the relay took it. -/
def slowWorker : List Action :=
  let slow : Delivery := ⟨"w1".toList, claimedInvoice, 0, none⟩
  let quick : Delivery := ⟨"w2".toList, claimedInvoice, 0, none⟩
  [.submit invoice, .accept 0 7, .accept 0 7, .accept 0 7, .accept 0 7,
    .claim "w1".toList 20 [], .tick 660000000, .claim "w2".toList 20 [],
    .handoff slow (.accepted (some "4bXlNq2Qh8z1Yk".toList)),
    .handoff quick (.permanent (some 554) "rejected".toList),
    .record { slow with outcome := some (.accepted (some "4bXlNq2Qh8z1Yk".toList)) }]

def quickRecords : Action :=
  .record ⟨"w2".toList, claimedInvoice, 0, some (.permanent (some 554) "rejected".toList)⟩

attribute [local instance] Platform.ascii

theorem slow_worker_overwrites_sent :
    ¬ ∀ (_ : Platform) (now : Time) (l : List Action), Throughout step Stable { now } l := by
  intro h
  have hsent : (exec step { now := 0 } slowWorker).any fun t ↦
      t.db.message.rows.any fun m ↦ m.id = 7 && m.status = .sent := by decide +kernel
  have hfailed : (exec step { now := 0 } (slowWorker ++ [quickRecords])).any
      fun u ↦ u.db.message.rows.all fun m ↦ m.status = .failed := by decide +kernel
  obtain ⟨t, ht, hsent⟩ := run_of_any hsent
  obtain ⟨u, hu, hfailed⟩ := run_of_any hfailed
  obtain ⟨t', ht', hu⟩ := run_append.mp hu
  obtain rfl := ht.deterministic ht'
  obtain ⟨m, hm, hm'⟩ := List.any_eq_true.mp hsent
  simp only [Bool.and_eq_true, decide_eq_true_eq] at hm'
  obtain ⟨m', hmem, -, hk⟩ := h Platform.ascii 0 (slowWorker ++ [quickRecords]) slowWorker
    [quickRecords] t u (List.prefix_refl _) ht hu m hm
  have hstatus := hk.status (by rw [hm'.2]; exact nofun)
  have hf := of_decide_eq_true (List.all_eq_true.mp hfailed m' hmem)
  rw [hf, hm'.2] at hstatus
  cases hstatus

end Postbud.System
