import Postbud.System.Outcomes

namespace Postbud.System

open Lib Lib.Transition

section Runs

variable [Platform] {s s' : State} {a : Action}

def Bounced (db : Db) (queueId : Text) : Prop :=
  ∃ b ∈ db.bounceReport, b.classification = some .permanent ∧ b.relayQueueId = some queueId

/-- No message whose queue id has bounced is shown as delivered. -/
def BouncedNotDelivered (s : State) : Prop :=
  ∀ m ∈ s.db.message, ∀ queueId, m.relayQueueId = some queueId → Bounced s.db queueId →
    m.relayState ≠ some .delivered

/-- A permanent bounce is stored before the message is labelled delivered,
and a message that is so labelled takes no queue id that has bounced. -/
def BounceFirst (s : State) (a : Action) : Prop :=
  (∀ i c messageId report rest out queueId, a = .ingest i → s.ingests[i]? = some c →
    c.stage = .store messageId report rest out → report.classification = .permanent →
    report.relayQueueId = some queueId →
    ∀ m ∈ s.db.message, m.relayQueueId = some queueId → m.relayState ≠ some .delivered) ∧
  ∀ d queueId, a = .record d → d.outcome = some (.accepted (some queueId)) →
    ∀ m ∈ s.db.message, m.id = d.claimed.id → Bounced s.db queueId →
      m.relayState ≠ some .delivered

theorem keeps_label (h : BouncedNotDelivered s) (hb : s'.db.bounceReport = s.db.bounceReport)
    (hm : ∀ m' ∈ s'.db.message, ∃ m ∈ s.db.message, m'.relayQueueId = m.relayQueueId ∧
      (m'.relayState = some .delivered → m.relayState = some .delivered)) :
    BouncedNotDelivered s' := by
  intro m' hm' q hq hbounced hdel
  obtain ⟨b, hb', hc, hbq⟩ := hbounced
  obtain ⟨m, hmem, hmq, hlabel⟩ := hm m' hm'
  exact h m hmem q (hmq ▸ hq) ⟨b, hb ▸ hb', hc, hbq⟩ (hlabel hdel)

theorem keeps_label_of_eq (h : BouncedNotDelivered s) (hm : s'.db.message = s.db.message)
    (hb : s'.db.bounceReport = s.db.bounceReport) : BouncedNotDelivered s' :=
  keeps_label h hb fun m hmem ↦ ⟨m, hm ▸ hmem, rfl, id⟩

theorem keeps_label_update (h : BouncedNotDelivered s)
    (hb : s'.db.bounceReport = s.db.bounceReport) {p : Message → Prop} [DecidablePred p]
    {f : Message → Message}
    (hrows : s'.db.message.rows = s.db.message.rows.map fun m ↦ if p m then f m else m)
    (hf : ∀ m, (f m).relayQueueId = m.relayQueueId ∧ (f m).relayState = m.relayState) :
    BouncedNotDelivered s' := by
  apply keeps_label h hb
  intro m' hm'
  rw [Table.mem_def, hrows] at hm'
  obtain ⟨m, hm, rfl⟩ := List.mem_map.mp hm'
  refine ⟨m, hm, ?_⟩
  split
  · obtain ⟨hq, hlabel⟩ := hf m
    exact ⟨hq, fun hdel ↦ hlabel ▸ hdel⟩
  · exact ⟨rfl, id⟩

theorem keeps_label_reconcile (h : BouncedNotDelivered s) (entries : List Queued) (graceSecs : ℤ) :
    BouncedNotDelivered
      { s with db := (RelayQueue.reconcile s.db s.now entries graceSecs).1 } := by
  intro m' hm' q hq hbounced hdel
  obtain ⟨b, hb, hc, hbq⟩ := hbounced
  rw [RelayQueue.reconcile_frame] at hb
  rw [Table.mem_def, RelayQueue.rows_reconcile] at hm'
  obtain ⟨m, hm, rfl⟩ := List.mem_map.mp hm'
  split_ifs at hq hdel with habs
  · have hmq : m.relayQueueId = some q := hq
    simp only [RelayQueue.absent, hmq, Bool.and_eq_true, List.all_eq_true] at habs
    exact absurd hbq (of_decide_eq_true (habs.2 b hb))
  · rcases RelayQueue.observed_spec s.now entries m with he | ⟨-, -, -, state, detail, hne, he⟩
    · rw [he] at hq hdel
      exact h m hm q hq ⟨b, hb, hc, hbq⟩ hdel
    · rw [he] at hdel
      exact hne (Option.some.inj hdel)

theorem record_label_iff {d : Delivery} {outcome : Outcome} (ho : d.outcome = some outcome)
    (h : BouncedNotDelivered s) :
    BouncedNotDelivered
      { s with
        db := Worker.deliverOne Retry.SCHEDULE s.db s.now d.claimed outcome
        held := s.held.erase d } ↔
    ∀ queueId, outcome = .accepted (some queueId) → ∀ m ∈ s.db.message, m.id = d.claimed.id →
      Bounced s.db queueId → m.relayState ≠ some .delivered := by
  have hbounced (q : Text) :
      Bounced (Worker.deliverOne Retry.SCHEDULE s.db s.now d.claimed outcome) q ↔ Bounced s.db q := by
    rw [Worker.deliverOne_frame]
    rfl
  constructor
  · intro h' q he m hm hid hb
    subst he
    have hset := Worker.settle_mem_deliverOne Retry.SCHEDULE s.now (.accepted (some q)) hm hid
    have hlabel := h' _ hset q rfl ((hbounced q).mpr hb)
    rwa [Worker.relayState_settle] at hlabel
  · intro hrec m' hm' q hq hb hdel
    have hb := (hbounced q).mp hb
    rw [Table.mem_def, Worker.rows_deliverOne] at hm'
    obtain ⟨m, hm, rfl⟩ := List.mem_map.mp hm'
    split_ifs at hq hdel with hid
    · rw [Worker.relayState_settle] at hdel
      rcases Worker.settle_cases Retry.SCHEDULE s.now d.claimed outcome with
        ⟨queueId, rfl, he⟩ | ⟨detail, he, -⟩ | ⟨next, detail, he, -⟩
      · rw [he] at hq
        obtain rfl : queueId = some q := hq
        exact hrec q rfl m hm hid hb hdel
      · rw [he] at hq
        exact h m hm q hq hb hdel
      · rw [he] at hq
        exact h m hm q hq hb hdel
    · exact h m hm q hq hb hdel

theorem store_label_iff {c : Bounce.Call} {messageId : Option Uuid} {report : Dsn.Report}
    (h : BouncedNotDelivered s) {ingests : List Bounce.Call} :
    BouncedNotDelivered
      { s with
        db := { s.db with
          bounceReport := s.db.bounceReport ++ [Bounce.bounceRow s.now c.raw messageId report] }
        ingests } ↔
    ∀ queueId, report.classification = .permanent → report.relayQueueId = some queueId →
      ∀ m ∈ s.db.message, m.relayQueueId = some queueId → m.relayState ≠ some .delivered := by
  constructor
  · intro h' q hc hq m hm hmq
    refine h' m hm q hmq ⟨_, List.mem_append_right _ List.mem_cons_self, ?_, hq⟩
    simp only [Bounce.bounceRow, hc, Bounce.toClassification]
  · intro hst m hm q hmq hbounced
    obtain ⟨b, hb, hc, hbq⟩ := hbounced
    rcases List.mem_append.mp hb with hb | hb
    · exact h m hm q hmq ⟨b, hb, hc, hbq⟩
    · obtain rfl := List.mem_singleton.mp hb
      refine hst q ?_ hbq m hm hmq
      have hc := Option.some.inj hc
      cases hcl : report.classification <;> rw [hcl] at hc <;> first | rfl | cases hc

theorem keeps_label_accept (h : BouncedNotDelivered s) {others : List Message} {uuid : Uuid}
    {c c' : AcceptCall} {db : Db} (hstep : AcceptCall.Step s.db others uuid c db c')
    (accepts : List AcceptCall) : BouncedNotDelivered { s with db, accepts } := by
  intro m hm q hq hbounced hdel
  obtain ⟨b, hb, hc, hbq⟩ := hbounced
  rw [hstep.bounceReport] at hb
  rcases hstep.message with rfl | ⟨id, suppressed, stored, -, -, hrows, -⟩
  · exact h m hm q hq ⟨b, hb, hc, hbq⟩ hdel
  · change m ∈ db.message at hm
    rw [Table.mem_def, hrows] at hm
    rcases List.mem_append.mp hm with hm | hm
    · exact h m hm q hq ⟨b, hb, hc, hbq⟩ hdel
    · obtain rfl := List.mem_singleton.mp hm
      cases hq

theorem ingest_label_iff {i : ℕ} {c c' : Bounce.Call} {db : Db} (hi : s.ingests[i]? = some c)
    (h : BouncedNotDelivered s) (hstep : Bounce.Call.Step s.db s.now c db c') :
    BouncedNotDelivered { s with db, ingests := s.ingests.set i c' } ↔ BounceFirst s (.ingest i) := by
  have hother (hne : ∀ messageId report rest out, c.stage ≠ .store messageId report rest out) :
      BounceFirst s (.ingest i) := by
    refine ⟨fun j c₀ messageId report rest out q ha hj hst ↦ ?_, fun _ _ ha ↦ by cases ha⟩
    cases ha
    obtain rfl := Option.some.inj (hi.symm.trans hj)
    exact absurd hst (hne _ _ _ _)
  cases hstep with
  | storedRaw hc =>
    refine iff_of_true ?_ (hother fun _ _ _ _ hst ↦ by rw [hc] at hst; cases hst)
    intro m hm q hq hbounced
    obtain ⟨b, hb, hcl, hbq⟩ := hbounced
    rcases List.mem_append.mp hb with hb | hb
    · exact h m hm q hq ⟨b, hb, hcl, hbq⟩
    · obtain rfl := List.mem_singleton.mp hb
      cases hcl
  | lookedUp queueId messageId report rest out out' hc =>
    exact iff_of_true (keeps_label_of_eq h rfl rfl)
      (hother fun _ _ _ _ hst ↦ by rw [hc] at hst; cases hst)
  | stored messageId report rest out hc =>
    refine (store_label_iff h).trans ⟨fun hst ↦ ⟨?_, fun _ _ ha ↦ by cases ha⟩, fun hb ↦ ?_⟩
    · intro j c₀ messageId' report' rest' out' q ha hj hst' hcl hq m hm hmq
      cases ha
      obtain rfl := Option.some.inj (hi.symm.trans hj)
      rw [hc] at hst'
      cases hst'
      exact hst q hcl hq m hm hmq
    · intro q hcl hq
      exact hb.1 i c messageId report rest out q rfl hi hc hcl hq
  | suppressed address report rest out hc =>
    exact iff_of_true (keeps_label_of_eq h rfl rfl)
      (hother fun _ _ _ _ hst ↦ by rw [hc] at hst; cases hst)

theorem bouncedNotDelivered_step_iff (h : BouncedNotDelivered s) (hs : Step s a s') :
    BouncedNotDelivered s' ↔ BounceFirst s a := by
  have hother (hi : ∀ i, a ≠ .ingest i) (hr : ∀ d, a ≠ .record d) : BounceFirst s a :=
    ⟨fun i _ _ _ _ _ _ ha ↦ absurd ha (hi i), fun d _ ha ↦ absurd ha (hr d)⟩
  cases hs with
  | accept i uuid c c' db hi hstep =>
    exact iff_of_true (keeps_label_accept h hstep _) (hother (fun _ ↦ nofun) fun _ ↦ nofun)
  | claim worker batch locked =>
    exact iff_of_true
      (keeps_label_update h rfl rows_claim fun _ ↦ ⟨rfl, rfl⟩)
      (hother (fun _ ↦ nofun) fun _ ↦ nofun)
  | record d outcome hd ho =>
    refine (record_label_iff ho h).trans ⟨fun hrec ↦ ⟨fun _ _ _ _ _ _ _ ha ↦ (by cases ha), ?_⟩, ?_⟩
    · intro d' q ha ho' m hm hid hb
      cases ha
      exact hrec q (Option.some.inj (ho.symm.trans ho')) m hm hid hb
    · intro hfirst q he m hm hid hb
      subst he
      exact hfirst.2 d q rfl ho m hm hid hb
  | ingest i c c' db hi hstep => exact ingest_label_iff hi h hstep
  | reconcile entries graceSecs =>
    exact iff_of_true (keeps_label_reconcile h entries graceSecs)
      (hother (fun _ ↦ nofun) fun _ ↦ nofun)
  | purge days db hp =>
    obtain ⟨-, hp⟩ := Option.ite_none_right_eq_some.mp hp
    obtain rfl := Option.some.inj hp
    exact iff_of_true (keeps_label_update h rfl (rows_blankBodies _) fun _ ↦ ⟨rfl, rfl⟩)
      (hother (fun _ ↦ nofun) fun _ ↦ nofun)
  | _ => exact iff_of_true (keeps_label_of_eq h rfl rfl) (hother (fun _ ↦ nofun) fun _ ↦ nofun)

/-- A bounced message is never shown as delivered exactly when every permanent
bounce is stored before its message is labelled delivered, and no message that
is so labelled takes a queue id that has bounced. -/
theorem bounced_not_delivered_iff (now : Time) (l : List Action) :
    Always step BouncedNotDelivered { now } l ↔ Along step BounceFirst { now } l :=
  always_iff (fun _ _ _ _ _ ↦ trivial)
    (fun _ _ _ _ h hs ↦ bouncedNotDelivered_step_iff h (step_spec hs)) trivial
    fun _ hm ↦ absurd hm (Table.not_mem_empty _)

end Runs

/-- The relay takes an invoice, the queue is reported without it, and the
bounce comes after the report. -/
def lateBounce : List Action :=
  let accepted : Outcome := .accepted (some "4bXlNq2Qh8z1Yk".toList)
  let d : Delivery := ⟨"w1".toList, claimedInvoice, 0, none⟩
  [.submit invoice, .accept 0 7, .accept 0 7, .accept 0 7, .accept 0 7, .claim "w1".toList 20 [],
    .handoff d accepted, .record { d with outcome := some accepted }, .tick 16000000,
    .reconcile [] 15,
    .bounce ("X-Postfix-Queue-ID: 4bXlNq2Qh8z1Yk\n\n" ++
      "Final-Recipient: rfc822; ola@example.net\nStatus: 5.1.1\n").toList,
    .ingest 0, .ingest 0]

attribute [local instance] Platform.ascii

theorem late_bounce_stays_delivered :
    ¬ ∀ (_ : Platform) (now : Time) (l : List Action),
      Always step BouncedNotDelivered { now } l := by
  intro h
  have hrun : (exec step { now := 0 } lateBounce).any fun t ↦ t.db.message.rows.any fun m ↦
      m.relayQueueId = some "4bXlNq2Qh8z1Yk".toList && m.relayState = some .delivered &&
        t.db.bounceReport.any fun b ↦ b.classification = some .permanent &&
          b.relayQueueId = some "4bXlNq2Qh8z1Yk".toList := by decide +kernel
  obtain ⟨t, ht, hp⟩ := run_of_any hrun
  obtain ⟨m, hm, hp⟩ := List.any_eq_true.mp hp
  obtain ⟨hrow, hb⟩ := Bool.and_eq_true_iff.mp hp
  obtain ⟨b, hb, hp⟩ := List.any_eq_true.mp hb
  simp only [Bool.and_eq_true, decide_eq_true_eq] at hrow hp
  exact h Platform.ascii 0 lateBounce lateBounce t (List.prefix_refl _) ht m hm _ hrow.1
    ⟨b, hb, hp.1, hp.2⟩ hrow.2

end Postbud.System
