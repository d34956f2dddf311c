import Postbud.System.AttemptLog
import Postbud.System.Outcomes

namespace Postbud.System

open Lib Lib.Transition

/-- What the row, then the log, say of an outcome at a time: a refusal for now
keeps the message in the queue until the schedule's next time, or ends it
where the schedule does. -/
inductive Settled (now : Time) (m' : Message) (r : DeliveryAttempt) : Outcome → Prop
  | accepted (queueId : Option Text) (status : m'.status = .sent)
      (relayQueueId : m'.relayQueueId = queueId) (lastError : m'.lastError = none)
      (completedAt : m'.completedAt = some now)
      (logged : r.outcome = .accepted ∧ r.smtpCode = some 250 ∧ r.relayQueueId = queueId) :
    Settled now m' r (.accepted queueId)
  | permanent (code : Option ℤ) (detail : Text) (status : m'.status = .failed)
      (lastError : m'.lastError = some detail) (completedAt : m'.completedAt = some now)
      (logged : r.outcome = .permanent ∧ r.smtpCode = code ∧ r.detail = some detail) :
    Settled now m' r (.permanent code detail)
  | retry (code : Option ℤ) (detail : Text) (delay : ℕ) (status : m'.status = .queued)
      (due : Retry.SCHEDULE[m'.attempts]? = some delay)
      (nextAttemptAt : m'.nextAttemptAt = now + seconds delay)
      (lastError : m'.lastError = some detail)
      (logged : r.outcome = .transient ∧ r.smtpCode = code ∧ r.detail = some detail) :
    Settled now m' r (.transient code detail)
  | exhausted (code : Option ℤ) (detail : Text) (status : m'.status = .failed)
      (ended : Retry.SCHEDULE.length ≤ m'.attempts)
      (lastError : m'.lastError = some (Worker.givingUp m'.attempts detail))
      (completedAt : m'.completedAt = some now)
      (logged : r.outcome = .permanent ∧ r.smtpCode = code ∧ r.detail = m'.lastError) :
    Settled now m' r (.transient code detail)

theorem settled_of_queued (now : Time) (msg : Claimed) (outcome : Outcome) (m : Message)
    (hq : m.status = .queued) :
    Settled now (Worker.settle Retry.SCHEDULE now msg outcome m)
      (Worker.logRow Retry.SCHEDULE now msg outcome) outcome := by
  cases outcome with
  | accepted queueId => exact .accepted queueId rfl rfl rfl rfl ⟨rfl, rfl, rfl⟩
  | permanent code detail => exact .permanent code detail rfl rfl rfl ⟨rfl, rfl, rfl⟩
  | transient code detail =>
    simp only [Worker.settle, Worker.logRow]
    cases hb : Retry.backoff Retry.SCHEDULE (msg.attempts + 1) with
    | some delay => exact .retry code detail delay hq hb rfl rfl ⟨rfl, rfl, rfl⟩
    | none =>
      exact .exhausted code detail rfl (List.getElem?_eq_none_iff.mp hb) rfl rfl
        ⟨rfl, rfl, rfl⟩

section Runs

variable [Platform]

/-- An outcome is applied to the claim it is of: the row of its message alone
changes, and is free again with one attempt more; the attempt is the next of
the log, and the worker is done with the message. -/
structure Applied (s s' : State) (d : Delivery) (outcome : Outcome) (m m' : Message)
    (r : DeliveryAttempt) : Prop where
  row : ∃ before after, s.db.message.rows = before ++ m :: after ∧
    s'.db.message.rows = before ++ m' :: after
  mail : m.SameMail m'
  free : m'.claimedAt = none ∧ m'.claimedBy = none
  counted : m'.attempts = m.attempts + 1
  log : s'.db.deliveryAttempt = s.db.deliveryAttempt ++ [r]
  attempt : r.messageId = m.id ∧ r.attempt = m'.attempts
  settled : Settled s.now m' r outcome
  done : s'.held = s.held.erase d

/-- What a worker does, it does to messages that are its own: a claim takes
none that another worker holds or has locked, no message is handed over that
was accepted or given up before, and an outcome is applied to the claim it is
of, which the row of its message still carries. -/
structure OneWorker (x : Timed) (a : Action) : Prop where
  claimed : ∀ worker batch locked, a = .claim worker batch locked →
    ∀ c ∈ (claim x.state.db x.state.now worker batch locked).2,
      c.id ∉ locked ∧ ∀ d ∈ x.state.held, d.claimed.id ≠ c.id
  disjoint : ∀ worker batch locked worker' batch' locked',
    ∀ c ∈ (claim x.state.db x.state.now worker batch locked).2,
      ∀ c' ∈ (claim (claim x.state.db x.state.now worker batch locked).1 x.state.now worker' batch'
        locked').2, c.id ≠ c'.id
  handedOff : ∀ d outcome, a = .handoff d outcome →
    ∀ r ∈ x.state.db.attemptsOf d.claimed.id, r.outcome = .transient
  recorded : ∀ d, a = .record d → ∃ x' outcome m m' r t, x.step a = some x' ∧
    d.outcome = some outcome ∧ (d, t) ∈ x.since ∧ Carries m d t ∧
    Applied x.state x'.state d outcome m m' r

variable {x x' : Timed} {a : Action}

/-- A claim takes nothing of what another has just taken. -/
theorem claims_disjoint {s : State} {worker worker' : Text} {batch batch' : ℕ}
    {locked locked' : List Uuid} {c c' : Claimed}
    (hc : c ∈ (claim s.db s.now worker batch locked).2)
    (hc' : c' ∈ (claim (claim s.db s.now worker batch locked).1 s.now worker' batch' locked').2) :
    c.id ≠ c'.id := by
  intro hid
  obtain ⟨m, hm, hcar⟩ := carries_of_claim hc 0
  obtain ⟨m', hm', hdue, hmid, -⟩ := mem_claim hc'
  obtain rfl : m = m' := Db.message_eq_of_id hm hm' (hcar.id.trans (hid.trans hmid.symm))
  have htimeout : s.now ≤ s.now + minutes Message.CLAIM_TIMEOUT_MINUTES :=
    Int.le_add_of_nonneg_right (by decide)
  exact Message.not_due_of_claimed hcar.claimedAt htimeout hdue

theorem applied_deliverOne {s : State} {d : Delivery} {m : Message} {t : Time}
    (hm : m ∈ s.db.message) (hc : Carries m d t) (outcome : Outcome) :
    Applied s { s with
      db := Worker.deliverOne Retry.SCHEDULE s.db s.now d.claimed outcome
      held := s.held.erase d } d outcome m
      (Worker.settle Retry.SCHEDULE s.now d.claimed outcome m)
      (Worker.logRow Retry.SCHEDULE s.now d.claimed outcome) := by
  obtain ⟨before, after, hrows⟩ := List.append_of_mem hm
  obtain ⟨hid, hattempt⟩ := Worker.logRow_spec Retry.SCHEDULE s.now d.claimed outcome
  have hsettle : Worker.settle Retry.SCHEDULE s.now d.claimed outcome m =
      { Worker.settle Retry.SCHEDULE s.now d.claimed outcome m with
        attempts := d.claimed.attempts + 1, claimedAt := none, claimedBy := none } := by
    rcases Worker.settle_cases Retry.SCHEDULE s.now d.claimed outcome with
      ⟨queueId, -, h⟩ | ⟨detail, h, -⟩ | ⟨next, detail, h, -⟩ <;> rw [h] <;> rfl
  have hcounted : (Worker.settle Retry.SCHEDULE s.now d.claimed outcome m).attempts =
      d.claimed.attempts + 1 := by rw [hsettle]
  refine ⟨⟨before, after, hrows, ?_⟩, .settle _ _ _ _ m, ?_, ?_, Worker.deliveryAttempt_deliverOne,
    ?_, settled_of_queued s.now d.claimed outcome m hc.status, rfl⟩
  · rw [Worker.rows_deliverOne, ← hc.id]
    exact Db.map_rows_of_split hrows _
  · rw [hsettle]
    exact ⟨rfl, rfl⟩
  · rw [hcounted, hc.attempts]
  · exact ⟨hid.trans hc.id.symm, hattempt.trans hcounted.symm⟩

theorem Claims.oneWorker (h : Claims x) (hl : Logged x.state) (ht : InTime x)
    (hs : x.step a = some x') : OneWorker x a where
  claimed worker batch locked ha c hc := by
    obtain ⟨m, hm, hid⟩ := List.mem_map.mp hc
    obtain ⟨-, -, -, -, hfree⟩ := mem_claimIds (of_decide_eq_true (List.mem_filter.mp hm).2)
    refine ⟨?_, fun d hd ↦ ?_⟩
    · rw [← hid]
      exact hfree
    · rw [← h.held] at hd
      obtain ⟨e, he, rfl⟩ := List.mem_map.mp hd
      exact h.claim_apart ht hc he
  disjoint _ _ _ _ _ _ c hc c' hc' := claims_disjoint hc hc'
  handedOff d outcome ha r hr := by
    subst ha
    have hstep := step_spec (Timed.step_eq_some.mp hs).1
    obtain ⟨s', since'⟩ := x'
    cases hstep with
    | handoff _ _ hd ho =>
      obtain ⟨m, hm, t, -, hc⟩ := h.carries_of_held hd
      rw [← hc.id] at hr
      exact (hl.reconstructed m hm).transient_of_queued hc.status hr
  recorded d ha := by
    subst ha
    have hstep := step_spec (Timed.step_eq_some.mp hs).1
    obtain ⟨s', since'⟩ := x'
    cases hstep with
    | record _ outcome hd ho =>
      obtain ⟨m, hm, t, hsince, hc⟩ := h.carries_of_held hd
      exact ⟨_, outcome, m, _, _, t, hs, ho, hsince, hc, applied_deliverOne hm hc outcome⟩

/-- In a run in which no claim outlives the timeout, each message goes
through one worker at a time. -/
theorem one_worker_at_a_time (now : Time) (l : List Action)
    (h : Along Timed.step (fun x _ ↦ InTime x) ⟨{ now }, []⟩ l) :
    Always Timed.step (fun x ↦ x.state.held.Pairwise Delivery.Apart) ⟨{ now }, []⟩ l ∧
      Along Timed.step OneWorker ⟨{ now }, []⟩ l := by
  have hinit : Claims ⟨{ now }, []⟩ ∧ Logged { now } := ⟨claims_init now, logged_init now⟩
  have hinv := always_of_along (I := fun x ↦ Claims x ∧ Logged x.state)
    (fun _ _ _ hi ht hs ↦ claims_logged_step hi ht hs) h hinit
  constructor
  · intro l' x hl hx
    have hclaims := (hinv l' x hl hx).1
    rw [← hclaims.held]
    exact List.pairwise_map.mpr hclaims.apart
  · apply along_of_along (I := fun x ↦ Claims x ∧ Logged x.state) _ h hinit
    intro x a x' hi ht hs
    exact ⟨claims_logged_step hi ht hs, hi.1.oneWorker hi.2 ht hs⟩

end Runs

attribute [local instance] Platform.ascii

theorem diesAndRetries_one_worker :
    Along Timed.step (fun x _ ↦ InTime x) ⟨{ now := 0 }, []⟩ diesAndRetries ∧
      Along Timed.step OneWorker ⟨{ now := 0 }, []⟩ diesAndRetries := by
  have h : Along Timed.step (fun x _ ↦ InTime x) ⟨{ now := 0 }, []⟩ diesAndRetries := by
    decide +kernel
  exact ⟨h, (one_worker_at_a_time 0 diesAndRetries h).2⟩

end Postbud.System
