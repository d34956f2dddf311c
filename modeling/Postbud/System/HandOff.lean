import Postbud.System.Outcomes
import Postbud.System.Idempotency

namespace Postbud.System

open Lib Lib.Processes Lib.Transition

section Runs

variable [Platform] {s s' : State} {a : Action}

/-- A message handed to the relay has no active suppression that was there
when it was claimed. -/
def HandoffClean (s : State) (a : Action) : Prop :=
  ∀ d outcome, a = .handoff d outcome → ∀ m ∈ s.db.message, m.id = d.claimed.id →
    ∀ x ∈ s.db.suppression, x.active → x.covers m.tenantId m.rcptTo → d.seen < x.id

/-- No suppression of the recipient is active that was added after the
message's accept consulted the list and before the message was claimed. -/
def NoneBetween (s : State) (a : Action) : Prop :=
  ∀ d outcome, a = .handoff d outcome → ∀ c ∈ s.accepts, ∀ status,
    c.stage = .returned ⟨d.claimed.id, status, false⟩ →
      ∀ x ∈ s.db.suppression, x.active → x.covers c.msg.tenantId c.msg.rcptTo →
        ¬ (c.seen < x.id ∧ x.id ≤ d.seen)

theorem accepted_of_held (hi : Inv s) {d : Delivery} (hd : d ∈ s.held) {m : Message}
    (hm : m ∈ s.db.message) (hid : m.id = d.claimed.id) :
    ∃ c ∈ s.accepts, c.stage = .returned ⟨d.claimed.id, .queued, false⟩ ∧
      c.msg.tenantId = m.tenantId ∧ c.msg.rcptTo = m.rcptTo ∧ c.Consulted s.db false := by
  obtain ⟨m₀, hm₀, hid₀, hne⟩ := hi.held d hd
  obtain rfl : m₀ = m := s.db.message_eq_of_id hm₀ hm (hid₀.trans hid.symm)
  obtain ⟨c, hc, status, hst, hsupp⟩ := hi.owned m₀ hm₀
  obtain ⟨hstatus, hcons, m₁, hm₁, hmail, -⟩ := sound_first (hi.sound c hc) hst
  obtain rfl : m₁ = m₀ := s.db.message_eq_of_id hm₁ hm₀ hmail.id
  rcases hstatus with ⟨rfl, -⟩ | ⟨rfl, -⟩
  · exact ⟨c, hc, hid ▸ hst, hmail.tenantId.symm, hmail.rcptTo.symm, hcons⟩
  · exact absurd (hsupp rfl).1 hne

theorem handoffClean_iff (hi : Inv s) (h : Step s a s') : HandoffClean s a ↔ NoneBetween s a := by
  constructor
  · intro hclean d outcome he c hc status hst x hx ha hcov hseen
    subst he
    obtain ⟨-, hle⟩ := hseen
    obtain ⟨-, -, m, hm, hmail, -⟩ := sound_first (hi.sound c hc) hst
    rw [← show m.tenantId = c.msg.tenantId from hmail.tenantId,
      ← show m.rcptTo = c.msg.rcptTo from hmail.rcptTo] at hcov
    have hlt := hclean d outcome rfl m hm hmail.id x hx ha hcov
    omega
  · intro hnone d outcome he m hm hid x hx ha hcov
    subst he
    cases h with
    | handoff _ _ hd ho =>
      obtain ⟨c, hc, hst, ht, hr, hcons⟩ := accepted_of_held hi hd hm hid
      rw [← ht, ← hr] at hcov
      have hlt := hcons.2 rfl x hx ha hcov
      have hno := hnone d outcome rfl c hc .queued hst x hx ha hcov
      omega

/-- A message handed to the relay was accepted by a call that found its
recipient on no list: what suppresses it now has been added since. -/
def ClearAtAccept (s : State) (a : Action) : Prop :=
  ∀ d outcome, a = .handoff d outcome → ∃ c ∈ s.accepts,
    c.stage = .returned ⟨d.claimed.id, .queued, false⟩ ∧
      ∃ m ∈ s.db.message, m.id = d.claimed.id ∧ m.tenantId = c.msg.tenantId ∧
        m.rcptTo = c.msg.rcptTo ∧
        ∀ x ∈ s.db.suppression, x.active → x.covers m.tenantId m.rcptTo → c.seen < x.id

/-- A worker writes to no address that was suppressed when the message was accepted. -/
theorem handoffs_clear_at_accept (now : Time) (l : List Action) :
    Along step ClearAtAccept { now } l := by
  refine along_of_inv (fun _ _ _ hi hs ↦ hi.step hs) (fun s a s' hi hs ↦ ?_) (inv_init now)
  intro d outcome he
  subst he
  cases step_spec hs with
  | handoff _ _ hd ho =>
    obtain ⟨m, hm, hid, -⟩ := hi.held d hd
    obtain ⟨c, hc, hst, ht, hr, hcons⟩ := accepted_of_held hi hd hm hid
    refine ⟨c, hc, hst, m, hm, hid, ht.symm, hr.symm, fun x hx ha hcov ↦ ?_⟩
    rw [← ht, ← hr] at hcov
    exact hcons.2 rfl x hx ha hcov

/-- Nothing is handed over to an address known to be dead exactly when, at
every handoff, no suppression of the recipient is active that was added
between the accept's look at the list and the claim. -/
theorem handoffs_clean_iff (now : Time) (l : List Action) :
    Along step HandoffClean { now } l ↔ Along step NoneBetween { now } l :=
  along_iff (fun _ _ _ hi hs ↦ hi.step hs)
    (fun _ _ _ hi hs ↦ handoffClean_iff hi (step_spec hs)) (inv_init now)

end Runs

def deadBeforeClaim : List Action :=
  [.submit invoice, .accept 0 7, .accept 0 7, .accept 0 7, .accept 0 7,
    .suppress none invoice.rcptTo .hardBounce "dsn".toList none, .claim "w1".toList 20 []]

def handInvoice : Action := .handoff ⟨"w1".toList, claimedInvoice, 1, none⟩ (.accepted none)

attribute [local instance] Platform.ascii

/-- The worker then writes to the dead address. -/
theorem queued_message_reaches_dead_address :
    ¬ ∀ (_ : Platform) (now : Time) (l : List Action), Along step HandoffClean { now } l := by
  intro h
  have hrun : (exec step { now := 0 } deadBeforeClaim).any fun t ↦ (step t handInvoice).isSome &&
      (t.db.message.rows.any fun m ↦ m.id = 7 && t.db.suppression.rows.any fun x ↦
        x.active && x.covers m.tenantId m.rcptTo && x.id = 1) := by decide +kernel
  obtain ⟨t, ht, hp⟩ := run_of_any hrun
  obtain ⟨hstep, hrow⟩ := Bool.and_eq_true_iff.mp hp
  obtain ⟨u, hu⟩ := Option.isSome_iff_exists.mp hstep
  obtain ⟨m, hm, hrow⟩ := List.any_eq_true.mp hrow
  obtain ⟨hid, hrow⟩ := Bool.and_eq_true_iff.mp hrow
  obtain ⟨x, hx, hrow⟩ := List.any_eq_true.mp hrow
  simp only [Bool.and_eq_true, decide_eq_true_eq] at hid hrow
  obtain ⟨⟨ha, hcov⟩, hxid⟩ := hrow
  have hclean := along_last ht (h Platform.ascii 0 (deadBeforeClaim ++ [handInvoice])) hu
  have hlt := hclean _ _ rfl m hm hid x hx ha hcov
  rw [hxid] at hlt
  exact absurd hlt (Nat.lt_irrefl 1)

end Postbud.System
