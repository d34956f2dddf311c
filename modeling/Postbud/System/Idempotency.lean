import Postbud.System.Invariant

namespace Postbud.System

open Lib Lib.Processes Lib.Transition

section Runs

variable [Platform] {s : State} {tenantId : Uuid} {key : Text}

def ForKey (tenantId : Uuid) (key : Text) (c : AcceptCall) : Prop :=
  c.msg.tenantId = tenantId ∧ c.msg.idempotencyKey = key

instance (tenantId : Uuid) (key : Text) (c : AcceptCall) : Decidable (ForKey tenantId key c) := by
  unfold ForKey
  infer_instance

def First (c : AcceptCall) : Prop := ∃ id status, c.stage = .returned ⟨id, status, false⟩

/-- What all the calls of `accept` under one key come to. -/
structure Idempotent (s : State) (tenantId : Uuid) (key : Text) : Prop where
  row : s.db.message.rows.countP (fun m ↦ m.tenantId = tenantId && m.idempotencyKey = key) ≤ 1
  named : ∀ c ∈ s.accepts, ForKey tenantId key c → ∀ accepted, c.stage = .returned accepted →
    ∃ m ∈ s.db.message, m.tenantId = tenantId ∧ m.idempotencyKey = key ∧ m.id = accepted.id
  found : ∀ c ∈ s.accepts, ForKey tenantId key c → c.stage = .load →
    ∃ m ∈ s.db.message, m.tenantId = tenantId ∧ m.idempotencyKey = key
  first : (∃ c ∈ s.accepts, ForKey tenantId key c ∧ ∃ accepted, c.stage = .returned accepted) →
    ∃! i : ℕ, ∃ c, s.accepts[i]? = some c ∧ ForKey tenantId key c ∧ First c
  content : ∀ c ∈ s.accepts, ForKey tenantId key c →
    ∀ id status, c.stage = .returned ⟨id, status, false⟩ →
      ∃ m ∈ s.db.message, (c.msg.row id (status = .suppressed) c.now).SameMail m ∧
        (m.bodyPurgedAt = none → Holds id c.msg.attachments (s.db.attachmentsOf id))
  notified : ∀ c ∈ s.accepts, ForKey tenantId key c →
    ∀ id status, c.stage = .returned ⟨id, status, false⟩ →
      s.accepts.countP (fun d ↦ ForKey tenantId key d ∧ d.notified) =
        if status = .queued then 1 else 0

theorem sound_first {db : Db} {c : AcceptCall} (h : c.Sound db) {id : Uuid} {status : Status}
    (hc : c.stage = .returned ⟨id, status, false⟩) :
    (status = .queued ∧ c.notified = true ∨ status = .suppressed ∧ c.notified = false) ∧
      c.Consulted db (status = .suppressed) ∧ c.Stored db id (status = .suppressed) := by
  rw [AcceptCall.Sound, hc] at h
  obtain ⟨suppressed, hs, hn, hcons, hst⟩ := h
  cases suppressed with
  | true =>
    obtain rfl : status = .suppressed := hs
    exact ⟨.inr ⟨rfl, hn⟩, by simpa using hcons, by simpa using hst⟩
  | false =>
    obtain rfl : status = .queued := hs
    exact ⟨.inl ⟨rfl, hn⟩, by simpa using hcons, by simpa using hst⟩

theorem names_of_returned {db : Db} {c : AcceptCall} (h : c.Sound db) {accepted : Accepted}
    (hc : c.stage = .returned accepted) : c.Names db accepted.id := by
  obtain ⟨id, status, deduplicated⟩ := accepted
  cases deduplicated with
  | true =>
    rw [AcceptCall.Sound, hc] at h
    exact h.2
  | false =>
    obtain ⟨-, -, m, hm, hmail, -⟩ := sound_first h hc
    exact ⟨m, hm, hmail.id, hmail.tenantId, hmail.idempotencyKey⟩

theorem first_of_notified {db : Db} {c : AcceptCall} (h : c.Sound db) (hn : c.notified = true) :
    ∃ id, c.stage = .returned ⟨id, .queued, false⟩ := by
  cases hc : c.stage with
  | returned accepted =>
    obtain ⟨id, status, deduplicated⟩ := accepted
    cases deduplicated with
    | true =>
      rw [AcceptCall.Sound, hc] at h
      rw [h.1] at hn
      cases hn
    | false =>
      rcases (sound_first h hc).1 with ⟨rfl, -⟩ | ⟨-, hno⟩
      · exact ⟨id, rfl⟩
      · rw [hno] at hn
        cases hn
  | _ =>
    have hno := h.notified fun accepted hr ↦ by rw [hc] at hr; cases hr
    rw [hno] at hn
    cases hn

omit [Platform] in
theorem not_rowsApart {c d : AcceptCall} (hc : ForKey tenantId key c) (hd : ForKey tenantId key d)
    (hfc : First c) (hfd : First d) : ¬ AcceptCall.RowsApart c d := by
  obtain ⟨id, status, hc'⟩ := hfc
  obtain ⟨id', status', hd'⟩ := hfd
  intro h
  refine h (c.msg.row id (status = .suppressed) c.now) ?_
    (d.msg.row id' (status' = .suppressed) d.now) ?_ ?_
  · simp only [AcceptCall.row, hc', Option.mem_def]
  · simp only [AcceptCall.row, hd', Option.mem_def]
  · exact .inr ⟨hc.1.trans hd.1.symm, hc.2.trans hd.2.symm⟩

theorem forKey_of_owns (hi : Inv s) {m : Message} (hm : m ∈ s.db.message) {c : AcceptCall}
    (hc : c ∈ s.accepts) (ho : c.Owns m) : ForKey m.tenantId m.idempotencyKey c ∧ First c := by
  obtain ⟨status, hst, -⟩ := ho
  obtain ⟨-, -, m', hm', hmail, -⟩ := sound_first (hi.sound c hc) hst
  obtain rfl : m' = m := s.db.message_eq_of_id hm' hm hmail.id
  exact ⟨⟨hmail.tenantId.symm, hmail.idempotencyKey.symm⟩, m'.id, status, hst⟩

theorem first_unique (hi : Inv s) {c d : AcceptCall} (hc : c ∈ s.accepts) (hd : d ∈ s.accepts)
    {id : Uuid} {status status' : Status} (hst : c.stage = .returned ⟨id, status, false⟩)
    (hst' : d.stage = .returned ⟨id, status', false⟩) : c = d := by
  obtain ⟨i, hgeti⟩ := List.mem_iff_getElem?.mp hc
  obtain ⟨j, hgetj⟩ := List.mem_iff_getElem?.mp hd
  have hij : i = j := by
    apply hi.apart.unique hgeti hgetj
    intro h
    refine h (c.msg.row id (status = .suppressed) c.now) ?_
      (d.msg.row id (status' = .suppressed) d.now) ?_ (.inl rfl)
    · simp only [AcceptCall.row, hst, Option.mem_def]
    · simp only [AcceptCall.row, hst', Option.mem_def]
  subst hij
  exact Option.some.inj (hgeti.symm.trans hgetj)

theorem idempotent_of_inv (hi : Inv s) (tenantId : Uuid) (key : Text) :
    Idempotent s tenantId key where
  row := by
    refine countP_le_one s.db.message.unique fun m _ m' _ hm hm' h ↦ h (.inr ?_)
    simp only [Bool.and_eq_true, decide_eq_true_eq] at hm hm'
    exact ⟨hm.1.trans hm'.1.symm, hm.2.trans hm'.2.symm⟩
  named c hc hk accepted hr := by
    obtain ⟨m, hm, hid, ht, hkey⟩ := names_of_returned (hi.sound c hc) hr
    exact ⟨m, hm, ht.trans hk.1, hkey.trans hk.2, hid⟩
  found c hc hk hl := by
    have hs := hi.sound c hc
    rw [AcceptCall.Sound, hl] at hs
    obtain ⟨-, id, m, hm, -, ht, hkey⟩ := hs
    exact ⟨m, hm, ht.trans hk.1, hkey.trans hk.2⟩
  first := by
    intro h
    obtain ⟨c, hc, hk, accepted, hr⟩ := h
    obtain ⟨m, hm, -, ht, hkey⟩ := names_of_returned (hi.sound c hc) hr
    obtain ⟨d, hd, ho⟩ := hi.owned m hm
    obtain ⟨hdk, hfirst⟩ := forKey_of_owns hi hm hd ho
    rw [ht, hkey, hk.1, hk.2] at hdk
    obtain ⟨i, hget⟩ := List.mem_iff_getElem?.mp hd
    refine ⟨i, ⟨d, hget, hdk, hfirst⟩, ?_⟩
    intro j hj
    obtain ⟨e, hget', hek, hfirst'⟩ := hj
    exact hi.apart.unique hget' hget (not_rowsApart hek hdk hfirst' hfirst)
  content c hc _ id status hst := (sound_first (hi.sound c hc) hst).2.2
  notified c hc hk id status hst := by
    have hone (d : AcceptCall) (hd : d ∈ s.accepts)
        (hp : decide (ForKey tenantId key d ∧ d.notified) = true) :
        ForKey tenantId key d ∧ First d := by
      obtain ⟨hdk, hn⟩ := of_decide_eq_true hp
      obtain ⟨id, hst⟩ := first_of_notified (hi.sound d hd) hn
      exact ⟨hdk, id, .queued, hst⟩
    rcases (sound_first (hi.sound c hc) hst).1 with ⟨rfl, hn⟩ | ⟨rfl, hn⟩
    · refine hi.apart.countP_eq_one (fun x hx y hy hpx hpy ↦ ?_) hc (decide_eq_true ⟨hk, hn⟩)
      obtain ⟨hxk, hxf⟩ := hone x hx hpx
      obtain ⟨hyk, hyf⟩ := hone y hy hpy
      exact not_rowsApart hxk hyk hxf hyf
    -- A call that notified would be the one that inserted the row, and that is `c`.
    · apply List.countP_eq_zero.mpr
      intro d hd hp
      obtain ⟨hdk, hdf⟩ := hone d hd hp
      obtain ⟨i, hgeti⟩ := List.mem_iff_getElem?.mp hc
      obtain ⟨j, hgetj⟩ := List.mem_iff_getElem?.mp hd
      obtain rfl := hi.apart.unique hgeti hgetj (not_rowsApart hk hdk ⟨id, _, hst⟩ hdf)
      obtain rfl := Option.some.inj (hgeti.symm.trans hgetj)
      rw [hn] at hp
      simp at hp

/-- Accept is idempotent under any concurrency. -/
theorem accept_idempotent (now : Time) (l : List Action) :
    Always step (fun s ↦ ∀ tenantId key, Idempotent s tenantId key) { now } l :=
  fun _ _ _ hr tenantId key ↦ idempotent_of_inv (inv_of_run hr) tenantId key

end Runs

end Postbud.System
