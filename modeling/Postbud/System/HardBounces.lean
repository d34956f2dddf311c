import Postbud.System.Idempotency

namespace Postbud

open Lib Lib.Processes Lib.Transition

namespace Bounce.Call

/-- What holds of a call of `ingest` between two statements: its reports are
those of the DSN, and only a verdict on an address reaches the list. -/
structure Sound (c : Call) : Prop where
  left : ∀ r ∈ c.left, r ∈ Dsn.parse c.raw
  suppress : ∀ address report rest out, c.stage = .suppress address report rest out →
    report.shouldSuppress ∧ report.finalRecipient = some address

theorem sound_next {raw : Text} {reports : List Dsn.Report} (h : ∀ r ∈ reports, r ∈ Dsn.parse raw)
    (out : Ingested) : Sound ⟨raw, next out reports⟩ where
  left r hr := h r (left_next raw out reports ▸ hr)
  suppress address report rest out' hc := by
    cases reports with
    | nil => cases hc
    | cons r reports =>
      simp only [next] at hc
      cases hq : r.relayQueueId <;> rw [hq] at hc <;> cases hc

theorem sound_start (raw : Text) : (start raw).Sound := by
  unfold start
  split
  · exact ⟨nofun, nofun⟩
  · exact sound_next (fun r hr ↦ hr) {}

theorem sound_failed (raw : Text) : Sound ⟨raw, .failed⟩ := ⟨nofun, nofun⟩

variable [Platform] {db db' : Db} {now : Time} {c c' : Call}

theorem Step.sound (h : Step db now c db' c') (hs : c.Sound) : c'.Sound := by
  cases h with
  | storedRaw hc => exact ⟨nofun, nofun⟩
  | lookedUp queueId messageId report rest out out' hc =>
    refine ⟨fun r hr ↦ hs.left r ?_, nofun⟩
    rw [left, hc]
    exact hr
  | stored messageId report rest out hc =>
    have hleft : ∀ r ∈ report :: rest, r ∈ Dsn.parse c.raw := by
      intro r hr
      apply hs.left r
      rw [left, hc]
      exact hr
    rcases left_afterStore c.raw report rest out with ⟨hl, hv, address, ha, he⟩ | ⟨-, -, he⟩
    · rw [he] at hl ⊢
      refine ⟨fun r hr ↦ hleft r (hl ▸ hr), fun address' report' rest' out' hst ↦ ?_⟩
      cases hst
      exact ⟨hv, ha⟩
    · rw [he]
      exact sound_next (fun r hr ↦ hleft r (List.mem_cons_of_mem _ hr)) out
  | suppressed address report rest out hc =>
    refine sound_next (fun r hr ↦ hs.left r ?_) _
    rw [left, hc]
    exact List.mem_cons_of_mem _ hr

end Bounce.Call

variable [Platform]

def Db.Dead (db : Db) (x : Text) : Prop :=
  ∃ g ∈ db.suppression, g.active ∧ g.tenantId = none ∧ Platform.lower g.address = Platform.lower x

/-- A statement of `ingest` ends the turn of a report with a verdict only by
making its address one that nobody may be written to at. -/
theorem Bounce.Call.Step.dead_or_left {db db' : Db} {now : Time} {c c' : Bounce.Call}
    (h : Bounce.Call.Step db now c db' c') (hs : c.Sound) (hn : db.Numbered) {r : Dsn.Report}
    (hr : r ∈ c.left) (hv : r.shouldSuppress) {x : Text} (hx : r.finalRecipient = some x) :
    r ∈ c'.left ∨ db'.Dead x := by
  cases h with
  | storedRaw hc =>
    rw [left, hc] at hr
    cases hr
  | lookedUp queueId messageId report rest out out' hc =>
    rw [left, hc] at hr
    exact .inl hr
  | stored messageId report rest out hc =>
    rw [left, hc] at hr
    left
    rcases left_afterStore c.raw report rest out with ⟨hl, -⟩ | ⟨hl, hno, -⟩
    · exact hl.symm ▸ hr
    · rw [hl]
      rcases List.mem_cons.mp hr with rfl | hr
      · exact absurd ⟨hv, by rw [hx]; rfl⟩ hno
      · exact hr
  | suppressed address report rest out hc =>
    have hverdict := (hs.suppress address report rest out hc).2
    rw [left, hc] at hr
    rcases List.mem_cons.mp hr with rfl | hr
    · obtain rfl := Option.some.inj (hverdict.symm.trans hx)
      exact .inr (Suppression.exists_active_add hn)
    · exact .inl ((left_next c.raw _ rest).symm ▸ hr)

namespace System

variable {s s' t : State} {a : Action} {l : List Action}

theorem Step.ingest_at (h : Step s a s') {j : ℕ} {c : Bounce.Call} (hj : s.ingests[j]? = some c) :
    s'.ingests[j]? = some c ∨ s'.ingests[j]? = some { c with stage := .failed } ∨
      ∃ c', s'.ingests[j]? = some c' ∧ a = .ingest j ∧ Bounce.Call.Step s.db s.now c s'.db c' := by
  have hlt : j < s.ingests.length := (List.getElem?_eq_some_iff.mp hj).1
  cases h with
  | bounce raw => exact .inl (by rw [List.getElem?_append_left hlt, hj])
  | ingest i c₀ c' db hi h =>
    by_cases hij : i = j
    · subst hij
      obtain rfl := Option.some.inj (hi.symm.trans hj)
      exact .inr (.inr ⟨c', by rw [List.getElem?_set_self hlt], rfl, h⟩)
    · exact .inl (by rw [List.getElem?_set_ne hij, hj])
  | ingestFails i c₀ hi hc =>
    by_cases hij : i = j
    · subst hij
      obtain rfl := Option.some.inj (hi.symm.trans hj)
      exact .inr (.inl (by rw [List.getElem?_set_self hlt]))
    · exact .inl (by rw [List.getElem?_set_ne hij, hj])
  | _ => exact .inl hj

theorem Step.ingests_sound (h : Step s a s') (hs : ∀ c ∈ s.ingests, c.Sound) :
    ∀ c ∈ s'.ingests, c.Sound := by
  intro c hc
  cases h with
  | bounce raw =>
    exact forall_mem_concat hs (Bounce.Call.sound_start raw) c hc
  | ingest i c₀ c' db hi h =>
    rcases List.mem_or_eq_of_mem_set hc with hc | rfl
    · exact hs c hc
    · exact h.sound (hs c₀ (List.mem_of_getElem? hi))
  | ingestFails i c₀ hi hc' =>
    rcases List.mem_or_eq_of_mem_set hc with hc | rfl
    · exact hs c hc
    · exact Bounce.Call.sound_failed c₀.raw
  | _ => exact hs c hc

theorem ingests_sound_of_run (h : Run step s l t) (hs : ∀ c ∈ s.ingests, c.Sound) :
    ∀ c ∈ t.ingests, c.Sound :=
  h.invariant (fun s ↦ ∀ c ∈ s.ingests, c.Sound) (fun _ _ _ hs ha ↦ (step_spec ha).ingests_sound hs)
    hs

/-- A successful call of `ingest` has, for each report with a verdict, a
moment from which nobody may be written to at the recipient's address. -/
theorem dead_of_returned (h : Run step s l t) (hi : Inv s) (hs : ∀ c ∈ s.ingests, c.Sound)
    {j : ℕ} {c : Bounce.Call} (hj : s.ingests[j]? = some c) {r : Dsn.Report}
    (hr : r ∈ c.left ∨ c.stage = .failed) (hv : r.shouldSuppress) {x : Text}
    (hx : r.finalRecipient = some x) {raw : Text} {out : Bounce.Ingested}
    (ht : t.ingests[j]? = some ⟨raw, .returned out⟩) :
    ∃ l' l'' u, l = l' ++ l'' ∧ Run step s l' u ∧ u.db.Dead x := by
  induction h generalizing c with
  | nil s =>
    obtain rfl := Option.some.inj (hj.symm.trans ht)
    rcases hr with hr | hr <;> cases hr
  | @cons s s' t a l ha h ih =>
    have hnext {c' : Bounce.Call} (hj' : s'.ingests[j]? = some c')
        (hr' : r ∈ c'.left ∨ c'.stage = .failed) :
        ∃ l' l'' u, a :: l = l' ++ l'' ∧ Run step s l' u ∧ u.db.Dead x := by
      obtain ⟨l', l'', u, rfl, hu, hdead⟩ := ih (hi.step ha) ((step_spec ha).ingests_sound hs) hj' hr' ht
      exact ⟨a :: l', l'', u, rfl, .cons ha hu, hdead⟩
    rcases (step_spec ha).ingest_at hj with hj' | hj' | ⟨c', hj', -, hstep⟩
    · exact hnext hj' hr
    · exact hnext hj' (.inr rfl)
    · rcases hr with hr | hr
      · have hsound := hs c (List.mem_of_getElem? hj)
        rcases hstep.dead_or_left hsound hi.numbered hr hv hx with hr | hdead
        · exact hnext hj' (.inl hr)
        · exact ⟨[a], l, s', rfl, .one ha, hdead⟩
      · exact absurd hr hstep.not_failed

theorem raw_of_run (h : Run step s l t) {j : ℕ} {c : Bounce.Call} (hj : s.ingests[j]? = some c) :
    ∃ c', t.ingests[j]? = some c' ∧ c'.raw = c.raw :=
  h.invariant (fun t ↦ ∃ c', t.ingests[j]? = some c' ∧ c'.raw = c.raw) (by
    intro s a s' hc hs
    obtain ⟨c₁, hc₁, hraw⟩ := hc
    rcases (step_spec hs).ingest_at hc₁ with hj' | hj' | ⟨c₂, hj', -, hstep⟩
    · exact ⟨c₁, hj', hraw⟩
    · exact ⟨_, hj', hraw⟩
    · exact ⟨c₂, hj', hstep.raw.trans hraw⟩) ⟨c, hj, rfl⟩

def KeepsGlobal (x : Text) (s : State) (a : Action) : Prop :=
  ∀ id removedBy, a = .lift id removedBy → ∀ g ∈ s.db.suppression, g.id = id → g.active →
    g.tenantId = none → Platform.lower g.address ≠ Platform.lower x

theorem Step.mem_suppression (h : Step s a s') {g : Suppression} (hg : g ∈ s.db.suppression)
    (hk : ∀ removedBy, a ≠ .lift g.id removedBy) : g ∈ s'.db.suppression := by
  cases h with
  | accept i uuid c c' db hi h => exact h.suppression.1.symm ▸ hg
  | record d outcome hd ho =>
    rw [Worker.deliverOne_frame]
    exact hg
  | suppress tenantId address reason source detail => exact Suppression.mem_add_of_mem hg
  | lift id removedBy =>
    refine Suppression.mem_remove.mpr ⟨g, hg, if_neg fun hid ↦ ?_⟩
    exact hk removedBy (hid.1 ▸ rfl)
  | ingest i c c' db hi h =>
    cases h with
    | suppressed address report rest out hc => exact Suppression.mem_add_of_mem hg
    | _ => exact hg
  | reconcile entries graceSecs =>
    rw [RelayQueue.reconcile_frame]
    exact hg
  | purge days db h =>
    obtain ⟨-, h⟩ := Option.ite_none_right_eq_some.mp h
    obtain rfl := Option.some.inj h
    exact hg
  | _ => exact hg

/-- The calls from the `n`-th on have consulted a list whose last number was
at least `seq`, if they have consulted it. -/
def ConsultedSince (n seq : ℕ) (s : State) : Prop :=
  seq ≤ s.db.suppressionSeq ∧ n ≤ s.accepts.length ∧
    ∀ i c, n ≤ i → s.accepts[i]? = some c → c.stage = .check ∨ c.stage = .failed ∨ seq ≤ c.seen

theorem seen_step {db db' : Db} {others : List Message} {uuid : Uuid} {c c' : AcceptCall}
    (h : AcceptCall.Step db others uuid c db' c') :
    c.stage = .check ∧ c'.seen = db.suppressionSeq ∨ c'.stage = .failed ∨
      c.stage ≠ .check ∧ c.stage ≠ .failed ∧ c'.seen = c.seen := by
  cases h with
  | check hc => exact .inl ⟨hc, rfl⟩
  | failed hc => exact .inr (.inl rfl)
  | _ => simp_all

theorem Step.consultedSince (h : Step s a s') (hi : Inv s) {n seq : ℕ}
    (hs : ConsultedSince n seq s) : ConsultedSince n seq s' := by
  obtain ⟨hseq, hlen, hcalls⟩ := hs
  refine ⟨hseq.trans (h.follows hi).seq, ?_⟩
  rcases h.accepts with he | ⟨msg, he⟩ | ⟨i, uuid, c₀, c', hget, he, hstep⟩
  · rw [he]
    exact ⟨hlen, hcalls⟩
  · rw [he]
    refine ⟨by rw [List.length_append]; omega, fun j c hj hc ↦ ?_⟩
    rcases getElem?_concat_cases hc with hc | ⟨-, rfl⟩
    · exact hcalls j c hj hc
    · exact .inl rfl
  · rw [he]
    refine ⟨by rwa [List.length_set], fun j c hj hc ↦ ?_⟩
    rcases getElem?_set_cases hc with ⟨rfl, rfl⟩ | ⟨-, hc⟩
    · rcases seen_step hstep with ⟨-, hseen⟩ | hfail | ⟨hcheck, hfail, hseen⟩
      · exact .inr (.inr (hseen ▸ hseq))
      · exact .inr (.inl hfail)
      · rw [hseen]
        exact .inr (.inr (((hcalls j c₀ hj hget).resolve_left hcheck).resolve_left hfail))
    · exact hcalls j c hj hc

/-- From this state on, and until a global row for the address is lifted,
every first accept of mail to it is recorded as suppressed, and the message
is due at no time and claimed by no worker, ever. -/
def DeadTo (x : Text) (s : State) : Prop :=
  ∀ l t l' u, Run step s l t → Along step (KeepsGlobal x) s l → Run step t l' u →
    ∀ i c id status, s.accepts.length ≤ i → t.accepts[i]? = some c →
      Platform.lower c.msg.rcptTo = Platform.lower x → c.stage = .returned ⟨id, status, false⟩ →
      status = .suppressed ∧ ∃ m ∈ u.db.message, m.id = id ∧ m.status = .suppressed ∧
        m.completedAt.isSome ∧ (∀ now, ¬ m.due now) ∧ ∀ d ∈ u.held, d.claimed.id ≠ id

theorem Run.mem_accepts (h : Run step s l t) {c : AcceptCall} (hc : c ∈ s.accepts)
    {accepted : Accepted} (hr : c.stage = .returned accepted) : c ∈ t.accepts :=
  h.invariant (c ∈ ·.accepts) (fun _ _ _ hc hs ↦ (step_spec hs).mem_accepts hc hr) hc

theorem row_of_suppressed (hi : Inv s) {c : AcceptCall} (hc : c ∈ s.accepts) {id : Uuid}
    (hst : c.stage = .returned ⟨id, .suppressed, false⟩) :
    ∃ m ∈ s.db.message, m.id = id ∧ m.status = .suppressed ∧ m.completedAt.isSome ∧
      (∀ now, ¬ m.due now) ∧ ∀ d ∈ s.held, d.claimed.id ≠ id := by
  obtain ⟨-, -, m, hm, hmail, -⟩ := sound_first (hi.sound c hc) hst
  obtain ⟨c', hc', ho⟩ := hi.owned m hm
  obtain ⟨status, hst', hsupp⟩ := ho
  obtain rfl : c = c' := first_unique hi hc hc' (show c.stage = .returned ⟨m.id, _, false⟩ from
    (show m.id = id from hmail.id) ▸ hst) hst'
  obtain rfl : status = .suppressed := by
    rw [hst] at hst'
    cases hst'
    rfl
  obtain ⟨hs, hcomp⟩ := hsupp rfl
  refine ⟨m, hm, hmail.id, hs, hcomp, fun now hdue ↦ ?_, fun d hd hdid ↦ ?_⟩
  · rw [Message.status_of_due hdue] at hs
    cases hs
  · obtain ⟨m₀, hm₀, hid₀, hne⟩ := hi.held d hd
    obtain rfl : m₀ = m := s.db.message_eq_of_id hm₀ hm ((hid₀.trans hdid).trans hmail.id.symm)
    exact hne hs

theorem deadTo_of_dead (hi : Inv s) {x : Text} (hd : s.db.Dead x) : DeadTo x s := by
  obtain ⟨g, hg, hga, hgn, hgx⟩ := hd
  intro l t l' u hl hk hl' i c id status hlen hget hrcpt hst
  obtain ⟨hit, hgt, hsince⟩ : Inv t ∧ g ∈ t.db.suppression ∧
      ConsultedSince s.accepts.length s.db.suppressionSeq t := by
    refine hl.invariant_along (fun t ↦ Inv t ∧ g ∈ t.db.suppression ∧
      ConsultedSince s.accepts.length s.db.suppressionSeq t) (fun s a s' hI hka hs ↦ ?_) hk
      ⟨hi, hg, le_rfl, le_rfl, fun j c hj hc ↦ ?_⟩
    · refine ⟨hI.1.step hs, (step_spec hs).mem_suppression hI.2.1 ?_,
        (step_spec hs).consultedSince hI.1 hI.2.2⟩
      intro removedBy he
      subst he
      exact hka g.id removedBy rfl g hI.2.1 rfl hga hgn hgx
    · rw [List.getElem?_eq_none hj] at hc
      cases hc
  obtain ⟨hstatus, hcons, -⟩ := sound_first (hit.sound c (List.mem_of_getElem? hget)) hst
  have hseen : s.db.suppressionSeq ≤ c.seen := by
    rcases hsince.2.2 i c hlen hget with hc | hc | hseen
    · rw [hst] at hc
      cases hc
    · rw [hst] at hc
      cases hc
    · exact hseen
  obtain rfl : status = .suppressed := by
    rcases hstatus with ⟨rfl, -⟩ | ⟨rfl, -⟩
    · have hlt := hcons.2 rfl g hgt hga (Suppression.covers_of_global hgn hgx hrcpt _)
      have hle := hi.numbered g hg
      omega
    · rfl
  refine ⟨rfl, row_of_suppressed (hit.run hl')
    (Run.mem_accepts hl' (List.mem_of_getElem? hget) hst) hst⟩

/-- Hard bounces suppress for everyone and soft ones for no one: when a DSN
has been ingested, each report with a verdict has a moment of the ingestion
from which its address is dead to every tenant; and a DSN without a verdict
leaves the list as it is. -/
theorem bounces_suppress (now : Time) (l : List Action) :
    Always step (fun s ↦ ∀ raw l t, Run step s (.bounce raw :: l) t →
      (∀ out, t.ingests[s.ingests.length]? = some ⟨raw, .returned out⟩ →
        ∀ r ∈ Dsn.parse raw, r.shouldSuppress → ∀ x ∈ r.finalRecipient,
          ∃ l' l'' u, l = l' ++ l'' ∧ Run step s (.bounce raw :: l') u ∧ DeadTo x u) ∧
      ((∀ r ∈ Dsn.parse raw, ¬ r.shouldSuppress) →
        ∀ t', step t (.ingest s.ingests.length) = some t' →
          t'.db.suppression = t.db.suppression)) { now } l := by
  intro l₀ s _ hr raw l t hl
  have hi := inv_of_run hr
  have hs : ∀ c ∈ s.ingests, c.Sound :=
    ingests_sound_of_run hr fun _ hc ↦ absurd hc List.not_mem_nil
  cases hl with
  | @cons _ s₁ _ _ _ hb hl =>
    have hi₁ := hi.step hb
    have hs₁ := (step_spec hb).ingests_sound hs
    have hj : s₁.ingests[s.ingests.length]? = some (Bounce.start raw) := by
      obtain rfl := Option.some.inj hb
      exact List.getElem?_concat_length
    refine ⟨fun out ht r hr hv x hx ↦ ?_, fun hno t' ht' ↦ ?_⟩
    · have hleft : r ∈ (Bounce.start raw).left := (Bounce.left_start raw).symm ▸ hr
      obtain ⟨l', l'', u, rfl, hu, hdead⟩ := dead_of_returned hl hi₁ hs₁ hj (.inl hleft) hv hx ht
      refine ⟨l', l'', u, rfl, .cons hb hu, deadTo_of_dead ?_ hdead⟩
      exact hi₁.run hu
    -- The call at this place is one for this DSN, so it never comes to suppress.
    · obtain ⟨c, hc, hraw⟩ := raw_of_run hl hj
      have hraw : c.raw = raw := hraw
      have hsound := ingests_sound_of_run hl hs₁ c (List.mem_of_getElem? hc)
      cases step_spec ht' with
      | ingest _ c₀ c' db hget h =>
        obtain rfl := Option.some.inj (hget.symm.trans hc)
        cases h with
        | suppressed address report rest out hst =>
          obtain ⟨hv, -⟩ := hsound.suppress address report rest out hst
          refine absurd hv (hno report ?_)
          have hmem := hsound.left report (by rw [Bounce.Call.left, hst]; exact List.mem_cons_self)
          exact hraw ▸ hmem
        | _ => rfl

end System

end Postbud
