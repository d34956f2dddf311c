import Mathlib.Data.List.Nodup
import Postbud.Db.RelayQueue

namespace Postbud.RelayQueue

open Lib

/-- A message that the entry is about, as the entry leaves it: the instant
moves only if the state or the reason does. -/
def told (now : Time) (entry : Queued) (m : Message) : Message :=
  { m with
    relayState := some (stateOf entry.queueName)
    relayStateDetail := entry.reason
    relayStateAt :=
      if m.relayState = some (stateOf entry.queueName) ∧ m.relayStateDetail = entry.reason then
        m.relayStateAt
      else some now }

section Observed

variable {now : Time} {entries : List Queued} {entry : Queued} {m : Message}

theorem changes_iff : changes entry m ↔ m.relayQueueId = some entry.queueId ∧
    (m.relayState ≠ some (stateOf entry.queueName) ∨ m.relayStateDetail ≠ entry.reason) := by
  simp only [changes, Bool.and_eq_true, Bool.or_eq_true, decide_eq_true_eq]

theorem observed_of_absent (h : ∀ entry ∈ entries, m.relayQueueId ≠ some entry.queueId) :
    observed now entries m = m := by
  rcases observed_spec now entries m with he | ⟨entry, hmem, hq, -⟩
  · exact he
  · exact absurd hq (h entry hmem)

/-- Of distinct queue ids a message has one, and the entries of the others pass it by. -/
theorem observed_of_mem (hnd : (entries.map (·.queueId)).Nodup) (he : entry ∈ entries)
    (hq : m.relayQueueId = some entry.queueId) : observed now entries m = told now entry m := by
  have hone : (if changes entry m then observe now entry m else m) = told now entry m := by
    split_ifs with hc
    · have hnew := (changes_iff.mp hc).2
      simp only [observe, told, not_and_or.mpr hnew, if_false]
    · have hsame : m.relayState = some (stateOf entry.queueName) ∧
          m.relayStateDetail = entry.reason := by
        simpa only [changes_iff, hq, true_and, not_or, ne_eq, not_not] using hc
      simp only [told, hsame, and_self, if_true]
      rw [← hsame.1, ← hsame.2]
  have hqtold : (told now entry m).relayQueueId = some entry.queueId := hq
  induction entries generalizing m with
  | nil => cases he
  | cons e entries ih =>
    rw [List.map_cons, List.nodup_cons] at hnd
    obtain ⟨hfresh, hnd⟩ := hnd
    rcases List.mem_cons.mp he with rfl | he
    · have hrest : observed now entries (told now entry m) = told now entry m := by
        refine observed_of_absent fun e he hqe ↦ hfresh ?_
        rw [Option.some.inj (hqtold.symm.trans hqe)]
        exact List.mem_map_of_mem he
      show observed now entries (if changes entry m then observe now entry m else m) = _
      rw [hone, hrest]
    · have hkeep : ¬ changes e m := by
        intro hc
        have hid := Option.some.inj ((changes_iff.mp hc).1.symm.trans hq)
        exact hfresh (hid ▸ List.mem_map_of_mem (f := Queued.queueId) he)
      show observed now entries (if changes e m then observe now e m else m) = _
      rw [if_neg hkeep]
      exact ih hnd he hq hone hqtold

end Observed

section Rows

variable [Platform]

/-- Handed over before the grace, with the relay no more, and never bounced. -/
structure Left (db : Db) (now : Time) (entries : List Queued) (graceSecs : ℤ) (m : Message) :
    Prop where
  sent : m.status = .sent
  undelivered : m.relayState ≠ some .delivered
  older : ∃ t, m.completedAt = some t ∧ t < now - seconds graceSecs
  known : ∃ queueId, m.relayQueueId = some queueId
  unlisted : ∀ entry ∈ entries, m.relayQueueId ≠ some entry.queueId
  unbounced : ∀ b ∈ db.bounceReport, b.relayQueueId ≠ m.relayQueueId

/-- What a report says of a message, and what is to come of it. -/
structure Reconciles (db : Db) (now : Time) (entries : List Queued) (graceSecs : ℤ)
    (m m' : Message) : Prop where
  present : ∀ entry ∈ entries, m.relayQueueId = some entry.queueId → m' = told now entry m
  absent : Left db now entries graceSecs m →
    m' = { m with relayState := some .delivered, relayStateDetail := none, relayStateAt := some now }
  other : (∀ entry ∈ entries, m.relayQueueId ≠ some entry.queueId) →
    ¬ Left db now entries graceSecs m → m' = m

variable {db : Db} {now : Time} {entries : List Queued} {graceSecs : ℤ} {m m' : Message}

theorem absent_iff_left :
    absent db now (entries.map (·.queueId)) graceSecs m ↔ Left db now entries graceSecs m := by
  unfold absent
  cases hq : m.relayQueueId with
  | none =>
    apply iff_of_false Bool.false_ne_true
    intro h
    obtain ⟨queueId, hk⟩ := h.known
    cases hq.symm.trans hk
  | some queueId =>
    simp only [Bool.and_eq_true, decide_eq_true_eq, List.all_eq_true, Option.any_eq_true,
      List.mem_map, not_exists, not_and]
    constructor
    · intro h
      obtain ⟨⟨⟨⟨hs, hr⟩, t, ht, hlt⟩, hn⟩, hb⟩ := h
      refine ⟨hs, hr, ⟨t, ht, hlt⟩, ⟨queueId, hq⟩, fun entry he hqe ↦ ?_, fun b hmem ↦ ?_⟩
      · exact hn entry he (Option.some.inj (hqe.symm.trans hq))
      · exact hq ▸ hb b hmem
    · intro h
      obtain ⟨t, ht, hlt⟩ := h.older
      refine ⟨⟨⟨⟨h.sent, h.undelivered⟩, t, ht, hlt⟩, fun entry he hid ↦ ?_⟩, fun b hmem ↦ ?_⟩
      · exact h.unlisted entry he (hq.trans (congrArg some hid.symm))
      · exact hq ▸ h.unbounced b hmem

instance : DecidablePred (Left db now entries graceSecs) :=
  fun _ ↦ decidable_of_iff _ absent_iff_left

theorem reconciles_iff (hnd : (entries.map (·.queueId)).Nodup) :
    Reconciles db now entries graceSecs m m' ↔
      m' = if absent db now (entries.map (·.queueId)) graceSecs m then deliver now m
        else observed now entries m := by
  by_cases hleft : Left db now entries graceSecs m
  · rw [if_pos (absent_iff_left.mpr hleft)]
    refine ⟨fun h ↦ h.absent hleft, fun h ↦ ⟨fun entry he hq ↦ ?_, fun _ ↦ h, fun _ hno ↦ ?_⟩⟩
    · exact absurd hq (hleft.unlisted entry he)
    · exact absurd hleft hno
  · rw [if_neg (mt absent_iff_left.mp hleft)]
    by_cases hlisted : ∃ entry ∈ entries, m.relayQueueId = some entry.queueId
    · obtain ⟨entry, he, hq⟩ := hlisted
      refine ⟨fun h ↦ (h.present entry he hq).trans (observed_of_mem hnd he hq).symm, fun h ↦ ?_⟩
      refine ⟨fun e he' hq' ↦ ?_, fun h' ↦ absurd h' hleft, fun hno ↦ absurd hq (hno entry he)⟩
      exact h.trans (observed_of_mem hnd he' hq')
    · simp only [not_exists, not_and] at hlisted
      rw [observed_of_absent hlisted]
      refine ⟨fun h ↦ h.other hlisted hleft, fun h ↦ ?_⟩
      exact ⟨fun e he hq ↦ absurd hq (hlisted e he), fun h' ↦ absurd h' hleft, fun _ _ ↦ h⟩

/-- What a report has been applied to says the same of it as the report. -/
theorem Reconciles.settled {db' : Db} (h : Reconciles db now entries graceSecs m m')
    (hb : db'.bounceReport = db.bounceReport) : Reconciles db' now entries graceSecs m' m' := by
  by_cases hlisted : ∃ entry ∈ entries, m.relayQueueId = some entry.queueId
  · obtain ⟨entry, he, hq⟩ := hlisted
    obtain rfl := h.present entry he hq
    refine ⟨fun e he' hq' ↦ ?_, fun hl ↦ absurd hq (hl.unlisted entry he), fun _ _ ↦ rfl⟩
    have htold := h.present e he' hq'
    rw [htold]
    simp only [told, and_self, if_true]
  · simp only [not_exists, not_and] at hlisted
    by_cases hleft : Left db now entries graceSecs m
    · obtain rfl := h.absent hleft
      exact ⟨fun e he hq ↦ absurd hq (hlisted e he), fun hl ↦ absurd rfl hl.undelivered,
        fun _ _ ↦ rfl⟩
    · obtain rfl := h.other hlisted hleft
      refine ⟨fun e he hq ↦ absurd hq (hlisted e he), fun hl ↦ absurd ?_ hleft, fun _ _ ↦ rfl⟩
      exact ⟨hl.sent, hl.undelivered, hl.older, hl.known, hl.unlisted, hb ▸ hl.unbounced⟩

/-- No message has the queue id of the entry. -/
def Unmatched (db : Db) (entry : Queued) : Prop :=
  ∀ m ∈ db.message.rows, m.relayQueueId ≠ some entry.queueId

instance : DecidablePred (Unmatched db) :=
  fun entry ↦ inferInstanceAs (Decidable (∀ m ∈ db.message.rows, m.relayQueueId ≠ some entry.queueId))

theorem unmatched_of_ids {db' : Db} (h : db'.message.rows.map (·.relayQueueId) =
    db.message.rows.map (·.relayQueueId)) (entry : Queued) :
    Unmatched db' entry ↔ Unmatched db entry := by
  have hiff (db : Db) : Unmatched db entry ↔
      some entry.queueId ∉ db.message.rows.map (·.relayQueueId) := by
    simp only [Unmatched, List.mem_map, not_exists, not_and]
  rw [hiff, hiff, h]

omit [Platform] in
theorem relayQueueId_observed (now : Time) (entries : List Queued) (m : Message) :
    (observed now entries m).relayQueueId = m.relayQueueId := by
  rcases observed_spec now entries m with h | ⟨-, -, -, state, detail, -, h⟩ <;> rw [h]

theorem present_snd (now : Time) (p : Db × Reconciled) (entry : Queued) :
    (present now p entry).2 =
      { p.2 with
        queued := p.2.queued + 1
        unmatched := p.2.unmatched + if Unmatched p.1 entry then 1 else 0 } := by
  have hiff : (p.1.message.rows.countP (changes entry) = 0 ∧
      p.1.message.rows.countP (·.relayQueueId = some entry.queueId) = 0) ↔
        Unmatched p.1 entry := by
    simp only [List.countP_eq_zero, decide_eq_true_eq, Unmatched, and_iff_right_iff_imp]
    exact fun h m hm hc ↦ h m hm (changes_iff.mp hc).1
  obtain ⟨db, out⟩ := p
  simp only [present, hiff]
  split_ifs <;> rfl

theorem foldl_present_snd (now : Time) (entries : List Queued) (p : Db × Reconciled) :
    (entries.foldl (present now) p).2 =
      { p.2 with
        queued := p.2.queued + entries.length
        unmatched := p.2.unmatched + entries.countP (Unmatched p.1) } := by
  induction entries generalizing p with
  | nil => rfl
  | cons entry entries ih =>
    have hsame : entries.countP (Unmatched (present now p entry).1) =
        entries.countP (Unmatched p.1) := by
      refine List.countP_congr fun e _ ↦ ?_
      simp only [decide_eq_true_eq]
      refine unmatched_of_ids (List.map_map.trans (List.map_congr_left fun m _ ↦ ?_)) e
      exact relayQueueId_observed now [entry] m
    rw [List.foldl_cons, ih, hsame, present_snd, List.countP_cons, List.length_cons]
    simp only [decide_eq_true_eq, Nat.add_assoc, Nat.add_comm, Nat.add_left_comm]

theorem reconcile_snd (db : Db) (now : Time) (entries : List Queued) (graceSecs : ℤ) :
    (reconcile db now entries graceSecs).2 =
      { queued := entries.length
        delivered := db.message.rows.countP (Left db now entries graceSecs)
        unmatched := entries.countP (Unmatched db) } := by
  obtain ⟨hrows, hdb⟩ := foldl_present now entries (db, {})
  have hcounts := foldl_present_snd now entries (db, {})
  have hb : (entries.foldl (present now) (db, {})).1.bounceReport = db.bounceReport := by rw [hdb]
  have hdelivered : (entries.foldl (present now) (db, {})).1.message.rows.countP (absent
      (entries.foldl (present now) (db, {})).1 now (entries.map (·.queueId)) graceSecs) =
        db.message.rows.countP (Left db now entries graceSecs) := by
    rw [hrows, List.countP_map]
    refine List.countP_congr fun m _ ↦ ?_
    rw [Function.comp_apply, (absent_observed _ now entries graceSecs m hb).1, absent_iff_left,
      decide_eq_true_eq]
  simp only [reconcile, hdelivered, hcounts, Nat.zero_add]

theorem relayQueueIds_reconcile :
    (reconcile db now entries graceSecs).1.message.rows.map (·.relayQueueId) =
      db.message.rows.map (·.relayQueueId) := by
  rw [rows_reconcile, List.map_map]
  refine List.map_congr_left fun m _ ↦ ?_
  rw [Function.comp_apply]
  split_ifs
  · rfl
  · exact relayQueueId_observed now entries m

theorem reconcile_rows (db : Db) (now : Time) (graceSecs : ℤ)
    (hnd : (entries.map (·.queueId)).Nodup) :
    List.Forall₂ (Reconciles db now entries graceSecs) db.message.rows
      (reconcile db now entries graceSecs).1.message.rows := by
  rw [rows_reconcile, List.forall₂_map_right_iff]
  exact List.forall₂_same.mpr fun m _ ↦ (reconciles_iff hnd).mpr rfl

/-- A report that says of every row what the row says already changes none. -/
theorem reconcile_of_settled (hnd : (entries.map (·.queueId)).Nodup)
    (h : ∀ m ∈ db.message.rows, Reconciles db now entries graceSecs m m) :
    reconcile db now entries graceSecs =
      (db, { queued := entries.length, delivered := 0, unmatched := entries.countP (Unmatched db) }) := by
  have hrows : (reconcile db now entries graceSecs).1.message.rows = db.message.rows := by
    rw [rows_reconcile]
    refine (List.map_congr_left fun m hm ↦ ?_).trans (List.map_id _)
    exact ((reconciles_iff hnd).mp (h m hm)).symm
  have hzero : db.message.rows.countP (Left db now entries graceSecs) = 0 := by
    refine List.countP_eq_zero.mpr fun m hm hleft ↦ ?_
    have hleft := of_decide_eq_true hleft
    have hsame := (h m hm).absent hleft
    exact hleft.undelivered (congrArg Message.relayState hsame)
  have hdb : (reconcile db now entries graceSecs).1 = db := by
    rw [reconcile_frame, Table.ext hrows]
  refine Prod.ext hdb ?_
  rw [reconcile_snd, hzero]

/-- One report, whose queue ids are distinct, does to each row what it says of
it and nothing else, counts what it did, and does nothing when it is applied
again at the same instant. -/
theorem reconcile_exact (db : Db) (now : Time) (entries : List Queued) (graceSecs : ℤ)
    (hnd : (entries.map (·.queueId)).Nodup) :
    ∃ db' : Db, reconcile db now entries graceSecs =
        (db', { queued := entries.length
                delivered := db.message.rows.countP (Left db now entries graceSecs)
                unmatched := entries.countP (Unmatched db) }) ∧
      db' = { db with message := db'.message } ∧
      List.Forall₂ (Reconciles db now entries graceSecs) db.message.rows db'.message.rows ∧
      reconcile db' now entries graceSecs =
        (db', { queued := entries.length
                delivered := 0
                unmatched := entries.countP (Unmatched db) }) := by
  have hforall := reconcile_rows db now graceSecs hnd
  refine ⟨_, Prod.ext rfl (reconcile_snd db now entries graceSecs), reconcile_frame, hforall, ?_⟩
  have hsettled : ∀ m' ∈ (reconcile db now entries graceSecs).1.message.rows,
      Reconciles (reconcile db now entries graceSecs).1 now entries graceSecs m' m' := by
    intro m' hm'
    rw [rows_reconcile] at hm'
    obtain ⟨m, -, rfl⟩ := List.mem_map.mp hm'
    have hm : Reconciles db now entries graceSecs m _ := (reconciles_iff hnd).mpr rfl
    refine hm.settled ?_
    rw [reconcile_frame]
  rw [reconcile_of_settled hnd hsettled]
  simp only [unmatched_of_ids relayQueueIds_reconcile]

end Rows

def handedOverAs (id : Uuid) (queueId : Text) : Message where
  id
  tenantId := 1
  idempotencyKey := Text.decimal id
  mailFrom := "post@example.com".toList
  fromName := none
  rcptTo := "kari@example.org".toList
  replyTo := none
  subject := "Faktura".toList
  bodyText := some "Hei".toList
  bodyHtml := none
  status := .sent
  attempts := 1
  nextAttemptAt := 0
  relayQueueId := some queueId
  createdAt := 0
  completedAt := some 0

def oneDeferredOneGone : List Queued :=
  [⟨"4bXlNq2Qh8z1Yk".toList, "deferred".toList, some "450 greylisted".toList⟩,
    ⟨"3F373F5418".toList, "active".toList, none⟩]

attribute [local instance] Platform.ascii

def twoHandedOver : Db where
  message := (Table.empty.insertOrIgnore (handedOverAs 1 "4bXlNq2Qh8z1Yk".toList)).insertOrIgnore
    (handedOverAs 2 "5cYmOr3Ri9a2Zl".toList)

theorem reconcile_exact_oneGone : ∃ db' : Db,
    reconcile twoHandedOver (minutes 60) oneDeferredOneGone 15 = (db', ⟨2, 1, 1⟩) ∧
      List.Forall₂ (Reconciles twoHandedOver (minutes 60) oneDeferredOneGone 15)
        twoHandedOver.message.rows db'.message.rows ∧
      reconcile db' (minutes 60) oneDeferredOneGone 15 = (db', ⟨2, 0, 1⟩) := by
  obtain ⟨db', h, -, hrows, hagain⟩ :=
    reconcile_exact twoHandedOver (minutes 60) oneDeferredOneGone 15 (by decide)
  have hdelivered : twoHandedOver.message.rows.countP
      (Left twoHandedOver (minutes 60) oneDeferredOneGone 15) = 1 := by decide +kernel
  have hunmatched : oneDeferredOneGone.countP (Unmatched twoHandedOver) = 1 := by decide +kernel
  rw [hdelivered, hunmatched] at h
  rw [hunmatched] at hagain
  exact ⟨db', h, hrows, hagain⟩

end Postbud.RelayQueue
