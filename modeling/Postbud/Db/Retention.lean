import Postbud.Db.Message

namespace Postbud

open Lib

def daysBefore (now : Time) (days : ℤ) : Time := now - seconds (86400 * days)

/-- The 32 bits that a day count is bound with. -/
def narrowed (days : ℤ) : ℤ := days.bmod 4294967296

theorem expired_iff {m : Message} {cutoff : Time} : m.expired cutoff ↔
    (∃ t ∈ m.completedAt, t < cutoff) ∧ m.bodyPurgedAt = none := by
  simp only [Message.expired, Bool.and_eq_true, Option.any_eq_true, decide_eq_true_eq,
    Option.isNone_iff_eq_none, Option.mem_def]

theorem narrowed_of_lt {days : ℤ} (hdays : 0 ≤ days) (hlt : days < 2147483648) :
    narrowed days = days := by
  rw [narrowed, Int.bmod_def]
  omega

theorem inTimestampRange_iff {t : ℤ} :
    inTimestampRange t ↔ -211813488000000000 ≤ t ∧ t < 9223371331200000000 := by
  simp only [inTimestampRange, Bool.and_eq_true, decide_eq_true_eq]

theorem daysBefore_le {now : Time} {d days : ℤ} (h : d ≤ days) :
    daysBefore now days ≤ daysBefore now d := by
  have hmul : 86400 * d * 1000000 ≤ 86400 * days * 1000000 := by omega
  exact Int.sub_le_sub_left hmul now

/-- So many days ago is before there were timestamps. -/
theorem not_lt_daysBefore {now t days : ℤ} (hnow : inTimestampRange now)
    (ht : inTimestampRange t) (hdays : 2147483648 ≤ days) : ¬ t < daysBefore now days := by
  intro hlt
  have hfar := hlt.trans_le (daysBefore_le hdays)
  have hlow := (inTimestampRange_iff.mp ht).1
  have hhigh := (inTimestampRange_iff.mp hnow).2
  rw [daysBefore, seconds] at hfar
  have hless : -211813488000000000 < now - 86400 * 2147483648 * 1000000 := hlow.trans_lt hfar
  omega

section Purge

variable [Platform]

/-- A purge changes a message, or deletes attachments of it. -/
def Purges (db : Db) (now : Time) (days : ℤ) (m : Message) : Prop :=
  ∃ db', purgeBodies db now days = some db' ∧ (m ∉ db'.message ∨
    ∃ a ∈ db.messageAttachment, a.messageId = m.id ∧ a ∉ db'.messageAttachment)

/-- A purge takes no message that was completed within so many days, and none
that a purge of fewer days would keep. -/
structure Retains (db : Db) (now : Time) (days : ℤ) : Prop where
  recent : ∀ m ∈ db.message, Purges db now days m →
    ∃ t ∈ m.completedAt, t < daysBefore now days
  monotone : ∀ d, 0 ≤ d → d ≤ days → ∀ m ∈ db.message, Purges db now days m → Purges db now d m

variable {db : Db} {now : Time} {days : ℤ} {m : Message}

theorem purgeBodies_eq : purgeBodies db now days =
    if inTimestampRange (daysBefore now (narrowed days)) then
      some (blankBodies (purgeAttachments db (daysBefore now (narrowed days))) now
        (daysBefore now (narrowed days)))
    else none := rfl

theorem mem_blankBodies {cutoff : Time} (hm : m ∈ db.message) :
    m ∈ (blankBodies (purgeAttachments db cutoff) now cutoff).message ↔ ¬ m.expired cutoff := by
  rw [blankBodies, Table.mem_def, Db.rows_updateMessage, List.mem_map]
  constructor
  · rintro ⟨m₀, hm₀, he⟩ hexpired
    split_ifs at he with h₀
    · have hid : m₀.id = m.id := congrArg (·.id) he
      obtain rfl : m₀ = m := db.message_eq_of_id hm₀ hm hid
      have hpurged : (m₀.blank now).bodyPurgedAt = m₀.bodyPurgedAt := congrArg (·.bodyPurgedAt) he
      simp only [Message.expired, ← hpurged, Message.blank, Option.isNone_some, Bool.and_false,
        Bool.false_eq_true] at hexpired
    · exact h₀ (he ▸ hexpired)
  · intro hkept
    exact ⟨m, hm, if_neg hkept⟩

/-- What a purge takes is what its query selects. -/
theorem purges_iff (hm : m ∈ db.message) : Purges db now days m ↔
    inTimestampRange (daysBefore now (narrowed days)) ∧
      m.expired (daysBefore now (narrowed days)) := by
  rw [Purges, purgeBodies_eq]
  split_ifs with hrange
  · simp only [Option.some.injEq, exists_eq_left', mem_blankBodies hm, not_not, hrange, true_and]
    refine ⟨fun h ↦ h.elim id fun ⟨a, ha, hid, hgone⟩ ↦ ?_, .inl⟩
    by_contra hkept
    refine hgone (List.mem_filter.mpr ⟨ha, decide_eq_true fun hmem ↦ ?_⟩)
    obtain ⟨m', hm', he⟩ := List.mem_map.mp hmem
    obtain ⟨hm', hexpired⟩ := List.mem_filter.mp hm'
    obtain rfl : m' = m := db.message_eq_of_id hm' hm (he.trans hid)
    exact hkept hexpired
  · simp only [reduceCtorEq, false_and, exists_false, hrange]

/-- A count that fits is honoured. -/
theorem retains_of_lt (hdays : 0 ≤ days) (hlt : days < 2147483648) (hnow : inTimestampRange now) :
    Retains db now days where
  recent m hm hpurges := by
    obtain ⟨-, hexpired⟩ := (purges_iff hm).mp hpurges
    rw [narrowed_of_lt hdays hlt] at hexpired
    exact (expired_iff.mp hexpired).1
  monotone d hd hle m hm hpurges := by
    obtain ⟨hrange, hexpired⟩ := (purges_iff hm).mp hpurges
    rw [narrowed_of_lt hdays hlt] at hrange hexpired
    rw [purges_iff hm, narrowed_of_lt hd (hle.trans_lt hlt)]
    have hcutoff : daysBefore now days ≤ daysBefore now d := daysBefore_le hle
    have hpast : daysBefore now d ≤ now := Int.sub_le_self now (by rw [seconds]; omega)
    obtain ⟨⟨t, ht, hbefore⟩, hunpurged⟩ := expired_iff.mp hexpired
    refine ⟨inTimestampRange_iff.mpr ⟨?_, ?_⟩, expired_iff.mpr ⟨⟨t, ht, ?_⟩, hunpurged⟩⟩
    · exact (inTimestampRange_iff.mp hrange).1.trans hcutoff
    · exact hpast.trans_lt (inTimestampRange_iff.mp hnow).2
    · exact hbefore.trans_le hcutoff

/-- A retention of `days` is honoured just when the count fits into 32 bits, or
what is left of it selects nothing. -/
theorem retains_iff (db : Db) (now : Time) (days : ℤ) (hdays : 0 ≤ days)
    (hnow : inTimestampRange now)
    (hcompleted : ∀ m ∈ db.message, ∀ t ∈ m.completedAt, inTimestampRange t) :
    Retains db now days ↔ days < 2147483648 ∨
      ¬ inTimestampRange (daysBefore now (narrowed days)) ∨
        ∀ m ∈ db.message, ¬ m.expired (daysBefore now (narrowed days)) := by
  constructor
  · intro h
    by_contra hnot
    push Not at hnot
    obtain ⟨hlarge, hrange, m, hm, hexpired⟩ := hnot
    obtain ⟨t, ht, hbefore⟩ := h.recent m hm ((purges_iff hm).mpr ⟨hrange, hexpired⟩)
    exact not_lt_daysBefore hnow (hcompleted m hm t ht) hlarge hbefore
  · rintro (hlt | hnothing)
    · exact retains_of_lt hdays hlt hnow
    · have hnone : ∀ m ∈ db.message, ¬ Purges db now days m := by
        intro m hm hpurges
        obtain ⟨hrange, hexpired⟩ := (purges_iff hm).mp hpurges
        exact hnothing.elim (· hrange) (· m hm hexpired)
      exact ⟨fun m hm h ↦ absurd h (hnone m hm), fun _ _ _ m hm h ↦ absurd h (hnone m hm)⟩

end Purge

section Configured

attribute [local instance] Platform.ascii

def delivered : Message where
  id := 1
  tenantId := 7
  idempotencyKey := "invoice-1".toList
  mailFrom := "billing@example.com".toList
  fromName := none
  rcptTo := "a@example.org".toList
  replyTo := none
  subject := "Invoice".toList
  bodyText := some "See the attachment.".toList
  bodyHtml := none
  status := .sent
  attempts := 1
  nextAttemptAt := 0
  createdAt := 0
  completedAt := some 0

/-- One message that was delivered a second ago. -/
def deliveredDb : Db where
  message := ⟨[delivered], List.pairwise_singleton _ _⟩

theorem retains_month : Retains deliveredDb (seconds 1) 30 := by
  have hcompleted : ∀ m ∈ deliveredDb.message, ∀ t ∈ m.completedAt, inTimestampRange t := by
    intro m hm t ht
    obtain rfl := List.mem_singleton.mp hm
    obtain rfl := Option.some.inj ht
    decide
  exact (retains_iff deliveredDb (seconds 1) 30 (by decide) (by decide) hcompleted).mpr
    (.inl (by decide))

/-- 2³² days are narrowed to none. -/
theorem narrowed_not_retains : ¬ Retains deliveredDb (seconds 1) 4294967296 := by
  intro h
  have hm : delivered ∈ deliveredDb.message := List.mem_singleton_self _
  have hpurges : Purges deliveredDb (seconds 1) 4294967296 delivered :=
    (purges_iff hm).mpr ⟨by decide, by decide⟩
  obtain ⟨t, ht, hbefore⟩ := h.recent delivered hm hpurges
  obtain rfl := Option.some.inj ht
  exact absurd hbefore (by decide)

end Configured

end Postbud
