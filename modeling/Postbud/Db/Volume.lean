import Mathlib.Data.List.Range
import Postbud.Core.Volume
import Postbud.Db.Admin
import Postbud.Db.DmarcSummary
import Postbud.Lib.Median

namespace Postbud.Admin

open Lib Lib.Median

structure TenantVolumeAlert where
  tenant : Text
  signal : Volume
  deriving DecidableEq

def hours (n : ℤ) : Time := seconds (n * 3600)

/-- `::date`, as the number of the day. -/
def date (t : Time) : ℤ := t / hours 24

section Measure

variable [Platform]

/-- `coalesce(n, 0)` of a tenant's row of `sent` for a day, which a tenant may not have. -/
def sentOn (db : AdminDb) (now : Time) (t : TenantRow) (d : ℤ) : ℕ :=
  (db.message.rows.filter fun m ↦ m.tenantId = t.id && date m.createdAt = d &&
    now - hours (15 * 24) ≤ m.createdAt).length

/-- `generate_series`, from fifteen days ago to yesterday. -/
def days (now : Time) : List ℤ := (List.range 15).map fun i : ℕ ↦ date now - 15 + (i : ℤ)

def typicalDaily (db : AdminDb) (now : Time) (t : TenantRow) : ℚ :=
  median ((days now).map (sentOn db now t))

def recent24h (db : AdminDb) (now : Time) (t : TenantRow) : ℕ :=
  (db.message.rows.filter fun m ↦ m.tenantId = t.id && now - hours 24 < m.createdAt).length

def historyDays (now : Time) (t : TenantRow) : ℤ := date now - date t.createdAt

def signal (db : AdminDb) (now : Time) (t : TenantRow) : Volume :=
  Volume.judge (recent24h db now t) (typicalDaily db now t) (historyDays now t)

variable [Dmarc.Collation]

def tenantVolume (db : AdminDb) (now : Time) : List TenantVolumeAlert :=
  ((db.tenant.rows.filter (·.active)).insertionSort fun t t' ↦
    Dmarc.Collation.le t.name t'.name).filterMap fun t ↦
      let signal := signal db now t
      if signal.isUnusual then some ⟨t.name, signal⟩ else none

/-- A tenant is reported as sending unlike itself. -/
def Reported (db : AdminDb) (now : Time) (t : TenantRow) : Prop :=
  t.name ∈ (tenantVolume db now).map (·.tenant)

end Measure

section Judge

variable [Platform] {db : AdminDb} {now : Time} {t : TenantRow} {v : ℕ}

/-- A tenant has sent `v` messages on every day since it was created, and in
the last 24 hours. -/
structure Steady (db : AdminDb) (now : Time) (t : TenantRow) (v : ℕ) : Prop where
  since : ∀ m ∈ db.message, m.tenantId = t.id → date t.createdAt ≤ date m.createdAt
  daily : ∀ d, date t.createdAt ≤ d → d < date now →
    (db.message.rows.filter fun m ↦ m.tenantId = t.id && date m.createdAt = d).length = v
  recent : recent24h db now t = v

theorem reported_iff [Dmarc.Collation] (ht : t ∈ db.tenant) :
    Reported db now t ↔ t.active ∧ (signal db now t).isUnusual := by
  rw [Reported, tenantVolume, List.mem_map]
  constructor
  · rintro ⟨alert, halert, hname⟩
    obtain ⟨t', ht', hsome⟩ := List.mem_filterMap.mp halert
    obtain ⟨ht', hactive⟩ := List.mem_filter.mp ((List.mem_insertionSort _).mp ht')
    obtain ⟨hunusual, hsome⟩ := Option.ite_none_right_eq_some.mp hsome
    obtain rfl := Option.some.inj hsome
    obtain rfl : t' = t := Table.eq_of_clash ht' ht (.inr (.inl hname))
    exact ⟨hactive, hunusual⟩
  · rintro ⟨hactive, hunusual⟩
    refine ⟨⟨t.name, signal db now t⟩, List.mem_filterMap.mpr ⟨t, ?_, if_pos hunusual⟩, rfl⟩
    exact (List.mem_insertionSort _).mpr (List.mem_filter.mpr ⟨ht, hactive⟩)

omit [Platform] in
/-- A day of the last fourteen is whole in the last fifteen times 24 hours. -/
theorem within_of_date {now created : ℤ} (h : date now - 14 ≤ date created) :
    now - hours (15 * 24) ≤ created := by
  have hday : hours 24 = 86400000000 := rfl
  have hseries : hours (15 * 24) = 1296000000000 := rfl
  simp only [date, hday, hseries] at h ⊢
  omega

theorem Steady.sentOn_before (h : Steady db now t v) {d : ℤ} (hd : d < date t.createdAt) :
    sentOn db now t d = 0 := by
  rw [sentOn, List.length_eq_zero_iff, List.filter_eq_nil_iff]
  intro m hm hsent
  simp only [Bool.and_eq_true, decide_eq_true_eq] at hsent
  obtain ⟨⟨hid, rfl⟩, -⟩ := hsent
  exact absurd (h.since m hm hid) (not_le_of_gt hd)

theorem Steady.sentOn_le (h : Steady db now t v) {d : ℤ} (hd : d < date now) :
    sentOn db now t d ≤ v := by
  rcases lt_or_ge d (date t.createdAt) with hbefore | hsince
  · rw [h.sentOn_before hbefore]
    exact Nat.zero_le v
  · rw [sentOn, ← h.daily d hsince hd]
    refine (List.monotone_filter_right _ fun m hm ↦ ?_).length_le
    simp only [Bool.and_eq_true] at hm ⊢
    exact hm.1

theorem Steady.sentOn_eq (h : Steady db now t v) {d : ℤ} (hsince : date t.createdAt ≤ d)
    (hrecent : date now - 14 ≤ d) (hd : d < date now) : sentOn db now t d = v := by
  rw [sentOn, ← h.daily d hsince hd]
  refine congrArg List.length (List.filter_congr fun m _ ↦ ?_)
  by_cases hm : date m.createdAt = d
  · have hwithin : now - hours (15 * 24) ≤ m.createdAt := within_of_date (hm ▸ hrecent)
    simp only [hwithin, decide_true, Bool.and_true]
  · simp only [hm, decide_false, Bool.and_false, Bool.false_and]

theorem length_days : ((days now).map (sentOn db now t)).length = 2 * 7 + 1 := by
  rw [List.length_map, days, List.length_map, List.length_range]

/-- How many days of the series have a number that is so. -/
theorem countP_days (p : ℕ → Bool) : ((days now).map (sentOn db now t)).countP p =
    (List.range 15).countP fun i : ℕ ↦ p (sentOn db now t (date now - 15 + (i : ℤ))) := by
  rw [days, List.map_map, List.countP_map]
  rfl

/-- A typical day is the eighth of the fifteen. -/
theorem Steady.typicalDaily_eq (h : Steady db now t v) (hage : 8 ≤ historyDays now t) :
    typicalDaily db now t = v := by
  have hcreated : date t.createdAt ≤ date now - 8 := by
    rw [historyDays] at hage
    omega
  refine le_antisymm (median_le length_days ?_) (le_median length_days ?_)
  · have hall : ∀ i ∈ List.range 15, (decide (sentOn db now t (date now - 15 + (i : ℤ)) ≤ v)) := by
      intro i hi
      have hi := List.mem_range.mp hi
      exact decide_eq_true (h.sentOn_le (by omega))
    rw [countP_days, List.countP_eq_length.mpr hall, List.length_range]
    decide
  · rw [countP_days]
    have hfew : (List.range 15).countP (· < 7) ≤ 7 := by decide
    refine le_trans (List.countP_mono_left fun i hi hless ↦ ?_) hfew
    have hi := List.mem_range.mp hi
    by_contra hlate
    rw [decide_eq_true_iff, not_lt] at hlate
    rw [h.sentOn_eq (by omega) (by omega) (by omega), decide_eq_true_iff] at hless
    exact lt_irrefl v hless

/-- After a week, eight of the fifteen days are from before the tenant was created. -/
theorem Steady.typicalDaily_eq_zero (h : Steady db now t v) (hage : historyDays now t = 7) :
    typicalDaily db now t = 0 := by
  have hcreated : date t.createdAt = date now - 7 := by
    rw [historyDays] at hage
    omega
  have hmany : 7 < (List.range 15).countP (· < 8) := by decide
  have hzero : 7 < ((days now).map (sentOn db now t)).countP (· ≤ 0) := by
    rw [countP_days]
    refine lt_of_lt_of_le hmany (List.countP_mono_left fun i _ hearly ↦ ?_)
    rw [decide_eq_true_iff] at hearly ⊢
    exact le_of_eq (h.sentOn_before (by omega))
  have hnone : ((days now).map (sentOn db now t)).countP (· < 0) = 0 :=
    List.countP_eq_zero.mpr fun n _ hn ↦ absurd (of_decide_eq_true hn) (Nat.not_lt_zero n)
  refine le_antisymm ?_ ?_
  · exact_mod_cast median_le length_days hzero
  · exact_mod_cast le_median length_days (hnone.trans_le (Nat.zero_le 7))

theorem Steady.isUnusual_iff (h : Steady db now t v) :
    (signal db now t).isUnusual ↔ historyDays now t = 7 ∧ 50 ≤ v := by
  rw [signal, Volume.isUnusual_judge, h.recent]
  rcases lt_trichotomy (historyDays now t) 7 with hyoung | hweek | hold
  · exact iff_of_false (fun hu ↦ absurd hu.2.1 (not_le_of_gt hyoung)) fun hu ↦
      absurd hu.1 (ne_of_lt hyoung)
  · rw [h.typicalDaily_eq_zero hweek, hweek, zero_mul]
    have hsent : (0 : ℚ) ≤ ((v : ℤ) : ℚ) := by exact_mod_cast Nat.zero_le v
    constructor
    · intro hu
      exact ⟨rfl, by exact_mod_cast hu.1⟩
    · intro hv
      exact ⟨by exact_mod_cast hv.2, le_rfl, hsent⟩
  · rw [h.typicalDaily_eq (Int.add_one_le_iff.mpr hold)]
    refine iff_of_false (fun hu ↦ ?_) fun hu ↦ absurd hu.1 (ne_of_gt hold)
    obtain ⟨hfloor, -, hspike⟩ := hu
    have htenfold : (v : ℤ) * 10 ≤ v := by exact_mod_cast hspike
    omega

/-- Steady sending is no anomaly but on one day: a week after the tenant was
created, when the days before that are still most of the series. -/
theorem not_reported_iff [Dmarc.Collation] (db : AdminDb) (now : Time) (t : TenantRow) (v : ℕ)
    (ht : t ∈ db.tenant) (h : Steady db now t v) :
    ¬ Reported db now t ↔ t.active = false ∨ historyDays now t ≠ 7 ∨ v < 50 := by
  rw [reported_iff ht, h.isUnusual_iff, not_and_or, not_and_or, not_le, Bool.not_eq_true]

end Judge

section Days

attribute [local instance] Platform.ascii

local instance : Dmarc.Collation := ⟨fun _ _ ↦ true⟩

def acme : TenantRow where
  id := 1
  name := "acme".toList
  apiKeyHash := []
  fromDomains := ["example.com".toList]
  createdAt := 0
  note := none

/-- The `i`th message of a tenant that sends `v` of them at noon every day. -/
def noonMessage (v i : ℕ) : Message where
  id := i
  tenantId := 1
  idempotencyKey := List.replicate i 'k'
  mailFrom := "post@example.com".toList
  fromName := none
  rcptTo := "ola@example.net".toList
  replyTo := none
  subject := "Faktura".toList
  bodyText := none
  bodyHtml := none
  nextAttemptAt := 0
  createdAt := hours (24 * (i / v : ℕ) + 12)

theorem length_nil_eq {α β : Type} : ([] : List α).length = ([] : List β).length := rfl

/-- A tenant's first `n` days. -/
def everyNoon (n v : ℕ) : AdminDb where
  message := ⟨(List.range (n * v)).map (noonMessage v), by
    refine List.pairwise_map.mpr (List.nodup_range.imp fun hne hclash ↦ hne ?_)
    rcases hclash with hid | ⟨-, hkey⟩
    · exact hid
    · simpa only [noonMessage, List.length_replicate] using congrArg List.length hkey⟩
  messageAttachment := []
  tenant := ⟨[acme], List.pairwise_singleton _ _⟩
  attemptIds := []
  bounceIds := []
  tenantOf := by
    intro m hm
    obtain ⟨i, -, rfl⟩ := List.mem_map.mp hm
    exact ⟨acme, List.mem_singleton_self _, rfl⟩
  attachmentIds := List.nodup_nil
  digest a ha := absurd ha List.not_mem_nil
  attemptNumbers := length_nil_eq
  bounceNumbers := length_nil_eq
  bounceIds_nodup := List.nodup_nil

theorem steady_everyNoon (n v : ℕ)
    (hsince : ∀ m ∈ (everyNoon n v).message.rows, 0 ≤ date m.createdAt)
    (hdaily : ∀ d < n, ((everyNoon n v).message.rows.filter fun m ↦
      m.tenantId = 1 && date m.createdAt = (d : ℤ)).length = v)
    (hrecent : recent24h (everyNoon n v) (hours (24 * n)) acme = v) :
    Steady (everyNoon n v) (hours (24 * n)) acme v where
  since m hm _ := hsince m hm
  daily d hd hnow := by
    have hnow : d < n := by
      have hend : date (hours (24 * n)) = n := by
        simp only [date, hours, seconds]
        omega
      rwa [hend] at hnow
    obtain ⟨d, rfl⟩ := Int.eq_ofNat_of_zero_le (show 0 ≤ d from hd)
    exact hdaily d (by exact_mod_cast hnow)
  recent := hrecent

theorem not_reported_eighth_day :
    ¬ Reported (everyNoon 8 50) (hours (24 * (8 : ℕ))) acme := by
  have hsteady := steady_everyNoon 8 50 (by decide +kernel) (by decide +kernel) (by decide +kernel)
  exact (not_reported_iff _ _ acme 50 (List.mem_singleton_self _) hsteady).mpr
    (.inr (.inl (by decide)))

theorem reported_seventh_day : Steady (everyNoon 7 50) (hours (24 * (7 : ℕ))) acme 50 ∧
    Reported (everyNoon 7 50) (hours (24 * (7 : ℕ))) acme := by
  have hsteady := steady_everyNoon 7 50 (by decide +kernel) (by decide +kernel) (by decide +kernel)
  refine ⟨hsteady, (reported_iff (List.mem_singleton_self _)).mpr ⟨rfl, ?_⟩⟩
  exact hsteady.isUnusual_iff.mpr ⟨by decide, le_rfl⟩

end Days

end Postbud.Admin
