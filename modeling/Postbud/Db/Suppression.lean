import Mathlib.Data.List.Sort
import Postbud.Db.Schema

namespace Postbud

open Lib

variable [Platform]

/-- What every run keeps of the list: a row's number was drawn from the
sequence, so a number still to be drawn is no row's. -/
def Db.Numbered (db : Db) : Prop := ∀ s ∈ db.suppression, s.id ≤ db.suppressionSeq

namespace Suppression

structure Entry where
  id : ℕ
  tenantId : Option Uuid
  address : Text
  reason : SuppressionReason
  source : Text
  detail : Option Text
  createdAt : Time
  deriving DecidableEq

def covers (s : Suppression) (tenantId : Uuid) (address : Text) : Bool :=
  Platform.lower s.address = Platform.lower address &&
    (s.tenantId.isNone || s.tenantId = some tenantId)

def isSuppressedTx (db : Db) (tenantId : Uuid) (address : Text) : Bool :=
  db.suppression.rows.any fun s ↦ s.active && s.covers tenantId address

def add (db : Db) (now : Time) (tenantId : Option Uuid) (address : Text)
    (reason : SuppressionReason) (source : Text) (detail : Option Text) : Db :=
  let id := db.suppressionSeq + 1
  { db with
    suppressionSeq := id
    suppression := db.suppression.insertOrIgnore
      { id, tenantId, address, reason, source, detail, createdAt := now } }

def remove (db : Db) (now : Time) (id : ℤ) (removedBy : Text) : Db × Bool :=
  (db.endSuppression (fun s ↦ s.id = id && s.active) now removedBy,
    db.suppression.rows.any fun s ↦ s.id = id && s.active)

def list (db : Db) (tenantId : Uuid) (addressFilter : Option Text) : List Entry :=
  let rows := db.suppression.rows.filter fun s ↦ s.active &&
    (s.tenantId.isNone || s.tenantId = some tenantId) &&
    addressFilter.all fun a ↦ Platform.lower s.address = Platform.lower a
  ((rows.insertionSort fun s s' ↦ s'.createdAt ≤ s.createdAt).take 500).map fun s ↦
    ⟨s.id, s.tenantId, s.address, s.reason, s.source, s.detail, s.createdAt⟩

variable {db : Db} {now : Time} {tenantId : Option Uuid} {address : Text}
  {reason : SuppressionReason} {source removedBy : Text} {detail : Option Text} {id : ℤ}
  {s : Suppression}

theorem isSuppressedTx_iff {t : Uuid} : isSuppressedTx db t address ↔
    ∃ s ∈ db.suppression, s.active ∧ s.covers t address := by
  simp only [isSuppressedTx, List.any_eq_true, Bool.and_eq_true, Table.mem_def]

theorem covers_iff {t : Uuid} : s.covers t address ↔
    Platform.lower s.address = Platform.lower address ∧ (s.tenantId = none ∨ s.tenantId = some t) := by
  simp only [covers, Bool.and_eq_true, decide_eq_true_eq, Bool.or_eq_true, Option.isNone_iff_eq_none]

theorem covers_of_global (h : s.tenantId = none) {x : Text}
    (hs : Platform.lower s.address = Platform.lower x) {r : Text}
    (hr : Platform.lower r = Platform.lower x) (t : Uuid) : s.covers t r := by
  simp [covers, h, hs, hr]

theorem mem_add_of_mem (h : s ∈ db.suppression) :
    s ∈ (add db now tenantId address reason source detail).suppression :=
  Table.mem_insertOrIgnore_of_mem h

theorem mem_add (h : s ∈ (add db now tenantId address reason source detail).suppression) :
    s ∈ db.suppression ∨ s.id = db.suppressionSeq + 1 ∧ s.tenantId = tenantId := by
  apply (Table.mem_insertOrIgnore h).imp_right
  intro he
  subst he
  exact ⟨rfl, rfl⟩

theorem mem_or_lt_of_mem_add
    (h : s ∈ (add db now tenantId address reason source detail).suppression) :
    s ∈ db.suppression ∨ db.suppressionSeq < s.id := by
  rcases mem_add h with h | ⟨hid, -⟩
  · exact .inl h
  · right
    omega

/-- Adding an address leaves it with an active row, a new one or one that was there before. -/
theorem exists_active_add (hn : db.Numbered) :
    ∃ s ∈ (add db now tenantId address reason source detail).suppression,
      s.active ∧ s.tenantId = tenantId ∧ Platform.lower s.address = Platform.lower address := by
  set new : Suppression :=
    { id := db.suppressionSeq + 1, tenantId, address, reason, source, detail, createdAt := now }
  by_cases hc : ∀ s ∈ db.suppression, ¬ s.Clash new
  · refine ⟨new, ?_, rfl, rfl, rfl⟩
    rw [Table.mem_def, add, Table.insertOrIgnore_of_free hc]
    exact List.mem_append_right _ List.mem_cons_self
  · simp only [not_forall, not_not] at hc
    obtain ⟨s, hs, hid | ⟨ha, -, ht, hl⟩⟩ := hc
    · exact absurd (hid ▸ hn s hs) (Nat.not_succ_le_self _)
    · exact ⟨s, mem_add_of_mem hs, ha, ht, hl⟩

theorem numbered_add (hn : db.Numbered) :
    (add db now tenantId address reason source detail).Numbered := by
  intro s hs
  change s.id ≤ db.suppressionSeq + 1
  rcases mem_add hs with hs | ⟨hid, -⟩
  · have hle := hn s hs
    omega
  · omega

theorem mem_remove : s ∈ (remove db now id removedBy).1.suppression ↔
    ∃ s₀ ∈ db.suppression, (if s₀.id = id ∧ s₀.active then s₀.lift now removedBy else s₀) = s := by
  simp only [remove, Db.mem_endSuppression, Bool.and_eq_true, decide_eq_true_eq]

theorem mem_of_active_remove (h : s ∈ (remove db now id removedBy).1.suppression)
    (ha : s.active) : s ∈ db.suppression := by
  obtain ⟨s₀, hs₀, rfl⟩ := mem_remove.mp h
  split_ifs at ha ⊢ with hc
  · cases ha
  · exact hs₀

theorem numbered_remove (hn : db.Numbered) : (remove db now id removedBy).1.Numbered := by
  intro s hs
  obtain ⟨s₀, hs₀, rfl⟩ := mem_remove.mp hs
  split_ifs <;> exact hn s₀ hs₀

end Suppression

end Postbud
