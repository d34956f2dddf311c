import Postbud.Api.Tenant

namespace Postbud.Api

open Lib

section Isolation

variable [Platform]

def rowsOf (owner : Option Uuid) (db : Db) : List Suppression :=
  db.suppression.rows.filter fun s ↦ s.tenantId = owner

def serve (tenant : Tenant) (db : Db) (calls : List Call) : Db :=
  calls.foldl (fun db call ↦ (handle tenant db call).1) db

/-- A tenant's rows are left as they were, and what it may not write to
changes only where a global row is lifted. -/
structure Isolated (b : Uuid) (db db' : Db) : Prop where
  rows : rowsOf (some b) db' = rowsOf (some b) db
  suppressed : ∀ address,
    Suppression.isSuppressedTx db' b address ≠ Suppression.isSuppressedTx db b address →
      Suppression.isSuppressedTx db b address ∧ ∃ g ∈ db.suppression, g.active ∧
        g.tenantId = none ∧ Platform.lower g.address = Platform.lower address ∧
        ∃ g' ∈ db'.suppression, g'.id = g.id ∧ ¬ g'.active

/-- A request deletes an active row of a tenant. -/
def Deletes (b : Uuid) (db : Db) (call : Call) : Prop :=
  call.answers ≠ 0 ∧ ∃ s ∈ rowsOf (some b) db, s.active ∧ call.request = .remove s.id

instance (b : Uuid) (db : Db) (call : Call) : Decidable (Deletes b db call) := by
  unfold Deletes; infer_instance

variable {tenant : Tenant} {db : Db} {call : Call} {calls : List Call} {b : Uuid}
  {s : Suppression}

theorem mem_rowsOf {owner : Option Uuid} :
    s ∈ rowsOf owner db ↔ s ∈ db.suppression ∧ s.tenantId = owner := by
  simp only [rowsOf, List.mem_filter, decide_eq_true_eq, Table.mem_def]

theorem handle_remove {id : ℤ} (tenant : Tenant) (db : Db) (ha : call.answers ≠ 0)
    (hr : call.request = .remove id) :
    (handle tenant db call).1 = (Suppression.remove db call.now id tenant.name).1 := by
  simp only [handle, hr, Suppressions.remove, Call.query, ha, if_false]
  split <;> simp_all only

theorem handle_suppression (tenant : Tenant) (db : Db) (call : Call) :
    (handle tenant db call).1.suppression = db.suppression ∨
    (∃ address detail, (handle tenant db call).1 = Suppression.add db call.now (some tenant.id)
      address .manual tenant.name detail) ∨
    (∃ id, call.answers ≠ 0 ∧ call.request = .remove id ∧
      (handle tenant db call).1 = (Suppression.remove db call.now id tenant.name).1) := by
  obtain ⟨now, uuid, answers, request⟩ := call
  cases request with
  | submit req =>
    left
    simp only [handle, Messages.submit]
    split
    · rfl
    · rename_i msg hmsg
      have h := suppression_accept db now uuid answers msg
      split <;> simp_all only
  | status id => exact .inl rfl
  | list address => exact .inl rfl
  | add address detail =>
    simp only [handle, Suppressions.add, Call.query]
    split
    · exact .inl rfl
    · split_ifs with ha
      · exact .inl rfl
      · exact .inr (.inl ⟨_, detail, rfl⟩)
  | remove id =>
    by_cases ha : answers = 0
    · left
      simp only [handle, Suppressions.remove, Call.query, ha, if_true]
    · exact .inr (.inr ⟨id, ha, rfl, handle_remove tenant db ha rfl⟩)

theorem mem_of_active_handle (hs : s ∈ (handle tenant db call).1.suppression) (ha : s.active)
    (ht : s.tenantId ≠ some tenant.id) : s ∈ db.suppression := by
  rcases handle_suppression tenant db call with h | ⟨address, detail, h⟩ | ⟨id, -, -, h⟩
  · exact h ▸ hs
  · rw [h] at hs
    rcases Suppression.mem_add hs with hs | ⟨-, hown⟩
    · exact hs
    · exact absurd hown ht
  · rw [h] at hs
    exact Suppression.mem_of_active_remove hs ha

theorem mem_of_active_serve (hs : s ∈ (serve tenant db calls).suppression) (ha : s.active)
    (ht : s.tenantId ≠ some tenant.id) : s ∈ db.suppression := by
  induction calls generalizing db with
  | nil => exact hs
  | cons call calls ih => exact mem_of_active_handle (ih hs) ha ht

theorem exists_handle (tenant : Tenant) (call : Call) (hs : s ∈ db.suppression) :
    ∃ s' ∈ (handle tenant db call).1.suppression, s'.id = s.id ∧ s'.tenantId = s.tenantId := by
  rcases handle_suppression tenant db call with h | ⟨address, detail, h⟩ | ⟨id, -, -, h⟩
  · exact ⟨s, h ▸ hs, rfl, rfl⟩
  · exact ⟨s, h ▸ Suppression.mem_add_of_mem hs, rfl, rfl⟩
  · rw [h]
    refine ⟨_, Suppression.mem_remove.mpr ⟨s, hs, rfl⟩, ?_⟩
    split_ifs <;> exact ⟨rfl, rfl⟩

theorem exists_serve (tenant : Tenant) (calls : List Call) (hs : s ∈ db.suppression) :
    ∃ s' ∈ (serve tenant db calls).suppression, s'.id = s.id ∧ s'.tenantId = s.tenantId := by
  induction calls generalizing db s with
  | nil => exact ⟨s, hs, rfl, rfl⟩
  | cons call calls ih =>
    obtain ⟨s', hs', hid, howner⟩ := exists_handle tenant call hs
    obtain ⟨s'', hs'', hid', howner'⟩ := ih hs'
    exact ⟨s'', hs'', hid'.trans hid, howner'.trans howner⟩

theorem rowsOf_add {now : Time} {a : Uuid} {address source : Text} {reason : SuppressionReason}
    {detail : Option Text} (h : a ≠ b) :
    rowsOf (some b) (Suppression.add db now (some a) address reason source detail) =
      rowsOf (some b) db := by
  have hne : ¬ some a = some b := fun he ↦ h (Option.some.inj he)
  rcases Table.rows_insertOrIgnore db.suppression
    { id := db.suppressionSeq + 1, tenantId := some a, address, reason, source, detail,
      createdAt := now } with he | he
  · simp only [rowsOf, Suppression.add, he]
  · simp only [rowsOf, Suppression.add, he, List.filter_append, List.filter_cons, hne,
      decide_false, Bool.false_eq_true, if_false, List.filter_nil, List.append_nil]

theorem rowsOf_remove {now : Time} {id : ℤ} {removedBy : Text}
    (h : ∀ s ∈ rowsOf (some b) db, s.active → (s.id : ℤ) ≠ id) :
    rowsOf (some b) (Suppression.remove db now id removedBy).1 = rowsOf (some b) db := by
  have howner : ((fun s : Suppression ↦ decide (s.tenantId = some b)) ∘ fun s : Suppression ↦
      if s.id = id && s.active then s.lift now removedBy else s) =
        fun s ↦ decide (s.tenantId = some b) := by
    funext s
    dsimp only [Function.comp_apply]
    split_ifs <;> rfl
  have hrows : rowsOf (some b) (Suppression.remove db now id removedBy).1 =
      (rowsOf (some b) db).map fun s ↦
        if s.id = id && s.active then s.lift now removedBy else s := by
    simp only [rowsOf, Suppression.remove, Db.endSuppression, Table.rows_update, List.filter_map,
      howner]
  rw [hrows]
  refine (List.map_congr_left fun s hs ↦ ?_).trans (List.map_id _)
  apply if_neg
  intro hc
  simp only [Bool.and_eq_true, decide_eq_true_eq] at hc
  exact h s hs hc.2 hc.1

theorem rowsOf_handle (hb : tenant.id ≠ b) (hd : ¬ Deletes b db call) :
    rowsOf (some b) (handle tenant db call).1 = rowsOf (some b) db := by
  rcases handle_suppression tenant db call with h | ⟨address, detail, h⟩ | ⟨id, ha, hr, h⟩
  · simp only [rowsOf, h]
  · rw [h, rowsOf_add hb]
  · rw [h]
    exact rowsOf_remove fun s hs hactive hid ↦ hd ⟨ha, s, hs, hactive, hid ▸ hr⟩

theorem not_mem_handle (ha : call.answers ≠ 0) (hactive : s.active)
    (hr : call.request = .remove s.id) : s ∉ (handle tenant db call).1.suppression := by
  rw [handle_remove tenant db ha hr, Suppression.mem_remove]
  intro h
  obtain ⟨s₀, -, hs⟩ := h
  split_ifs at hs with hc
  · rw [← hs] at hactive
    cases hactive
  · rw [hs] at hc
    exact hc ⟨rfl, hactive⟩

theorem rowsOf_serve_iff (hb : tenant.id ≠ b) :
    rowsOf (some b) (serve tenant db calls) = rowsOf (some b) db ↔
      ∀ call ∈ calls, ¬ Deletes b db call := by
  induction calls generalizing db with
  | nil => simp [serve]
  | cons call calls ih =>
    by_cases hd : Deletes b db call
    · refine iff_of_false (fun heq ↦ ?_) fun h ↦ h call List.mem_cons_self hd
      obtain ⟨ha, s, hs, hactive, hr⟩ := hd
      have howner := (mem_rowsOf.mp hs).2
      have hother : s.tenantId ≠ some tenant.id :=
        fun h ↦ hb (Option.some.inj (h.symm.trans howner))
      rw [← heq] at hs
      have hend : s ∈ (serve tenant (handle tenant db call).1 calls).suppression :=
        (mem_rowsOf.mp hs).1
      exact not_mem_handle ha hactive hr (mem_of_active_serve hend hactive hother)
    · have hkeep := rowsOf_handle hb hd
      have hdel (c : Call) : Deletes b (handle tenant db call).1 c ↔ Deletes b db c := by
        simp only [Deletes, hkeep]
      rw [← hkeep]
      apply ih.trans
      simp only [hdel, List.forall_mem_cons, hd, not_false_iff, true_and]

theorem isSuppressedTx_of_serve (hb : tenant.id ≠ b) {address : Text}
    (hs : Suppression.isSuppressedTx (serve tenant db calls) b address) :
    Suppression.isSuppressedTx db b address := by
  obtain ⟨s, hs, ha, hc⟩ := Suppression.isSuppressedTx_iff.mp hs
  refine Suppression.isSuppressedTx_iff.mpr ⟨s, mem_of_active_serve hs ha fun ht ↦ ?_, ha, hc⟩
  rcases (Suppression.covers_iff.mp hc).2 with hnone | hown
  · rw [hnone] at ht
    cases ht
  · exact hb (Option.some.inj (ht.symm.trans hown))

/-- While the rows of a tenant are left as they were, what stops being
suppressed for it was suppressed by a global row, and that has been lifted. -/
theorem exists_lifted (hrows : rowsOf (some b) (serve tenant db calls) = rowsOf (some b) db)
    {address : Text} (hbefore : Suppression.isSuppressedTx db b address)
    (hafter : ¬ Suppression.isSuppressedTx (serve tenant db calls) b address) :
    ∃ g ∈ db.suppression, g.active ∧ g.tenantId = none ∧
      Platform.lower g.address = Platform.lower address ∧
      ∃ g' ∈ (serve tenant db calls).suppression, g'.id = g.id ∧ ¬ g'.active := by
  obtain ⟨g, hg, ha, hc⟩ := Suppression.isSuppressedTx_iff.mp hbefore
  have hgone : g ∉ (serve tenant db calls).suppression :=
    fun hg' ↦ hafter (Suppression.isSuppressedTx_iff.mpr ⟨g, hg', ha, hc⟩)
  obtain ⟨hlower, hnone | hown⟩ := Suppression.covers_iff.mp hc
  · obtain ⟨g', hg', hid, howner⟩ := exists_serve tenant calls hg
    refine ⟨g, hg, ha, hnone, hlower, g', hg', hid, fun ha' ↦ hgone ?_⟩
    have hg₀ : g' ∈ db.suppression := mem_of_active_serve hg' ha' (by simp [howner, hnone])
    exact Table.eq_of_clash hg₀ hg (.inl hid) ▸ hg'
  · have hrow : g ∈ rowsOf (some b) db := mem_rowsOf.mpr ⟨hg, hown⟩
    rw [← hrows] at hrow
    exact absurd (mem_rowsOf.mp hrow).1 hgone

/-- A tenant's requests leave the suppression list of another as it was
exactly when none of them deletes an active row of it. -/
theorem isolated_iff (tenant : Tenant) {b : Uuid} (hb : tenant.id ≠ b) (db : Db)
    (calls : List Call) :
    Isolated b db (serve tenant db calls) ↔ ∀ call ∈ calls, ¬ Deletes b db call := by
  refine ⟨fun h ↦ (rowsOf_serve_iff hb).mp h.rows, fun h ↦ ?_⟩
  have hrows := (rowsOf_serve_iff hb).mpr h
  refine ⟨hrows, fun address hne ↦ ?_⟩
  -- the requests suppress nothing for it, so the address was suppressed and is not any more
  have hback : Suppression.isSuppressedTx (serve tenant db calls) b address →
      Suppression.isSuppressedTx db b address := isSuppressedTx_of_serve hb
  have hbefore : Suppression.isSuppressedTx db b address := by
    by_contra hn
    have hn' := mt hback hn
    exact hne ((Bool.eq_false_iff.mpr hn').trans (Bool.eq_false_iff.mpr hn).symm)
  have hafter : ¬ Suppression.isSuppressedTx (serve tenant db calls) b address :=
    fun hs ↦ hne (hs.trans hbefore.symm)
  exact ⟨hbefore, exists_lifted hrows hbefore hafter⟩

end Isolation

attribute [local instance] Platform.ascii

def acme : Tenant := ⟨1, "acme".toList, ["example.com".toList]⟩

def globex : Tenant := ⟨2, "globex".toList, ["example.org".toList]⟩

def keptOff : Db :=
  serve globex {} [⟨0, id, 1, .add "ola@example.net".toList none⟩]

theorem isolated_keptOff : Isolated globex.id keptOff
    (serve acme keptOff [⟨1, id, 1, .add "ola@example.net".toList none⟩, ⟨2, id, 1, .remove 2⟩]) :=
  (isolated_iff acme (by decide) keptOff _).mpr (by decide +kernel)

/-- Another tenant deletes that row by its id. -/
theorem foreign_row_deleted : ¬ ∀ (_ : Platform) (tenant : Tenant) (b : Uuid) (db : Db)
    (calls : List Call), tenant.id ≠ b → Isolated b db (serve tenant db calls) := by
  intro h
  have h := (h Platform.ascii acme globex.id keptOff [⟨1, id, 1, .remove 1⟩] (by decide)).rows
  revert h
  decide +kernel

end Postbud.Api
