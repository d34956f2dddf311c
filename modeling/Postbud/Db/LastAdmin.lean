import Mathlib.Data.List.Perm.Basic
import Postbud.Db.AdminUserCall

namespace Postbud.AdminUser

open Lib Lib.Processes Lib.RowLocks Lib.Transition

/-- What is committed, and the calls whose transactions are open or over. -/
structure State where
  db : AdminUsers := {}
  calls : List Call := []
  deriving DecidableEq

inductive Action
  | call (op : Op) (now : Time)
  | statement (i k : ℕ)
  | abort (i : ℕ)
  deriving DecidableEq

/-- A grant that is committed and active, and locked by who knows of it. -/
structure Held (rows : List AdminUser) (locks : List ℤ) (u : AdminUser) : Prop where
  mem : u ∈ rows
  active : u.active
  locked : u.id ∈ locks

/-- If the grant is an admin's, so is another one that is locked as well. -/
def Backed (rows : List AdminUser) (locks : List ℤ) (target : AdminUser) : Prop :=
  target.role = .admin → ∃ u, Held rows locks u ∧ u.role = .admin ∧ u.id ≠ target.id

/-- What a transaction knows of the rows it has locked. -/
structure Knows (rows : List AdminUser) (c : Call) : Prop where
  ended : ∀ t ∈ c.ended, Held rows c.locks t ∧ Backed rows c.locks t
  locked : ∀ t, c.stage = .locked t → Held rows c.locks t
  count : ∀ t todo admins, c.stage = .count t todo admins →
    Held rows c.locks t ∧ (todo ++ admins).Nodup ∧
      ∀ id ∈ admins, ∃ u, Held rows c.locks u ∧ u.role = .admin ∧ u.id = id
  update : ∀ t, c.stage = .update t → Held rows c.locks t ∧ Backed rows c.locks t

/-- A call is about to go on from the rows that it has locked. -/
def Stage.Rests : Stage → Prop
  | .locked _ | .count .. | .update _ => True
  | _ => False

theorem Op.not_rests_afterUpdate (op : Op) (target : AdminUser) :
    ¬ (op.afterUpdate target).Rests := by
  cases op <;> exact fun h ↦ h

section Held

variable {rows rows' : List AdminUser} {locks : List ℤ} {u : AdminUser}

theorem Held.mono (h : Held rows locks u) (hrows : ∀ v ∈ rows, v.id ∈ locks → v ∈ rows') :
    Held rows' locks u :=
  ⟨hrows u h.mem h.locked, h.active, h.locked⟩

theorem Backed.mono (h : Backed rows locks u) (hrows : ∀ v ∈ rows, v.id ∈ locks → v ∈ rows') :
    Backed rows' locks u := by
  intro hr
  obtain ⟨v, hv, hrole, hne⟩ := h hr
  exact ⟨v, hv.mono hrows, hrole, hne⟩

theorem Held.lock {id : ℤ} (h : Held rows locks u) : Held rows (id :: locks) u :=
  ⟨h.mem, h.active, List.mem_cons_of_mem _ h.locked⟩

theorem Backed.lock {id : ℤ} (h : Backed rows locks u) : Backed rows (id :: locks) u := by
  intro hr
  obtain ⟨v, hv, hrole, hne⟩ := h hr
  exact ⟨v, hv.lock, hrole, hne⟩

end Held

/-- Two admins are counted, so one of them is not the target. -/
theorem backed_of_counted {rows : List AdminUser} {locks admins : List ℤ} {target : AdminUser}
    (hnd : admins.Nodup) (hlen : 1 < admins.length)
    (h : ∀ id ∈ admins, ∃ u, Held rows locks u ∧ u.role = .admin ∧ u.id = id) :
    Backed rows locks target := by
  intro _
  obtain ⟨id, hid, hne⟩ := AdminUsers.exists_other hnd hlen target.id
  obtain ⟨u, hu, hr, rfl⟩ := h id hid
  exact ⟨u, hu, hr, hne⟩

namespace Call

def ends (c : Call) (id : ℤ) : Bool := c.ended.any (id = ·.id)

/-- A row of the table as the transaction sees it. -/
def see (c : Call) (u : AdminUser) : AdminUser :=
  if c.ends u.id then u.finish c.now c.op.actor else u

theorem see_of_ends {c : Call} {u : AdminUser} (h : c.ends u.id) :
    c.see u = u.finish c.now c.op.actor := if_pos h

theorem see_of_not_ends {c : Call} {u : AdminUser} (h : ¬ c.ends u.id) : c.see u = u := if_neg h

theorem rows_view (c : Call) (db : AdminUsers) : (c.view db).rows = db.rows.map c.see := by
  obtain ⟨op, now, stage, locks, ended, inserted⟩ := c
  cases ended with
  | none => exact (List.map_id _).symm
  | some target =>
    refine List.map_congr_left fun u _ ↦ ?_
    simp only [see, ends, Option.any_some, decide_eq_true_eq]

theorem id_see (c : Call) (u : AdminUser) : (c.see u).id = u.id := by
  unfold see
  split_ifs <;> rfl

theorem see_of_notMem {rows : List AdminUser} {c : Call} {u : AdminUser} (h : Knows rows c)
    (hu : u.id ∉ c.locks) : c.see u = u := by
  refine see_of_not_ends fun hany ↦ ?_
  obtain ⟨t, ht, hid⟩ := (Option.any_eq_true _ _).mp hany
  exact hu ((of_decide_eq_true hid : u.id = t.id) ▸ (h.ended t ht).1.locked)

end Call

theorem Knows.of_ended {rows : List AdminUser} {c : Call}
    (h : ∀ t ∈ c.ended, Held rows c.locks t ∧ Backed rows c.locks t) (hs : ¬ c.stage.Rests) :
    Knows rows c where
  ended := h
  locked _ ht := (hs (ht ▸ trivial)).elim
  count _ _ _ ht := (hs (ht ▸ trivial)).elim
  update _ ht := (hs (ht ▸ trivial)).elim

theorem Knows.mono {rows rows' : List AdminUser} {c : Call} (h : Knows rows c)
    (hrows : ∀ u ∈ rows, u.id ∈ c.locks → u ∈ rows') : Knows rows' c where
  ended t ht := (h.ended t ht).imp (·.mono hrows) (·.mono hrows)
  locked t ht := (h.locked t ht).mono hrows
  count t todo admins hc := by
    obtain ⟨hheld, hnd, hall⟩ := h.count t todo admins hc
    refine ⟨hheld.mono hrows, hnd, fun id hid ↦ ?_⟩
    obtain ⟨u, hu, hr, he⟩ := hall id hid
    exact ⟨u, hu.mono hrows, hr, he⟩
  update t ht := (h.update t ht).imp (·.mono hrows) (·.mono hrows)

variable [Platform]

def step (s : State) : Action → Option State
  | .call op now => some { s with calls := s.calls ++ [{ op, now }] }
  | .statement i k => do
    let c ← s.calls[i]?
    let (db, c) ← c.step s.db (s.calls.eraseIdx i) k
    some { db, calls := s.calls.set i c }
  | .abort i => do
    let c ← s.calls[i]?
    let c ← c.abort
    some { s with calls := s.calls.set i c }

theorem Call.clash_of_see {c : Call} {u v : AdminUser} (h : (c.see u).Clash v) : u.Clash v := by
  unfold see at h
  split_ifs at h
  · exact clash_of_finish h
  · exact h

/-- A grant that another transaction ends clashes with no more than it did. -/
theorem Call.clash_of_see_see {c y : Call} {u v : AdminUser} (h : (y.see (c.see u)).Clash v) :
    (y.see u).Clash v := by
  have hends : y.ends (c.see u).id = y.ends u.id := congrArg y.ends (c.id_see u)
  by_cases hy : y.ends u.id
  · rw [see_of_ends (hends.trans hy)] at h
    rw [see_of_ends hy]
    rcases h with hid | hgrant
    · exact .inl ((c.id_see u).symm.trans hid)
    · exact absurd hgrant.1 (not_active_finish _ _ _)
  · rw [see_of_not_ends (hends.symm ▸ hy)] at h
    rw [see_of_not_ends hy]
    exact clash_of_see h

/-- A row that a call has inserted is new to the table as the call sees it. -/
structure Call.Sound (db : AdminUsers) (c : Call) : Prop where
  knows : Knows db.rows c
  last : ∀ r ∈ c.inserted, c.stage = .commit
  drawn : ∀ r ∈ c.inserted, r.id ≤ db.seq
  fresh : ∀ r ∈ c.inserted, ∀ u ∈ db.rows, ¬ (c.see u).Clash r

theorem Knows.sound {db : AdminUsers} {c : Call} (h : Knows db.rows c) (hnone : c.inserted = none) :
    c.Sound db := by
  have hmem : ∀ r, r ∉ c.inserted := fun r hr ↦ Option.some_ne_none r (hr.symm.trans hnone)
  exact ⟨h, fun r hr ↦ absurd hr (hmem r), fun r hr ↦ absurd hr (hmem r),
    fun r hr ↦ absurd hr (hmem r)⟩

def Call.InsertsApart (c c' : Call) : Prop :=
  ∀ r ∈ c.inserted, ∀ r' ∈ c'.inserted, ¬ r.Clash r'

instance : Std.Symm Call.InsertsApart where
  symm _ _ h r hr r' hr' hc := h r' hr' r hr (symm hc)

structure Inv (s : State) : Prop where
  ids : ∀ u ∈ s.db.rows, u.id ≤ s.db.seq
  unique : s.db.rows.Pairwise fun u v ↦ ¬ u.Clash v
  locks : Exclusive Call.locks s.calls
  inserts : Apart Call.InsertsApart s.calls
  sound : ∀ c ∈ s.calls, c.Sound s.db

variable {s s' : State} {a : Action} {c c' : Call} {i : ℕ} {seq : ℤ}

/-- A step of a call that leaves the rows alone. -/
theorem Inv.move (h : Inv s) (hi : s.calls[i]? = some c) (hseq : s.db.seq ≤ seq)
    (hlocks : ∀ id ∈ c'.locks, id ∈ c.locks ∨ Free Call.locks (s.calls.eraseIdx i) id)
    (hins : ∀ y ∈ s.calls.eraseIdx i, c'.InsertsApart y)
    (hc : c'.Sound { s.db with seq }) :
    Inv { db := { s.db with seq }, calls := s.calls.set i c' } where
  ids u hu := Int.le_trans (h.ids u hu) hseq
  unique := h.unique
  locks := h.locks.set hi hlocks
  inserts := h.inserts.set fun j y hj hy ↦ hins y (List.mem_eraseIdx_iff_getElem?.mpr ⟨j, hj, hy⟩)
  sound := by
    refine forall_mem_set hc fun y hy ↦ ?_
    have hy := h.sound y (List.mem_of_mem_eraseIdx hy)
    exact ⟨hy.knows, hy.last, fun r hr ↦ Int.le_trans (hy.drawn r hr) hseq, hy.fresh⟩

theorem Inv.insertsApart (h : Inv s) (hi : s.calls[i]? = some c) :
    ∀ y ∈ s.calls.eraseIdx i, c.InsertsApart y := by
  intro y hy
  obtain ⟨j, hj, hy⟩ := List.mem_eraseIdx_iff_getElem?.mp hy
  exact h.inserts i j c y (Ne.symm hj) hi hy

/-- A step before the last one, in which a call has inserted nothing yet. -/
theorem Inv.advance (h : Inv s) (hi : s.calls[i]? = some c) (hc : c.stage ≠ .commit)
    {stage : Stage} {locks : List ℤ} {ended : Option AdminUser}
    (hlocks : ∀ id ∈ locks, id ∈ c.locks ∨ Free Call.locks (s.calls.eraseIdx i) id)
    (hk : Knows s.db.rows { c with stage, locks, ended }) :
    Inv { s with calls := s.calls.set i { c with stage, locks, ended } } := by
  have hnone : c.inserted = none := by
    refine Option.eq_none_iff_forall_ne_some.mpr fun r hr ↦ hc ?_
    exact (h.sound c (List.mem_of_getElem? hi)).last r hr
  exact h.move hi (Int.le_refl _) hlocks
    (fun y _ r hr ↦ (Option.some_ne_none r (hr.symm.trans hnone)).elim) (hk.sound hnone)

omit [Platform] in
theorem lock_cases {others : List Call} {id : ℤ} (hfree : Free Call.locks others id) :
    ∀ id' ∈ id :: c.locks, id' ∈ c.locks ∨ Free Call.locks others id' := by
  intro id' hid
  rcases List.mem_cons.mp hid with rfl | hid
  · exact .inr hfree
  · exact .inl hid

theorem Inv.closes (h : Inv s) (hi : s.calls[i]? = some c) (hseq : s.db.seq ≤ seq) {stage : Stage}
    (hs : ¬ stage.Rests) :
    Inv { db := { s.db with seq }, calls := s.calls.set i (c.close stage) } :=
  h.move hi hseq nofun (fun _ _ ↦ nofun) (Knows.sound (.of_ended nofun hs) rfl)

/-- Grants of one number are one grant. -/
theorem Inv.eq_of_id (h : Inv s) {u v : AdminUser} (hu : u ∈ s.db.rows) (hv : v ∈ s.db.rows)
    (he : u.id = v.id) : u = v := by
  by_contra hne
  have : Std.Symm fun x y : AdminUser ↦ ¬ x.Clash y := ⟨fun _ _ h h' ↦ h (symm h')⟩
  exact h.unique.forall hu hv hne (.inl he)

/-- A transaction commits: what the others know of the rows they have locked stays true. -/
theorem Inv.commits (h : Inv s) (hi : s.calls[i]? = some c) {stage : Stage} (hs : ¬ stage.Rests) :
    Inv { db := c.commits s.db, calls := s.calls.set i (c.close stage) } := by
  have hc := h.sound c (List.mem_of_getElem? hi)
  have hrows : (c.commits s.db).rows = s.db.rows.map c.see ++ c.inserted.toList :=
    congrArg (· ++ c.inserted.toList) (c.rows_view s.db)
  have hcases : ∀ v ∈ (c.commits s.db).rows, (∃ u ∈ s.db.rows, v = c.see u) ∨ v ∈ c.inserted := by
    intro v hv
    rw [hrows] at hv
    rcases List.mem_append.mp hv with hv | hv
    · obtain ⟨u, hu, rfl⟩ := List.mem_map.mp hv
      exact .inl ⟨u, hu, rfl⟩
    · exact .inr (Option.mem_toList.mp hv)
  have hkept : ∀ id, id ∉ c.locks → ∀ u ∈ s.db.rows, u.id = id → u ∈ (c.commits s.db).rows := by
    rintro id hid u hu rfl
    rw [hrows, ← Call.see_of_notMem hc.knows hid]
    exact List.mem_append_left _ (List.mem_map_of_mem hu)
  have hknows : ∀ y ∈ s.calls.eraseIdx i, Knows (c.commits s.db).rows y :=
    h.locks.frame hi hkept (fun y hkept hk ↦ hk.mono fun u hu hid ↦ hkept u.id hid u hu rfl)
      fun y hy ↦ (h.sound y (List.mem_of_mem_eraseIdx hy)).knows
  refine ⟨fun v hv ↦ ?_, ?_, h.locks.set hi nofun, h.inserts.set fun _ _ _ _ ↦ nofun,
    forall_mem_set (Knows.sound (.of_ended nofun hs) rfl) ?_⟩
  · rcases hcases v hv with ⟨u, hu, rfl⟩ | hv
    · exact c.id_see u ▸ h.ids u hu
    · exact hc.drawn v hv
  · show (c.commits s.db).rows.Pairwise _
    rw [hrows]
    refine List.pairwise_append.mpr ⟨?_, ?_, ?_⟩
    · refine List.pairwise_map.mpr (h.unique.imp fun hne he ↦ hne ?_)
      exact symm (Call.clash_of_see (symm (Call.clash_of_see he)))
    · cases c.inserted with
      | none => exact .nil
      | some r => exact List.pairwise_singleton _ r
    · intro v hv r hr
      obtain ⟨u, hu, rfl⟩ := List.mem_map.mp hv
      exact hc.fresh r (Option.mem_toList.mp hr) u hu
  · intro y hy
    have hsound := h.sound y (List.mem_of_mem_eraseIdx hy)
    refine ⟨hknows y hy, hsound.last, hsound.drawn, fun r hr v hv hclash ↦ ?_⟩
    rcases hcases v hv with ⟨u, hu, rfl⟩ | hv
    · exact hsound.fresh r hr u hu (Call.clash_of_see_see hclash)
    · exact h.insertsApart hi y hy v hv r hr (Call.clash_of_see hclash)

omit [Platform] in
theorem Call.mem_commits {db : AdminUsers} {u : AdminUser} (hu : u ∈ db.rows)
    (h : ¬ c.ends u.id) : u ∈ (c.commits db).rows := by
  refine List.mem_append_left _ ?_
  rw [c.rows_view]
  exact List.mem_map.mpr ⟨u, hu, see_of_not_ends h⟩

/-- A transaction that ends an admin's grant leaves the one it has counted beside it. -/
theorem Inv.hasAdmin_commits (h : Inv s) (hi : s.calls[i]? = some c) (ha : s.db.hasAdmin) :
    (c.commits s.db).hasAdmin := by
  obtain ⟨u, hu, hadmin⟩ := AdminUsers.hasAdmin_iff.mp ha
  refine AdminUsers.hasAdmin_iff.mpr ?_
  by_cases hends : c.ends u.id
  · obtain ⟨t, ht, hid⟩ := (Option.any_eq_true _ _).mp hends
    have hid : u.id = t.id := of_decide_eq_true hid
    obtain ⟨hheld, hbacked⟩ := (h.sound c (List.mem_of_getElem? hi)).knows.ended t ht
    obtain rfl := h.eq_of_id hu hheld.mem hid
    obtain ⟨v, hv, hrole, hne⟩ := hbacked (of_decide_eq_true (Bool.and_eq_true_iff.mp hadmin).2)
    refine ⟨v, Call.mem_commits hv.mem fun hv' ↦ ?_, ?_⟩
    · obtain ⟨t', ht', hid'⟩ := (Option.any_eq_true _ _).mp hv'
      obtain rfl : t' = u := Option.some.inj (ht'.symm.trans ht)
      exact hne (of_decide_eq_true hid')
    · exact Bool.and_eq_true_iff.mpr ⟨hv.active, decide_eq_true hrole⟩
  · exact ⟨u, Call.mem_commits hu hends, hadmin⟩

theorem Inv.nodup_admins (h : Inv s) : s.db.admins.Nodup := by
  have hids : (s.db.rows.map (·.id)).Nodup :=
    List.pairwise_map.mpr (h.unique.imp fun hne he ↦ hne (.inl he))
  exact hids.sublist (List.filter_sublist.map _)

omit [Platform] in
/-- The next row of the statement that counts, locked and counted if it is an admin's. -/
theorem counted_next {db : AdminUsers} {locks todo admins : List ℤ} {k : ℕ} {id : ℤ}
    (hk : todo[k]? = some id) (hnd : (todo ++ admins).Nodup)
    (hall : ∀ id' ∈ admins, ∃ u, Held db.rows locks u ∧ u.role = .admin ∧ u.id = id') :
    (todo.eraseIdx k ++ if id ∈ db.admins then id :: admins else admins).Nodup ∧
      ∀ id' ∈ if id ∈ db.admins then id :: admins else admins,
        ∃ u, Held db.rows (id :: locks) u ∧ u.role = .admin ∧ u.id = id' := by
  have hall' : ∀ id' ∈ admins, ∃ u, Held db.rows (id :: locks) u ∧ u.role = .admin ∧
      u.id = id' := by
    intro id' hid'
    obtain ⟨u, hu, hr, he⟩ := hall id' hid'
    exact ⟨u, hu.lock, hr, he⟩
  have hperm := List.getElem_cons_eraseIdx_perm (List.getElem?_eq_some_iff.mp hk).1
  rw [(List.getElem?_eq_some_iff.mp hk).2] at hperm
  have hnd' : (id :: (todo.eraseIdx k ++ admins)).Nodup :=
    (hperm.append_right admins).nodup_iff.mpr hnd
  split_ifs with hid
  · refine ⟨List.perm_middle.nodup_iff.mpr hnd', fun id' hid' ↦ ?_⟩
    rcases List.mem_cons.mp hid' with rfl | hid'
    · obtain ⟨u, hu, hadmin, rfl⟩ := AdminUsers.mem_admins.mp hid
      obtain ⟨hactive, hrole⟩ := Bool.and_eq_true_iff.mp hadmin
      exact ⟨u, ⟨hu, hactive, List.mem_cons_self⟩, of_decide_eq_true hrole, rfl⟩
    · exact hall' id' hid'
  · exact ⟨(List.nodup_cons.mp hnd').2, hall'⟩

/-- A grant is inserted where no other transaction has one of its identifier. -/
theorem Inv.insertsRow (h : Inv s) (hi : s.calls[i]? = some c) {identifier role : Text}
    {note : Option Text} {createdBy : Text} {row : AdminUser}
    (hfree : ∀ y ∈ s.calls.eraseIdx i, ¬ y.Blocks identifier)
    (hrow : (c.view s.db).insert? c.now identifier role note createdBy = .ok row) :
    Inv { db := s.db.draw
          calls := s.calls.set i { c with stage := .commit, inserted := some row } } := by
  have hk := (h.sound c (List.mem_of_getElem? hi)).knows
  obtain ⟨hid, hident, -, -, hgrants⟩ := AdminUsers.insert?_eq_ok hrow
  have hseq : (c.view s.db).seq = s.db.seq := by unfold Call.view; split <;> rfl
  rw [hseq] at hid
  refine h.move hi (Call.draw_le s.db) (fun _ ↦ .inl) ?_
    ⟨.of_ended hk.ended fun h ↦ h, fun _ _ ↦ rfl, fun r hr ↦ ?_, fun r hr u hu ↦ ?_⟩
  · intro y hy r hr r' hr' hclash
    obtain rfl := Option.some.inj hr
    rcases hclash with he | ⟨-, -, he⟩
    · have hle := (h.sound y (List.mem_of_mem_eraseIdx hy)).drawn r' hr'
      omega
    · refine hfree y hy ⟨r', List.mem_append_right _ (Option.mem_toList.mpr hr'), ?_⟩
      rw [← he, hident]
  · obtain rfl := Option.some.inj hr
    exact Int.le_of_eq hid
  · obtain rfl := Option.some.inj hr
    rintro (he | he)
    · have hle := h.ids u hu
      rw [Call.id_see] at he
      omega
    · refine hgrants _ ?_ he
      rw [c.rows_view]
      exact List.mem_map_of_mem hu

/-- One statement of a call, or one row of the statement that counts. -/
theorem Inv.statement {db : AdminUsers} (h : Inv s) (hi : s.calls[i]? = some c)
    (hstep : Call.Step s.db (s.calls.eraseIdx i) c db c') :
    Inv { db, calls := s.calls.set i c' } := by
  obtain ⟨hk, hlast, hd, hf⟩ := h.sound c (List.mem_of_getElem? hi)
  cases hstep with
  | closed reply seq hseq => exact h.closes hi hseq fun h ↦ h
  | found id hc =>
    exact h.advance hi (hc ▸ nofun) (fun _ ↦ .inl) (.of_ended hk.ended fun h ↦ h)
  | locked id target hc hfree ht =>
    obtain ⟨hmem, rfl, hactive⟩ := AdminUsers.grant?_eq_some ht
    refine h.advance hi (hc ▸ nofun) (lock_cases hfree)
      ⟨fun t ht ↦ ?_, fun t ht ↦ ?_, nofun, nofun⟩
    · exact (hk.ended t ht).imp .lock .lock
    · obtain rfl := Stage.locked.inj ht
      exact ⟨hmem, hactive, List.mem_cons_self⟩
  | counts target hc hr =>
    refine h.advance hi (hc ▸ nofun) (fun _ ↦ .inl)
      ⟨hk.ended, nofun, fun t todo admins ht ↦ ?_, nofun⟩
    obtain ⟨rfl, rfl, rfl⟩ := Stage.count.inj ht
    refine ⟨hk.locked target hc, ?_, nofun⟩
    rw [List.append_nil]
    exact h.nodup_admins
  | viewer target hc hr =>
    refine h.advance hi (hc ▸ nofun) (fun _ ↦ .inl) ⟨hk.ended, nofun, nofun, fun t ht ↦ ?_⟩
    obtain rfl := Stage.update.inj ht
    exact ⟨hk.locked target hc, fun hadmin ↦ absurd hadmin hr⟩
  | counted target todo admins k id hc hk' hfree =>
    obtain ⟨hheld, hnd, hall⟩ := hk.count target todo admins hc
    refine h.advance hi (hc ▸ nofun) (lock_cases hfree)
      ⟨fun t ht ↦ ?_, nofun, fun t todo' admins' ht ↦ ?_, nofun⟩
    · exact (hk.ended t ht).imp .lock .lock
    · obtain ⟨rfl, rfl, rfl⟩ := Stage.count.inj ht
      exact ⟨hheld.lock, counted_next hk' hnd hall⟩
  | allowed target admins hc ha =>
    obtain ⟨hheld, hnd, hall⟩ := hk.count target [] admins hc
    refine h.advance hi (hc ▸ nofun) (fun _ ↦ .inl) ⟨hk.ended, nofun, nofun, fun t ht ↦ ?_⟩
    obtain rfl := Stage.update.inj ht
    exact ⟨hheld, backed_of_counted hnd ha hall⟩
  | updated target hc =>
    have hends : ∀ t ∈ some target, Held s.db.rows c.locks t ∧ Backed s.db.rows c.locks t := by
      intro t ht
      exact Option.some.inj ht ▸ hk.update target hc
    exact h.advance hi (hc ▸ nofun) (fun _ ↦ .inl)
      (.of_ended hends (c.op.not_rests_afterUpdate target))
  | inserted identifier role note createdBy row hc hfree hrow =>
    exact h.insertsRow hi hfree hrow
  | committed hc => exact h.commits hi fun h ↦ h

theorem Inv.step (h : Inv s) (hs : step s a = some s') :
    Inv s' ∧ (s.db.hasAdmin → s'.db.hasAdmin) := by
  cases a with
  | call op now =>
    obtain rfl := Option.some.inj hs
    have hnew : ({ op, now } : Call).Sound s.db := Knows.sound (.of_ended nofun fun h ↦ h) rfl
    exact ⟨⟨h.ids, h.unique, h.locks.concat rfl, h.inserts.concat fun _ _ ↦ nofun,
      forall_mem_concat h.sound hnew⟩, fun ha ↦ ha⟩
  | statement i k =>
    obtain ⟨c, hi, hs⟩ := Option.bind_eq_some_iff.mp hs
    obtain ⟨⟨db, c'⟩, hc, hs⟩ := Option.bind_eq_some_iff.mp hs
    obtain rfl := Option.some.inj hs
    have hstep := Call.step_spec hc
    refine ⟨h.statement hi hstep, fun ha ↦ ?_⟩
    cases hstep with
    | committed hc => exact h.hasAdmin_commits hi ha
    | _ => exact ha
  | abort i =>
    obtain ⟨c, hi, hs⟩ := Option.bind_eq_some_iff.mp hs
    obtain ⟨c', hc, hs⟩ := Option.bind_eq_some_iff.mp hs
    obtain rfl := Option.some.inj hs
    obtain rfl := Call.abort_spec hc
    exact ⟨h.closes hi (Int.le_refl _) fun h ↦ h, fun ha ↦ ha⟩

theorem Inv.init : Inv {} where
  ids _ hu := absurd hu List.not_mem_nil
  unique := .nil
  locks := .nil
  inserts := .nil
  sound _ hc := absurd hc List.not_mem_nil

/-- The last admin survives, and an identity has one active grant. -/
theorem last_admin_survives (l : List Action) :
    Throughout step (fun s t ↦ s.db.hasAdmin → t.db.hasAdmin) {} l ∧
      Always step (fun s ↦ s.db.rows.Pairwise fun u v ↦ ¬ u.SameGrant v) {} l := by
  constructor
  · exact throughout_of_inv (fun _ h ↦ h) (fun _ _ _ h h' ha ↦ h' (h ha)) (fun _ _ _ ↦ Inv.step) .init
  · intro l' s _ hs
    have hinv : Inv s := hs.invariant Inv (fun _ _ _ h hs ↦ (h.step hs).1) .init
    exact hinv.unique.imp fun h hg ↦ h (.inr hg)

end Postbud.AdminUser
