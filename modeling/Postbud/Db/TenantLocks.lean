import Postbud.Db.TenantCall
import Postbud.Lib.Transition

namespace Postbud.TenantAdmin

open Lib Lib.Processes Lib.RowLocks Lib.Transition

/-- What is committed, the calls, and a ghost: the keys that were handed out,
in the order of their commits. -/
structure State where
  db : Tenants := {}
  calls : List Call := []
  issued : List (Uuid × Text) := []
  deriving DecidableEq

inductive Action
  | call (op : Op) (now : Time)
  | statement (i : ℕ)
  | abort (i : ℕ)
  deriving DecidableEq

variable [Platform]

def step (s : State) : Action → Option State
  | .call op now => some { s with calls := s.calls ++ [{ op, now }] }
  | .statement i => do
    let c ← s.calls[i]?
    let (db, c') ← c.step s.db (s.calls.eraseIdx i)
    some { db, calls := s.calls.set i c', issued := s.issued ++ c.issues }
  | .abort i => do
    let c ← s.calls[i]?
    let c ← c.abort
    some { s with calls := s.calls.set i c }

inductive Step (s : State) : Action → State → Prop
  | call (op : Op) (now : Time) : Step s (.call op now) { s with calls := s.calls ++ [{ op, now }] }
  | statement (i : ℕ) (c c' : Call) (db : Tenants) (hi : s.calls[i]? = some c)
      (h : Call.Step s.db (s.calls.eraseIdx i) c db c') :
    Step s (.statement i) { db, calls := s.calls.set i c', issued := s.issued ++ c.issues }
  | abort (i : ℕ) (c : Call) (hi : s.calls[i]? = some c)
      (hopen : ∀ reply, c.stage ≠ .returned reply) :
    Step s (.abort i) { s with calls := s.calls.set i (c.close .failed) }

variable {s s' : State} {a : Action} {i : ℕ} {c c' y : Call} {row : TenantRow}

theorem step_spec (h : step s a = some s') : Step s a s' := by
  cases a with
  | call op now => exact Option.some.inj h ▸ .call op now
  | statement i =>
    obtain ⟨c, hi, h⟩ := Option.bind_eq_some_iff.mp h
    obtain ⟨⟨db, c'⟩, hc, h⟩ := Option.bind_eq_some_iff.mp h
    exact Option.some.inj h ▸ .statement i c c' db hi (Call.step_spec hc)
  | abort i =>
    obtain ⟨c, hi, h⟩ := Option.bind_eq_some_iff.mp h
    obtain ⟨c', hc, h⟩ := Option.bind_eq_some_iff.mp h
    obtain ⟨hopen, rfl⟩ := Call.abort_spec hc
    exact Option.some.inj h ▸ .abort i c hi hopen

theorem Op.id_set (op : Op) (row : TenantRow) : (op.set row).id = row.id := by
  cases op <;> rfl

theorem Op.isCreate_eq (op : Op) (now : Time) : op.isCreate = (op.newRow? now).isSome := by
  cases op <;> rfl

/-- The row of a call: a new one, which no committed row has the id of, or
one that is committed and that the call has locked. -/
def Call.Writes (rows : List TenantRow) (c : Call) (row : TenantRow) : Prop :=
  match c.op.newRow? c.now with
  | some r => row = r ∧ ∀ t ∈ rows, t.id ≠ row.id
  | none => row ∈ rows

def Call.InsertsApart (c c' : Call) : Prop :=
  ∀ r ∈ c.inserted, ∀ r' ∈ c'.inserted, r.id ≠ r'.id

omit [Platform] in
instance : Std.Symm Call.InsertsApart where
  symm _ _ h r hr r' hr' he := h r' hr' r hr he.symm

structure Inv (s : State) : Prop where
  ids : s.db.tenant.Pairwise fun t t' ↦ t.id ≠ t'.id
  locks : Exclusive Call.locks s.calls
  inserts : Apart Call.InsertsApart s.calls
  reads : ∀ c ∈ s.calls, ∀ row, c.stage = .locked row → c.op.isCreate = false
  writes : ∀ c ∈ s.calls, ∀ row ∈ c.stage.row?, c.Writes s.db.tenant row

namespace Call

theorem writes_create {rows : List TenantRow} (h : c.Writes rows row)
    (hop : c.op.isCreate) : c.op.newRow? c.now = some row ∧ ∀ t ∈ rows, t.id ≠ row.id := by
  rw [Op.isCreate_eq c.op c.now] at hop
  obtain ⟨r, hr⟩ := Option.isSome_iff_exists.mp hop
  rw [Writes, hr] at h
  exact ⟨h.1 ▸ hr, h.2⟩

theorem writes_update_iff {rows : List TenantRow} (hop : c.op.isCreate = false) :
    c.Writes rows row ↔ row ∈ rows := by
  rw [Op.isCreate_eq c.op c.now, Option.isSome_eq_false_iff, Option.isNone_iff_eq_none] at hop
  rw [Writes, hop]

theorem writes_update {rows : List TenantRow} (h : c.Writes rows row)
    (hop : c.op.isCreate = false) : row ∈ rows := (writes_update_iff hop).mp h

theorem mem_write_create {rows : List TenantRow} {t : TenantRow} (hop : c.op.isCreate) :
    t ∈ c.write row rows ↔ t ∈ rows ∨ t = row := by
  rw [write, if_pos hop, List.mem_append, List.mem_singleton]

theorem mem_write_update {rows : List TenantRow} {t : TenantRow} (hop : c.op.isCreate = false) :
    t ∈ c.write row rows ↔ ∃ t₀ ∈ rows, (if t₀.id = row.id then c.op.set t₀ else t₀) = t := by
  rw [write, if_neg (by rw [hop]; exact Bool.false_ne_true), List.mem_map]

theorem mem_write_of_ne {rows : List TenantRow} {t : TenantRow} (ht : t ∈ rows)
    (hne : t.id ≠ row.id) : t ∈ c.write row rows := by
  cases hop : c.op.isCreate with
  | true => exact (mem_write_create hop).mpr (.inl ht)
  | false => exact (mem_write_update hop).mpr ⟨t, ht, if_neg hne⟩

omit [Platform] in
theorem mem_locks (hrow : row ∈ c.stage.row?) (hop : c.op.isCreate = false) :
    row.id ∈ c.locks := by
  rw [locks, hop, if_neg Bool.false_ne_true]
  exact List.mem_map_of_mem (Option.mem_toList.mpr hrow)

end Call

theorem Inv.mem_inserted (h : Inv s) (hc : c ∈ s.calls) (hrow : row ∈ c.stage.row?)
    (hop : c.op.isCreate) : row ∈ c.inserted := by
  rw [Call.inserted, if_pos hop]
  cases hs : c.stage with
  | locked r => exact absurd hop (by rw [h.reads c hc r hs]; exact Bool.false_ne_true)
  | _ =>
    rw [hs] at hrow
    exact hrow

/-- Two open transactions have two rows. -/
theorem Inv.rows_apart (h : Inv s) (hi : s.calls[i]? = some c) (hy : y ∈ s.calls.eraseIdx i)
    {r r' : TenantRow} (hr : r ∈ c.stage.row?) (hr' : r' ∈ y.stage.row?) : r.id ≠ r'.id := by
  have hc := List.mem_of_getElem? hi
  have hy' := List.mem_of_mem_eraseIdx hy
  cases hop : c.op.isCreate with
  | true =>
    cases hop' : y.op.isCreate with
    | true =>
      obtain ⟨j, hj, hy⟩ := List.mem_eraseIdx_iff_getElem?.mp hy
      exact h.inserts i j c y (Ne.symm hj) hi hy r (h.mem_inserted hc hr hop) r'
        (h.mem_inserted hy' hr' hop')
    | false =>
      have hmem := Call.writes_update (h.writes y hy' r' hr') hop'
      exact ((Call.writes_create (h.writes c hc r hr) hop).2 r' hmem).symm
  | false =>
    cases hop' : y.op.isCreate with
    | true =>
      have hmem := Call.writes_update (h.writes c hc r hr) hop
      exact (Call.writes_create (h.writes y hy' r' hr') hop').2 r hmem
    | false =>
      intro he
      exact h.locks.disjoint hi hy (Call.mem_locks hr hop) (he ▸ Call.mem_locks hr' hop')

theorem Call.ids_write (h : c.Writes s.db.tenant row)
    (hids : s.db.tenant.Pairwise fun t t' ↦ t.id ≠ t'.id) :
    (c.write row s.db.tenant).Pairwise fun t t' ↦ t.id ≠ t'.id := by
  cases hop : c.op.isCreate with
  | true =>
    rw [Call.write, if_pos hop]
    refine List.pairwise_append.mpr ⟨hids, List.pairwise_singleton _ _, fun t ht t' ht' ↦ ?_⟩
    obtain rfl := List.mem_singleton.mp ht'
    exact (Call.writes_create h hop).2 t ht
  | false =>
    rw [Call.write, if_neg (by rw [hop]; exact Bool.false_ne_true)]
    refine List.pairwise_map.mpr (hids.imp fun hne ↦ ?_)
    split_ifs <;> simpa only [Op.id_set] using hne

/-- A commit stores the row of the call, and leaves the others alone. -/
theorem Inv.mem_write (h : Inv s) (hw : c.Writes s.db.tenant row) {t : TenantRow}
    (ht : t ∈ c.write row s.db.tenant) :
    t = c.op.set row ∨ t ∈ s.db.tenant ∧ t.id ≠ row.id := by
  cases hop : c.op.isCreate with
  | true =>
    rcases (Call.mem_write_create hop).mp ht with ht | rfl
    · exact .inr ⟨ht, (Call.writes_create hw hop).2 t ht⟩
    · refine .inl ?_
      cases hc : c.op with
      | create => rfl
      | _ =>
        rw [hc] at hop
        cases hop
  | false =>
    obtain ⟨t₀, ht₀, rfl⟩ := (Call.mem_write_update hop).mp ht
    split_ifs with hid
    · refine .inl (congrArg c.op.set ?_)
      by_contra hne
      have : Std.Symm fun t t' : TenantRow ↦ t.id ≠ t'.id := ⟨fun _ _ h ↦ h.symm⟩
      exact h.ids.forall ht₀ (Call.writes_update hw hop) hne hid
    · exact .inr ⟨ht₀, hid⟩

theorem Call.set_mem_write {rows : List TenantRow} (hw : c.Writes rows row) :
    c.op.set row ∈ c.write row rows := by
  cases hop : c.op.isCreate with
  | true =>
    refine (mem_write_create hop).mpr (.inr ?_)
    cases hc : c.op with
    | create => rfl
    | _ =>
      rw [hc] at hop
      cases hop
  | false => exact (mem_write_update hop).mpr ⟨row, writes_update hw hop, if_pos rfl⟩

/-- The row of a call that another one's commit leaves alone. -/
theorem Call.Writes.mono {rows rows' : List TenantRow} (h : c.Writes rows row)
    (hkept : row ∈ rows → row ∈ rows')
    (hnew : (∀ t ∈ rows, t.id ≠ row.id) → ∀ t ∈ rows', t.id ≠ row.id) : c.Writes rows' row := by
  unfold Writes at h ⊢
  split at h
  · exact ⟨h.1, hnew h.2⟩
  · exact hkept h

theorem Call.exists_of_mem_write {rows : List TenantRow} {t : TenantRow}
    (ht : t ∈ c.write row rows) : (∃ t₀ ∈ rows, t₀.id = t.id) ∨ t = row := by
  cases hop : c.op.isCreate with
  | true => exact ((mem_write_create hop).mp ht).imp_left fun ht ↦ ⟨t, ht, rfl⟩
  | false =>
    obtain ⟨t₀, ht₀, rfl⟩ := (mem_write_update hop).mp ht
    refine .inl ⟨t₀, ht₀, ?_⟩
    split_ifs
    · exact (Op.id_set _ _).symm
    · rfl

theorem Call.exists_write {rows : List TenantRow} {t : TenantRow} (ht : t ∈ rows) :
    ∃ t' ∈ c.write row rows, t'.id = t.id := by
  cases hop : c.op.isCreate with
  | true => exact ⟨t, (mem_write_create hop).mpr (.inl ht), rfl⟩
  | false =>
    refine ⟨_, (mem_write_update hop).mpr ⟨t, ht, rfl⟩, ?_⟩
    split_ifs
    · exact Op.id_set _ _
    · rfl

/-- A step of a call that commits nothing. -/
theorem Inv.move (h : Inv s) (hi : s.calls[i]? = some c) (db : Tenants)
    (hdb : db.tenant = s.db.tenant) {issued : List (Uuid × Text)}
    (hlocks : ∀ id ∈ c'.locks, id ∈ c.locks ∨ Free Call.locks (s.calls.eraseIdx i) id)
    (hins : ∀ y ∈ s.calls.eraseIdx i, c'.InsertsApart y)
    (hreads : ∀ row, c'.stage = .locked row → c'.op.isCreate = false)
    (hwrites : ∀ row ∈ c'.stage.row?, c'.Writes s.db.tenant row) :
    Inv { db, calls := s.calls.set i c', issued } where
  ids := hdb ▸ h.ids
  locks := h.locks.set hi hlocks
  inserts := h.inserts.set fun j y hj hy ↦ hins y (List.mem_eraseIdx_iff_getElem?.mpr ⟨j, hj, hy⟩)
  reads := forall_mem_set hreads fun y hy ↦ h.reads y (List.mem_of_mem_eraseIdx hy)
  writes := by
    refine forall_mem_set (hdb ▸ hwrites) fun y hy row hrow ↦ ?_
    exact hdb ▸ h.writes y (List.mem_of_mem_eraseIdx hy) row hrow

/-- A step of an update: the row it is about to write is one that it locks now,
or that it has locked. -/
theorem Inv.advance (h : Inv s) (hi : s.calls[i]? = some c) (hop : c.op.isCreate = false)
    {issued : List (Uuid × Text)} {stage : Stage}
    (hlocks : ∀ row ∈ stage.row?, row.id ∈ c.locks ∨ Free Call.locks (s.calls.eraseIdx i) row.id)
    (hrows : ∀ row ∈ stage.row?, row ∈ s.db.tenant) :
    Inv { s with calls := s.calls.set i { c with stage }, issued } := by
  refine h.move hi s.db rfl (fun id hid ↦ ?_) (fun y hy r hr ↦ ?_) (fun _ _ ↦ hop)
    fun r hr ↦ (Call.writes_update_iff hop).mpr (hrows r hr)
  · rw [Call.locks, hop, if_neg Bool.false_ne_true] at hid
    obtain ⟨r, hr, rfl⟩ := List.mem_map.mp hid
    exact hlocks r (Option.mem_toList.mp hr)
  · rw [Call.inserted, hop] at hr
    cases hr

/-- A transaction commits its row, or ends without. -/
theorem Inv.close (h : Inv s) (hi : s.calls[i]? = some c) {db : Tenants}
    (hdb : db.tenant = s.db.tenant ∨
      ∃ row ∈ c.stage.row?, db.tenant = c.write row s.db.tenant)
    {issued : List (Uuid × Text)} {stage : Stage} (hs : stage.row? = none) :
    Inv { db, calls := s.calls.set i (c.close stage), issued } := by
  have hc := List.mem_of_getElem? hi
  have hlocks : (c.close stage).locks = [] := by
    simp only [Call.locks, Call.close, hs, Option.toList_none, List.map_nil, ite_self]
  have hnone : stage.written? = none := by
    cases stage with
    | record row => cases hs
    | commit row change => cases hs
    | _ => rfl
  have hins : (c.close stage).inserted = none := by
    simp only [Call.inserted, Call.close, hnone, ite_self]
  have hread : ∀ row, (c.close stage).stage = .locked row → (c.close stage).op.isCreate = false := by
    intro row hrow
    obtain rfl : stage = .locked row := hrow
    cases hs
  have hown : ∀ row ∈ (c.close stage).stage.row?, (c.close stage).Writes db.tenant row := by
    intro row hrow
    cases hs.symm.trans hrow
  refine ⟨?_, h.locks.set hi fun id hid ↦ ?_, h.inserts.set fun j y hj hy r hr ↦ ?_,
    forall_mem_set hread fun y hy ↦ h.reads y (List.mem_of_mem_eraseIdx hy),
    forall_mem_set hown fun y hy row' hrow' ↦ ?_⟩
  · rcases hdb with hdb | ⟨row, hrow, hdb⟩
    · exact hdb ▸ h.ids
    · exact hdb ▸ Call.ids_write (h.writes c hc row hrow) h.ids
  · rw [hlocks] at hid
    cases hid
  · rw [hins] at hr
    cases hr
  · have hwrites := h.writes y (List.mem_of_mem_eraseIdx hy) row' hrow'
    rcases hdb with hdb | ⟨row, hrow, hdb⟩
    · exact hdb ▸ hwrites
    · have hne := h.rows_apart hi hy hrow hrow'
      rw [show ({ db, calls := s.calls.set i (c.close stage), issued } : State).db.tenant =
        c.write row s.db.tenant from hdb]
      refine hwrites.mono (fun hmem ↦ Call.mem_write_of_ne hmem hne.symm) fun hnew t ht ↦ ?_
      rcases Call.exists_of_mem_write ht with ⟨t₀, ht₀, he⟩ | rfl
      · exact he ▸ hnew t₀ ht₀
      · exact hne

theorem Inv.insertsApart (h : Inv s) (hi : s.calls[i]? = some c) (he : c'.inserted = c.inserted) :
    ∀ y ∈ s.calls.eraseIdx i, c'.InsertsApart y := by
  intro y hy
  obtain ⟨j, hj, hy⟩ := List.mem_eraseIdx_iff_getElem?.mp hy
  unfold Call.InsertsApart
  rw [he]
  exact h.inserts i j c y (Ne.symm hj) hi hy

theorem Inv.statement (h : Inv s) (hi : s.calls[i]? = some c) {db : Tenants}
    (hstep : Call.Step s.db (s.calls.eraseIdx i) c db c') :
    Inv { db, calls := s.calls.set i c', issued := s.issued ++ c.issues } := by
  have hc := List.mem_of_getElem? hi
  have hupdate : c.op.newRow? c.now = none → c.op.isCreate = false := by
    intro hop
    rw [Op.isCreate_eq c.op c.now, hop]
    rfl
  cases hstep with
  | closed reply hs hopen => exact h.close hi (.inl rfl) rfl
  | inserted row hs hrow hfree hnew =>
    have hop : c.op.isCreate := by
      rw [Op.isCreate_eq c.op c.now, hrow]
      rfl
    refine h.move hi s.db rfl (fun id hid ↦ ?_) (fun y hy r hr r' hr' he ↦ ?_) nofun fun r hr ↦ ?_
    · rw [Call.locks, if_pos hop] at hid
      cases hid
    · rw [Call.inserted, if_pos hop] at hr
      obtain rfl := Option.some.inj hr
      refine hfree y hy ⟨r', ?_, .inl (.inl ((Op.id_set _ _).trans he.symm))⟩
      unfold Call.inserted at hr'
      split_ifs at hr'
      · exact hr'
      · cases hr'
    · obtain rfl := Option.some.inj hr
      rw [Call.Writes, hrow]
      exact ⟨rfl, fun t ht he ↦ hnew t ht (.inl he)⟩
  | found id hs hop => exact h.advance hi (hupdate hop) nofun nofun
  | updated id row hs hop hset hfree hrow =>
    refine h.advance hi (hupdate hop) (fun r hr ↦ .inr ?_) fun r hr ↦ ?_
    · exact Option.some.inj hr ▸ hfree
    · exact Option.some.inj hr ▸ hrow
  | read id row hs hop hfree hrow =>
    refine h.advance hi (hupdate hop) (fun r hr ↦ .inr ?_) fun r hr ↦ ?_
    · exact Option.some.inj hr ▸ hfree
    · exact Option.some.inj hr ▸ hrow
  | wrote row hs hne =>
    have hop := h.reads c hc row hs
    have hrow : row ∈ c.stage.row? := hs ▸ rfl
    refine h.advance hi hop (fun r hr ↦ .inl ?_) fun r hr ↦ ?_
    · exact Option.some.inj hr ▸ Call.mem_locks hrow hop
    · exact Option.some.inj hr ▸ Call.writes_update (h.writes c hc row hrow) hop
  | recorded row change hs hid htenant hbefore hgrant =>
    refine h.move hi { s.db with seq := s.db.seq + 1 } rfl (fun id hid ↦ .inl ?_)
      (h.insertsApart hi ?_) nofun fun r hr ↦ ?_
    · rw [Call.locks] at hid ⊢
      rw [hs]
      exact hid
    · rw [Call.inserted, Call.inserted, hs]
      rfl
    · obtain rfl := Option.some.inj hr
      exact h.writes c hc row (hs ▸ rfl)
  | committed row change hs =>
    exact h.close hi (.inr ⟨row, hs ▸ rfl, rfl⟩) rfl

theorem Inv.init : Inv {} where
  ids := .nil
  locks := .nil
  inserts := .nil
  reads _ hc := absurd hc List.not_mem_nil
  writes _ hc := absurd hc List.not_mem_nil

theorem Inv.step (h : Inv s) (hs : step s a = some s') : Inv s' := by
  cases step_spec hs with
  | call op now =>
    have hins : (⟨op, now, .start⟩ : Call).inserted = none := by
      simp only [Call.inserted, Stage.written?, ite_self]
    have hlocks : (⟨op, now, .start⟩ : Call).locks = [] := by
      simp only [Call.locks, Stage.row?, Option.toList_none, List.map_nil, ite_self]
    refine ⟨h.ids, h.locks.concat hlocks, h.inserts.concat fun y _ r hr ↦ ?_,
      forall_mem_concat h.reads nofun, forall_mem_concat h.writes nofun⟩
    rw [hins] at hr
    cases hr
  | statement i c c' db hi hc => exact h.statement hi hc
  | abort i c hi hopen => exact h.close hi (.inl rfl) rfl

end Postbud.TenantAdmin
