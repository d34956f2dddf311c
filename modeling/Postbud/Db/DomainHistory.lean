import Mathlib.Data.List.Chain
import Postbud.Db.TenantLocks

namespace Postbud.TenantAdmin

open Lib Lib.Processes Lib.Transition

/-- The history, oldest first, leads from the empty list to the live one, and
each of its entries after the first one from what it was to something else. -/
structure Replays (history : List DomainChange) (live : List Text) : Prop where
  first : ∀ c ∈ history.head?, c.domainsBefore = []
  chain : history.IsChain fun c c' ↦
    c'.domainsBefore = c.domainsAfter ∧ c'.domainsBefore ≠ c'.domainsAfter
  last : ∃ c ∈ history.getLast?, c.domainsAfter = live

section Replays

variable {history : List DomainChange} {live : List Text} {c : DomainChange}

theorem Replays.singleton (h : c.domainsBefore = []) : Replays [c] c.domainsAfter :=
  ⟨fun _ hc ↦ Option.some.inj hc ▸ h, .singleton c, c, rfl, rfl⟩

theorem Replays.concat (h : Replays history live) (hbefore : c.domainsBefore = live)
    (hne : c.domainsBefore ≠ c.domainsAfter) : Replays (history ++ [c]) c.domainsAfter := by
  obtain ⟨c₀, hlast, hlive⟩ := h.last
  refine ⟨fun c' hc' ↦ ?_, ?_, c, List.getLast?_concat, rfl⟩
  · cases history with
    | nil => cases hlast
    | cons c₁ history => exact h.first c' hc'
  · refine List.isChain_append.mpr ⟨h.chain, .singleton c, fun x hx y hy ↦ ?_⟩
    obtain rfl := Option.some.inj hy
    obtain rfl := Option.some.inj (hlast.symm.trans hx)
    exact ⟨hbefore.trans hlive.symm, hne⟩

end Replays

variable [Platform] {s s' : State} {a : Action} {i : ℕ} {c c' y : Call} {row : TenantRow}

/-- What a call has read, and what it has written of the history. -/
structure Call.Recorded (db : Tenants) (c : Call) : Prop where
  record : ∀ row, c.stage = .record row → c.op.isCreate = false →
    row.fromDomains ≠ (c.op.set row).fromDomains
  silent : ∀ row, c.stage = .commit row none →
    c.op.isCreate = false ∧ (c.op.set row).fromDomains = row.fromDomains
  change : ∀ row change, c.stage = .commit row (some change) →
    change.tenantId = row.id ∧ change.id ≤ db.seq ∧
      (∀ change' ∈ db.changesOf row.id, change'.id < change.id) ∧
      change.domainsBefore = (if c.op.isCreate then [] else row.fromDomains) ∧
      change.domainsAfter = (c.op.set row).fromDomains ∧
      (c.op.isCreate = false → change.domainsBefore ≠ change.domainsAfter)

def historyOf (db : Tenants) (id : Uuid) : List DomainChange :=
  (db.changesOf id).map TenantDomainChange.domainChange

structure History (s : State) : Prop where
  drawn : ∀ change ∈ s.db.change, change.id ≤ s.db.seq
  owned : ∀ change ∈ s.db.change, ∃ t ∈ s.db.tenant, t.id = change.tenantId
  ordered : ∀ id, (s.db.changesOf id).Pairwise fun c c' ↦ c.id < c'.id
  replays : ∀ t ∈ s.db.tenant, Replays (historyOf s.db t.id) t.fromDomains
  calls : ∀ c ∈ s.calls, c.Recorded s.db

/-- A step of a call that commits nothing. -/
theorem History.move (h : History s) {seq : ℤ} (hseq : s.db.seq ≤ seq)
    {issued : List (Uuid × Text)} (hc : c'.Recorded { s.db with seq }) :
    History { db := { s.db with seq }, calls := s.calls.set i c', issued } where
  drawn change hch := (h.drawn change hch).trans hseq
  owned := h.owned
  ordered := h.ordered
  replays := h.replays
  calls := by
    refine forall_mem_set hc fun y hy ↦ ?_
    have hy := h.calls y (List.mem_of_mem_eraseIdx hy)
    refine ⟨hy.record, hy.silent, fun row change hs ↦ ?_⟩
    obtain ⟨htenant, hle, hrest⟩ := hy.change row change hs
    exact ⟨htenant, hle.trans hseq, hrest⟩

theorem Call.grant_set {rows : List TenantRow} (hw : c.Writes rows row) {changedBy : Text}
    {domains : List Text} (hgrant : c.op.grant? = some (changedBy, domains)) :
    (c.op.set row).fromDomains = domains := by
  unfold Writes at hw
  cases hop : c.op with
  | create id bytes name fromDomains note createdBy =>
    rw [hop] at hw hgrant
    rw [hw.1]
    exact (Prod.mk.inj (Option.some.inj hgrant)).2
  | setDomains id fromDomains changedBy =>
    rw [hop] at hgrant
    exact (Prod.mk.inj (Option.some.inj hgrant)).2
  | _ =>
    rw [hop] at hgrant
    cases hgrant

section ChangesOf

variable {db : Tenants} {tenant : List TenantRow} {change : TenantDomainChange} {id : Uuid}

omit [Platform] in
theorem changesOf_concat_self (h : change.tenantId = id) :
    ({ db with tenant, change := db.change ++ [change] } : Tenants).changesOf id =
      db.changesOf id ++ [change] := by
  refine (List.filter_append _ _).trans (congrArg (db.changesOf id ++ ·) ?_)
  exact List.filter_eq_self.mpr fun c' hc' ↦ decide_eq_true (List.mem_singleton.mp hc' ▸ h)

omit [Platform] in
theorem changesOf_concat_of_ne (h : change.tenantId ≠ id) :
    ({ db with tenant, change := db.change ++ [change] } : Tenants).changesOf id =
      db.changesOf id := by
  have hnil : [change].filter (·.tenantId = id) = [] := by
    refine List.filter_eq_nil_iff.mpr fun c' hc' he ↦ h ?_
    exact List.mem_singleton.mp hc' ▸ of_decide_eq_true he
  refine (List.filter_append _ _).trans ?_
  rw [hnil, List.append_nil]
  rfl

end ChangesOf

/-- A commit without an entry leaves the live list as it was. -/
theorem History.commit_silent (h : History s) (hi : Inv s) (hc : s.calls[i]? = some c)
    (hs : c.stage = .commit row none) (issued : List (Uuid × Text)) (reply : Reply) :
    History { db := { s.db with tenant := c.write row s.db.tenant }
              calls := s.calls.set i (c.close (.returned reply)), issued } := by
  have hmem := List.mem_of_getElem? hc
  have hw := hi.writes c hmem row (hs ▸ rfl)
  obtain ⟨hop, hset⟩ := (h.calls c hmem).silent row hs
  refine ⟨h.drawn, fun change hch ↦ ?_, h.ordered, fun t ht ↦ ?_, ?_⟩
  · obtain ⟨t, ht, he⟩ := h.owned change hch
    obtain ⟨t', ht', he'⟩ := Call.exists_write ht
    exact ⟨t', ht', he'.trans he⟩
  · rcases hi.mem_write hw ht with rfl | ⟨ht, -⟩
    · rw [Op.id_set, hset]
      exact h.replays row (Call.writes_update hw hop)
    · exact h.replays t ht
  · refine forall_mem_set ⟨nofun, nofun, nofun⟩ fun y hy ↦ ?_
    have hrec := h.calls y (List.mem_of_mem_eraseIdx hy)
    exact ⟨hrec.record, hrec.silent, hrec.change⟩

/-- A tenant's history with the entry that a call is about to commit. -/
theorem History.replays_change (h : History s) (hi : Inv s) (hc : s.calls[i]? = some c)
    {change : TenantDomainChange} (hs : c.stage = .commit row (some change)) :
    Replays (historyOf s.db row.id ++ [change.domainChange]) (c.op.set row).fromDomains := by
  have hmem := List.mem_of_getElem? hc
  have hw := hi.writes c hmem row (hs ▸ rfl)
  obtain ⟨-, -, -, hbefore, hafter, hne⟩ := (h.calls c hmem).change row change hs
  rw [← hafter]
  cases hop : c.op.isCreate with
  | true =>
    have hnil : s.db.changesOf row.id = [] := by
      refine List.filter_eq_nil_iff.mpr fun c' hc' he ↦ ?_
      obtain ⟨t, ht, ht'⟩ := h.owned c' hc'
      exact (Call.writes_create hw hop).2 t ht (ht'.trans (of_decide_eq_true he))
    rw [historyOf, hnil]
    rw [hop, if_pos rfl] at hbefore
    exact Replays.singleton hbefore
  | false =>
    rw [hop, if_neg Bool.false_ne_true] at hbefore
    exact (h.replays row (Call.writes_update hw hop)).concat hbefore (hne hop)

/-- A commit with an entry: it leads from the list that was live to the one that is. -/
theorem History.commit_change (h : History s) (hi : Inv s) (hc : s.calls[i]? = some c)
    {change : TenantDomainChange} (hs : c.stage = .commit row (some change))
    (issued : List (Uuid × Text)) (reply : Reply) :
    History { db := { s.db with tenant := c.write row s.db.tenant, change := s.db.change ++ [change] }
              calls := s.calls.set i (c.close (.returned reply)), issued } := by
  have hmem := List.mem_of_getElem? hc
  have hw := hi.writes c hmem row (hs ▸ rfl)
  obtain ⟨htenant, hle, hlt, -⟩ := (h.calls c hmem).change row change hs
  have hother : ∀ id, id ≠ row.id → change.tenantId ≠ id := fun id hid he ↦
    hid (he.symm.trans htenant)
  refine ⟨fun c' hc' ↦ ?_, fun c' hc' ↦ ?_, fun id ↦ ?_, fun t ht ↦ ?_, ?_⟩
  · rcases List.mem_append.mp hc' with hc' | hc'
    · exact h.drawn c' hc'
    · exact List.mem_singleton.mp hc' ▸ hle
  · rcases List.mem_append.mp hc' with hc' | hc'
    · obtain ⟨t, ht, he⟩ := h.owned c' hc'
      obtain ⟨t', ht', he'⟩ := Call.exists_write ht
      exact ⟨t', ht', he'.trans he⟩
    · obtain rfl := List.mem_singleton.mp hc'
      exact ⟨c.op.set row, Call.set_mem_write hw, (Op.id_set _ _).trans htenant.symm⟩
  · by_cases hid : id = row.id
    · subst hid
      rw [changesOf_concat_self htenant]
      refine List.pairwise_append.mpr ⟨h.ordered _, List.pairwise_singleton _ _, ?_⟩
      intro c₁ hc₁ c₂ hc₂
      exact List.mem_singleton.mp hc₂ ▸ hlt c₁ hc₁
    · rw [changesOf_concat_of_ne (hother id hid)]
      exact h.ordered id
  · rcases hi.mem_write hw ht with rfl | ⟨ht, hid⟩
    · rw [historyOf, Op.id_set, changesOf_concat_self htenant, List.map_append, List.map_singleton]
      exact h.replays_change hi hc hs
    · rw [historyOf, changesOf_concat_of_ne (hother t.id hid)]
      exact h.replays t ht
  · refine forall_mem_set ⟨nofun, nofun, nofun⟩ fun y hy ↦ ?_
    have hrec := h.calls y (List.mem_of_mem_eraseIdx hy)
    refine ⟨hrec.record, hrec.silent, fun row' change' hs' ↦ ?_⟩
    obtain ⟨htenant', hle', hlt', hrest⟩ := hrec.change row' change' hs'
    have hr : row ∈ c.stage.row? := hs ▸ rfl
    have hr' : row' ∈ y.stage.row? := hs' ▸ rfl
    have hrow := hi.rows_apart hc hy hr hr'
    refine ⟨htenant', hle', fun c' hc' ↦ hlt' c' ?_, hrest⟩
    rwa [changesOf_concat_of_ne (hother row'.id hrow.symm)] at hc'

theorem History.statement (h : History s) (hi : Inv s) (hc : s.calls[i]? = some c) {db : Tenants}
    (hstep : Call.Step s.db (s.calls.eraseIdx i) c db c') :
    History { db, calls := s.calls.set i c', issued := s.issued ++ c.issues } := by
  have hmem := List.mem_of_getElem? hc
  cases hstep with
  | closed reply hs hopen => exact h.move (Int.le_refl _) ⟨nofun, nofun, nofun⟩
  | inserted row hs hrow hfree hnew =>
    refine h.move (Int.le_refl _) ⟨fun r hr hop ↦ ?_, nofun, nofun⟩
    rw [Op.isCreate_eq c.op c.now, hrow] at hop
    cases hop
  | found id hs hop => exact h.move (Int.le_refl _) ⟨nofun, nofun, nofun⟩
  | updated id row hs hop hset hfree hrow =>
    refine h.move (Int.le_refl _) ⟨nofun, fun r hr ↦ ⟨?_, hset r⟩, nofun⟩
    show c.op.isCreate = false
    rw [Op.isCreate_eq c.op c.now, hop]
    rfl
  | read id row hs hop hfree hrow => exact h.move (Int.le_refl _) ⟨nofun, nofun, nofun⟩
  | wrote row hs hne =>
    refine h.move (Int.le_refl _) ⟨fun r hr _ ↦ ?_, nofun, nofun⟩
    obtain rfl := Stage.record.inj hr
    exact hne
  | recorded row change hs hid htenant hbefore hgrant =>
    have hafter := Call.grant_set (hi.writes c hmem row (hs ▸ rfl)) hgrant
    refine h.move (Int.le_add_one (Int.le_refl _)) ⟨nofun, nofun, fun r ch hr ↦ ?_⟩
    obtain ⟨rfl, he⟩ := Stage.commit.inj hr
    obtain rfl := Option.some.inj he
    refine ⟨htenant, Int.le_of_eq hid, fun c' hc' ↦ ?_, hbefore, hafter.symm, fun hop ↦ ?_⟩
    · have hdrawn := h.drawn c' (Tenants.mem_changesOf.mp hc').1
      rw [hid]
      exact Int.lt_add_one_of_le hdrawn
    · have hne := (h.calls c hmem).record row hs hop
      rw [hbefore, ← hafter]
      simp only at hop
      rwa [hop, if_neg Bool.false_ne_true]
  | committed row change hs =>
    cases change with
    | none =>
      have h' := h.commit_silent hi hc hs (s.issued ++ c.issues) (c.op.done row)
      rwa [Option.toList_none, List.append_nil]
    | some change => exact h.commit_change hi hc hs _ (c.op.done row)

theorem History.init : History {} where
  drawn _ hc := absurd hc List.not_mem_nil
  owned _ hc := absurd hc List.not_mem_nil
  ordered _ := .nil
  replays _ ht := absurd ht List.not_mem_nil
  calls _ hc := absurd hc List.not_mem_nil

theorem History.step (h : History s) (hi : Inv s) (hs : step s a = some s') : History s' := by
  cases step_spec hs with
  | call op now =>
    exact ⟨h.drawn, h.owned, h.ordered, h.replays,
      forall_mem_concat h.calls ⟨nofun, nofun, nofun⟩⟩
  | statement i c c' db hc hstep => exact h.statement hi hc hstep
  | abort i c hc hopen => exact h.move (Int.le_refl _) ⟨nofun, nofun, nofun⟩

/-- The history of a tenant's domains replays to the list it may send as. -/
theorem domain_history_replays (l : List Action) :
    Always step (fun s ↦ ∀ t ∈ s.db.tenant,
      Replays (s.db.domainHistory t.id).reverse t.fromDomains) {} l := by
  intro l' s _ hs t ht
  have hinv : Inv s ∧ History s := hs.invariant (fun s ↦ Inv s ∧ History s)
    (fun _ _ _ h hs ↦ ⟨h.1.step hs, h.2.step h.1 hs⟩) ⟨.init, .init⟩
  rw [Tenants.domainHistory_eq (hinv.2.ordered t.id), List.reverse_reverse]
  exact hinv.2.replays t ht

end Postbud.TenantAdmin
