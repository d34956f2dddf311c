import Postbud.Db.TenantLocks

namespace Postbud.TenantAdmin

open Lib Lib.Processes Lib.Text Lib.Transition

/-- The key that was handed out last for a tenant. -/
def latest (issued : List (Uuid × Text)) (id : Uuid) : Option Text :=
  (issued.filter (·.1 = id)).getLast?.map (·.2)

def keysOf (calls : List Call) : List Text := calls.filterMap (·.op.key?)

def Action.key? : Action → Option Text
  | .call op _ => op.key?
  | _ => none

/-- The keys that are generated in a run. -/
def generated (l : List Action) : List Text := l.filterMap Action.key?

def isActive (db : Tenants) (id : Uuid) : Prop := ∃ t ∈ db.tenant, t.id = id ∧ t.active

section Latest

variable {issued issued' : List (Uuid × Text)} {id id' : Uuid} {key : Text}

theorem latest_append : latest (issued ++ issued') id =
    (latest issued' id).or (latest issued id) := by
  rw [latest, List.filter_append, List.getLast?_append, latest, latest]
  cases (issued'.filter (·.1 = id)).getLast? <;> rfl

theorem mem_of_latest (h : latest issued id = some key) : (id, key) ∈ issued := by
  obtain ⟨e, he, rfl⟩ := Option.map_eq_some_iff.mp h
  obtain ⟨hmem, hid⟩ := List.mem_filter.mp (List.mem_of_getLast? he)
  obtain rfl : e.1 = id := of_decide_eq_true hid
  exact hmem

theorem latest_concat_self : latest (issued ++ [(id, key)]) id = some key := by
  rw [latest_append]
  simp [latest]

theorem latest_concat_of_ne (h : id' ≠ id) :
    latest (issued ++ [(id, key)]) id' = latest issued id' := by
  rw [latest_append]
  simp [latest, Ne.symm h]

/-- Keys that differ are handed out once: one tenant has a key. -/
theorem eq_of_issued (hnd : (issued.map (·.2)).Nodup) (h : (id, key) ∈ issued)
    (h' : (id', key) ∈ issued) : id = id' :=
  congrArg Prod.fst (List.inj_on_of_nodup_map hnd h h' rfl)

/-- A key that is not the latest one will never be. -/
theorem latest_append_ne (hnd : ((issued ++ issued').map (·.2)).Nodup) (h : (id, key) ∈ issued)
    (hne : latest issued id ≠ some key) : latest (issued ++ issued') id ≠ some key := by
  intro he
  rw [latest_append] at he
  cases hl : latest issued' id with
  | none =>
    rw [hl, Option.none_or] at he
    exact hne he
  | some key' =>
    rw [hl, Option.some_or] at he
    obtain rfl := Option.some.inj he
    rw [List.map_append, List.nodup_append] at hnd
    exact hnd.2.2 _ (List.mem_map_of_mem h) _ (List.mem_map_of_mem (mem_of_latest hl)) rfl

end Latest

section Runs

variable [Platform] {s s' u : State} {a : Action} {l l₁ l₂ : List Action} {i : ℕ} {c c' : Call}
  {row : TenantRow} {presented : Text}

/-- The digest of no other text is that of one of the keys. -/
def NoCollision (keys : List Text) (presented : Text) : Prop :=
  ∀ key ∈ keys, Platform.sha256 (utf8 (trim presented)) = Platform.sha256 (utf8 key) →
    trim presented = key

structure Keys (s : State) : Prop where
  stored : ∀ t ∈ s.db.tenant, ∃ key, latest s.issued t.id = some key ∧ t.apiKeyHash = Api.hash key
  returned : ∀ e ∈ s.issued, ∃ c ∈ s.calls, c.op.key? = some e.2 ∧
    ∃ row, row.id = e.1 ∧ c.stage = .returned (c.op.done row)
  distinct : (s.issued.map (·.2)).Nodup

omit [Platform] in
theorem Op.trim_key {op : Op} {key : Text} (h : op.key? = some key) : trim key = key := by
  cases op with
  | create id bytes => exact Option.some.inj h ▸ Api.trim_generate bytes
  | rotateKey id bytes => exact Option.some.inj h ▸ Api.trim_generate bytes
  | _ => cases h

/-- A call that makes a key stores its digest. -/
theorem Call.hash_set {rows : List TenantRow} {key : Text} (hw : c.Writes rows row)
    (hkey : c.op.key? = some key) : (c.op.set row).apiKeyHash = Api.hash key := by
  unfold Writes at hw
  cases hop : c.op with
  | create id bytes name fromDomains note createdBy =>
    rw [hop] at hw hkey
    rw [hw.1, ← Option.some.inj hkey]
    rfl
  | rotateKey id bytes =>
    rw [hop] at hkey
    rw [← Option.some.inj hkey]
    rfl
  | _ =>
    rw [hop] at hkey
    cases hkey

theorem Call.hash_set_of_none {rows : List TenantRow} (hw : c.Writes rows row)
    (hkey : c.op.key? = none) : (c.op.set row).apiKeyHash = row.apiKeyHash ∧ row ∈ rows := by
  unfold Writes at hw
  cases hop : c.op with
  | setActive id active =>
    rw [hop] at hw
    exact ⟨rfl, hw⟩
  | setDomains id fromDomains changedBy =>
    rw [hop] at hw
    exact ⟨rfl, hw⟩
  | _ =>
    rw [hop] at hkey
    cases hkey

omit [Platform] in
/-- Of calls whose keys differ, two with one key are one. -/
theorem call_of_key {calls : List Call} (hnd : (keysOf calls).Nodup) {i j : ℕ} {key : Text}
    (hi : calls[i]? = some c) (hj : calls[j]? = some c') (hc : c.op.key? = some key)
    (hc' : c'.op.key? = some key) : i = j := by
  have : Std.Symm fun c c' : Call ↦
      ∀ key, c.op.key? = some key → ∀ key', c'.op.key? = some key' → key ≠ key' :=
    ⟨fun _ _ h key hk key' hk' he ↦ h key' hk' key hk he.symm⟩
  have hapart := Apart.of_pairwise (List.pairwise_filterMap.mp hnd)
  exact hapart.unique hi hj fun h ↦ h key hc key hc' rfl

/-- A commit hands out the key of its call, if it has one. -/
theorem Keys.commit (h : Keys s) (hi : Inv s) (hc : s.calls[i]? = some c)
    (hnd : (keysOf s.calls).Nodup) {change : Option TenantDomainChange}
    (hs : c.stage = .commit row change) (db : Tenants)
    (hdb : db.tenant = c.write row s.db.tenant) :
    Keys { db, calls := s.calls.set i (c.close (.returned (c.op.done row)))
           issued := s.issued ++ c.issues } := by
  have hmem := List.mem_of_getElem? hc
  have hw := hi.writes c hmem row (hs ▸ rfl)
  have hreturned : ∀ e ∈ s.issued, ∃ c' ∈ s.calls.set i (c.close (.returned (c.op.done row))),
      c'.op.key? = some e.2 ∧ ∃ row, row.id = e.1 ∧ c'.stage = .returned (c'.op.done row) := by
    intro e he
    obtain ⟨c', hc', hkey, row', hrow', hs'⟩ := h.returned e he
    refine ⟨c', mem_set_of_ne hc hc' ?_, hkey, row', hrow', hs'⟩
    intro heq
    rw [heq, hs] at hs'
    cases hs'
  cases hkey : c.op.key? with
  | none =>
    have hissues : c.issues = [] := by rw [Call.issues, hs, hkey]
    obtain ⟨hhash, hrow⟩ := Call.hash_set_of_none hw hkey
    rw [hissues, List.append_nil]
    refine ⟨fun t ht ↦ ?_, hreturned, h.distinct⟩
    rcases hi.mem_write hw (hdb ▸ ht) with rfl | ⟨ht, -⟩
    · rw [Op.id_set, hhash]
      exact h.stored row hrow
    · exact h.stored t ht
  | some key =>
    have hissues : c.issues = [(row.id, key)] := by rw [Call.issues, hs, hkey]
    rw [hissues]
    refine ⟨fun t ht ↦ ?_, fun e he ↦ ?_, ?_⟩
    · rcases hi.mem_write hw (hdb ▸ ht) with rfl | ⟨ht, hid⟩
      · rw [Op.id_set]
        exact ⟨key, latest_concat_self, Call.hash_set hw hkey⟩
      · rw [latest_concat_of_ne hid]
        exact h.stored t ht
    · rcases List.mem_append.mp he with he | he
      · exact hreturned e he
      · obtain rfl := List.mem_singleton.mp he
        exact ⟨_, mem_set_self hc, hkey, row, rfl, rfl⟩
    · rw [List.map_append, List.nodup_append]
      refine ⟨h.distinct, List.nodup_singleton _, fun k hk k' hk' he ↦ ?_⟩
      obtain ⟨e, hissued, rfl⟩ := List.mem_map.mp hk
      obtain rfl := List.mem_singleton.mp hk'
      obtain ⟨c', hc', hkey', row', -, hs'⟩ := h.returned e hissued
      obtain ⟨j, hj⟩ := List.mem_iff_getElem?.mp hc'
      obtain rfl := call_of_key hnd hc hj hkey (he ▸ hkey')
      obtain rfl := Option.some.inj (hc.symm.trans hj)
      cases hs.symm.trans hs'

/-- A step of a call that commits nothing. -/
theorem Keys.move (h : Keys s) (hc : s.calls[i]? = some c) (db : Tenants)
    (hdb : db.tenant = s.db.tenant) (hs : ∀ reply, c.stage ≠ .returned reply) :
    Keys { s with db, calls := s.calls.set i c' } where
  stored := hdb ▸ h.stored
  returned e he := by
    obtain ⟨c₀, hc₀, hkey, row', hrow', hs'⟩ := h.returned e he
    refine ⟨c₀, mem_set_of_ne hc hc₀ ?_, hkey, row', hrow', hs'⟩
    intro heq
    exact hs _ (heq ▸ hs')
  distinct := h.distinct

omit [Platform] in
theorem keysOf_set {calls : List Call} (hc : calls[i]? = some c) (hop : c'.op = c.op) :
    keysOf (calls.set i c') = keysOf calls := by
  have hops : (calls.set i c').map (·.op) = calls.map (·.op) := by
    refine List.ext_getElem? fun j ↦ ?_
    rw [List.getElem?_map, List.getElem?_map]
    by_cases hj : i = j
    · subst hj
      rw [List.getElem?_set_self', hc]
      exact congrArg some hop
    · rw [List.getElem?_set_ne hj]
  have hkeys : ∀ l : List Call, keysOf l = (l.map (·.op)).filterMap Op.key? := by
    intro l
    rw [keysOf, List.filterMap_map]
    rfl
  rw [hkeys, hkeys, hops]

theorem Step.keysOf (h : Step s a s') :
    keysOf s'.calls = keysOf s.calls ++ a.key?.toList := by
  cases h with
  | call op now =>
    show TenantAdmin.keysOf (s.calls ++ [⟨op, now, .start⟩]) = _
    unfold TenantAdmin.keysOf
    rw [List.filterMap_append]
    refine congrArg (s.calls.filterMap (·.op.key?) ++ ·) ?_
    cases hkey : op.key? with
    | none => simp only [List.filterMap_cons, hkey, List.filterMap_nil, Action.key?, Option.toList_none]
    | some key =>
      simp only [List.filterMap_cons, hkey, List.filterMap_nil, Action.key?, Option.toList_some]
  | statement i c c' db hc h => exact (keysOf_set hc h.op).trans (List.append_nil _).symm
  | abort i c hc hopen =>
    have hop : (c.close .failed).op = c.op := rfl
    exact (keysOf_set hc hop).trans (List.append_nil _).symm

theorem Step.issued (h : Step s a s') : s.issued <+: s'.issued := by
  cases h with
  | statement i c c' db hc h => exact List.prefix_append _ _
  | _ => exact List.prefix_refl _

theorem keysOf_of_run (h : Run step s l u) : keysOf u.calls = keysOf s.calls ++ generated l := by
  induction h with
  | nil => exact (List.append_nil _).symm
  | @cons s s' u a l hs h ih =>
    rw [ih, (step_spec hs).keysOf, List.append_assoc]
    refine congrArg (keysOf s.calls ++ ·) ?_
    cases hkey : a.key? <;> simp only [generated, List.filterMap_cons, hkey, Option.toList_none,
      Option.toList_some, List.nil_append, List.singleton_append]

theorem issued_of_run (h : Run step s l u) : s.issued <+: u.issued :=
  h.relates (R := fun s u ↦ s.issued <+: u.issued) (fun _ ↦ List.prefix_refl _)
    (fun _ _ _ ↦ List.IsPrefix.trans) fun _ _ _ hs ↦ (step_spec hs).issued

theorem Keys.step (h : Keys s) (hi : Inv s) (hnd : (keysOf s.calls).Nodup) (hs : Step s a s') :
    Keys s' := by
  cases hs with
  | call op now =>
    refine ⟨h.stored, fun e he ↦ ?_, h.distinct⟩
    obtain ⟨c, hc, hrest⟩ := h.returned e he
    exact ⟨c, List.mem_append_left _ hc, hrest⟩
  | statement i c c' db hc hstep =>
    rcases hstep.commits_or with ⟨row, change, hs, hdb, rfl⟩ | ⟨hdb, hissues, hopen⟩
    · exact h.commit hi hc hnd hs db hdb
    · rw [hissues, List.append_nil]
      exact h.move hc db hdb hopen
  | abort i c hc hopen => exact h.move hc s.db rfl hopen

theorem keys_of_run (h : Run TenantAdmin.step {} l u) (hnd : (generated l).Nodup) :
    Inv u ∧ Keys u := by
  have hinv : (keysOf u.calls).Nodup → Inv u ∧ Keys u := by
    refine h.invariant (fun s ↦ (keysOf s.calls).Nodup → Inv s ∧ Keys s) ?_ fun _ ↦
      ⟨.init, fun _ ht ↦ absurd ht List.not_mem_nil, fun _ he ↦ absurd he List.not_mem_nil, .nil⟩
    intro s a s' hs ha hnd
    rw [(step_spec ha).keysOf] at hnd
    have hnd := (List.nodup_append.mp hnd).1
    obtain ⟨hi, hk⟩ := hs hnd
    exact ⟨hi.step ha, hk.step hi hnd (step_spec ha)⟩
  apply hinv
  rw [keysOf_of_run h]
  exact hnd

/-- A key that is handed out was generated. -/
theorem Keys.mem_keysOf (h : Keys s) {e : Uuid × Text} (he : e ∈ s.issued) :
    e.2 ∈ keysOf s.calls ∧ trim e.2 = e.2 := by
  obtain ⟨c, hc, hkey, -⟩ := h.returned e he
  exact ⟨List.mem_filterMap.mpr ⟨c, hc, hkey⟩, Op.trim_key hkey⟩

theorem Keys.resolves_iff (h : Keys s) (hno : NoCollision (keysOf s.calls) presented)
    (id : Uuid) : (∃ t, s.db.byApiKey presented = some t ∧ t.id = id) ↔
      latest s.issued id = some (trim presented) ∧ isActive s.db id := by
  -- The stored digest of a tenant is the presented one only if its key is.
  have hkey : ∀ t ∈ s.db.tenant, t.apiKeyHash = Api.hash presented →
      latest s.issued t.id = some (trim presented) := by
    intro t ht hhash
    obtain ⟨key, hlatest, hstored⟩ := h.stored t ht
    obtain ⟨hmem, htrim⟩ := h.mem_keysOf (mem_of_latest hlatest)
    rw [hstored, Api.hash, Api.hash, htrim] at hhash
    rw [hno key hmem hhash.symm]
    exact hlatest
  constructor
  · intro hres
    obtain ⟨t, hres, rfl⟩ := hres
    obtain ⟨row, hrow, rfl⟩ := Option.map_eq_some_iff.mp hres
    have hp := List.find?_some hrow
    obtain ⟨hhash, hactive⟩ := Bool.and_eq_true_iff.mp hp
    have hmem := List.mem_of_find?_eq_some hrow
    exact ⟨hkey row hmem (of_decide_eq_true hhash), row, hmem, rfl, hactive⟩
  · intro hres
    obtain ⟨hlatest, row, hmem, rfl, hactive⟩ := hres
    have hhash : row.apiKeyHash = Api.hash presented := by
      obtain ⟨key, hlatest', hstored⟩ := h.stored row hmem
      obtain rfl := Option.some.inj (hlatest.symm.trans hlatest')
      rw [hstored, Api.hash, Api.hash, trim_trim]
    obtain ⟨row', hrow'⟩ : ∃ row', s.db.tenant.find? (fun t ↦
        t.apiKeyHash = Api.hash presented && t.active) = some row' := by
      refine Option.isSome_iff_exists.mp (List.find?_isSome.mpr ⟨row, hmem, ?_⟩)
      exact Bool.and_eq_true_iff.mpr ⟨decide_eq_true hhash, hactive⟩
    refine ⟨row'.tenant, by rw [Tenants.byApiKey, hrow']; rfl, ?_⟩
    have hp := List.find?_some hrow'
    have hlatest' := hkey row' (List.mem_of_find?_eq_some hrow')
      (of_decide_eq_true (Bool.and_eq_true_iff.mp hp).1)
    exact eq_of_issued h.distinct (mem_of_latest hlatest') (mem_of_latest hlatest)

/-- A key resolves to the tenant that it was handed out for last, while that
is active. A key that another one has replaced never resolves again. -/
theorem replaced_key_is_dead {l₁ l₂ : List Action} (h₁ : Run TenantAdmin.step {} l₁ s)
    (h₂ : Run TenantAdmin.step s l₂ u) (presented : Text) (hkeys : (generated (l₁ ++ l₂)).Nodup)
    (hsha : NoCollision (generated (l₁ ++ l₂)) presented) :
    (∀ id, (∃ t, u.db.byApiKey presented = some t ∧ t.id = id) ↔
      latest u.issued id = some (trim presented) ∧ isActive u.db id) ∧
    (∀ id id', latest u.issued id = some (trim presented) →
      latest u.issued id' = some (trim presented) → id = id') ∧
    ∀ id, (id, trim presented) ∈ s.issued → latest s.issued id ≠ some (trim presented) →
      u.db.byApiKey presented = none := by
  have hrun := h₁.trans h₂
  have hk := (keys_of_run hrun hkeys).2
  have hno : NoCollision (keysOf u.calls) presented := by
    rw [keysOf_of_run hrun]
    exact hsha
  refine ⟨hk.resolves_iff hno, fun id id' h h' ↦ ?_, fun id hissued hne ↦ ?_⟩
  · exact eq_of_issued hk.distinct (mem_of_latest h) (mem_of_latest h')
  · cases hres : u.db.byApiKey presented with
    | none => rfl
    | some t =>
      obtain ⟨later, hlater⟩ := issued_of_run h₂
      have hlatest := ((hk.resolves_iff hno t.id).mp ⟨t, hres, rfl⟩).1
      have hdistinct := hk.distinct
      rw [← hlater] at hlatest hdistinct
      have hmem := List.mem_append_left later hissued
      obtain rfl := eq_of_issued hdistinct hmem (mem_of_latest hlatest)
      exact absurd hlatest (latest_append_ne hdistinct hissued hne)

end Runs

attribute [local instance] Platform.ascii

def oldKey : Vector UInt8 32 := .replicate 32 0xA1

def newKey : Vector UInt8 32 := .replicate 32 0xB2

def creation : List Action :=
  [.call (.create 1 oldKey "acme".toList ["example.com".toList] none "admin-token".toList) 0,
    .statement 0, .statement 0, .statement 0]

def rotation : List Action :=
  [.call (.rotateKey 1 newKey) 1, .statement 1, .statement 1, .statement 1]

def deactivation : List Action :=
  [.call (.setActive 1 false) 2, .statement 2, .statement 2, .statement 2]

/-- The old key resolves until the rotation, the new one from then on until the
deactivation, and the old one never again. -/
theorem rotation_deactivation_dead : ∃ r s u, Run step {} creation r ∧ Run step r rotation s ∧
    Run step s deactivation u ∧
    (r.db.byApiKey (Api.generate oldKey)).map (·.id) = some 1 ∧
    (s.db.byApiKey (Api.generate newKey)).map (·.id) = some 1 ∧
    s.db.byApiKey (Api.generate oldKey) = none ∧ u.db.byApiKey (Api.generate oldKey) = none ∧
    u.db.byApiKey (Api.generate newKey) = none := by
  have hexec : (exec step {} creation).any fun r ↦
      (r.db.byApiKey (Api.generate oldKey)).map (·.id) = some 1 &&
      (exec step r rotation).any fun s ↦
        (s.db.byApiKey (Api.generate newKey)).map (·.id) = some 1 &&
        s.issued.contains (1, trim (Api.generate oldKey)) &&
        latest s.issued 1 ≠ some (trim (Api.generate oldKey)) &&
        (exec step s deactivation).any fun u ↦ (u.db.byApiKey (Api.generate newKey)).isNone := by
    decide +kernel
  obtain ⟨r, hcreation, hr⟩ := run_of_any hexec
  obtain ⟨hold, hr⟩ := Bool.and_eq_true_iff.mp hr
  obtain ⟨s, hrotation, hs⟩ := run_of_any hr
  simp only [Bool.and_eq_true, decide_eq_true_eq, List.contains_iff_mem] at hs
  obtain ⟨⟨⟨hnew, hissued⟩, hlatest⟩, hs⟩ := hs
  obtain ⟨u, hdeactivation, hgone⟩ := run_of_any hs
  have hkeys : (generated ((creation ++ rotation) ++ deactivation)).Nodup := by decide +kernel
  have hsha : NoCollision (generated ((creation ++ rotation) ++ deactivation))
      (Api.generate oldKey) := by
    unfold NoCollision
    decide +kernel
  have hrun := hcreation.trans hrotation
  refine ⟨r, s, u, hcreation, hrotation, hdeactivation, of_decide_eq_true hold, hnew, ?_, ?_,
    Option.isNone_iff_eq_none.mp hgone⟩
  · have hkeys' : (generated ((creation ++ rotation) ++ [])).Nodup := by decide +kernel
    have hsha' : NoCollision (generated ((creation ++ rotation) ++ [])) (Api.generate oldKey) := by
      unfold NoCollision
      decide +kernel
    exact (replaced_key_is_dead hrun (.nil s) (Api.generate oldKey) hkeys' hsha').2.2 1 hissued hlatest
  · exact (replaced_key_is_dead hrun hdeactivation (Api.generate oldKey) hkeys hsha).2.2 1 hissued
      hlatest

end Postbud.TenantAdmin
