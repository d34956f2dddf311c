import Postbud.Db.Tenant
import Postbud.Lib.RowLocks

namespace Postbud.TenantAdmin

open Lib Lib.RowLocks

/-- The calls, with the random values that are drawn for them. -/
inductive Op
  | create (id : Uuid) (bytes : Vector UInt8 32) (name : Text) (fromDomains : List Text)
      (note : Option Text) (createdBy : Text)
  | rotateKey (id : Uuid) (bytes : Vector UInt8 32)
  | setActive (id : Uuid) (active : Bool)
  | setDomains (id : Uuid) (fromDomains : List Text) (changedBy : Text)
  deriving DecidableEq

inductive Reply
  | created (tenant : Tenant) (key : Text)
  | rotated (key : Option Text)
  | found (b : Bool)
  | error (message : Text)
  deriving DecidableEq

/-- Where a call stands between two statements of its transaction. `lock` is
the wait for a row that its first statement has found, `record` the insert
into the history, and `commit` what it has written and not committed. The row
is the new one for `create`, and the one that is locked for the others. -/
inductive Stage
  | start
  | lock (id : Uuid)
  | locked (row : TenantRow)
  | record (row : TenantRow)
  | commit (row : TenantRow) (change : Option TenantDomainChange)
  | returned (reply : Reply)
  | failed
  deriving DecidableEq

structure Call where
  op : Op
  now : Time
  stage : Stage := .start
  deriving DecidableEq

def Op.isCreate : Op → Bool
  | .create .. => true
  | _ => false

/-- Who grants which domains. -/
def Op.grant? : Op → Option (Text × List Text)
  | .create _ _ _ fromDomains _ createdBy => some (createdBy, fromDomains)
  | .setDomains _ fromDomains changedBy => some (changedBy, fromDomains)
  | _ => none

def Op.key? : Op → Option Text
  | .create _ bytes .. | .rotateKey _ bytes => some (Api.generate bytes)
  | _ => none

/-- What a call answers when there is no such tenant. -/
def Op.notFound : Op → Reply
  | .rotateKey .. => .rotated none
  | _ => .found false

def Op.done (op : Op) (row : TenantRow) : Reply :=
  match op with
  | .create _ bytes .. => .created row.tenant (Api.generate bytes)
  | .rotateKey _ bytes => .rotated (some (Api.generate bytes))
  | _ => .found true

def Stage.row? : Stage → Option TenantRow
  | .locked row | .record row | .commit row _ => some row
  | _ => none

def Stage.written? : Stage → Option TenantRow
  | .record row | .commit row _ => some row
  | _ => none

namespace Call

def locks (c : Call) : List Uuid :=
  if c.op.isCreate then [] else c.stage.row?.toList.map (·.id)

def inserted (c : Call) : Option TenantRow :=
  if c.op.isCreate then c.stage.written? else none

/-- The keys that a commit hands out. -/
def issues (c : Call) : List (Uuid × Text) :=
  match c.stage, c.op.key? with
  | .commit row _, some key => [(row.id, key)]
  | _, _ => []

def close (c : Call) (stage : Stage) : Call := { c with stage }

/-- A deadlock, a lost connection or a crash: the transaction is rolled back. -/
def abort (c : Call) : Option Call :=
  match c.stage with
  | .returned _ | .failed => none
  | _ => some (c.close .failed)

end Call

variable [Platform]

/-- The row that `create` inserts. -/
def Op.newRow? (op : Op) (now : Time) : Option TenantRow :=
  match op with
  | .create id bytes name fromDomains note _ =>
    some { id, name, apiKeyHash := Api.hash (Api.generate bytes), fromDomains, createdAt := now, note }
  | _ => none

/-- The `set` clause of a call's update. -/
def Op.set (op : Op) (row : TenantRow) : TenantRow :=
  match op with
  | .create .. => row
  | .rotateKey _ bytes => { row with apiKeyHash := Api.hash (Api.generate bytes) }
  | .setActive _ active => { row with active }
  | .setDomains _ fromDomains _ => { row with fromDomains }

namespace Call

def write (c : Call) (row : TenantRow) (rows : List TenantRow) : List TenantRow :=
  if c.op.isCreate then rows ++ [row]
  else rows.map fun t ↦ if t.id = row.id then c.op.set t else t

/-- A row waits for another transaction that has written a row it clashes
with, or has changed one. -/
def Blocks (db : Tenants) (row : TenantRow) (c : Call) : Prop :=
  ∃ r ∈ c.stage.written?, (c.op.set r).Clash row ∨ ∃ t ∈ db.tenant, t.id = r.id ∧ t.Clash row

instance (db : Tenants) (row : TenantRow) (c : Call) : Decidable (c.Blocks db row) := by
  unfold Blocks
  infer_instance

/-- The insert into the history, which draws a number. -/
def recorded (db : Tenants) (c : Call) (row : TenantRow) (changedBy : Text)
    (domainsBefore domainsAfter : List Text) : Tenants × Call :=
  let change : TenantDomainChange :=
    { id := db.seq + 1, tenantId := row.id, changedAt := c.now, changedBy, domainsBefore,
      domainsAfter }
  ({ db with seq := db.seq + 1 }, { c with stage := .commit row (some change) })

def step (db : Tenants) (others : List Call) (c : Call) : Option (Tenants × Call) :=
  match c.stage with
  | .start =>
    match c.op.newRow? c.now with
    | some row =>
      if ∃ y ∈ others, y.Blocks db row then none
      else if ∃ t ∈ db.tenant, t.Clash row then
        some (db, c.close (.returned (.error "creating tenant".toList)))
      else some (db, { c with stage := .record row })
    | none =>
      match c.op with
      | .rotateKey id _ | .setActive id _ | .setDomains id _ _ =>
        if ∃ t ∈ db.tenant, t.id = id then some (db, { c with stage := .lock id })
        else some (db, c.close (.returned c.op.notFound))
      | .create .. => none
  | .lock id =>
    if Free locks others id then
      match db.tenant.find? (·.id = id) with
      | some row =>
        match c.op with
        | .rotateKey .. =>
          if ∃ y ∈ others, y.Blocks db (c.op.set row) then none
          else if ∃ t ∈ db.tenant, t.id ≠ row.id ∧ t.apiKeyHash = (c.op.set row).apiKeyHash then
            some (db, c.close (.returned (.error "rotating tenant key".toList)))
          else some (db, { c with stage := .commit row none })
        | .setActive .. => some (db, { c with stage := .commit row none })
        | .setDomains .. => some (db, { c with stage := .locked row })
        | .create .. => none
      | none => some (db, c.close (.returned c.op.notFound))
    else none
  | .locked row =>
    if row.fromDomains = (c.op.set row).fromDomains then
      some (db, c.close (.returned (.found true)))
    else some (db, { c with stage := .record row })
  | .record row =>
    match c.op.grant? with
    | some (changedBy, fromDomains) =>
      some (c.recorded db row changedBy (if c.op.isCreate then [] else row.fromDomains) fromDomains)
    | none => none
  | .commit row change =>
    some ({ db with tenant := c.write row db.tenant, change := db.change ++ change.toList },
      c.close (.returned (c.op.done row)))
  | .returned _ | .failed => none

inductive Step (db : Tenants) (others : List Call) (c : Call) : Tenants → Call → Prop
  | closed (reply : Reply) (hc : c.stage.written? = none)
      (hopen : ∀ reply, c.stage ≠ .returned reply) :
    Step db others c db (c.close (.returned reply))
  | inserted (row : TenantRow) (hc : c.stage = .start) (hrow : c.op.newRow? c.now = some row)
      (hfree : ∀ y ∈ others, ¬ y.Blocks db row) (hnew : ∀ t ∈ db.tenant, ¬ t.Clash row) :
    Step db others c db { c with stage := .record row }
  | found (id : Uuid) (hc : c.stage = .start) (hop : c.op.newRow? c.now = none) :
    Step db others c db { c with stage := .lock id }
  | updated (id : Uuid) (row : TenantRow) (hc : c.stage = .lock id)
      (hop : c.op.newRow? c.now = none) (hset : ∀ t, (c.op.set t).fromDomains = t.fromDomains)
      (hfree : Free locks others row.id) (hrow : row ∈ db.tenant) :
    Step db others c db { c with stage := .commit row none }
  | read (id : Uuid) (row : TenantRow) (hc : c.stage = .lock id)
      (hop : c.op.newRow? c.now = none) (hfree : Free locks others row.id) (hrow : row ∈ db.tenant) :
    Step db others c db { c with stage := .locked row }
  | wrote (row : TenantRow) (hc : c.stage = .locked row)
      (hne : row.fromDomains ≠ (c.op.set row).fromDomains) :
    Step db others c db { c with stage := .record row }
  | recorded (row : TenantRow) (change : TenantDomainChange) (hc : c.stage = .record row)
      (hid : change.id = db.seq + 1) (htenant : change.tenantId = row.id)
      (hbefore : change.domainsBefore = if c.op.isCreate then [] else row.fromDomains)
      (hgrant : c.op.grant? = some (change.changedBy, change.domainsAfter)) :
    Step db others c { db with seq := db.seq + 1 } { c with stage := .commit row (some change) }
  | committed (row : TenantRow) (change : Option TenantDomainChange)
      (hc : c.stage = .commit row change) :
    Step db others c
      { db with tenant := c.write row db.tenant, change := db.change ++ change.toList }
      (c.close (.returned (c.op.done row)))

variable {db db' : Tenants} {others : List Call} {c c' : Call}

theorem step_spec (h : step db others c = some (db', c')) : Step db others c db' c' := by
  unfold step at h
  split at h
  · rename_i hc
    split at h
    · rename_i row hrow
      split_ifs at h with hblocks hclash <;> obtain ⟨rfl, rfl⟩ := Prod.mk.inj (Option.some.inj h)
      · exact .closed _ (by rw [hc]; rfl) (hc ▸ nofun)
      · exact .inserted row hc hrow (fun y hy hb ↦ hblocks ⟨y, hy, hb⟩)
          fun t ht hcl ↦ hclash ⟨t, ht, hcl⟩
    · rename_i hop
      split at h
      all_goals try cases h
      all_goals
        split_ifs at h with hid <;> obtain ⟨rfl, rfl⟩ := Prod.mk.inj (Option.some.inj h)
        · exact .found _ hc hop
        · exact .closed _ (by rw [hc]; rfl) (hc ▸ nofun)
  · rename_i id hc
    split at h
    · rename_i hfree
      split at h
      · rename_i row hrow
        have hmem := List.mem_of_find?_eq_some hrow
        have hid := List.find?_some hrow
        obtain rfl : row.id = id := of_decide_eq_true hid
        split at h
        · rename_i id' bytes hop
          split_ifs at h with hblocks hclash <;> obtain ⟨rfl, rfl⟩ := Prod.mk.inj (Option.some.inj h)
          · exact .closed _ (by rw [hc]; rfl) (hc ▸ nofun)
          · exact .updated row.id row hc (by rw [hop]; rfl) (fun t ↦ by rw [hop]; rfl) hfree hmem
        · rename_i id' active hop
          obtain ⟨rfl, rfl⟩ := Prod.mk.inj (Option.some.inj h)
          exact .updated row.id row hc (by rw [hop]; rfl) (fun t ↦ by rw [hop]; rfl) hfree hmem
        · rename_i id' fromDomains changedBy hop
          obtain ⟨rfl, rfl⟩ := Prod.mk.inj (Option.some.inj h)
          exact .read row.id row hc (by rw [hop]; rfl) hfree hmem
        · cases h
      · obtain ⟨rfl, rfl⟩ := Prod.mk.inj (Option.some.inj h)
        exact .closed _ (by rw [hc]; rfl) (hc ▸ nofun)
    · cases h
  · rename_i row hc
    split_ifs at h with hsame <;> obtain ⟨rfl, rfl⟩ := Prod.mk.inj (Option.some.inj h)
    · exact .closed _ (by rw [hc]; rfl) (hc ▸ nofun)
    · exact .wrote row hc hsame
  · rename_i row hc
    split at h
    · rename_i changedBy fromDomains hgrant
      obtain ⟨rfl, rfl⟩ := Prod.mk.inj (Option.some.inj h)
      exact .recorded row _ hc rfl rfl rfl hgrant
    · cases h
  · rename_i row change hc
    obtain ⟨rfl, rfl⟩ := Prod.mk.inj (Option.some.inj h)
    exact .committed row change hc
  · cases h
  · cases h

omit [Platform] in
theorem abort_spec (h : c.abort = some c') :
    (∀ reply, c.stage ≠ .returned reply) ∧ c' = c.close .failed := by
  obtain ⟨op, now, stage⟩ := c
  cases stage with
  | returned reply => cases h
  | failed => cases h
  | _ => exact ⟨nofun, (Option.some.inj h).symm⟩

theorem Step.op (h : Step db others c db' c') : c'.op = c.op := by
  cases h <;> rfl

/-- A statement commits, or leaves the table as it is. -/
theorem Step.commits_or (h : Step db others c db' c') :
    (∃ row change, c.stage = .commit row change ∧ db'.tenant = c.write row db.tenant ∧
      c' = c.close (.returned (c.op.done row))) ∨
    db'.tenant = db.tenant ∧ c.issues = [] ∧ ∀ reply, c.stage ≠ .returned reply := by
  cases h with
  | closed reply hc hopen =>
    refine .inr ⟨rfl, ?_, hopen⟩
    unfold issues
    cases hs : c.stage with
    | commit row change =>
      rw [hs] at hc
      cases hc
    | _ => rfl
  | committed row change hc => exact .inl ⟨row, change, hc, rfl, rfl⟩
  | inserted row hc | found id hc | updated id row hc | read id row hc | wrote row hc
  | recorded row change hc =>
    exact .inr ⟨rfl, by rw [issues, hc], hc ▸ nofun⟩

end Call

end Postbud.TenantAdmin
