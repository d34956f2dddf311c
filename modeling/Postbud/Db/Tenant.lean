import Mathlib.Data.List.Sort
import Postbud.Api.Auth

namespace Postbud

open Lib

/-- A row of `tenant`. -/
structure TenantRow where
  id : Uuid
  name : Text
  apiKeyHash : Bytes
  fromDomains : List Text
  active : Bool := true
  createdAt : Time
  note : Option Text
  deriving DecidableEq

structure TenantDomainChange where
  id : ℤ
  tenantId : Uuid
  changedAt : Time
  changedBy : Text
  domainsBefore : List Text
  domainsAfter : List Text
  deriving DecidableEq

/-- The primary key, and the unique columns. -/
def TenantRow.Clash (t t' : TenantRow) : Prop :=
  t.id = t'.id ∨ t.name = t'.name ∨ t.apiKeyHash = t'.apiKeyHash

instance (t t' : TenantRow) : Decidable (t.Clash t') := by unfold TenantRow.Clash; infer_instance

instance : Std.Symm TenantRow.Clash where
  symm _ _ h := h.imp Eq.symm (Or.imp Eq.symm Eq.symm)

/-- The tables `tenant` and `tenant_domain_change`, and the sequence behind
the ids of the second. -/
structure Tenants where
  tenant : List TenantRow := []
  change : List TenantDomainChange := []
  seq : ℤ := 0
  deriving DecidableEq

structure Tenant where
  id : Uuid
  name : Text
  fromDomains : List Text
  active : Bool
  deriving DecidableEq

def TenantRow.tenant (t : TenantRow) : Tenant := ⟨t.id, t.name, t.fromDomains, t.active⟩

structure DomainChange where
  changedAt : Time
  changedBy : Text
  domainsBefore : List Text
  domainsAfter : List Text
  deriving DecidableEq

def TenantDomainChange.domainChange (c : TenantDomainChange) : DomainChange :=
  ⟨c.changedAt, c.changedBy, c.domainsBefore, c.domainsAfter⟩

namespace Tenants

/-- An inactive tenant resolves to none. -/
def byApiKey [Platform] (db : Tenants) (presentedKey : Text) : Option Tenant :=
  (db.tenant.find? fun t ↦ t.apiKeyHash = Api.hash presentedKey && t.active).map TenantRow.tenant

def changesOf (db : Tenants) (id : Uuid) : List TenantDomainChange :=
  db.change.filter (·.tenantId = id)

/-- What a tenant has been allowed to send as, newest first. -/
def domainHistory (db : Tenants) (id : Uuid) : List DomainChange :=
  ((db.changesOf id).insertionSort fun c c' ↦ c'.id ≤ c.id).map
    TenantDomainChange.domainChange

variable {db : Tenants} {id : Uuid}

theorem mem_changesOf {c : TenantDomainChange} :
    c ∈ db.changesOf id ↔ c ∈ db.change ∧ c.tenantId = id := by
  simp only [changesOf, List.mem_filter, decide_eq_true_eq]

/-- Of rows that are stored in the order of their ids, the newest is the last one. -/
theorem domainHistory_eq (h : (db.changesOf id).Pairwise fun c c' ↦ c.id < c'.id) :
    db.domainHistory id = ((db.changesOf id).map TenantDomainChange.domainChange).reverse := by
  have hsorted : (db.changesOf id).insertionSort (fun c c' ↦ c'.id ≤ c.id) =
      (db.changesOf id).reverse := by
    have : Std.Total fun c c' : TenantDomainChange ↦ c'.id ≤ c.id := ⟨fun c c' ↦ Int.le_total c'.id c.id⟩
    have : IsTrans TenantDomainChange fun c c' ↦ c'.id ≤ c.id := ⟨fun _ _ _ h h' ↦ h'.trans h⟩
    have hperm := (List.perm_insertionSort (fun c c' : TenantDomainChange ↦ c'.id ≤ c.id)
      (db.changesOf id)).trans (List.reverse_perm _).symm
    refine hperm.eq_of_pairwise ?_ (List.pairwise_insertionSort _ _)
      (List.pairwise_reverse.mpr (h.imp Int.le_of_lt))
    intro c c' hc hc' hle hle'
    by_contra hne
    have : Std.Symm fun c c' : TenantDomainChange ↦ c.id ≠ c'.id := ⟨fun _ _ h ↦ h.symm⟩
    have hids : (db.changesOf id).Pairwise fun c c' ↦ c.id ≠ c'.id := h.imp Int.ne_of_lt
    exact hids.forall ((List.perm_insertionSort _ _).mem_iff.mp hc) (List.mem_reverse.mp hc') hne
      (Int.le_antisymm hle' hle)
  rw [domainHistory, hsorted, List.map_reverse]

end Tenants

end Postbud
