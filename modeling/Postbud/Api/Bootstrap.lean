import Postbud.Api.Admin

namespace Postbud.Api

open Lib Lib.Transition

section Claims

variable [Platform] {app : AppState} {db db' : AdminUsers} {call : UserCall} {oidc : OidcAdmin}

/-- A table with an active grant has an active admin, and then some identity
that the issuer may vouch for is an admin. -/
structure Governed (app : AppState) (db : AdminUsers) : Prop where
  admin : db.anyActive → db.hasAdmin
  identity : ∀ oidc ∈ app.adminOidc, db.anyActive →
    ∃ row identity, oidc.role db row identity = some .admin

/-- A grant that is added while none is an admin's is an admin's. -/
def AddsAdmin (db : AdminUsers) (call : UserCall) : Prop :=
  ∀ identifier role note, call.request = .add identifier role note →
    db.hasAdmin ∨ role = Role.admin.text

theorem role_eq_admin (ha : db.anyActive) :
    (∃ row identity, oidc.role db row identity = some .admin) ↔ db.hasAdmin := by
  constructor
  · intro h
    obtain ⟨row, identity, h⟩ := h
    simp only [OidcAdmin.role, AdminUser.resolve, ha] at h
    split at h
    · rename_i role any hr
      obtain rfl := Option.some.inj h
      obtain ⟨u, hu, hrole⟩ := Option.map_eq_some_iff.mp (Prod.mk.inj hr).1
      obtain ⟨hu, hp⟩ := List.mem_filter.mp (List.mem_rotate.mp (List.mem_of_head? hu))
      have hactive : u.active := (Bool.and_eq_true_iff.mp hp).1
      exact AdminUsers.hasAdmin_iff.mpr
        ⟨u, hu, Bool.and_eq_true_iff.mpr ⟨hactive, decide_eq_true hrole⟩⟩
    · rename_i any hr
      obtain rfl : true = any := (Prod.mk.inj hr).2
      cases h
  · intro h
    obtain ⟨u, hu, hadmin⟩ := AdminUsers.hasAdmin_iff.mp h
    obtain ⟨hactive, hrole⟩ := Bool.and_eq_true_iff.mp hadmin
    have hfound : u ∈ db.rows.filter fun v ↦ v.active && (v.identifier = u.identifier ||
        (none : Option Text).any fun e ↦ Platform.lower v.identifier = Platform.lower e) := by
      refine List.mem_filter.mpr ⟨hu, ?_⟩
      simp only [hactive, decide_true, Bool.true_or, Bool.and_self]
    obtain ⟨row, hrow, he⟩ := List.mem_iff_getElem.mp hfound
    refine ⟨row, ⟨u.identifier, none⟩, ?_⟩
    simp only [OidcAdmin.role, AdminUser.resolve, List.head?_rotate hrow,
      List.getElem?_eq_getElem hrow, he, Option.map_some]
    exact congrArg some (of_decide_eq_true hrole)

theorem governed_iff : Governed app db ↔ (db.anyActive → db.hasAdmin) :=
  ⟨fun h ↦ h.admin, fun h ↦ ⟨h, fun _ _ ha ↦ (role_eq_admin ha).mpr (h ha)⟩⟩

theorem userStep_numbered (hn : db.Numbered) (h : userStep app db call = some db') :
    db'.Numbered := by
  obtain ⟨admin, -, h⟩ := userStep_spec h
  split at h
  · obtain ⟨user, h⟩ := h
    obtain ⟨rfl, hid, -⟩ := AdminUser.add_ok h
    exact hn.push hid
  · rename_i id role hreq
    rcases AdminUser.setRole_ok h with rfl | ⟨target, row, -, -, hid, rfl⟩
    · exact hn
    · exact (hn.finish call.now id admin.actor).push hid
  · rcases AdminUser.end_ok h with rfl | ⟨target, -, -, rfl⟩
    · exact hn
    · exact hn.finish _ _ _

theorem userStep_governed (hn : db.Numbered) (hg : Governed app db)
    (h : userStep app db call = some db') : Governed app db' ↔ AddsAdmin db call := by
  obtain ⟨admin, -, h⟩ := userStep_spec h
  rw [governed_iff] at hg ⊢
  split at h
  · rename_i identifier role note hreq
    obtain ⟨user, h⟩ := h
    obtain ⟨rfl, -, hactive, rfl⟩ := AdminUser.add_ok h
    have hany : (db.push user).anyActive :=
      AdminUsers.anyActive_iff.mpr ⟨user, List.mem_append_right _ List.mem_cons_self, hactive⟩
    constructor
    · intro hg' identifier' role' note' hreq'
      obtain ⟨-, rfl, -⟩ := UserRequest.add.inj (hreq.symm.trans hreq')
      have hadmin := hg' hany
      rw [AdminUsers.hasAdmin_push, Bool.or_eq_true] at hadmin
      refine hadmin.imp_right fun hadmin ↦ ?_
      exact congrArg Role.text (of_decide_eq_true (Bool.and_eq_true_iff.mp hadmin).2)
    · intro hadds _
      rw [AdminUsers.hasAdmin_push, Bool.or_eq_true]
      refine (hadds _ _ _ hreq).imp_right fun hrole ↦ ?_
      have hr : user.role = .admin := by
        have hread := Role.ofText?_text user.role
        rw [hrole, Role.ofText?_text] at hread
        exact (Option.some.inj hread).symm
      exact Bool.and_eq_true_iff.mpr ⟨hactive, decide_eq_true hr⟩
  · rename_i id role hreq
    refine ⟨fun _ _ _ _ hreq' ↦ absurd (hreq.symm.trans hreq') nofun, fun _ hany ↦ ?_⟩
    rcases AdminUser.setRole_ok h with rfl | ⟨target, row, ht, hrule, -, rfl⟩
    · exact hg hany
    · obtain ⟨hmem, -, hactive⟩ := AdminUsers.grant?_eq_some ht
      have hadmin := hg (AdminUsers.anyActive_iff.mpr ⟨target, hmem, hactive⟩)
      rw [AdminUsers.hasAdmin_push, Bool.or_eq_true]
      exact .inl (hn.hasAdmin_finish ht hrule hadmin _ _)
  · rename_i id hreq
    refine ⟨fun _ _ _ _ hreq' ↦ absurd (hreq.symm.trans hreq') nofun, fun _ hany ↦ ?_⟩
    rcases AdminUser.end_ok h with rfl | ⟨target, ht, hrule, rfl⟩
    · exact hg hany
    · obtain ⟨hmem, -, hactive⟩ := AdminUsers.grant?_eq_some ht
      have hadmin := hg (AdminUsers.anyActive_iff.mpr ⟨target, hmem, hactive⟩)
      exact hn.hasAdmin_finish ht hrule hadmin _ _

/-- The bootstrap window closes on an admin exactly when each grant that is
added while there is none is an admin's. -/
theorem bootstrap_closes_iff (app : AppState) (l : List UserCall) :
    Always (userStep app) (Governed app) {} l ↔ Along (userStep app) AddsAdmin {} l :=
  always_iff (fun _ _ _ ↦ userStep_numbered) (fun _ _ _ ↦ userStep_governed)
    ⟨List.nodup_nil, nofun⟩ (governed_iff.mpr nofun)

end Claims

section Runs

attribute [local instance] Platform.ascii

/-- The operator of the environment allowlist signs in and adds a viewer. -/
def firstGrant : UserCall where
  now := 0
  authorization := some "Bearer id-token".toList
  verify _ := some ⟨"user-1".toList, some "boss@regnmed.no".toList⟩
  row := 0
  request := .add "boss@regnmed.no".toList "viewer".toList none

/-- From then on no identity is an admin, and the allowlist is not asked. -/
theorem viewer_closes_bootstrap : ∃ (app : AppState) (db : AdminUsers),
    Run (userStep app) {} [firstGrant] db ∧ db.anyActive ∧ ¬ db.hasAdmin ∧
      ∀ oidc ∈ app.adminOidc, ∀ row identity, oidc.role db row identity ≠ some .admin := by
  have hexec : (exec (userStep ⟨none, some ⟨["boss@regnmed.no".toList]⟩⟩) {} [firstGrant]).any
      fun db ↦ db.anyActive && !db.hasAdmin := by decide +kernel
  obtain ⟨db, hrun, h⟩ := run_of_any hexec
  obtain ⟨hany, hno⟩ := Bool.and_eq_true_iff.mp h
  have hno : ¬ db.hasAdmin := by simpa only [Bool.not_eq_true, Bool.not_eq_true'] using hno
  exact ⟨_, db, hrun, hany, hno, fun oidc _ row identity hrole ↦
    hno ((role_eq_admin hany).mp ⟨row, identity, hrole⟩)⟩

end Runs

end Postbud.Api
