import Mathlib.Data.List.Nodup
import Postbud.Db.Schema

namespace Postbud

open Lib

inductive Role
  | admin
  | viewer
  deriving DecidableEq, Repr

def Role.text : Role → Text
  | .admin => "admin".toList
  | .viewer => "viewer".toList

/-- `check (role in ('admin', 'viewer'))` -/
def Role.ofText? (t : Text) : Option Role :=
  if t = Role.admin.text then some .admin
  else if t = Role.viewer.text then some .viewer
  else none

theorem Role.ofText?_text (r : Role) : ofText? r.text = some r := by
  cases r <;> decide

theorem Role.text_of_ofText? {t : Text} {r : Role} (h : ofText? t = some r) : t = r.text := by
  unfold ofText? at h
  split_ifs at h with ha hv
  · exact Option.some.inj h ▸ ha
  · exact Option.some.inj h ▸ hv

structure AdminUser where
  id : ℤ
  identifier : Text
  role : Role
  note : Option Text
  createdAt : Time
  createdBy : Text
  endedAt : Option Time := none
  endedBy : Option Text := none
  deriving DecidableEq

namespace AdminUser

def active (u : AdminUser) : Bool := u.endedAt.isNone

def isAdmin (u : AdminUser) : Bool := u.active && u.role = .admin

def finish (u : AdminUser) (now : Time) (endedBy : Text) : AdminUser :=
  { u with endedAt := some now, endedBy := some endedBy }

theorem not_active_finish (u : AdminUser) (now : Time) (endedBy : Text) :
    ¬ (u.finish now endedBy).active := nofun

variable [Platform]

/-- `admin_user_active`: an index on the folded identifier of active rows. -/
def SameGrant (u u' : AdminUser) : Prop :=
  u.active ∧ u'.active ∧ Platform.lower u.identifier = Platform.lower u'.identifier

/-- The primary key, and `admin_user_active`. -/
def Clash (u u' : AdminUser) : Prop := u.id = u'.id ∨ u.SameGrant u'

instance (u u' : AdminUser) : Decidable (u.SameGrant u') := by unfold SameGrant; infer_instance

instance (u u' : AdminUser) : Decidable (u.Clash u') := by unfold Clash; infer_instance

instance : Std.Symm Clash where
  symm _ _ h := h.imp Eq.symm fun h ↦ ⟨h.2.1, h.1, h.2.2.symm⟩

/-- Ending a grant only takes it off the index. -/
theorem clash_of_finish {u u' : AdminUser} {now : Time} {endedBy : Text}
    (h : (u.finish now endedBy).Clash u') : u.Clash u' := by
  rcases h with h | ⟨h, -⟩
  · exact .inl h
  · exact absurd h (not_active_finish u now endedBy)

end AdminUser

/-- The table `admin_user` and the sequence behind its ids. -/
structure AdminUsers where
  rows : List AdminUser := []
  seq : ℤ := 0
  deriving DecidableEq

namespace AdminUsers

/-- `where id = $1 and ended_at is null` -/
def grant? (db : AdminUsers) (id : ℤ) : Option AdminUser :=
  db.rows.find? fun u ↦ u.id = id && u.active

/-- `where ended_at is null and role = 'admin'` -/
def admins (db : AdminUsers) : List ℤ := (db.rows.filter AdminUser.isAdmin).map (·.id)

def anyActive (db : AdminUsers) : Bool := db.rows.any AdminUser.active

def hasAdmin (db : AdminUsers) : Bool := db.rows.any AdminUser.isAdmin

def finish (db : AdminUsers) (now : Time) (id : ℤ) (endedBy : Text) : AdminUsers :=
  { db with rows := db.rows.map fun u ↦ if u.id = id then u.finish now endedBy else u }

/-- A number that is drawn stays drawn when its row is not stored. -/
def draw (db : AdminUsers) : AdminUsers := { db with seq := db.seq + 1 }

def push (db : AdminUsers) (u : AdminUser) : AdminUsers :=
  { rows := db.rows ++ [u], seq := u.id }

/-- What an insert fails on: the check of the role, or the index. -/
inductive Violation
  | check
  | unique
  deriving DecidableEq

def insert? [Platform] (db : AdminUsers) (now : Time) (identifier role : Text)
    (note : Option Text) (createdBy : Text) : Except Violation AdminUser :=
  match Role.ofText? role with
  | none => .error .check
  | some role =>
    let row : AdminUser :=
      { id := db.seq + 1, identifier, role, note, createdAt := now, createdBy }
    if ∃ u ∈ db.rows, u.SameGrant row then .error .unique else .ok row

end AdminUsers

namespace AdminUser

def addError (identifier : Text) : AdminUsers.Violation → Text
  | .unique => "'".toList ++ identifier ++ "' already has an active grant".toList
  | .check => "adding admin user".toList

def LAST_ADMIN_REMOVED : Text :=
  "cannot remove the last admin — grant someone else the admin role first".toList

def LAST_ADMIN_DEMOTED : Text :=
  "cannot demote the last admin — grant someone else the admin role first".toList

def add [Platform] (db : AdminUsers) (now : Time) (identifier role : Text) (note : Option Text)
    (createdBy : Text) : AdminUsers × Except Text AdminUser :=
  match db.insert? now identifier role note createdBy with
  | .ok row => (db.push row, .ok row)
  | .error violation => (db.draw, .error (addError identifier violation))

/-- The last active admin cannot be ended. -/
def end_ (db : AdminUsers) (now : Time) (id : ℤ) (endedBy : Text) : AdminUsers × Except Text Bool :=
  match db.grant? id with
  | none => (db, .ok false)
  | some target =>
    if target.role = .admin ∧ db.admins.length ≤ 1 then (db, .error LAST_ADMIN_REMOVED)
    else (db.finish now id endedBy, .ok true)

/-- A role change ends the old grant and writes a new one. -/
def setRole [Platform] (db : AdminUsers) (now : Time) (id : ℤ) (role : Text) (actor : Text) :
    AdminUsers × Except Text Bool :=
  match db.grant? id with
  | none => (db, .ok false)
  | some target =>
    if target.role.text = role then (db, .ok true)
    else if target.role = .admin ∧ db.admins.length ≤ 1 then (db, .error LAST_ADMIN_DEMOTED)
    else
      let ended := db.finish now id actor
      match ended.insert? now target.identifier role target.note actor with
      | .ok row => (ended.push row, .ok true)
      | .error _ => (db.draw, .error "writing new grant".toList)

/-- The role of an identity, and whether any grant is active. An identity may
match two grants, one by subject and one by email: `row` is the one that
`limit 1` happens to leave. -/
def resolve [Platform] (db : AdminUsers) (row : ℕ) (sub : Text) (email : Option Text) :
    Option Role × Bool :=
  let found := db.rows.filter fun u ↦ u.active &&
    (u.identifier = sub || email.any fun e ↦ Platform.lower u.identifier = Platform.lower e)
  ((found.rotate row).head?.map (·.role), db.anyActive)

end AdminUser

variable {db db' : AdminUsers} {id : ℤ} {u : AdminUser} {now : Time} {endedBy : Text}

namespace AdminUsers

/-- What every run keeps of the numbers: they were drawn, each for one row. -/
structure Numbered (db : AdminUsers) : Prop where
  ids : (db.rows.map (·.id)).Nodup
  drawn : ∀ u ∈ db.rows, u.id ≤ db.seq

/-- Of two grants that are counted, one is not the grant that is to end. -/
theorem exists_other {ids : List ℤ} (hnd : ids.Nodup) (hlen : 1 < ids.length) (id : ℤ) :
    ∃ id' ∈ ids, id' ≠ id := by
  by_contra hall
  simp only [not_exists, not_and, not_not] at hall
  have hrep := List.eq_replicate_iff.mpr ⟨rfl, hall⟩
  rw [hrep, List.nodup_replicate] at hnd
  omega

theorem grant?_eq_some (h : db.grant? id = some u) : u ∈ db.rows ∧ u.id = id ∧ u.active := by
  have hp := List.find?_some h
  simp only [Bool.and_eq_true, decide_eq_true_eq] at hp
  exact ⟨List.mem_of_find?_eq_some h, hp.1, hp.2⟩

theorem mem_admins : id ∈ db.admins ↔ ∃ u ∈ db.rows, u.isAdmin ∧ u.id = id := by
  simp only [admins, List.mem_map, List.mem_filter, and_assoc]

theorem hasAdmin_iff : db.hasAdmin ↔ ∃ u ∈ db.rows, u.isAdmin := List.any_eq_true

theorem anyActive_iff : db.anyActive ↔ ∃ u ∈ db.rows, u.active := List.any_eq_true

theorem insert?_eq_ok [Platform] {identifier role : Text} {note : Option Text} {createdBy : Text}
    (h : db.insert? now identifier role note createdBy = .ok u) :
    u.id = db.seq + 1 ∧ u.identifier = identifier ∧ role = u.role.text ∧ u.active ∧
      ∀ v ∈ db.rows, ¬ v.SameGrant u := by
  unfold insert? at h
  split at h
  · cases h
  · rename_i r hr
    dsimp only at h
    split at h
    · cases h
    · rename_i hfree
      obtain rfl := Except.ok.inj h
      exact ⟨rfl, rfl, Role.text_of_ofText? hr, rfl, fun v hv hs ↦ hfree ⟨v, hv, hs⟩⟩

theorem Numbered.finish (h : db.Numbered) (now : Time) (id : ℤ) (endedBy : Text) :
    (db.finish now id endedBy).Numbered := by
  have hid : ∀ u : AdminUser, (if u.id = id then u.finish now endedBy else u).id = u.id := by
    intro u
    split_ifs <;> rfl
  refine ⟨?_, fun v hv ↦ ?_⟩
  · have hmap : (db.finish now id endedBy).rows.map (·.id) = db.rows.map (·.id) := by
      rw [AdminUsers.finish, List.map_map]
      exact List.map_congr_left fun u _ ↦ hid u
    rw [hmap]
    exact h.ids
  · obtain ⟨u, hu, rfl⟩ := List.mem_map.mp hv
    rw [hid]
    exact h.drawn u hu

theorem Numbered.push (h : db.Numbered) (hu : u.id = db.seq + 1) : (db.push u).Numbered := by
  refine ⟨?_, fun v hv ↦ ?_⟩
  · rw [AdminUsers.push, List.map_append, List.nodup_append]
    refine ⟨h.ids, List.nodup_singleton _, ?_⟩
    intro a ha b hb he
    obtain ⟨v, hv, rfl⟩ := List.mem_map.mp ha
    obtain rfl := List.mem_singleton.mp hb
    have hle := h.drawn v hv
    simp only at he
    omega
  · rcases List.mem_append.mp hv with hv | hv
    · have hle := h.drawn v hv
      show v.id ≤ u.id
      omega
    · obtain rfl := List.mem_singleton.mp hv
      exact Int.le_refl _

theorem Numbered.draw (h : db.Numbered) : db.draw.Numbered :=
  ⟨h.ids, fun u hu ↦ Int.le_trans (h.drawn u hu) (Int.le_add_one (Int.le_refl _))⟩

theorem Numbered.eq_of_id (h : db.Numbered) {v : AdminUser} (hu : u ∈ db.rows) (hv : v ∈ db.rows)
    (he : u.id = v.id) : u = v :=
  List.inj_on_of_nodup_map h.ids hu hv he

/-- The last-admin rule: a grant that may end leaves an admin. -/
theorem Numbered.hasAdmin_finish (h : db.Numbered) (ht : db.grant? id = some u)
    (hrule : ¬ (u.role = .admin ∧ db.admins.length ≤ 1)) (ha : db.hasAdmin) (now : Time)
    (endedBy : Text) : (db.finish now id endedBy).hasAdmin := by
  obtain ⟨hu, rfl, hactive⟩ := grant?_eq_some ht
  have hother : ∃ v ∈ db.rows, v.isAdmin ∧ v.id ≠ u.id := by
    by_cases hr : u.role = .admin
    · have hnd : db.admins.Nodup := h.ids.sublist (List.filter_sublist.map _)
      obtain ⟨id', hid', hne⟩ := exists_other hnd (not_le.mp fun hle ↦ hrule ⟨hr, hle⟩) u.id
      obtain ⟨v, hv, hadmin, rfl⟩ := mem_admins.mp hid'
      exact ⟨v, hv, hadmin, hne⟩
    · obtain ⟨v, hv, hadmin⟩ := hasAdmin_iff.mp ha
      refine ⟨v, hv, hadmin, fun he ↦ hr ?_⟩
      obtain rfl := h.eq_of_id hv hu he
      exact of_decide_eq_true (Bool.and_eq_true_iff.mp hadmin).2
  obtain ⟨v, hv, hadmin, hne⟩ := hother
  exact hasAdmin_iff.mpr ⟨v, List.mem_map.mpr ⟨v, hv, if_neg hne⟩, hadmin⟩

theorem hasAdmin_push : (db.push u).hasAdmin = (db.hasAdmin || u.isAdmin) := by
  simp only [hasAdmin, push, List.any_append, List.any_cons, List.any_nil, Bool.or_false]

end AdminUsers

namespace AdminUser

variable [Platform] {identifier role : Text} {note : Option Text} {createdBy actor : Text}

theorem add_ok (h : add db now identifier role note createdBy = (db', .ok u)) :
    db' = db.push u ∧ u.id = db.seq + 1 ∧ u.active ∧ role = u.role.text := by
  unfold add at h
  split at h
  · rename_i row hrow
    obtain ⟨rfl, he⟩ := Prod.mk.inj h
    obtain rfl := Except.ok.inj he
    obtain ⟨hid, -, hr, hactive, -⟩ := AdminUsers.insert?_eq_ok hrow
    exact ⟨rfl, hid, hactive, hr⟩
  · cases (Prod.mk.inj h).2

omit [Platform] in
theorem end_ok {b : Bool} (h : end_ db now id endedBy = (db', .ok b)) :
    db' = db ∨ ∃ target, db.grant? id = some target ∧
      ¬ (target.role = .admin ∧ db.admins.length ≤ 1) ∧ db' = db.finish now id endedBy := by
  unfold end_ at h
  split at h
  · exact .inl (Prod.mk.inj h).1.symm
  · rename_i target ht
    split_ifs at h with hrule
    · cases (Prod.mk.inj h).2
    · exact .inr ⟨target, ht, hrule, (Prod.mk.inj h).1.symm⟩

theorem setRole_ok {b : Bool} (h : setRole db now id role actor = (db', .ok b)) :
    db' = db ∨ ∃ target row, db.grant? id = some target ∧
      ¬ (target.role = .admin ∧ db.admins.length ≤ 1) ∧ row.id = db.seq + 1 ∧
      db' = (db.finish now id actor).push row := by
  unfold setRole at h
  split at h
  · exact .inl (Prod.mk.inj h).1.symm
  · rename_i target ht
    split_ifs at h with hsame hrule
    · exact .inl (Prod.mk.inj h).1.symm
    · cases (Prod.mk.inj h).2
    · dsimp only at h
      split at h
      · rename_i row hrow
        obtain ⟨hid, -⟩ := AdminUsers.insert?_eq_ok hrow
        exact .inr ⟨target, row, ht, hrule, hid, (Prod.mk.inj h).1.symm⟩
      · cases (Prod.mk.inj h).2

end AdminUser

end Postbud
