import Postbud.Db.AdminUser
import Postbud.Lib.RowLocks
import Postbud.Lib.Transition

namespace Postbud.AdminUser

open Lib Lib.RowLocks

inductive Op
  | add (identifier role : Text) (note : Option Text) (createdBy : Text)
  | end_ (id : ℤ) (endedBy : Text)
  | setRole (id : ℤ) (role actor : Text)
  deriving DecidableEq

inductive Reply
  | row (u : AdminUser)
  | found (b : Bool)
  | error (message : Text)
  deriving DecidableEq

/-- Where a call stands between two statements of its transaction. `lock` is
the wait for a grant that the snapshot of the first statement shows, and
`count` is the statement that locks the active admins of its snapshot, of
which it has still to lock `todo` and has counted `admins`. -/
inductive Stage
  | start
  | lock (id : ℤ)
  | locked (target : AdminUser)
  | count (target : AdminUser) (todo admins : List ℤ)
  | update (target : AdminUser)
  | insert (target : AdminUser)
  | commit
  | returned (reply : Reply)
  | failed
  deriving DecidableEq

/-- A call of `add`, `end` or `set_role`, the rows its transaction has locked,
and what it has written and not committed: the grant it has ended, and the
grant it has inserted. -/
structure Call where
  op : Op
  now : Time
  stage : Stage := .start
  locks : List ℤ := []
  ended : Option AdminUser := none
  inserted : Option AdminUser := none
  deriving DecidableEq

def Op.actor : Op → Text
  | .add _ _ _ createdBy => createdBy
  | .end_ _ endedBy => endedBy
  | .setRole _ _ actor => actor

def Op.newRole? : Op → Option Text
  | .setRole _ role _ => some role
  | _ => none

def Op.lastAdmin : Op → Text
  | .setRole .. => LAST_ADMIN_DEMOTED
  | _ => LAST_ADMIN_REMOVED

def Op.afterUpdate (op : Op) (target : AdminUser) : Stage :=
  match op with
  | .setRole .. => .insert target
  | _ => .commit

namespace Call

/-- The transaction ends: its locks are let go, and what it has not committed is gone. -/
def close (c : Call) (stage : Stage) : Call :=
  { c with stage, locks := [], ended := none, inserted := none }

def reply (c : Call) : Reply :=
  match c.op, c.inserted with
  | .add .., some row => .row row
  | _, _ => .found true

/-- The table as the transaction sees it once it has ended a grant. -/
def view (c : Call) (db : AdminUsers) : AdminUsers :=
  match c.ended with
  | some target => db.finish c.now target.id c.op.actor
  | none => db

def commits (c : Call) (db : AdminUsers) : AdminUsers :=
  { db with rows := (c.view db).rows ++ c.inserted.toList }

variable [Platform]

/-- Another transaction's insert has to wait: whether a grant of this
identifier is active is known when this transaction has ended. -/
def Blocks (c : Call) (identifier : Text) : Prop :=
  ∃ u ∈ c.ended.toList ++ c.inserted.toList,
    Platform.lower u.identifier = Platform.lower identifier

instance (c : Call) (identifier : Text) : Decidable (c.Blocks identifier) := by
  unfold Blocks; infer_instance

def insertRow (db : AdminUsers) (others : List Call) (c : Call) (identifier role : Text)
    (note : Option Text) (createdBy : Text) (error : AdminUsers.Violation → Text) :
    Option (AdminUsers × Call) :=
  if (Role.ofText? role).isSome ∧ ∃ y ∈ others, y.Blocks identifier then none
  else match (c.view db).insert? c.now identifier role note createdBy with
  | .ok row => some (db.draw, { c with stage := .commit, inserted := some row })
  | .error violation => some (db.draw, c.close (.returned (.error (error violation))))

/-- The next statement of a call, or the next row of the one that counts: it
may lock the rows of its snapshot in any order, `k` is the next one. A row is
looked at again once it is locked. -/
def step (db : AdminUsers) (others : List Call) (k : ℕ) (c : Call) : Option (AdminUsers × Call) :=
  match c.stage with
  | .start =>
    match c.op with
    | .add identifier role note createdBy =>
      c.insertRow db others identifier role note createdBy (addError identifier)
    | .end_ id _ | .setRole id _ _ =>
      match db.grant? id with
      | some _ => some (db, { c with stage := .lock id })
      | none => some (db, c.close (.returned (.found false)))
  | .lock id =>
    if Free Call.locks others id then
      match db.grant? id with
      | some target => some (db, { c with stage := .locked target, locks := id :: c.locks })
      | none => some (db, c.close (.returned (.found false)))
    else none
  | .locked target =>
    if c.op.newRole? = some target.role.text then some (db, c.close (.returned (.found true)))
    else if target.role = .admin then some (db, { c with stage := .count target db.admins [] })
    else some (db, { c with stage := .update target })
  | .count target todo admins =>
    match todo[k]? with
    | some id =>
      if Free Call.locks others id then
        some (db, { c with
          stage := .count target (todo.eraseIdx k) (if id ∈ db.admins then id :: admins else admins)
          locks := id :: c.locks })
      else none
    | none =>
      if todo ≠ [] then none
      else if admins.length ≤ 1 then
        some (db, c.close (.returned (.error c.op.lastAdmin)))
      else some (db, { c with stage := .update target })
  | .update target =>
    some (db, { c with stage := c.op.afterUpdate target, ended := some target })
  | .insert target =>
    match c.op with
    | .setRole _ role actor =>
      c.insertRow db others target.identifier role target.note actor fun _ ↦
        "writing new grant".toList
    | _ => none
  | .commit => some (c.commits db, c.close (.returned c.reply))
  | .returned _ | .failed => none

/-- A deadlock, a lost connection or a crash: the transaction is rolled back. -/
def abort (c : Call) : Option Call :=
  match c.stage with
  | .returned _ | .failed => none
  | _ => some (c.close .failed)

inductive Step (db : AdminUsers) (others : List Call) (c : Call) : AdminUsers → Call → Prop
  | closed (reply : Reply) (seq : ℤ) (hseq : db.seq ≤ seq) :
    Step db others c { db with seq } (c.close (.returned reply))
  | found (id : ℤ) (hc : c.stage = .start) : Step db others c db { c with stage := .lock id }
  | locked (id : ℤ) (target : AdminUser) (hc : c.stage = .lock id)
      (hfree : Free Call.locks others id) (ht : db.grant? id = some target) :
    Step db others c db { c with stage := .locked target, locks := id :: c.locks }
  | counts (target : AdminUser) (hc : c.stage = .locked target) (hr : target.role = .admin) :
    Step db others c db { c with stage := .count target db.admins [] }
  | viewer (target : AdminUser) (hc : c.stage = .locked target) (hr : target.role ≠ .admin) :
    Step db others c db { c with stage := .update target }
  | counted (target : AdminUser) (todo admins : List ℤ) (k : ℕ) (id : ℤ)
      (hc : c.stage = .count target todo admins) (hk : todo[k]? = some id)
      (hfree : Free Call.locks others id) :
    Step db others c db { c with
      stage := .count target (todo.eraseIdx k) (if id ∈ db.admins then id :: admins else admins)
      locks := id :: c.locks }
  | allowed (target : AdminUser) (admins : List ℤ) (hc : c.stage = .count target [] admins)
      (ha : 1 < admins.length) :
    Step db others c db { c with stage := .update target }
  | updated (target : AdminUser) (hc : c.stage = .update target) :
    Step db others c db { c with stage := c.op.afterUpdate target, ended := some target }
  | inserted (identifier role : Text) (note : Option Text) (createdBy : Text) (row : AdminUser)
      (hc : c.stage = .start ∨ ∃ target, c.stage = .insert target)
      (hfree : ∀ y ∈ others, ¬ y.Blocks identifier)
      (hrow : (c.view db).insert? c.now identifier role note createdBy = .ok row) :
    Step db others c db.draw { c with stage := .commit, inserted := some row }
  | committed (hc : c.stage = .commit) :
    Step db others c (c.commits db) (c.close (.returned c.reply))

variable {db db' : AdminUsers} {others : List Call} {c c' : Call} {k : ℕ}

omit [Platform] in
theorem draw_le (db : AdminUsers) : db.seq ≤ db.draw.seq := Int.le_add_one (Int.le_refl _)

theorem insertRow_spec {identifier role : Text} {note : Option Text} {createdBy : Text}
    {error : AdminUsers.Violation → Text}
    (hc : c.stage = .start ∨ ∃ target, c.stage = .insert target)
    (h : insertRow db others c identifier role note createdBy error = some (db', c')) :
    Step db others c db' c' := by
  unfold insertRow at h
  split at h
  · cases h
  · rename_i hblocks
    split at h
    · rename_i row hrow
      obtain ⟨rfl, rfl⟩ := Prod.mk.inj (Option.some.inj h)
      refine .inserted identifier role note createdBy row hc (fun y hy hb ↦ hblocks ⟨?_, y, hy, hb⟩) hrow
      obtain ⟨-, -, hr, -⟩ := AdminUsers.insert?_eq_ok hrow
      rw [hr, Role.ofText?_text]
      rfl
    · obtain ⟨rfl, rfl⟩ := Prod.mk.inj (Option.some.inj h)
      exact .closed _ _ (draw_le db)

theorem step_spec (h : step db others k c = some (db', c')) : Step db others c db' c' := by
  unfold step at h
  split at h
  · rename_i hc
    split at h
    · exact insertRow_spec (.inl hc) h
    all_goals
      split at h
      · obtain ⟨rfl, rfl⟩ := Prod.mk.inj (Option.some.inj h)
        exact .found _ hc
      · obtain ⟨rfl, rfl⟩ := Prod.mk.inj (Option.some.inj h)
        exact .closed _ _ (Int.le_refl _)
  · rename_i id hc
    split at h
    · rename_i hfree
      split at h
      · rename_i target ht
        obtain ⟨rfl, rfl⟩ := Prod.mk.inj (Option.some.inj h)
        exact .locked id target hc hfree ht
      · obtain ⟨rfl, rfl⟩ := Prod.mk.inj (Option.some.inj h)
        exact .closed _ _ (Int.le_refl _)
    · cases h
  · rename_i target hc
    split_ifs at h with hsame hr <;> obtain ⟨rfl, rfl⟩ := Prod.mk.inj (Option.some.inj h)
    · exact .closed _ _ (Int.le_refl _)
    · exact .counts target hc hr
    · exact .viewer target hc hr
  · rename_i target todo admins hc
    split at h
    · rename_i id hk
      split at h
      · rename_i hfree
        obtain ⟨rfl, rfl⟩ := Prod.mk.inj (Option.some.inj h)
        exact .counted target todo admins k id hc hk hfree
      · cases h
    · split_ifs at h with htodo ha <;> obtain ⟨rfl, rfl⟩ := Prod.mk.inj (Option.some.inj h)
      · exact .closed _ _ (Int.le_refl _)
      · obtain rfl := not_not.mp htodo
        exact .allowed target admins hc (not_le.mp ha)
  · rename_i target hc
    obtain ⟨rfl, rfl⟩ := Prod.mk.inj (Option.some.inj h)
    exact .updated target hc
  · rename_i target hc
    split at h
    · exact insertRow_spec (.inr ⟨target, hc⟩) h
    · cases h
  · rename_i hc
    obtain ⟨rfl, rfl⟩ := Prod.mk.inj (Option.some.inj h)
    exact .committed hc
  · cases h
  · cases h

omit [Platform] in
theorem abort_spec (h : c.abort = some c') : c' = c.close .failed := by
  obtain ⟨op, now, stage, locks, ended, inserted⟩ := c
  cases stage with
  | returned reply => cases h
  | failed => cases h
  | _ => exact (Option.some.inj h).symm

end Call

end Postbud.AdminUser
