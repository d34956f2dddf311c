import Postbud.Db.AdminUserCall
import Postbud.Lib.Transition

namespace Postbud.AdminUser

open Lib Lib.RowLocks Lib.Transition

/-- A call that holds up no other one. -/
structure Call.Idle (c : Call) : Prop where
  locks : c.locks = []
  ended : c.ended = none
  inserted : c.inserted = none

def answer : AdminUsers × Except Text Bool → AdminUsers × Reply
  | (db, .ok b) => (db, .found b)
  | (db, .error message) => (db, .error message)

variable [Platform]

/-- What the functions of the source do in one go. -/
def Op.run (op : Op) (db : AdminUsers) (now : Time) : AdminUsers × Reply :=
  match op with
  | .add identifier role note createdBy =>
    match AdminUser.add db now identifier role note createdBy with
    | (db, .ok row) => (db, .row row)
    | (db, .error message) => (db, .error message)
  | .end_ id endedBy => answer (AdminUser.end_ db now id endedBy)
  | .setRole id role actor => answer (AdminUser.setRole db now id role actor)

variable {others : List Call} {db db' db'' : AdminUsers} {c c' c'' : Call}

/-- Some statements lead from one point of a call to another, while the others are idle. -/
def Goes (others : List Call) (db : AdminUsers) (c : Call) (db' : AdminUsers) (c' : Call) : Prop :=
  ∃ ks, Run (fun x : AdminUsers × Call ↦ fun k ↦ x.2.step x.1 others k) (db, c) ks (db', c')

theorem Goes.one {k : ℕ} (h : c.step db others k = some (db', c')) : Goes others db c db' c' :=
  ⟨[k], .one h⟩

theorem Goes.trans (h : Goes others db c db' c') (h' : Goes others db' c' db'' c'') :
    Goes others db c db'' c'' := by
  obtain ⟨ks, h⟩ := h
  obtain ⟨ks', h'⟩ := h'
  exact ⟨ks ++ ks', h.trans h'⟩

omit [Platform] in
theorem free_of_idle (h : ∀ y ∈ others, y.Idle) (id : ℤ) : Free Call.locks others id := by
  intro y hy
  rw [(h y hy).locks]
  exact List.not_mem_nil

theorem not_blocks_of_idle (h : ∀ y ∈ others, y.Idle) (identifier : Text) :
    ¬ ∃ y ∈ others, y.Blocks identifier := by
  intro hb
  obtain ⟨y, hy, u, hu, -⟩ := hb
  rw [(h y hy).ended, (h y hy).inserted] at hu
  cases hu

/-- The statement that counts gets all the rows of its snapshot. -/
theorem goes_count (h : ∀ y ∈ others, y.Idle) (target : AdminUser) (todo : List ℤ) :
    ∀ (admins : List ℤ) (c : Call), c.stage = .count target todo admins → todo ⊆ db.admins →
      ∃ admins' locks, admins'.length = todo.length + admins.length ∧
        Goes others db c db { c with stage := .count target [] admins', locks } := by
  induction todo with
  | nil =>
    intro admins c hc _
    refine ⟨admins, c.locks, (Nat.zero_add _).symm, [], ?_⟩
    rw [← hc]
    exact .nil _
  | cons id todo ih =>
    intro admins c hc hsub
    have hid : id ∈ db.admins := hsub List.mem_cons_self
    have hstep : c.step db others 0 = some (db,
        { c with stage := .count target todo (id :: admins), locks := id :: c.locks }) := by
      rw [Call.step, hc]
      simp only [List.getElem?_cons_zero, if_pos (free_of_idle h id), List.eraseIdx_cons_zero,
        if_pos hid]
    obtain ⟨admins', locks, hlen, hgoes⟩ := ih (id :: admins)
      { c with stage := .count target todo (id :: admins), locks := id :: c.locks } rfl
      fun x hx ↦ hsub (List.mem_cons_of_mem _ hx)
    refine ⟨admins', locks, ?_, (Goes.one hstep).trans hgoes⟩
    rw [hlen, List.length_cons, List.length_cons]
    omega

section Target

variable {op : Op} {now : Time} {id : ℤ} {target : AdminUser}

/-- A call about the grant of a number. -/
def Op.About (op : Op) (id : ℤ) : Prop :=
  (∃ endedBy, op = .end_ id endedBy) ∨ ∃ role actor, op = .setRole id role actor

theorem goes_absent (hop : op.About id) (hg : db.grant? id = none) :
    Goes others db { op, now } db { op, now, stage := .returned (.found false) } := by
  refine .one (k := 0) ?_
  rcases hop with ⟨endedBy, rfl⟩ | ⟨role, actor, rfl⟩ <;> simp only [Call.step, hg, Call.close]

theorem goes_locked (h : ∀ y ∈ others, y.Idle) (hop : op.About id)
    (hg : db.grant? id = some target) :
    Goes others db { op, now } db { op, now, stage := .locked target, locks := [id] } := by
  have hfound : ({ op, now } : Call).step db others 0 = some (db, { op, now, stage := .lock id }) := by
    rcases hop with ⟨endedBy, rfl⟩ | ⟨role, actor, rfl⟩ <;> simp only [Call.step, hg]
  refine (Goes.one hfound).trans (.one (k := 0) ?_)
  simp only [Call.step, if_pos (free_of_idle h id), hg]

theorem goes_same (h : ∀ y ∈ others, y.Idle) (hop : op.About id)
    (hg : db.grant? id = some target) (hrole : op.newRole? = some target.role.text) :
    Goes others db { op, now } db { op, now, stage := .returned (.found true) } := by
  refine (goes_locked h hop hg).trans (.one (k := 0) ?_)
  simp only [Call.step, if_pos hrole, Call.close]

theorem goes_counted (h : ∀ y ∈ others, y.Idle) (hop : op.About id)
    (hg : db.grant? id = some target) (hrole : op.newRole? ≠ some target.role.text)
    (hr : target.role = .admin) : ∃ admins locks, admins.length = db.admins.length ∧
      Goes others db { op, now } db { op, now, stage := .count target [] admins, locks } := by
  have hcount : ({ op, now, stage := .locked target, locks := [id] } : Call).step db others 0 =
      some (db, { op, now, stage := .count target db.admins [], locks := [id] }) := by
    simp only [Call.step, if_neg hrole, if_pos hr]
  obtain ⟨admins, locks, hlen, hgoes⟩ := goes_count h target db.admins []
    { op, now, stage := .count target db.admins [], locks := [id] } rfl (List.Subset.refl _)
  exact ⟨admins, locks, hlen, (goes_locked h hop hg).trans ((Goes.one hcount).trans hgoes)⟩

theorem goes_refused (h : ∀ y ∈ others, y.Idle) (hop : op.About id)
    (hg : db.grant? id = some target) (hrole : op.newRole? ≠ some target.role.text)
    (hrule : target.role = .admin ∧ db.admins.length ≤ 1) :
    Goes others db { op, now } db { op, now, stage := .returned (.error op.lastAdmin) } := by
  obtain ⟨admins, locks, hlen, hgoes⟩ := goes_counted h hop hg hrole hrule.1
  refine hgoes.trans (.one (k := 0) ?_)
  simp only [Call.step, List.getElem?_nil, ne_eq, not_true, if_false, hlen, if_pos hrule.2,
    Call.close]

theorem goes_updated (h : ∀ y ∈ others, y.Idle) (hop : op.About id)
    (hg : db.grant? id = some target) (hrole : op.newRole? ≠ some target.role.text)
    (hrule : ¬ (target.role = .admin ∧ db.admins.length ≤ 1)) :
    ∃ locks, Goes others db { op, now } db
      { op, now, stage := op.afterUpdate target, locks, ended := some target } := by
  suffices hupdate : ∃ locks, Goes others db { op, now } db { op, now, stage := .update target, locks } by
    obtain ⟨locks, hgoes⟩ := hupdate
    exact ⟨locks, hgoes.trans (.one (k := 0) rfl)⟩
  by_cases hr : target.role = .admin
  · obtain ⟨admins, locks, hlen, hgoes⟩ := goes_counted h hop hg hrole hr
    refine ⟨locks, hgoes.trans (.one (k := 0) ?_)⟩
    have hmore : ¬ db.admins.length ≤ 1 := fun hle ↦ hrule ⟨hr, hle⟩
    simp only [Call.step, List.getElem?_nil, ne_eq, not_true, if_false, hlen, if_neg hmore]
  · refine ⟨[id], (goes_locked h hop hg).trans (.one (k := 0) ?_)⟩
    simp only [Call.step, if_neg hrole, if_neg hr]

end Target

omit [Platform] in
theorem rows_view_draw (c : Call) (db : AdminUsers) : (c.view db.draw).rows = (c.view db).rows := by
  unfold Call.view
  split <;> rfl

section Insert

variable {identifier role : Text} {note : Option Text} {createdBy : Text}
  {error : AdminUsers.Violation → Text}

theorem goes_insert_error (h : ∀ y ∈ others, y.Idle) {violation : AdminUsers.Violation}
    (hstep : c.step db others 0 = c.insertRow db others identifier role note createdBy error)
    (hrow : (c.view db).insert? c.now identifier role note createdBy = .error violation) :
    Goes others db c db.draw (c.close (.returned (.error (error violation)))) := by
  rw [Call.insertRow, if_neg fun hb ↦ not_blocks_of_idle h identifier hb.2, hrow] at hstep
  exact .one hstep

/-- An insert, and the commit after it. -/
theorem goes_insert_ok (h : ∀ y ∈ others, y.Idle) {row : AdminUser}
    (hstep : c.step db others 0 = c.insertRow db others identifier role note createdBy error)
    (hrow : (c.view db).insert? c.now identifier role note createdBy = .ok row) :
    Goes others db c ((c.view db).push row)
      (c.close (.returned ({ c with inserted := some row } : Call).reply)) := by
  rw [Call.insertRow, if_neg fun hb ↦ not_blocks_of_idle h identifier hb.2, hrow] at hstep
  refine (Goes.one hstep).trans (.one (k := 0) ?_)
  obtain ⟨hid, -⟩ := AdminUsers.insert?_eq_ok hrow
  have hseq : (c.view db).seq = db.seq := by
    unfold Call.view
    split <;> rfl
  have hcommits : ({ c with stage := .commit, inserted := some row } : Call).commits db.draw =
      (c.view db).push row := by
    have hview : ({ c with stage := .commit, inserted := some row } : Call).view db.draw =
      c.view db.draw := rfl
    rw [Call.commits, hview, rows_view_draw, AdminUsers.push, hid, hseq]
    rfl
  rw [Call.step, hcommits]
  rfl

end Insert

theorem goes_add (h : ∀ y ∈ others, y.Idle) (db : AdminUsers) (now : Time)
    (identifier role : Text) (note : Option Text) (createdBy : Text) :
    let op : Op := .add identifier role note createdBy
    Goes others db { op, now } (op.run db now).1
      { op, now, stage := .returned (op.run db now).2 } := by
  intro op
  have hstep : ({ op, now } : Call).step db others 0 = ({ op, now } : Call).insertRow db others
    identifier role note createdBy (addError identifier) := rfl
  cases hrow : db.insert? now identifier role note createdBy with
  | ok row =>
    have hgoes := goes_insert_ok h hstep hrow
    simp only [op, Op.run, AdminUser.add, hrow]
    exact hgoes
  | error violation =>
    have hgoes := goes_insert_error h hstep hrow
    simp only [op, Op.run, AdminUser.add, hrow]
    exact hgoes

theorem goes_end (h : ∀ y ∈ others, y.Idle) (db : AdminUsers) (now : Time) (id : ℤ)
    (endedBy : Text) :
    let op : Op := .end_ id endedBy
    Goes others db { op, now } (op.run db now).1
      { op, now, stage := .returned (op.run db now).2 } := by
  intro op
  have hop : op.About id := .inl ⟨endedBy, rfl⟩
  cases hg : db.grant? id with
  | none =>
    simp only [op, Op.run, AdminUser.end_, hg]
    exact goes_absent hop hg
  | some target =>
    obtain ⟨-, hid, -⟩ := AdminUsers.grant?_eq_some hg
    by_cases hrule : target.role = .admin ∧ db.admins.length ≤ 1
    · simp only [op, Op.run, AdminUser.end_, hg, if_pos hrule]
      exact goes_refused h hop hg nofun hrule
    · simp only [op, Op.run, AdminUser.end_, hg, if_neg hrule]
      obtain ⟨locks, hgoes⟩ : ∃ locks, Goes others db { op, now } db
          { op, now, stage := .commit, locks, ended := some target } :=
        goes_updated h hop hg nofun hrule
      refine hgoes.trans (.one (k := 0) ?_)
      have hcommits : ({ op, now, stage := .commit, locks, ended := some target } : Call).commits db =
          db.finish now id endedBy := by
        rw [← hid]
        exact congrArg (AdminUsers.mk · db.seq) (List.append_nil _)
      rw [Call.step, hcommits]
      rfl

theorem goes_setRole (h : ∀ y ∈ others, y.Idle) (db : AdminUsers) (now : Time) (id : ℤ)
    (role actor : Text) :
    let op : Op := .setRole id role actor
    Goes others db { op, now } (op.run db now).1
      { op, now, stage := .returned (op.run db now).2 } := by
  intro op
  have hop : op.About id := .inr ⟨role, actor, rfl⟩
  cases hg : db.grant? id with
  | none =>
    simp only [op, Op.run, AdminUser.setRole, hg]
    exact goes_absent hop hg
  | some target =>
    obtain ⟨-, hid, -⟩ := AdminUsers.grant?_eq_some hg
    by_cases hsame : target.role.text = role
    · simp only [op, Op.run, AdminUser.setRole, hg, if_pos hsame]
      exact goes_same h hop hg (congrArg some hsame.symm)
    have hrole : op.newRole? ≠ some target.role.text := fun he ↦ hsame (Option.some.inj he).symm
    by_cases hrule : target.role = .admin ∧ db.admins.length ≤ 1
    · simp only [op, Op.run, AdminUser.setRole, hg, if_neg hsame, if_pos hrule]
      exact goes_refused h hop hg hrole hrule
    · obtain ⟨locks, hgoes⟩ : ∃ locks, Goes others db { op, now } db
          { op, now, stage := .insert target, locks, ended := some target } :=
        goes_updated h hop hg hrole hrule
      simp only [op, Op.run, AdminUser.setRole, hg, if_neg hsame, if_neg hrule]
      have hstep : ({ op, now, stage := .insert target, locks, ended := some target } : Call).step
          db others 0 = Call.insertRow db others
            { op, now, stage := .insert target, locks, ended := some target } target.identifier
            role target.note actor fun _ ↦ "writing new grant".toList := rfl
      have hview : ({ op, now, stage := .insert target, locks, ended := some target } : Call).view
          db = db.finish now id actor := by
        rw [← hid]
        rfl
      refine hgoes.trans ?_
      cases hrow : (db.finish now id actor).insert? now target.identifier role target.note actor with
      | ok row =>
        have hlast := goes_insert_ok h hstep (hview ▸ hrow)
        rw [hview] at hlast
        exact hlast
      | error violation => exact goes_insert_error h hstep (hview ▸ hrow)

/-- A call whose transaction runs alone does what the function of the source says. -/
theorem goes_run (h : ∀ y ∈ others, y.Idle) (op : Op) (db : AdminUsers) (now : Time) :
    Goes others db { op, now } (op.run db now).1
      { op, now, stage := .returned (op.run db now).2 } := by
  cases op with
  | add identifier role note createdBy => exact goes_add h db now identifier role note createdBy
  | end_ id endedBy => exact goes_end h db now id endedBy
  | setRole id role actor => exact goes_setRole h db now id role actor

end Postbud.AdminUser
