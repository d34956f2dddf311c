import Mathlib.Data.List.Sort
import Postbud.Core.Rdns
import Postbud.Db.Schema

namespace Postbud

open Lib

/-- A sending domain as it is registered. -/
structure SendingDomain where
  id : ℤ
  domain : Text
  spfExpected : Text
  dkimSelector : Text
  dkimPublicKey : Text
  mxExpected : Option Text
  dmarcPolicyExpected : Option Text
  createdAt : Time
  createdBy : Text
  deriving DecidableEq

/-- A row of `sending_domain`, which is ended and never deleted. -/
structure SendingDomainRow extends SendingDomain where
  endedAt : Option Time := none
  endedBy : Option Text := none
  deriving DecidableEq

namespace SendingDomainRow

def active (r : SendingDomainRow) : Bool := r.endedAt.isNone

def finish (r : SendingDomainRow) (now : Time) (endedBy : Text) : SendingDomainRow :=
  { r with endedAt := some now, endedBy := some endedBy }

/-- The primary key, and `sending_domain_active`: an index on the folded name of active rows. -/
def Clash [Platform] (r r' : SendingDomainRow) : Prop :=
  r.id = r'.id ∨ r.active ∧ r'.active ∧ Platform.lower r.domain = Platform.lower r'.domain

instance [Platform] (r r' : SendingDomainRow) : Decidable (r.Clash r') := by
  unfold Clash; infer_instance

instance [Platform] : Std.Symm Clash where
  symm _ _ h := h.imp Eq.symm fun h ↦ ⟨h.2.1, h.1, h.2.2.symm⟩

/-- Ending a row only takes it off the index. -/
theorem clash_of_finish [Platform] (p : SendingDomainRow → Bool) (now : Time) (endedBy : Text)
    (r r' : SendingDomainRow) (h : (if p r then r.finish now endedBy else r).Clash
      (if p r' then r'.finish now endedBy else r')) : r.Clash r' := by
  obtain h | ⟨ha, ha', hl⟩ := h
  · left
    split_ifs at h <;> exact h
  · split_ifs at ha ha' hl
    · cases ha
    · cases ha
    · cases ha'
    · exact .inr ⟨ha, ha', hl⟩

end SendingDomainRow

/-- A row of `domain_check`. -/
structure DomainCheck where
  domainId : ℤ
  checkedAt : Time
  spfStatus : DnsCheck.Status
  spfObserved : Option Text
  dkimStatus : DnsCheck.Status
  dkimObserved : Option Text
  dmarcStatus : DnsCheck.Status
  dmarcObserved : Option Text
  mxStatus : Option DnsCheck.Status
  mxObserved : Option Text
  reportAuthStatus : Option DnsCheck.Status
  reportAuthObserved : Option Text
  bounceStatus : Option DnsCheck.Status
  bounceObserved : Option Text
  valid : Bool
  deriving DecidableEq

/-- A row of `relay_check`. -/
structure RelayCheck where
  checkedAt : Time
  expectedHost : Text
  forwardStatus : DnsCheck.Status
  forwardObserved : Option Text
  ptrStatus : DnsCheck.Status
  ptrObserved : Option Text
  heloStatus : Option DnsCheck.Status
  heloObserved : Option Text
  valid : Bool
  deriving DecidableEq

/-- Postgres stores no NUL in a text. -/
def storableText (t : Text) : Bool := '\x00' ∉ t

def DomainCheck.storable (c : DomainCheck) : Bool :=
  [c.spfObserved, c.dkimObserved, c.dmarcObserved, c.mxObserved, c.reportAuthObserved,
    c.bounceObserved].all fun t ↦ t.all storableText

def RelayCheck.storable (c : RelayCheck) : Bool :=
  storableText c.expectedHost &&
    [c.forwardObserved, c.ptrObserved, c.heloObserved].all fun t ↦ t.all storableText

/-- The registry of sending domains and the histories of their checks and of
the relay's, to which rows are only ever added. -/
structure Registry [Platform] where
  sendingDomain : Table SendingDomainRow SendingDomainRow.Clash := .empty
  seq : ℤ := 0
  domainCheck : List DomainCheck := []
  relayCheck : List RelayCheck := []

def hours (n : ℤ) : Time := minutes (n * 60)

namespace Domain

variable [Platform]

def byId (db : Registry) (id : ℤ) : Option SendingDomain :=
  (db.sendingDomain.rows.find? fun r ↦ r.id = id && r.active).map (·.toSendingDomain)

/-- `check (dmarc_policy_expected in ('none', 'quarantine', 'reject'))` -/
def policyAllowed (policy : Option Text) : Bool := policy.all (· ∈ DnsCheck.POLICY_LADDER)

def add (db : Registry) (now : Time) (domain spfExpected dkimSelector dkimPublicKey : Text)
    (mxExpected dmarcPolicyExpected : Option Text) (createdBy : Text) :
    Registry × Except Text SendingDomain :=
  let row : SendingDomainRow := {
    id := db.seq + 1, domain, spfExpected, dkimSelector, dkimPublicKey, mxExpected
    dmarcPolicyExpected, createdBy, createdAt := now }
  if [domain, spfExpected, dkimSelector, dkimPublicKey, mxExpected.getD [],
      dmarcPolicyExpected.getD [], createdBy].any fun t ↦ !storableText t then
    (db, .error "adding sending domain".toList)
  else if !policyAllowed dmarcPolicyExpected then
    ({ db with seq := row.id }, .error "adding sending domain".toList)
  else match db.sendingDomain.insert? row with
  | some table => ({ db with sendingDomain := table, seq := row.id }, .ok row.toSendingDomain)
  | none => ({ db with seq := row.id },
      .error ("'".toList ++ domain ++ "' is already registered".toList))

def end_ (db : Registry) (now : Time) (id : ℤ) (endedBy : Text) : Registry × Bool :=
  ({ db with
      sendingDomain := db.sendingDomain.update
        (fun r ↦ if r.id = id && r.active then r.finish now endedBy else r)
        (SendingDomainRow.clash_of_finish _ now endedBy) },
    db.sendingDomain.rows.any fun r ↦ r.id = id && r.active)

def checkRow (domainId : ℤ) (now : Time) (result : DnsCheck.DomainResult) : DomainCheck where
  domainId := domainId
  checkedAt := now
  spfStatus := result.spf.status
  spfObserved := result.spf.observed
  dkimStatus := result.dkim.status
  dkimObserved := result.dkim.observed
  dmarcStatus := result.dmarc.status
  dmarcObserved := result.dmarc.observed
  mxStatus := result.mx.map (·.status)
  mxObserved := result.mx.bind (·.observed)
  reportAuthStatus := result.reportAuth.map (·.status)
  reportAuthObserved := result.reportAuth.bind (·.observed)
  bounceStatus := result.bounce.map (·.status)
  bounceObserved := result.bounce.bind (·.observed)
  valid := result.valid

/-- The insert fails on a text with a NUL, and on a domain that is not there. -/
def recordCheck (db : Registry) (now : Time) (domainId : ℤ) (result : DnsCheck.DomainResult) :
    Option Registry :=
  let row := checkRow domainId now result
  if row.storable && db.sendingDomain.rows.any (·.id = domainId) then
    some { db with domainCheck := db.domainCheck ++ [row] }
  else none

def history (db : Registry) (id : ℤ) : List DomainCheck :=
  db.domainCheck.filter (·.domainId = id)

def latestChecks (db : Registry) (id : ℤ) : Option DomainCheck := (history db id).getLast?

def due (check : Option DomainCheck) (now : Time) (retryMinutes revalidateHours : ℤ) : Bool :=
  check.all fun c ↦ !c.valid && c.checkedAt < now - minutes retryMinutes ||
    c.valid && c.checkedAt < now - hours revalidateHours

def dueForCheck (db : Registry) (now : Time) (retryMinutes revalidateHours : ℤ) :
    List SendingDomain :=
  ((db.sendingDomain.rows.filter fun r ↦ r.active &&
    due (latestChecks db r.id) now retryMinutes revalidateHours).map
      (·.toSendingDomain)).insertionSort fun d d' ↦ d.id ≤ d'.id

variable {db db' : Registry} {now : Time} {id domainId : ℤ} {retry revalidate : ℤ}
  {d : SendingDomain} {result : DnsCheck.DomainResult}

theorem add_cases (db : Registry) (now : Time) (domain spfExpected dkimSelector dkimPublicKey : Text)
    (mxExpected dmarcPolicyExpected : Option Text) (createdBy : Text) :
    let res := add db now domain spfExpected dkimSelector dkimPublicKey mxExpected
      dmarcPolicyExpected createdBy
    res.1.domainCheck = db.domainCheck ∧ res.1.relayCheck = db.relayCheck ∧
      db.seq ≤ res.1.seq ∧
      ((res.1.sendingDomain = db.sendingDomain ∧ ∃ message, res.2 = .error message) ∨
        ∃ row : SendingDomainRow, res.1.sendingDomain.rows = db.sendingDomain.rows ++ [row] ∧
          row.id = db.seq + 1 ∧ res.1.seq = db.seq + 1 ∧ row.createdAt = now ∧ row.active ∧
          res.2 = .ok row.toSendingDomain) := by
  dsimp only [add]
  split_ifs with hnul hpolicy
  · exact ⟨rfl, rfl, Int.le_refl _, .inl ⟨rfl, _, rfl⟩⟩
  · exact ⟨rfl, rfl, Int.le_add_one (Int.le_refl _), .inl ⟨rfl, _, rfl⟩⟩
  · split
    · rename_i table htable
      exact ⟨rfl, rfl, Int.le_add_one (Int.le_refl _),
        .inr ⟨_, (Table.insert?_eq_some.mp htable).2, rfl, rfl, rfl, rfl, rfl⟩⟩
    · exact ⟨rfl, rfl, Int.le_add_one (Int.le_refl _), .inl ⟨rfl, _, rfl⟩⟩

theorem add_ok {domain spfExpected dkimSelector dkimPublicKey : Text}
    {mxExpected dmarcPolicyExpected : Option Text} {createdBy : Text}
    (h : add db now domain spfExpected dkimSelector dkimPublicKey mxExpected dmarcPolicyExpected
      createdBy = (db', .ok d)) :
    d = { id := db.seq + 1, domain, spfExpected, dkimSelector, dkimPublicKey, mxExpected
          dmarcPolicyExpected, createdBy, createdAt := now } := by
  dsimp only [add] at h
  split_ifs at h
  · cases (Prod.mk.inj h).2
  · cases (Prod.mk.inj h).2
  · split at h
    · exact (Except.ok.inj (Prod.mk.inj h).2).symm
    · cases (Prod.mk.inj h).2

theorem mem_end_ {endedBy : Text} {r : SendingDomainRow} :
    r ∈ (end_ db now id endedBy).1.sendingDomain ↔ ∃ r₀ ∈ db.sendingDomain,
      (if r₀.id = id && r₀.active then r₀.finish now endedBy else r₀) = r :=
  Table.mem_update (SendingDomainRow.clash_of_finish _ now endedBy)

theorem recordCheck_eq_some : recordCheck db now domainId result = some db' ↔
    (checkRow domainId now result).storable ∧ (∃ r ∈ db.sendingDomain, r.id = domainId) ∧
      db' = { db with domainCheck := db.domainCheck ++ [checkRow domainId now result] } := by
  simp only [recordCheck, Option.ite_none_right_eq_some, Bool.and_eq_true, List.any_eq_true,
    decide_eq_true_eq, Option.some.injEq, and_assoc, eq_comm (b := db'), Table.mem_def]

theorem history_recordCheck (h : recordCheck db now domainId result = some db') (id : ℤ) :
    history db' id = history db id ++
      if domainId = id then [checkRow domainId now result] else [] := by
  obtain ⟨-, -, rfl⟩ := recordCheck_eq_some.mp h
  simp only [history, List.filter_append, List.filter_singleton, Bool.cond_decide]
  rfl

theorem mem_dueForCheck : d ∈ dueForCheck db now retry revalidate ↔
    ∃ r ∈ db.sendingDomain, r.active ∧ due (latestChecks db r.id) now retry revalidate ∧
      r.toSendingDomain = d := by
  simp only [dueForCheck, List.mem_insertionSort, List.mem_map, List.mem_filter, Bool.and_eq_true,
    Table.mem_def, and_assoc]

/-- The list is in the order of the ids, and has no domain twice. -/
theorem sorted_dueForCheck : (dueForCheck db now retry revalidate).Pairwise (·.id < ·.id) := by
  unfold dueForCheck
  have hapart : ((db.sendingDomain.rows.filter fun r ↦ r.active &&
      due (latestChecks db r.id) now retry revalidate).map (·.toSendingDomain)).Pairwise
        fun d d' ↦ d.id ≠ d'.id :=
    List.pairwise_map.mpr ((db.sendingDomain.unique.filter _).imp fun h he ↦ h (.inl he))
  generalize (db.sendingDomain.rows.filter fun r ↦ r.active &&
    due (latestChecks db r.id) now retry revalidate).map (·.toSendingDomain) = found at hapart ⊢
  have : Std.Total fun d d' : SendingDomain ↦ d.id ≤ d'.id := ⟨fun _ _ ↦ Int.le_total _ _⟩
  have : IsTrans SendingDomain fun d d' ↦ d.id ≤ d'.id := ⟨fun _ _ _ ↦ Int.le_trans⟩
  have hsorted : (found.insertionSort fun d d' ↦ d.id ≤ d'.id).Pairwise fun d d' ↦ d.id ≤ d'.id :=
    List.pairwise_insertionSort _ _
  have hperm : (found.insertionSort fun d d' ↦ d.id ≤ d'.id).Perm found := List.perm_insertionSort _ _
  have hapart' : (found.insertionSort fun d d' ↦ d.id ≤ d'.id).Pairwise fun d d' ↦ d.id ≠ d'.id :=
    hapart.perm hperm.symm Ne.symm
  refine hsorted.imp₂ (fun d d' hle hne ↦ ?_) hapart'
  omega

omit [Platform] in
theorem due_iff {check : Option DomainCheck} : due check now retry revalidate ↔
    ∀ c ∈ check, c.checkedAt + (if c.valid then hours revalidate else minutes retry) < now := by
  cases check with
  | none => simp [due]
  | some c =>
    simp only [due, Option.all_some, Option.mem_def, Option.some.injEq, forall_eq']
    cases c.valid
    · simp only [Bool.not_false, Bool.true_and, Bool.false_and, Bool.or_false, decide_eq_true_eq,
        Bool.false_eq_true, if_false]
      exact ⟨Int.add_lt_of_lt_sub_right, Int.lt_sub_right_of_add_lt⟩
    · simp only [Bool.not_true, Bool.true_and, Bool.false_and, Bool.false_or, decide_eq_true_eq,
        if_true]
      exact ⟨Int.add_lt_of_lt_sub_right, Int.lt_sub_right_of_add_lt⟩

end Domain

namespace Relay

variable [Platform]

def checkRow (expectedHost : Text) (now : Time) (result : Rdns.RelayResult) : RelayCheck where
  checkedAt := now
  expectedHost := expectedHost
  forwardStatus := result.forward.status
  forwardObserved := result.forward.observed
  ptrStatus := result.ptr.status
  ptrObserved := result.ptr.observed
  heloStatus := result.helo.map (·.status)
  heloObserved := result.helo.bind (·.observed)
  valid := result.valid

def recordCheck (db : Registry) (now : Time) (expectedHost : Text) (result : Rdns.RelayResult) :
    Option Registry :=
  let row := checkRow expectedHost now result
  if row.storable then some { db with relayCheck := db.relayCheck ++ [row] } else none

def latest (db : Registry) : Option RelayCheck := db.relayCheck.getLast?

/-- Judged by the clock of the worker, where the domains are judged by that of the database. -/
def due (db : Registry) (clock : Time) (recheckMinutes revalidateHours : ℤ) : Bool :=
  (latest db).all fun c ↦
    let age := clock - c.checkedAt
    if c.valid then hours revalidateHours < age else minutes recheckMinutes < age

variable {db db' : Registry} {now clock : Time} {recheck revalidate : ℤ} {host : Text}
  {result : Rdns.RelayResult}

theorem recordCheck_eq_some : recordCheck db now host result = some db' ↔
    (checkRow host now result).storable ∧
      db' = { db with relayCheck := db.relayCheck ++ [checkRow host now result] } := by
  simp only [recordCheck, Option.ite_none_right_eq_some, Option.some.injEq, eq_comm (b := db')]

theorem due_iff : due db clock recheck revalidate ↔ ∀ c ∈ latest db,
    c.checkedAt + (if c.valid then hours revalidate else minutes recheck) < clock := by
  unfold due
  cases latest db with
  | none => simp
  | some c =>
    simp only [Option.all_some, Option.mem_def, Option.some.injEq, forall_eq']
    cases c.valid
    · simp only [Bool.false_eq_true, if_false, decide_eq_true_eq]
      exact ⟨Int.add_lt_of_lt_sub_left, Int.lt_sub_left_of_add_lt⟩
    · simp only [if_true, decide_eq_true_eq]
      exact ⟨Int.add_lt_of_lt_sub_left, Int.lt_sub_left_of_add_lt⟩

end Relay

end Postbud
