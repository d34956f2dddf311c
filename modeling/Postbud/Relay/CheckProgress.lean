import Postbud.Relay.CheckHistory

namespace Postbud.CheckRounds

open Lib Lib.Text Lib.Transition Lib.Processes DnsCheck

section Worker

variable [Platform]

section Db

variable {db db' : Registry} {now : Time} {id domainId : ℤ} {result : DomainResult}

theorem latestChecks_recordCheck (h : Domain.recordCheck db now domainId result = some db') :
    Domain.latestChecks db' id = if domainId = id then some (Domain.checkRow domainId now result)
      else Domain.latestChecks db id := by
  rw [Domain.latestChecks, Domain.history_recordCheck h]
  split_ifs
  · rw [List.getLast?_concat]
  · rw [List.append_nil, Domain.latestChecks]

omit [Platform] in
theorem due_mono {check : Option DomainCheck} {t t' : Time}
    (h : Domain.due check t RECHECK_MINUTES REVALIDATE_HOURS) (hle : t ≤ t') :
    Domain.due check t' RECHECK_MINUTES REVALIDATE_HOURS := by
  rw [Domain.due_iff] at h ⊢
  exact fun c hc ↦ Int.lt_of_lt_of_le (h c hc) hle

omit [Platform] in
theorem not_due_of_checked {check : Option DomainCheck} {c : DomainCheck} {t : Time}
    (hc : check = some c) (hle : t ≤ c.checkedAt) :
    ¬ Domain.due check t RECHECK_MINUTES REVALIDATE_HOURS := by
  intro hdue
  have hlt : c.checkedAt + wait c.valid < t := Domain.due_iff.mp hdue c hc
  have hwait : (0 : ℤ) ≤ wait c.valid := Int.le_trans (by decide) (le_wait c.valid)
  exact absurd hlt (Int.not_lt.mpr (Int.le_trans hle (Int.le_add_of_nonneg_right hwait)))

end Db

/-! A domain whose check cannot be stored. -/

/-- The check of the domain panics, or ends in a row that the database does not take. -/
def Poisons (d : SendingDomain) (dns : Resolver) (mailbox : Option Text) (peer : Peer)
    (nonce : Option ℕ) : Prop :=
  (@checkDomain dns mailbox peer nonce d).run = none ∨ ∃ result,
    (@checkDomain dns mailbox peer nonce d).run = some (.ok result) ∧
      ¬ (Domain.checkRow d.id 0 result).storable

/-- The domain is not ended, and whenever a worker comes to its check DNS has not
changed its answers for the better. -/
def Poisoned (d : SendingDomain) (w : World) : Action → Prop
  | .end_ id _ => id ≠ d.id
  | .move i (.check dns mailbox peer nonce _) => ∀ asked due,
    w.loops[i]? = some (.checking asked (d :: due)) → Poisons d dns mailbox peer nonce
  | _ => True

/-- A round that is to check a domain from this one on is to check this one. -/
def Loop.Meets (id : ℤ) : Loop → Prop
  | .checking _ due => ∀ d ∈ due, id ≤ d.id → id ∈ due.map (·.id)
  | _ => True

/-- The checks of a domain and of those registered after it. -/
def checksFrom (db : Registry) (id : ℤ) : List DomainCheck :=
  db.domainCheck.filter (id ≤ ·.domainId)

structure Starves (d : SendingDomain) (checks : List DomainCheck) (w : World) : Prop where
  evidence : Evidence (fun _ ↦ True) w
  registered : ∃ r ∈ w.db.sendingDomain, r.active ∧ r.toSendingDomain = d
  due : Domain.due (Domain.latestChecks w.db d.id) w.now RECHECK_MINUTES REVALIDATE_HOURS
  sorted : w.Sorted
  meets : ∀ loop ∈ w.loops, loop.Meets d.id
  checks : checksFrom w.db d.id = checks

section Starves

variable {d : SendingDomain} {checks : List DomainCheck} {w w' : World} {a : Action}
  {db db' : Registry} {now : Time} {m : Move} {loop loop' : Loop}

theorem latestChecks_of_checksFrom {db db' : Registry} {id : ℤ}
    (h : checksFrom db' id = checksFrom db id) :
    Domain.latestChecks db' id = Domain.latestChecks db id := by
  have hhistory : ∀ db : Registry, Domain.history db id = (checksFrom db id).filter (·.domainId = id) := by
    intro db
    rw [checksFrom, List.filter_filter, Domain.history]
    refine List.filter_congr fun c _ ↦ ?_
    by_cases hc : c.domainId = id
    · simp [hc]
    · simp [hc]
  rw [Domain.latestChecks, hhistory, h, ← hhistory, Domain.latestChecks]

omit [Platform] in
/-- A check of a poisoned domain that comes to an end is one that cannot be stored. -/
theorem Poisons.unstored {dns : Resolver} {mailbox : Option Text} {peer : Peer} {nonce : Option ℕ}
    {outcome : Except ResolveError DomainResult} (h : Poisons d dns mailbox peer nonce)
    (hrun : (@checkDomain dns mailbox peer nonce d).run = some outcome) :
    ∃ result, outcome = .ok result ∧ ¬ (Domain.checkRow d.id 0 result).storable := by
  obtain hnone | ⟨result, hok, hno⟩ := h
  · rw [hnone] at hrun
    cases hrun
  · exact ⟨result, Option.some.inj (hrun.symm.trans hok), hno⟩

theorem meets_begun (hreg : ∃ r ∈ db.sendingDomain, r.active ∧ r.toSendingDomain = d)
    (hdue : Domain.due (Domain.latestChecks db d.id) now RECHECK_MINUTES REVALIDATE_HOURS)
    (answered : Bool) : (Loop.begun db now answered).Meets d.id := by
  cases answered with
  | false => exact nofun
  | true =>
    intro _ _ _
    obtain ⟨r, hr, hactive, rfl⟩ := hreg
    exact List.mem_map_of_mem (f := SendingDomain.id)
      (Domain.mem_dueForCheck.mpr ⟨r, hr, hactive, hdue, rfl⟩)

/-- The first domain of a round that is not before the poisoned one is that one. -/
theorem eq_of_meets {asked : Time} {d' : SendingDomain} {due : List SendingDomain}
    (hreg : ∃ r ∈ db.sendingDomain, r.active ∧ r.toSendingDomain = d)
    (hreg' : ∃ r ∈ db.sendingDomain, r.toSendingDomain = d')
    (hs : Loop.Sorted (.checking asked (d' :: due)))
    (hm : Loop.Meets d.id (.checking asked (d' :: due))) (hle : d.id ≤ d'.id) : d' = d := by
  have hmem := hm d' List.mem_cons_self hle
  rw [List.map_cons, List.mem_cons] at hmem
  obtain hid | hmem := hmem
  · obtain ⟨r, hr, -, rfl⟩ := hreg
    obtain ⟨r', hr', rfl⟩ := hreg'
    rw [Table.eq_of_clash hr' hr (.inl hid.symm)]
  · obtain ⟨e, he, hid⟩ := List.mem_map.mp hmem
    have hlt := (List.pairwise_cons.mp hs).1 e he
    omega

omit [Platform] in
theorem meets_tail {asked : Time} {d' : SendingDomain} {due : List SendingDomain} {id : ℤ}
    (hm : Loop.Meets id (.checking asked (d' :: due))) (hlt : d'.id < id) :
    Loop.Meets id (.checking asked due) := by
  intro e he hle
  have hmem := hm e (List.mem_cons_of_mem _ he) hle
  rw [List.map_cons, List.mem_cons] at hmem
  exact hmem.resolve_left (Int.ne_of_gt hlt)

/-- A move of any loop leaves the checks from the poisoned domain on as they are. -/
theorem Moves.starves (h : Moves db now m loop db' loop')
    (hP : ∀ dns mailbox peer nonce stored asked due, m = .check dns mailbox peer nonce stored →
      loop = .checking asked (d :: due) → Poisons d dns mailbox peer nonce)
    (hreg : ∃ r ∈ db.sendingDomain, r.active ∧ r.toSendingDomain = d)
    (hdue : Domain.due (Domain.latestChecks db d.id) now RECHECK_MINUTES REVALIDATE_HOURS)
    (hlisted : ∀ asked due, loop = .checking asked due →
      ∀ d ∈ due, ∃ r ∈ db.sendingDomain, r.toSendingDomain = d)
    (hs : loop.Sorted) (hm : loop.Meets d.id) :
    checksFrom db' d.id = checksFrom db d.id ∧ db'.sendingDomain = db.sendingDomain ∧
      loop'.Meets d.id := by
  cases h with
  | begin_ answered => exact ⟨rfl, rfl, meets_begun hreg hdue answered⟩
  | @skips asked d' due dns mailbox peer nonce stored err hrun =>
    refine ⟨rfl, rfl, meets_tail hm (Int.not_le.mp fun hle ↦ ?_)⟩
    obtain rfl := eq_of_meets hreg (hlisted _ _ rfl d' List.mem_cons_self) hs hm hle
    -- A poisoned domain is not skipped.
    obtain ⟨result, hok, -⟩ := (hP _ _ _ _ _ _ _ rfl rfl).unstored hrun
    cases hok
  | @records asked d' due dns mailbox peer nonce result _ hrun hdb =>
    have hlt : d'.id < d.id := by
      refine Int.not_le.mp fun hle ↦ ?_
      obtain rfl := eq_of_meets hreg (hlisted _ _ rfl d' List.mem_cons_self) hs hm hle
      obtain ⟨result', hok, hno⟩ := (hP _ _ _ _ _ _ _ rfl rfl).unstored hrun
      obtain rfl := Except.ok.inj hok
      exact hno (Domain.recordCheck_eq_some.mp hdb).1
    obtain ⟨-, -, rfl⟩ := Domain.recordCheck_eq_some.mp hdb
    refine ⟨?_, rfl, meets_tail hm hlt⟩
    have hother : ¬ d.id ≤ (Domain.checkRow d'.id now result).domainId := Int.not_le.mpr hlt
    simp only [checksFrom, List.filter_append, List.filter_singleton, decide_eq_false hother,
      cond_false, List.append_nil]
  | relayRecords hdb =>
    obtain ⟨-, rfl⟩ := Relay.recordCheck_eq_some.mp hdb
    exact ⟨rfl, rfl, trivial⟩
  | aborts => exact ⟨rfl, rfl, nofun⟩
  | _ => exact ⟨rfl, rfl, trivial⟩

theorem starves_step (hP : Poisoned d w a) (hi : Starves d checks w)
    (h : step w a = some w') : Starves d checks w' := by
  have hevidence := (evidence_step (reads_any a) hi.evidence h).1
  have hsorted := sorted_step h hi.sorted
  obtain ⟨r, hr, hactive, hrd⟩ := hi.registered
  cases a with
  | tick time =>
    obtain rfl := Option.some.inj h
    have hle : w.now ≤ w.now + time := Int.le_add_of_nonneg_right (Int.natCast_nonneg time)
    exact ⟨hevidence, hi.registered, due_mono hi.due hle, hsorted, hi.meets, hi.checks⟩
  | add domain spf selector key mx policy createdBy =>
    obtain rfl := Option.some.inj h
    obtain ⟨hchecks, -, -, hrows⟩ := Domain.add_cases w.db w.now domain spf selector key mx policy createdBy
    have hfrom := congrArg (List.filter (d.id ≤ ·.domainId)) hchecks
    refine ⟨hevidence, ⟨r, ?_, hactive, hrd⟩, ?_, hsorted, hi.meets, hfrom.trans hi.checks⟩
    · obtain ⟨hsame, -⟩ | ⟨row, hrow, -⟩ := hrows
      · dsimp only
        rwa [hsame]
      · rw [Table.mem_def, hrow]
        exact List.mem_append_left _ hr
    · exact (latestChecks_of_checksFrom hfrom) ▸ hi.due
  | end_ id endedBy =>
    obtain rfl := Option.some.inj h
    refine ⟨hevidence, ⟨r, Domain.mem_end_.mpr ⟨r, hr, ?_⟩, hactive, hrd⟩, hi.due, hsorted, hi.meets,
      hi.checks⟩
    refine if_neg fun hid ↦ hP ?_
    rw [Bool.and_eq_true, decide_eq_true_iff] at hid
    rw [← hrd, hid.1]
  | start =>
    obtain rfl := Option.some.inj h
    exact ⟨hevidence, hi.registered, hi.due, hsorted, forall_mem_concat hi.meets trivial, hi.checks⟩
  | move i m =>
    obtain ⟨loop, db, loop', hloop, hmove, rfl⟩ := step_move h
    have hmem := List.mem_of_getElem? hloop
    obtain ⟨hfrom, htable, hmeets⟩ := hmove.starves
      (fun dns mailbox peer nonce stored asked due he hl ↦ by
        subst he hl
        exact hP asked due hloop) hi.registered hi.due (hi.evidence.due loop hmem)
      (hi.sorted loop hmem) (hi.meets loop hmem)
    refine ⟨hevidence, ?_, ?_, hsorted,
      forall_mem_set hmeets fun x hx ↦ hi.meets x (List.mem_of_mem_eraseIdx hx), hfrom.trans hi.checks⟩
    · dsimp only
      rw [htable]
      exact hi.registered
    · exact (latestChecks_of_checksFrom hfrom) ▸ hi.due

end Starves

/-- A domain that is due, and whose records bring its check down or cannot be
stored, keeps every worker, also one that is started again and again, from
checking it or any domain registered after it, but for what is left of a round
that began before it was due. -/
theorem poisoned_domain_starves {loops : ℕ} {start : Time} {w w' : World} {l₀ l : List Action}
    {r : SendingDomainRow} (hreach : Run step (.init loops start) l₀ w) (h : Run step w l w')
    (hr : r ∈ w.db.sendingDomain) (hactive : r.active)
    (hdue : Domain.due (Domain.latestChecks w.db r.id) w.now RECHECK_MINUTES REVALIDATE_HOURS)
    (hmeets : ∀ loop ∈ w.loops, loop.Meets r.id)
    (hP : Along step (Poisoned r.toSendingDomain) w l) :
    checksFrom w'.db r.id = checksFrom w.db r.id := by
  have hevidence : Evidence (fun _ ↦ True) w := hreach.invariant _
    (fun _ a _ hi ha ↦ (evidence_step (reads_any a) hi ha).1) (evidence_init loops start)
  have hsorted : w.Sorted := hreach.invariant _ (fun _ _ _ hi ha ↦ sorted_step ha hi)
    (sorted_init loops start)
  have hi : Starves r.toSendingDomain (checksFrom w.db r.id) w :=
    ⟨hevidence, ⟨r, hr, hactive, rfl⟩, hdue, hsorted, hmeets, rfl⟩
  exact (h.invariant_along _ (fun _ _ _ hi hp ha ↦ starves_step hp hi ha) hP hi).checks

/-! A round in which every domain is checked. -/

/-- All that one loop does is check what it found due, and each check is stored. -/
def Completes (i : ℕ) (w : World) (a : Action) : Prop :=
  ∀ m, a = .move i m → ∃ dns mailbox peer nonce, m = .check dns mailbox peer nonce true ∧
    ∀ asked d due, w.loops[i]? = some (.checking asked (d :: due)) → ∃ result,
      (@checkDomain dns mailbox peer nonce d).run = some (.ok result) ∧
        (Domain.recordCheck w.db w.now d.id result).isSome

/-- Of the domains there were when the round began, those that are left are to
be checked in it. -/
structure Rounds (i : ℕ) (asked : Time) (ids : List ℤ) (w : World) : Prop where
  asked_le : asked ≤ w.now
  left : ∃ due, w.loops[i]? = some (.checking asked due) ∧ ∀ id ∈ ids, id ∈ due.map (·.id) ∨
    ¬ Domain.due (Domain.latestChecks w.db id) asked RECHECK_MINUTES REVALIDATE_HOURS

section Rounds

variable {i : ℕ} {asked : Time} {ids : List ℤ} {w w' : World} {a : Action} {db db' : Registry}
  {m : Move} {loop loop' : Loop}

/-- What is not due stays so while time does not run back. -/
theorem Moves.not_due {now : Time} (h : Moves db now m loop db' loop') (hle : asked ≤ now)
    {id : ℤ} (hdue : ¬ Domain.due (Domain.latestChecks db id) asked RECHECK_MINUTES REVALIDATE_HOURS) :
    ¬ Domain.due (Domain.latestChecks db' id) asked RECHECK_MINUTES REVALIDATE_HOURS := by
  cases h with
  | @records _ d _ _ _ _ _ result _ _ hdb =>
    by_cases hid : d.id = id
    · exact not_due_of_checked ((latestChecks_recordCheck hdb).trans (if_pos hid)) hle
    · rwa [latestChecks_recordCheck hdb, if_neg hid]
  | relayRecords hdb =>
    obtain ⟨-, rfl⟩ := Relay.recordCheck_eq_some.mp hdb
    exact hdue
  | _ => exact hdue

theorem rounds_move (hP : Completes i w (.move i m)) (hi : Rounds i asked ids w)
    (h : step w (.move i m) = some w') : Rounds i asked ids w' := by
  obtain ⟨hle, due, hdue, hleft⟩ := hi
  obtain ⟨loop, hloop, h⟩ := Option.bind_eq_some_iff.mp h
  obtain rfl := Option.some.inj (hloop.symm.trans hdue)
  obtain ⟨⟨db, loop'⟩, hmove, h⟩ := Option.bind_eq_some_iff.mp h
  obtain rfl := Option.some.inj h
  obtain ⟨dns, mailbox, peer, nonce, rfl, hall⟩ := hP m rfl
  obtain ⟨hlt, -⟩ := List.getElem?_eq_some_iff.mp hdue
  cases due with
  | nil => cases hmove
  | cons d due =>
    obtain ⟨result, hrun, hstored⟩ := hall asked d due hdue
    obtain ⟨db', hdb⟩ := Option.isSome_iff_exists.mp hstored
    have hmove := Option.some.inj hmove
    simp only [hrun, Loop.checked, if_true, hdb] at hmove
    obtain ⟨rfl, rfl⟩ := Prod.mk.inj hmove
    refine ⟨hle, due, List.getElem?_set_self hlt, fun id hid ↦ ?_⟩
    dsimp only
    rw [latestChecks_recordCheck hdb]
    by_cases hd : d.id = id
    · exact .inr (not_due_of_checked (if_pos hd) hle)
    · rw [if_neg hd]
      refine (hleft id hid).imp_left fun hmem ↦ ?_
      rw [List.map_cons, List.mem_cons] at hmem
      exact hmem.resolve_left (Ne.symm hd)

theorem rounds_step (hP : Completes i w a) (hi : Rounds i asked ids w)
    (h : step w a = some w') : Rounds i asked ids w' := by
  cases a with
  | tick time =>
    obtain rfl := Option.some.inj h
    exact ⟨Int.le_trans hi.asked_le (Int.le_add_of_nonneg_right (Int.natCast_nonneg time)), hi.left⟩
  | add domain spf selector key mx policy createdBy =>
    obtain rfl := Option.some.inj h
    obtain ⟨hchecks, -⟩ := Domain.add_cases w.db w.now domain spf selector key mx policy createdBy
    obtain ⟨hle, due, hdue, hleft⟩ := hi
    refine ⟨hle, due, hdue, ?_⟩
    simpa only [Domain.latestChecks, Domain.history, hchecks] using hleft
  | end_ =>
    obtain rfl := Option.some.inj h
    exact ⟨hi.asked_le, hi.left⟩
  | start =>
    obtain rfl := Option.some.inj h
    obtain ⟨hle, due, hdue, hleft⟩ := hi
    exact ⟨hle, due, getElem?_concat_left hdue, hleft⟩
  | move j m =>
    by_cases hj : j = i
    · subst hj
      exact rounds_move hP hi h
    · obtain ⟨hle, due, hdue, hleft⟩ := hi
      obtain ⟨loop, db, loop', hloop, hmove, rfl⟩ := step_move h
      refine ⟨hle, due, by rw [List.getElem?_set_ne hj, hdue], fun id hid ↦ ?_⟩
      exact (hleft id hid).imp_right (hmove.not_due hle)

/-- When a round is over in which every check was answered and stored, whatever
the other workers and the operators did meanwhile, no domain that was registered
when it began is still due as of then. -/
theorem round_leaves_none_due {w₀ w₁ : World} {l : List Action} {r : SendingDomainRow}
    (hbegin : step w₀ (.move i (.begin_ true)) = some w₁)
    (hrun : Run step w₁ l w) (hP : Along step (Completes i) w₁ l)
    (hover : w.loops[i]? = some (.checking w₀.now [])) (hr : r ∈ w₀.db.sendingDomain)
    (hactive : r.active) :
    ¬ Domain.due (Domain.latestChecks w.db r.id) w₀.now RECHECK_MINUTES REVALIDATE_HOURS := by
  obtain ⟨loop, db, loop', hloop, hmove, rfl⟩ := step_move hbegin
  obtain ⟨hlt, -⟩ := List.getElem?_eq_some_iff.mp hloop
  have hbegun : db = w₀.db ∧ loop' = .begun w₀.db w₀.now true := by
    cases hmove
    exact ⟨rfl, rfl⟩
  obtain ⟨rfl, rfl⟩ := hbegun
  have hi : Rounds i w₀.now [r.id]
      { w₀ with loops := w₀.loops.set i (.begun w₀.db w₀.now true) } := by
    refine ⟨Int.le_refl _, _, List.getElem?_set_self hlt, fun id hid ↦ ?_⟩
    obtain rfl := List.mem_singleton.mp hid
    by_cases hdue : Domain.due (Domain.latestChecks w₀.db r.id) w₀.now RECHECK_MINUTES REVALIDATE_HOURS
    · exact .inl (List.mem_map_of_mem (f := SendingDomain.id)
        (Domain.mem_dueForCheck.mpr ⟨r, hr, hactive, hdue, rfl⟩))
    · exact .inr hdue
  obtain ⟨-, due, hdue, hleft⟩ := hrun.invariant_along _ (fun _ _ _ hi hp ha ↦ rounds_step hp hi ha) hP hi
  obtain ⟨-, rfl⟩ := Loop.checking.inj (Option.some.inj (hdue.symm.trans hover))
  exact (hleft r.id List.mem_cons_self).resolve_left List.not_mem_nil

end Rounds

end Worker

section Example

attribute [local instance] Platform.ascii

def registered : World where
  db := (Domain.add {} 0 "example.com".toList "v=spf1 -all".toList "s".toList "key".toList none none
    "ops".toList).1
  loops := [.asleep 0]

def exampleRow : SendingDomainRow where
  id := 1
  domain := "example.com".toList
  spfExpected := "v=spf1 -all".toList
  dkimSelector := "s".toList
  dkimPublicKey := "key".toList
  mxExpected := none
  dmarcPolicyExpected := none
  createdAt := 0
  createdBy := "ops".toList

theorem mem_registered : exampleRow ∈ registered.db.sendingDomain := by
  rw [Table.mem_def]
  decide +kernel

/-- One character across the seventh byte of a record that has nothing to do with SPF. -/
@[reducible] def poisonous : Resolver :=
  ⟨fun _ ↦ .ok [[utf8 "kundeø=ja".toList]], fun _ ↦ .ok []⟩

def addSecond : Action :=
  .add "example.net".toList "v=spf1 -all".toList "s".toList "key".toList none none "ops".toList

/-- Two domains and two workers, the second of which has found both due. -/
def bothDue : World where
  db := (Domain.add registered.db 0 "example.net".toList "v=spf1 -all".toList "s".toList "key".toList
    none none "ops".toList).1
  loops := [.asleep 0, .checking 0 [exampleRow.toSendingDomain,
    { exampleRow.toSendingDomain with id := 2, domain := "example.net".toList }]]

theorem bothDue_reached : Run step (.init 2 0) [addExample, addSecond, .move 1 (.begin_ true)] bothDue :=
  run_iff_exec.mpr (by rfl)

/-- The first worker dies of the first domain and is started again, the second dies of it in mid-round. -/
def deaths : List Action :=
  [.move 0 (.begin_ true), .move 0 (.check poisonous none unreachable none true), .tick 60,
    .move 0 .restart, .move 1 (.check poisonous none unreachable none true), .move 0 (.begin_ true),
    .move 0 (.check poisonous none unreachable none true)]

theorem poisoned_domain_starves_example : ∃ w, Run step bothDue deaths w ∧
    w.loops = [.ended, .ended] ∧ checksFrom w.db 1 = [] := by
  have hexec : (exec step bothDue deaths).any fun w ↦ w.loops = [.ended, .ended] := by decide +kernel
  obtain ⟨w, hrun, hloops⟩ := run_of_any hexec
  have hpanics : Poisons exampleRow.toSendingDomain poisonous none unreachable none :=
    .inl (Option.isNone_iff_eq_none.mp (by decide +kernel))
  have hmem : exampleRow ∈ bothDue.db.sendingDomain := by
    rw [Table.mem_def]
    decide +kernel
  refine ⟨w, hrun, of_decide_eq_true hloops,
    (poisoned_domain_starves bothDue_reached hrun hmem rfl rfl ?_ ?_).trans rfl⟩
  · intro loop hloop
    obtain rfl | hloop := List.mem_cons.mp hloop
    · trivial
    · rw [List.mem_singleton.mp hloop]
      exact fun _ _ _ ↦ by decide
  · refine along_of_forall fun s a ha ↦ ?_
    simp only [deaths, List.mem_cons, List.not_mem_nil, or_false] at ha
    rcases ha with rfl | rfl | rfl | rfl | rfl | rfl | rfl
    · trivial
    · exact fun _ _ _ ↦ hpanics
    · trivial
    · trivial
    · exact fun _ _ _ ↦ hpanics
    · trivial
    · exact fun _ _ _ ↦ hpanics

theorem round_leaves_none_due_example : ∃ w₁ w,
    step registered (.move 0 (.begin_ true)) = some w₁ ∧
    Run step w₁ [.move 0 (.check silent none unreachable none true)] w ∧
    ¬ Domain.due (Domain.latestChecks w.db 1) 0 RECHECK_MINUTES REVALIDATE_HOURS := by
  have hexec : (step registered (.move 0 (.begin_ true))).any (fun w₁ ↦
      w₁.loops = [.checking 0 [exampleRow.toSendingDomain]] &&
        (@checkDomain silent none unreachable none exampleRow.toSendingDomain).run.any (fun res ↦
          res.toOption.any fun result ↦ (Domain.recordCheck w₁.db w₁.now 1 result).isSome) &&
        (exec step w₁ [.move 0 (.check silent none unreachable none true)]).any fun w ↦
          w.loops = [.checking 0 []]) := by decide +kernel
  obtain ⟨w₁, hbegin, hrest⟩ := (Option.any_eq_true _ _).mp hexec
  simp only [Bool.and_eq_true, decide_eq_true_eq] at hrest
  obtain ⟨⟨hloops, hstored⟩, hend⟩ := hrest
  obtain ⟨w, hrun, hover⟩ := run_of_any hend
  refine ⟨w₁, w, hbegin, hrun, round_leaves_none_due hbegin hrun ?_ ?_ mem_registered rfl⟩
  · refine fun w' _ ↦ ⟨fun m hm ↦ ?_, trivial⟩
    obtain ⟨-, rfl⟩ := Action.move.inj hm
    refine ⟨_, _, _, _, rfl, fun asked d due hloop ↦ ?_⟩
    rw [hloops] at hloop
    obtain ⟨-, he⟩ := Loop.checking.inj (Option.some.inj hloop)
    obtain ⟨rfl, -⟩ := List.cons.inj he
    obtain ⟨res, hres, hany⟩ := (Option.any_eq_true _ _).mp hstored
    obtain ⟨result, hresult, hrecord⟩ := (Option.any_eq_true _ _).mp hany
    cases res with
    | error err => cases hresult
    | ok result' =>
      obtain rfl := Option.some.inj hresult
      exact ⟨result', hres, hrecord⟩
  · rw [of_decide_eq_true hover]
    rfl

end Example

end Postbud.CheckRounds
