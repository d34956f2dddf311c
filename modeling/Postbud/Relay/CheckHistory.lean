import Postbud.Relay.CheckRounds

namespace Postbud.CheckRounds

open Lib Lib.Text Lib.Transition Lib.Processes DnsCheck

section Worker

variable [Platform] {P : Option Text → Prop}

/-- What a row of `domain_check` says: it is valid by its own statuses, it is of
a registered domain, and it has a verdict on the MX records and the bounce mailbox
only where the domain asks for it. `P` is what the variable `BOUNCE_MAILBOX` of
the workers may be. -/
structure Stands (P : Option Text → Prop) (table : Table SendingDomainRow SendingDomainRow.Clash)
    (now : Time) (c : DomainCheck) : Prop where
  valid_iff : c.valid ↔ c.spfStatus = .ok ∧ c.dkimStatus = .ok ∧ c.dmarcStatus = .ok ∧
    ∀ status ∈ c.mxStatus, status = .ok
  checkedAt_le : c.checkedAt ≤ now
  registered : ∃ r ∈ table, r.id = c.domainId ∧ r.createdAt ≤ c.checkedAt ∧
    (c.mxStatus.isSome ↔ r.mxExpected.isSome) ∧
    (c.bounceStatus.isSome → r.mxExpected.isSome ∧ ∃ mailbox, P mailbox ∧
      (bounceMailbox mailbox).isSome)

/-- A registration that is not lost: it may only have been ended since. -/
def Keeps (table table' : Table SendingDomainRow SendingDomainRow.Clash) : Prop :=
  ∀ r ∈ table, ∃ r' ∈ table', r'.toSendingDomain = r.toSendingDomain ∧ (¬ r.active → r' = r)

theorem Keeps.refl (table : Table SendingDomainRow SendingDomainRow.Clash) : Keeps table table :=
  fun r hr ↦ ⟨r, hr, rfl, fun _ ↦ rfl⟩

theorem Keeps.trans {t t' t'' : Table SendingDomainRow SendingDomainRow.Clash} (h : Keeps t t')
    (h' : Keeps t' t'') : Keeps t t'' := by
  intro r hr
  obtain ⟨r', hr', hsame, hended⟩ := h r hr
  obtain ⟨r'', hr'', hsame', hended'⟩ := h' r' hr'
  refine ⟨r'', hr'', hsame'.trans hsame, fun hr ↦ ?_⟩
  obtain rfl := hended hr
  exact hended' hr

theorem Stands.keeps {t t' : Table SendingDomainRow SendingDomainRow.Clash} {now now' : Time}
    {c : DomainCheck} (h : Stands P t now c) (hkeeps : Keeps t t') (hnow : now ≤ now') :
    Stands P t' now' c where
  valid_iff := h.valid_iff
  checkedAt_le := Int.le_trans h.checkedAt_le hnow
  registered := by
    obtain ⟨r, hr, hid, hcreated, hmx, hbounce⟩ := h.registered
    obtain ⟨r', hr', hsame, -⟩ := hkeeps r hr
    have hid' : r'.id = r.id := congrArg SendingDomain.id hsame
    have hcreated' : r'.createdAt = r.createdAt := congrArg SendingDomain.createdAt hsame
    have hmx' : r'.mxExpected = r.mxExpected := congrArg SendingDomain.mxExpected hsame
    exact ⟨r', hr', hid'.trans hid, hcreated' ▸ hcreated, hmx' ▸ hmx, hmx' ▸ hbounce⟩

omit [Platform] in
theorem evaluate_spec {expected : Expected} {observed : Observed} {result : DomainResult}
    (h : evaluate expected observed = some result) : result.bounce = none ∧
      (result.mx.isSome ↔ expected.mx.isSome) ∧
      (result.valid ↔ result.spf.status = .ok ∧ result.dkim.status = .ok ∧
        result.dmarc.status = .ok ∧ ∀ m ∈ result.mx, m.status = .ok) := by
  obtain ⟨spf, -, h⟩ := Option.bind_eq_some_iff.mp h
  obtain ⟨dmarc, -, h⟩ := Option.bind_eq_some_iff.mp h
  obtain rfl := Option.some.inj h
  refine ⟨rfl, by rw [Option.isSome_map], ?_⟩
  cases expected.mx with
  | none => simp [and_assoc]
  | some host => simp [and_assoc]

/-- The row of a check that ends in a result. -/
theorem stands_checkRow {dns : Resolver} {mailbox : Option Text} {peer : Peer} {nonce : Option ℕ}
    {table : Table SendingDomainRow SendingDomainRow.Clash} {now : Time} {r : SendingDomainRow}
    {result : DomainResult}
    (h : (@checkDomain dns mailbox peer nonce r.toSendingDomain).run = some (.ok result))
    (hP : P mailbox) (hr : r ∈ table) (hcreated : r.createdAt ≤ now) :
    Stands P table now (Domain.checkRow r.id now result) := by
  obtain ⟨o, evaluated, -, heval, hresult, hasked⟩ := checkDomain_ok h
  obtain ⟨hbounce, hmx, hvalid⟩ := evaluate_spec heval
  refine ⟨?_, Int.le_refl _, r, hr, rfl, hcreated, ?_, ?_⟩
  · rw [hresult]
    simp only [Domain.checkRow, hvalid, Option.mem_def, Option.map_eq_some_iff, forall_exists_index,
      and_imp, forall_apply_eq_imp_iff₂]
  · rw [hresult, Domain.checkRow, Option.isSome_map, hmx]
    rfl
  · rw [Domain.checkRow, Option.isSome_map]
    intro hsome
    obtain hsame | ⟨hexpected, hmailbox⟩ := hasked
    · rw [hsame, hbounce] at hsome
      cases hsome
    · exact ⟨hexpected, mailbox, hP, hmailbox⟩

/-- The rows of the registry and of its checks in a state that can be reached. -/
structure Evidence (P : Option Text → Prop) (w : World) : Prop where
  created : ∀ r ∈ w.db.sendingDomain, r.createdAt ≤ w.now
  due : ∀ loop ∈ w.loops, ∀ asked due, loop = .checking asked due →
    ∀ d ∈ due, ∃ r ∈ w.db.sendingDomain, r.toSendingDomain = d
  stands : ∀ c ∈ w.db.domainCheck, Stands P w.db.sendingDomain w.now c

/-- Every mailbox a worker reads for a check is one of `P`. -/
def Reads (P : Option Text → Prop) (_ : World) : Action → Prop
  | .move _ (.check _ mailbox _ _ _) => P mailbox
  | _ => True

instance [DecidablePred P] (w : World) (a : Action) : Decidable (Reads P w a) := by
  unfold Reads
  split <;> infer_instance

theorem reads_any {w : World} (a : Action) : Reads (fun _ ↦ True) w a := by
  unfold Reads
  split <;> trivial

/-- What no step takes away: checks, and registrations. -/
structure Extends (w w' : World) : Prop where
  domainCheck : w.db.domainCheck <+: w'.db.domainCheck
  relayCheck : w.db.relayCheck <+: w'.db.relayCheck
  sendingDomain : Keeps w.db.sendingDomain w'.db.sendingDomain

section Steps

variable {w w' : World} {a : Action} {db db' : Registry} {now : Time} {m : Move}
  {loop loop' : Loop}

theorem keeps_end (db : Registry) (now : Time) (id : ℤ) (endedBy : Text) :
    Keeps db.sendingDomain (Domain.end_ db now id endedBy).1.sendingDomain := by
  intro r hr
  refine ⟨_, Domain.mem_end_.mpr ⟨r, hr, rfl⟩, ?_, fun hended ↦ ?_⟩
  · split_ifs <;> rfl
  · rw [if_neg]
    simp [hended]

theorem Moves.evidence (h : Moves db now m loop db' loop')
    (hP : ∀ dns mailbox peer nonce stored, m = .check dns mailbox peer nonce stored → P mailbox)
    (hcreated : ∀ r ∈ db.sendingDomain, r.createdAt ≤ now)
    (hdue : ∀ asked due, loop = .checking asked due →
      ∀ d ∈ due, ∃ r ∈ db.sendingDomain, r.toSendingDomain = d) :
    (∀ asked due, loop' = .checking asked due →
      ∀ d ∈ due, ∃ r ∈ db.sendingDomain, r.toSendingDomain = d) ∧
    db'.sendingDomain = db.sendingDomain ∧ db.domainCheck <+: db'.domainCheck ∧
    db.relayCheck <+: db'.relayCheck ∧
    ∀ c ∈ db'.domainCheck, c ∈ db.domainCheck ∨ Stands P db.sendingDomain now c := by
  cases h with
  | begin_ answered =>
    refine ⟨fun asked due he d hd ↦ ?_, rfl, List.prefix_rfl, List.prefix_rfl, fun c hc ↦ .inl hc⟩
    obtain ⟨-, rfl⟩ := Loop.checking.inj he
    cases answered with
    | false => cases hd
    | true =>
      obtain ⟨r, hr, -, -, hrd⟩ := Domain.mem_dueForCheck.mp hd
      exact ⟨r, hr, hrd⟩
  | skips =>
    refine ⟨fun asked due he d hd ↦ ?_, rfl, List.prefix_rfl, List.prefix_rfl, fun c hc ↦ .inl hc⟩
    obtain ⟨-, rfl⟩ := Loop.checking.inj he
    exact hdue _ _ rfl d (List.mem_cons_of_mem _ hd)
  | @records asked d due dns mailbox peer nonce result _ hrun hdb =>
    obtain ⟨r, hr, rfl⟩ := hdue _ _ rfl d List.mem_cons_self
    obtain ⟨-, -, rfl⟩ := Domain.recordCheck_eq_some.mp hdb
    refine ⟨fun asked due he d hd ↦ ?_, rfl, List.prefix_append _ _, List.prefix_rfl, fun c hc ↦ ?_⟩
    · obtain ⟨-, rfl⟩ := Loop.checking.inj he
      exact hdue _ _ rfl d (List.mem_cons_of_mem _ hd)
    · refine (List.mem_append.mp hc).imp_right fun hc ↦ ?_
      rw [List.mem_singleton.mp hc]
      exact stands_checkRow hrun (hP _ _ _ _ _ rfl) hr (hcreated r hr)
  | aborts =>
    refine ⟨fun asked due he d hd ↦ ?_, rfl, List.prefix_rfl, List.prefix_rfl, fun c hc ↦ .inl hc⟩
    obtain ⟨-, rfl⟩ := Loop.checking.inj he
    cases hd
  | relayRecords hdb =>
    obtain ⟨-, rfl⟩ := Relay.recordCheck_eq_some.mp hdb
    exact ⟨nofun, rfl, List.prefix_rfl, List.prefix_append _ _, fun c hc ↦ .inl hc⟩
  | _ => exact ⟨nofun, rfl, List.prefix_rfl, List.prefix_rfl, fun c hc ↦ .inl hc⟩

/-- A change of the registrations alone, which loses none of them. -/
theorem Evidence.change (h : Evidence P w) (hkeeps : Keeps w.db.sendingDomain db.sendingDomain)
    (hchecks : db.domainCheck = w.db.domainCheck) (hrelay : db.relayCheck = w.db.relayCheck)
    (hcreated : ∀ r ∈ db.sendingDomain, r.createdAt ≤ w.now) :
    Evidence P { w with db } ∧ Extends w { w with db } := by
  refine ⟨⟨hcreated, fun loop hloop asked due he d hd ↦ ?_, fun c hc ↦ ?_⟩,
    hchecks ▸ List.prefix_rfl, hrelay ▸ List.prefix_rfl, hkeeps⟩
  · obtain ⟨r, hr, rfl⟩ := h.due loop hloop asked due he d hd
    obtain ⟨r', hr', hsame, -⟩ := hkeeps r hr
    exact ⟨r', hr', hsame⟩
  · exact (h.stands c (hchecks ▸ hc)).keeps hkeeps (Int.le_refl _)

theorem evidence_step (hP : Reads P w a) (hi : Evidence P w) (h : step w a = some w') :
    Evidence P w' ∧ Extends w w' := by
  cases a with
  | tick time =>
    obtain rfl := Option.some.inj h
    have hle : w.now ≤ w.now + time := Int.le_add_of_nonneg_right (Int.natCast_nonneg time)
    exact ⟨⟨fun r hr ↦ Int.le_trans (hi.created r hr) hle, hi.due,
      fun c hc ↦ (hi.stands c hc).keeps (.refl _) hle⟩, List.prefix_rfl, List.prefix_rfl, .refl _⟩
  | add domain spf selector key mx policy createdBy =>
    obtain rfl := Option.some.inj h
    obtain ⟨hchecks, hrelay, -, hrows⟩ := Domain.add_cases w.db w.now domain spf selector key mx policy
      createdBy
    generalize Domain.add w.db w.now domain spf selector key mx policy createdBy = res at *
    have hkeeps : Keeps w.db.sendingDomain res.1.sendingDomain := by
      intro r hr
      refine ⟨r, ?_, rfl, fun _ ↦ rfl⟩
      obtain ⟨hsame, -⟩ | ⟨row, hrow, -⟩ := hrows
      · rwa [hsame]
      · rw [Table.mem_def, hrow]
        exact List.mem_append_left _ hr
    refine hi.change hkeeps hchecks hrelay fun r hr ↦ ?_
    obtain ⟨hsame, -⟩ | ⟨row, hrow, -, -, hnow, -⟩ := hrows
    · exact hi.created r (hsame ▸ hr)
    · rw [Table.mem_def, hrow] at hr
      obtain hr | hr := List.mem_append.mp hr
      · exact hi.created r hr
      · rw [List.mem_singleton.mp hr, hnow]
  | end_ id endedBy =>
    obtain rfl := Option.some.inj h
    refine hi.change (keeps_end w.db w.now id endedBy) rfl rfl fun r hr ↦ ?_
    obtain ⟨r₀, hr₀, rfl⟩ := Domain.mem_end_.mp hr
    split_ifs <;> exact hi.created r₀ hr₀
  | start =>
    obtain rfl := Option.some.inj h
    exact ⟨⟨hi.created, forall_mem_concat hi.due nofun, hi.stands⟩, List.prefix_rfl, List.prefix_rfl,
      .refl _⟩
  | move i m =>
    obtain ⟨loop, db, loop', hloop, hmove, rfl⟩ := step_move h
    obtain ⟨hdue', htable, hdomain, hrelay, hrows⟩ := hmove.evidence
      (fun dns mailbox peer nonce stored he ↦ by subst he; exact hP) hi.created
      (hi.due loop (List.mem_of_getElem? hloop))
    have hkeeps : Keeps w.db.sendingDomain db.sendingDomain := htable ▸ .refl _
    refine ⟨⟨?_, ?_, fun c hc ↦ ?_⟩, hdomain, hrelay, hkeeps⟩
    · exact htable ▸ hi.created
    · dsimp only
      rw [htable]
      exact forall_mem_set hdue' fun x hx ↦ hi.due x (List.mem_of_mem_eraseIdx hx)
    · dsimp only
      rw [htable]
      obtain hc | hc := hrows c hc
      · exact hi.stands c hc
      · exact hc

end Steps

theorem evidence_init (loops : ℕ) (now : Time) : Evidence P (.init loops now) where
  created r hr := absurd hr (Table.not_mem_empty r)
  due loop hloop asked due he := by
    cases (List.eq_of_mem_replicate hloop).symm.trans he
  stands c hc := by cases hc

/-- In every state each check stands for what it was made from, and its verdict
on the domain is that of SPF, DKIM, DMARC and the MX records alone. -/
theorem checks_stand {loops : ℕ} {start : Time} {l : List Action} {w : World}
    (h : Run step (.init loops start) l w) (hP : Along step (Reads P) (.init loops start) l) :
    ∀ c ∈ w.db.domainCheck, Stands P w.db.sendingDomain w.now c :=
  (h.invariant_along _ (fun _ _ _ hi hp ha ↦ (evidence_step hp hi ha).1) hP
    (evidence_init loops start)).stands

/-- Nothing that workers and operators do in any order takes back a check or a
registration: a domain that is ended is kept as it was ended. -/
theorem evidence_kept (loops : ℕ) (start : Time) (l : List Action) :
    Throughout step Extends (.init loops start) l :=
  throughout_of_inv (fun _ ↦ ⟨List.prefix_rfl, List.prefix_rfl, .refl _⟩)
    (fun _ _ _ h h' ↦ ⟨h.domainCheck.trans h'.domainCheck, h.relayCheck.trans h'.relayCheck,
      h.sendingDomain.trans h'.sendingDomain⟩)
    (fun _ a _ hi ha ↦ evidence_step (reads_any a) hi ha) (evidence_init loops start)

end Worker

section Example

attribute [local instance] Platform.ascii

theorem checks_stand_twice : ∃ w, Run step (.init 1 0) twoRounds w ∧
    w.db.domainCheck.length = 2 ∧
      ∀ c ∈ w.db.domainCheck, Stands (· = none) w.db.sendingDomain w.now c := by
  have hexec : (exec step (.init 1 0) twoRounds).any fun w ↦
      w.db.domainCheck.length = 2 := by decide +kernel
  obtain ⟨w, hrun, htwo⟩ := run_of_any hexec
  have hreads : Along step (Reads (· = none)) (.init 1 0) twoRounds := by decide +kernel
  exact ⟨w, hrun, of_decide_eq_true htwo, checks_stand hrun hreads⟩

end Example

end Postbud.CheckRounds
