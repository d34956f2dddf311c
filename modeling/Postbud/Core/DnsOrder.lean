import Mathlib.Data.List.Forall2
import Mathlib.Data.List.Perm.Basic
import Postbud.Core.SpfSelection

namespace Postbud.DnsCheck

open Lib Lib.Text Lib.ByteSlice

/-! DNS gives the records of one name in any order. -/

structure Shuffle (o o' : Observed) : Prop where
  domainTxt : o.domainTxt.Perm o'.domainTxt
  dkimTxt : o.dkimTxt.Perm o'.dkimTxt
  dmarcTxt : o.dmarcTxt.Perm o'.dmarcTxt
  dmarcFoundAt : o.dmarcFoundAt = o'.dmarcFoundAt
  mx : o.mx.Perm o'.mx
  reportAuth : ∃ l, o.reportAuth.Perm l ∧
    List.Forall₂ (fun a b ↦ a.1 = b.1 ∧ a.2.Perm b.2) l o'.reportAuth

/-- The verdicts, without what is shown beside them. -/
structure Badges where
  spf : Status
  dkim : Status
  dmarc : Status
  mx : Option Status
  reportAuth : Option Status
  valid : Bool
  deriving DecidableEq

def DomainResult.badges (r : DomainResult) : Badges where
  spf := r.spf.status
  dkim := r.dkim.status
  dmarc := r.dmarc.status
  mx := r.mx.map (·.status)
  reportAuth := r.reportAuth.map (·.status)
  valid := r.valid

def OrderFree (expected : Expected) (observed : Observed) : Prop :=
  ∀ other, Shuffle observed other →
    (evaluate expected other).map (·.badges) = (evaluate expected observed).map (·.badges)

/-- The policy of the record can be read and is no weaker than the expected
one, where one is expected. -/
def Enforces (expected : Option Text) (record : Text) : Prop :=
  ∃ rank, (dmarcTag record "p".toList).bind policyRank = some rank ∧
    ∀ want, expected = some want → ∃ least, policyRank want = some least ∧ least ≤ rank

section Dmarc

variable {record t u : Text} {foundAt expected : Option Text} {records records' : List Text}

/-- The verdict on a policy of this rank. -/
def policyStatus (rank : Option ℕ) (expected : Option Text) : Status :=
  match rank, expected.map policyRank with
  | none, _ => .mismatch
  | some _, none => .ok
  | some _, some none => .mismatch
  | some rank, some (some least) => if rank < least then .mismatch else .ok

theorem judgeDmarc_status : (judgeDmarc record foundAt expected).status =
    policyStatus ((dmarcTag record "p".toList).bind policyRank) expected := by
  unfold judgeDmarc policyStatus
  generalize dmarcTag record "p".toList = found
  dsimp only
  cases found.bind policyRank with
  | none => rfl
  | some rank =>
    cases expected with
    | none => rfl
    | some want =>
      dsimp only [Option.map_some]
      cases policyRank want with
      | none => rfl
      | some least =>
        dsimp only
        split_ifs <;> rfl

theorem policyStatus_cases (rank : Option ℕ) (expected : Option Text) :
    policyStatus rank expected = .ok ∨ policyStatus rank expected = .mismatch := by
  unfold policyStatus
  split
  · exact .inr rfl
  · exact .inl rfl
  · exact .inr rfl
  · split_ifs
    · exact .inr rfl
    · exact .inl rfl

theorem judgeDmarc_ok (foundAt : Option Text) : (judgeDmarc record foundAt expected).status = .ok ↔
    Enforces expected record := by
  rw [judgeDmarc_status, Enforces]
  cases (dmarcTag record "p".toList).bind policyRank with
  | none => simp [policyStatus]
  | some rank =>
    cases expected with
    | none => simp [policyStatus]
    | some want => cases hwant : policyRank want <;> simp [policyStatus, hwant]

theorem enforces_iff {want : Text} {least : ℕ} (hwant : policyRank want = some least) :
    Enforces (some want) record ↔
      ∃ rank, (dmarcTag record "p".toList).bind policyRank = some rank ∧ least ≤ rank := by
  simp only [Enforces, Option.some.injEq, forall_eq', hwant, exists_eq_left']

theorem judgeDmarc_congr (h : Enforces expected t ↔ Enforces expected u) :
    (judgeDmarc t foundAt expected).status = (judgeDmarc u foundAt expected).status := by
  rw [← judgeDmarc_ok foundAt, ← judgeDmarc_ok foundAt,
    judgeDmarc_status, judgeDmarc_status] at h
  rw [judgeDmarc_status, judgeDmarc_status]
  obtain ht | ht := policyStatus_cases ((dmarcTag t "p".toList).bind policyRank) expected
  · rw [ht, h.mp ht]
  · obtain hu | hu := policyStatus_cases ((dmarcTag u "p".toList).bind policyRank) expected
    · rw [hu, h.mpr hu]
    · rw [ht, hu]

theorem isDmarc_eq_none : isDmarc t = none ↔ ¬ Cuttable 8 (trimStart t) := by
  have hsome : (isDmarc t).isSome ↔ Cuttable 8 (trimStart t) := isSome_startsAt
  rw [← hsome, Option.not_isSome_iff_eq_none]

/-- No search through a record that is cut meets a DMARC record, and all of
these would be judged alike. -/
def Settled (expected : Option Text) (records : List Text) : Prop :=
  ¬ ((∃ t ∈ records, ¬ Cuttable 8 (trimStart t)) ∧ ∃ t ∈ records, HasVersion "v=DMARC1".toList t) ∧
    ∀ t ∈ records, ∀ u ∈ records, HasVersion "v=DMARC1".toList t → HasVersion "v=DMARC1".toList u →
      Enforces expected t → Enforces expected u

theorem checkDmarc_perm (foundAt : Option Text) (h : Settled expected records) (hperm : records.Perm records') :
    (checkDmarc records' foundAt expected).map (·.status) =
      (checkDmarc records foundAt expected).map (·.status) := by
  obtain ⟨hcut, hagree⟩ := h
  simp only [← isDmarc_eq_none, ← isDmarc_eq_true] at hcut hagree
  have hmem : ∀ t, t ∈ records' ↔ t ∈ records := fun t ↦ hperm.symm.mem_iff
  have hsearch := tryFind_searched (p := isDmarc) (l := records)
  have hsearch' := tryFind_searched (p := isDmarc) (l := records')
  simp only [checkDmarc]
  generalize tryFind isDmarc records = o at hsearch
  generalize tryFind isDmarc records' = o' at hsearch'
  cases hsearch' with
  | panic hx' hpanic =>
    cases hsearch with
    | panic => rfl
    | nothing hno => cases hpanic.symm.trans (hno _ ((hmem _).mp hx'))
    | found hx hfound => exact absurd ⟨⟨_, (hmem _).mp hx', hpanic⟩, _, hx, hfound⟩ hcut
  | nothing hno' =>
    cases hsearch with
    | panic hx hpanic => cases hpanic.symm.trans (hno' _ ((hmem _).mpr hx))
    | nothing => rfl
    | found hx hfound => cases hfound.symm.trans (hno' _ ((hmem _).mpr hx))
  | found hx' hfound' =>
    cases hsearch with
    | panic hx hpanic => exact absurd ⟨⟨_, hx, hpanic⟩, _, (hmem _).mp hx', hfound'⟩ hcut
    | nothing hno => cases hfound'.symm.trans (hno _ ((hmem _).mp hx'))
    | found hx hfound =>
      have hx' := (hmem _).mp hx'
      exact congrArg some (judgeDmarc_congr
        ⟨hagree _ hx' _ hx hfound' hfound, hagree _ hx _ hx' hfound hfound'⟩)

theorem checkDmarc_cons (h : HasVersion "v=DMARC1".toList t) :
    checkDmarc (t :: records) foundAt expected = some (judgeDmarc t foundAt expected) := by
  rw [checkDmarc, tryFind, isDmarc_eq_true.mpr h]
  rfl

theorem checkDmarc_cons_cut (h : ¬ Cuttable 8 (trimStart t)) :
    checkDmarc (t :: records) foundAt expected = none := by
  rw [checkDmarc, tryFind, isDmarc_eq_none.mpr h]
  rfl

theorem checkDmarc_cons_other (h : isDmarc t = some false) :
    checkDmarc (t :: records) foundAt expected = checkDmarc records foundAt expected := by
  rw [checkDmarc, tryFind, h]
  rfl

/-- A record may come first. -/
theorem settled_of_perm (foundAt : Option Text) (h : ∀ l, records.Perm l → (checkDmarc l foundAt expected).map (·.status) =
    (checkDmarc records foundAt expected).map (·.status)) : Settled expected records := by
  have hfirst : ∀ t ∈ records, ∃ l, records.Perm (t :: l) := fun t ht ↦
    ⟨records.erase t, List.perm_cons_erase ht⟩
  constructor
  · rintro ⟨⟨t, ht, hcut⟩, u, hu, hversion⟩
    obtain ⟨l, hl⟩ := hfirst t ht
    obtain ⟨m, hm⟩ := hfirst u hu
    have hsame := (h _ hl).trans (h _ hm).symm
    rw [checkDmarc_cons_cut hcut, checkDmarc_cons hversion] at hsame
    cases hsame
  · intro t ht u hu htv huv henforces
    obtain ⟨l, hl⟩ := hfirst t ht
    obtain ⟨m, hm⟩ := hfirst u hu
    have hsame := (h _ hl).trans (h _ hm).symm
    rw [checkDmarc_cons htv, checkDmarc_cons huv] at hsame
    rw [← judgeDmarc_ok foundAt] at henforces ⊢
    exact (Option.some.inj hsame).symm.trans henforces

end Dmarc

section Evaluate

variable {expected : Expected} {o o' : Observed} {records records' : List Text}

def badgesOf (expected : Expected) (o : Observed) (spf dmarc : Status) : Badges :=
  let dkim := (checkDkim o.dkimTxt expected.dkimPublicKey).status
  let mx := expected.mx.map fun host ↦ (checkMx o.mx host).status
  { spf, dkim, dmarc, mx
    reportAuth := (checkReportAuth o.reportAuth).map (·.status)
    valid := spf = .ok && dkim = .ok && dmarc = .ok && mx.all (· = .ok) }

theorem evaluate_badges : (evaluate expected o).map (·.badges) =
    ((checkSpf o.domainTxt expected.spf).map (·.status)).bind fun spf ↦
      ((checkDmarc o.dmarcTxt o.dmarcFoundAt expected.dmarcPolicy).map (·.status)).map
        (badgesOf expected o spf) := by
  unfold evaluate
  cases checkSpf o.domainTxt expected.spf with
  | none => rfl
  | some spf =>
    cases checkDmarc o.dmarcTxt o.dmarcFoundAt expected.dmarcPolicy with
    | none => rfl
    | some dmarc => cases hmx : expected.mx <;> simp [DomainResult.badges, badgesOf, hmx]

theorem verdict_perm {l l' : List Text} (h : l.Perm l') (expected : Text) :
    verdict expected l' = verdict expected l := by
  match l with
  | [] => rw [List.nil_perm.mp h]
  | [record] => rw [List.perm_singleton.mp h.symm]
  | _ :: _ :: _ =>
    have htwo := h.length_eq
    rw [verdict_of_two (l := l') (by simp only [List.length_cons] at htwo; omega)]
    rfl

theorem checkSpf_perm (h : records.Perm records') (expected : Text) :
    (checkSpf records' expected).map (·.status) = (checkSpf records expected).map (·.status) := by
  have hmem : ∀ t, t ∈ records' ↔ t ∈ records := fun t ↦ h.symm.mem_iff
  by_cases hcut : ∀ t ∈ records, Cuttable 6 (trimStart t)
  · have hcut' : ∀ t ∈ records', Cuttable 6 (trimStart t) := fun t ht ↦ hcut t ((hmem t).mp ht)
    obtain ⟨r, hr, hstatus⟩ := checkSpf_eq expected hcut
    obtain ⟨r', hr', hstatus'⟩ := checkSpf_eq expected hcut'
    rw [hr, hr', Option.map_some, Option.map_some, hstatus, hstatus', verdict_perm (h.filter _)]
  · have hcut' : ¬ ∀ t ∈ records', Cuttable 6 (trimStart t) := by
      simpa only [hmem] using hcut
    rw [← isSome_checkSpf expected, Option.not_isSome_iff_eq_none] at hcut hcut'
    rw [hcut, hcut']

theorem eq_nil_iff_of_perm {α : Type} {l l' : List α} (h : l.Perm l') : l' = [] ↔ l = [] := by
  rw [← List.length_eq_zero_iff, ← List.length_eq_zero_iff, h.length_eq]

theorem checkDkim_perm (h : records.Perm records') (key : Text) :
    (checkDkim records' key).status = (checkDkim records key).status := by
  simp only [checkDkim, eq_nil_iff_of_perm h, h.any_eq]

theorem checkMx_perm (h : records.Perm records') (host : Text) :
    (checkMx records' host).status = (checkMx records host).status := by
  simp only [checkMx, eq_nil_iff_of_perm h, h.any_eq]
  split_ifs <;> rfl

theorem checkReportAuth_status (l : List (Text × List Text)) :
    (checkReportAuth l).map (·.status) =
      if l = [] then none else if l.all fun e ↦ e.2.any authorizes then some .ok else some .missing := by
  unfold checkReportAuth
  by_cases hnil : l = []
  · rw [if_pos hnil, if_pos hnil]
    rfl
  · rw [if_neg hnil, if_neg hnil]
    simp only [List.map_eq_nil_iff, List.filter_eq_nil_iff, List.all_eq_true, Bool.not_eq_true',
      Bool.not_eq_false]
    split_ifs <;> rfl

theorem all_of_forall₂ {l l' : List (Text × List Text)}
    (h : List.Forall₂ (fun a b ↦ a.1 = b.1 ∧ a.2.Perm b.2) l l') :
    l'.all (fun e ↦ e.2.any authorizes) = l.all fun e ↦ e.2.any authorizes := by
  induction h with
  | nil => rfl
  | cons hab _ ih => rw [List.all_cons, List.all_cons, ih, hab.2.any_eq]

theorem checkReportAuth_shuffle (h : Shuffle o o') :
    (checkReportAuth o'.reportAuth).map (·.status) = (checkReportAuth o.reportAuth).map (·.status) := by
  obtain ⟨l, hperm, hinner⟩ := h.reportAuth
  have hnil : o'.reportAuth = [] ↔ o.reportAuth = [] := by
    rw [← eq_nil_iff_of_perm hperm, ← List.length_eq_zero_iff, ← List.length_eq_zero_iff,
      hinner.length_eq]
  have hall : o'.reportAuth.all (fun e ↦ e.2.any authorizes) =
      o.reportAuth.all (fun e ↦ e.2.any authorizes) := by
    rw [all_of_forall₂ hinner, hperm.all_eq]
  rw [checkReportAuth_status, checkReportAuth_status, hall]
  simp only [hnil]

theorem badgesOf_shuffle (h : Shuffle o o') (spf dmarc : Status) :
    badgesOf expected o' spf dmarc = badgesOf expected o spf dmarc := by
  simp only [badgesOf, checkDkim_perm h.dkimTxt, checkMx_perm h.mx, checkReportAuth_shuffle h]

/-- Where the SPF records can be read, the verdicts on two orders of the DMARC
records are the same only if the DMARC verdicts are. -/
theorem checkDmarc_of_badges {l : List Text} {r : RecordResult}
    (hr : checkSpf o.domainTxt expected.spf = some r)
    (h : (evaluate expected { o with dmarcTxt := l }).map (·.badges) =
      (evaluate expected o).map (·.badges)) :
    (checkDmarc l o.dmarcFoundAt expected.dmarcPolicy).map (·.status) =
      (checkDmarc o.dmarcTxt o.dmarcFoundAt expected.dmarcPolicy).map (·.status) := by
  rw [evaluate_badges, evaluate_badges] at h
  have hdmarc := congrArg (Option.map Badges.dmarc) h
  simp only [hr, Option.map_some, Option.bind_some, Option.map_map] at hdmarc
  exact hdmarc

/-- The order is of no account unless DMARC records contradict each other, or
one of them is cut. -/
theorem checks_orderFree_iff (expected : Expected) (o : Observed) : OrderFree expected o ↔
    (∃ t ∈ o.domainTxt, ¬ Cuttable 6 (trimStart t)) ∨ Settled expected.dmarcPolicy o.dmarcTxt := by
  constructor
  · intro h
    by_cases hcut : ∀ t ∈ o.domainTxt, Cuttable 6 (trimStart t)
    · obtain ⟨r, hr, -⟩ := checkSpf_eq expected.spf hcut
      refine .inr (settled_of_perm o.dmarcFoundAt fun l hl ↦ ?_)
      exact checkDmarc_of_badges hr (h { o with dmarcTxt := l } ⟨.refl _, .refl _, hl, rfl, .refl _,
        o.reportAuth, .refl _, List.forall₂_same.mpr fun _ _ ↦ ⟨rfl, .refl _⟩⟩)
    · simp only [not_forall] at hcut
      obtain ⟨t, ht, hcut⟩ := hcut
      exact .inl ⟨t, ht, hcut⟩
  · intro h other hother
    rw [evaluate_badges, evaluate_badges, checkSpf_perm hother.domainTxt]
    obtain ⟨t, ht, hcut⟩ | hsettled := h
    · have hnone : checkSpf o.domainTxt expected.spf = none := by
        rw [← Option.not_isSome_iff_eq_none, isSome_checkSpf]
        exact fun h ↦ hcut (h t ht)
      rw [hnone]
      rfl
    · have hdmarc := checkDmarc_perm o.dmarcFoundAt hsettled hother.dmarcTxt
      rw [← hother.dmarcFoundAt, hdmarc]
      congr 1
      funext spf
      congr 1
      funext dmarc
      exact badgesOf_shuffle hother spf dmarc

/-- Two DMARC records, of which the first that is answered decides. -/
theorem contradicting_policies : ¬ ∀ (expected : Expected) (o : Observed), OrderFree expected o := by
  intro h
  have hsame := h ⟨[], [], none, some "reject".toList⟩
    { dmarcTxt := ["v=DMARC1; p=none".toList, "v=DMARC1; p=reject".toList] }
    { dmarcTxt := ["v=DMARC1; p=reject".toList, "v=DMARC1; p=none".toList] }
    ⟨.refl _, .refl _, .swap _ _ _, rfl, .refl _, [], .refl _, .nil⟩
  exact absurd hsame (by decide)

end Evaluate

end Postbud.DnsCheck
