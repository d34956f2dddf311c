import Postbud.Api.Auth
import Postbud.Core.TagLists
import Postbud.Relay.CheckProgress

namespace Postbud.Api

open Lib Lib.Text Lib.ByteSlice Lib.Words Lib.Result DnsCheck

/-- A DNS row as the admin shows it. -/
structure RecordRow where
  kind : Text
  type : Text
  name : Text
  value : Text
  prescribed : Bool
  note : Option Text := none
  deriving DecidableEq

structure DomainView where
  domain : SendingDomain
  records : List RecordRow
  check : Option DomainCheck
  deriving DecidableEq

structure DomainAdd where
  domain : Text
  dmarcPolicyExpected : Option Text
  spfExpected : Option Text
  dkimSelector : Text
  dkimPublicKey : Text
  mxExpected : Option Text

def dkimName (d : SendingDomain) : Text := d.dkimSelector ++ "._domainkey.".toList ++ d.domain

def dkimValue (d : SendingDomain) : Text :=
  "v=DKIM1; h=sha256; k=rsa; p=".toList ++ d.dkimPublicKey

def dmarcName (d : SendingDomain) : Text := "_dmarc.".toList ++ d.domain

/-- SPF, DKIM and MX are prescribed. DMARC is as it was last seen. -/
def recordRows (d : SendingDomain) (check : Option DomainCheck) : List RecordRow :=
  [{ kind := "spf".toList, type := "TXT".toList, name := d.domain, value := d.spfExpected
     prescribed := true },
    { kind := "dkim".toList, type := "TXT".toList, name := dkimName d, value := dkimValue d
      prescribed := true },
    match check.bind (·.dmarcObserved) with
    | some observed =>
      { kind := "dmarc".toList, type := "TXT".toList, name := dmarcName d, value := observed
        prescribed := false
        note := some
          "published policy, as last seen -- postbud does not require a particular one".toList }
    | none =>
      { kind := "dmarc".toList, type := "TXT".toList, name := dmarcName d
        value := "v=DMARC1; p=none".toList, prescribed := false
        note := some ("a suggested starting policy -- nothing is published yet, ".toList ++
          "or inherited from the parent domain".toList) }] ++
  match d.mxExpected with
  | some mx => [{ kind := "mx".toList, type := "MX".toList, name := d.domain
                  value := "10 ".toList ++ mx, prescribed := true }]
  | none => []

/-- One entry of `domains`. -/
def domainView [Platform] (db : Registry) (d : SendingDomain) : DomainView :=
  let check := Domain.latestChecks db d.id
  ⟨d, recordRows d check, check⟩

def cleanDomain (raw : Text) : Text := toAsciiLowercase (trimEndMatches '.' (trim raw))

/-- A stated policy is one of the ladder, none is no policy. -/
def cleanPolicy (raw : Option Text) : Except ApiError (Option Text) :=
  match raw.map trim with
  | none => .ok none
  | some p =>
    if p = [] then .ok none
    else
      let p := toAsciiLowercase p
      if p ∈ POLICY_LADDER then .ok (some p)
      else .error (.badRequest ("dmarc_policy_expected must be none, quarantine or reject (got '".toList ++
        p ++ "')".toList))

def cleanSpf (spfDefault raw : Option Text) : Except ApiError Text :=
  match (raw.map trim).filter (· ≠ []), spfDefault with
  | some s, _ => .ok s
  | none, some default => .ok default
  | none, none =>
    .error (.badRequest "spf_expected is required (DNS_SPF_DEFAULT is not configured)".toList)

def domainAdd [Platform] (spfDefault : Option Text) (actor : Text) (db : Registry) (now : Time)
    (req : DomainAdd) : Registry × Except ApiError DomainView :=
  let domain := cleanDomain req.domain
  if domain = [] || !('.' ∈ domain) || domain.any fun c ↦ c = '@' || c = ' ' || c = '/' then
    (db, .error (.badRequest ("'".toList ++ domain ++ "' does not look like a domain".toList)))
  else
    let selector := trim req.dkimSelector
    if selector = [] then (db, .error (.badRequest "dkim_selector is required".toList))
    else
      let key := stripKey req.dkimPublicKey
      if byteLength key < 64 then
        (db, .error (.badRequest
          "dkim_public_key looks too short to be a key — paste the p= value".toList))
      else match cleanSpf spfDefault req.spfExpected, cleanPolicy req.dmarcPolicyExpected with
      | .error err, _ => (db, .error err)
      | .ok _, .error err => (db, .error err)
      | .ok spf, .ok policy =>
        match Domain.add db now domain spf selector key ((req.mxExpected.map trim).filter (· ≠ []))
          policy actor with
        | (db, .error message) => (db, .error (.badRequest message))
        | (db, .ok created) => (db, .ok ⟨created, recordRows created none, none⟩)

/-- A domain as a request that is taken registers it. -/
structure Cleaned (spfDefault : Option Text) (req : DomainAdd) (d : SendingDomain) : Prop where
  domain : d.domain = cleanDomain req.domain
  dkimPublicKey : d.dkimPublicKey = stripKey req.dkimPublicKey
  spfExpected : cleanSpf spfDefault req.spfExpected = .ok d.spfExpected
  dmarcPolicyExpected : cleanPolicy req.dmarcPolicyExpected = .ok d.dmarcPolicyExpected
  mxExpected : d.mxExpected = (req.mxExpected.map trim).filter (· ≠ [])

theorem domainAdd_ok [Platform] {spfDefault : Option Text} {actor : Text} {db db' : Registry}
    {now : Time} {req : DomainAdd} {view : DomainView}
    (h : domainAdd spfDefault actor db now req = (db', .ok view)) :
    Cleaned spfDefault req view.domain ∧ view.records = recordRows view.domain none := by
  unfold domainAdd at h
  dsimp only at h
  split_ifs at h with hdomain hselector hkey
  · cases (Prod.mk.inj h).2
  · cases (Prod.mk.inj h).2
  · cases (Prod.mk.inj h).2
  · split at h
    · cases (Prod.mk.inj h).2
    · cases (Prod.mk.inj h).2
    · rename_i spf policy hspf hpolicy
      split at h
      · cases (Prod.mk.inj h).2
      · rename_i db₁ created hadd
        obtain rfl := Except.ok.inj (Prod.mk.inj h).2
        have hcreated := Domain.add_ok hadd
        subst hcreated
        exact ⟨⟨rfl, rfl, hspf, hpolicy, rfl⟩, rfl⟩

/-! What the admin prescribes, and what the check makes of it. -/

/-- DNS has just the rows that are shown, and answers for the domain. The name
of a mail exchanger comes back in any case, and with the dot of the root. -/
structure Publishes (dns : Resolver) (domain : Text) (rows : List RecordRow) : Prop where
  txt : ∀ row ∈ rows, row.type = "TXT".toList → @DnsCheck.txt dns row.name = .ok [row.value]
  mx : ∀ row ∈ rows, row.type = "MX".toList → ∃ host exchange, row.value = "10 ".toList ++ host ∧
    normalizeHost exchange = normalizeHost host ∧ @DnsCheck.mx dns row.name = .ok [exchange]
  answered : ∃ hosts, @DnsCheck.mx dns domain = .ok hosts

section Rows

variable {d : SendingDomain} {spf : Text} {policy : Option Text}

theorem exists_splitOn (c : Char) (t : Text) : ∃ parts, t.splitOn c = t.takeWhile (· ≠ c) :: parts := by
  by_cases h : c ∈ t
  · obtain ⟨a, b, rfl, ha⟩ := List.eq_append_cons_of_mem h
    refine ⟨b.splitOn c, ?_⟩
    rw [List.splitOn_append_cons_self, splitOn_of_notMem ha, List.takeWhile_append_of_pos]
    · simp
    · exact fun d hd ↦ decide_eq_true fun he ↦ ha (he ▸ hd)
  · refine ⟨[], ?_⟩
    rw [splitOn_of_notMem h, List.takeWhile_eq_self_iff.mpr]
    exact fun d hd ↦ decide_eq_true fun he ↦ h (he ▸ hd)

/-- The key that is read back is cut at a semicolon. -/
theorem dkimKeyOf_dkimValue (d : SendingDomain) : dkimKeyOf (dkimValue d) =
    some (stripKey (d.dkimPublicKey.takeWhile (· ≠ ';'))) := by
  have htags : "v=DKIM1; h=sha256; k=rsa; p=".toList =
      "v=DKIM1; h=sha256; k=rsa".toList ++ ';' :: " p=".toList := by decide +kernel
  have hvalue : dkimValue d =
      "v=DKIM1; h=sha256; k=rsa".toList ++ ';' :: (" p=".toList ++ d.dkimPublicKey) :=
    (congrArg (· ++ d.dkimPublicKey) htags).trans (List.append_assoc _ _ _)
  have hfront : ("v=DKIM1; h=sha256; k=rsa".toList.splitOn ';').findSome? keyOfPart = none := by
    decide +kernel
  obtain ⟨parts, hsplit⟩ := exists_splitOn ';' (" p=".toList ++ d.dkimPublicKey)
  have htake : (" p=".toList ++ d.dkimPublicKey).takeWhile (· ≠ ';') =
      [' '] ++ ['p'] ++ [] ++ '=' :: d.dkimPublicKey.takeWhile (· ≠ ';') := by simp
  have hpad : Pad [' '] := List.forall_mem_singleton.mpr (.inl rfl)
  have hkey := keyOfPart_tag hpad (by decide : '=' ∉ ['p']) pad_nil
    (d.dkimPublicKey.takeWhile (· ≠ ';'))
  rw [if_pos ⟨rfl, rfl⟩] at hkey
  change ((dkimValue d).splitOn ';').findSome? keyOfPart = _
  rw [hvalue, List.splitOn_append_cons_self, List.findSome?_append, hfront, Option.none_or, hsplit,
    List.findSome?_cons, htake, hkey]

theorem stripKey_stripKey (t : Text) : stripKey (stripKey t) = stripKey t := by
  rw [stripKey, stripKey, List.filter_filter]
  simp only [Bool.and_self]

theorem checkDkim_dkimValue (h : stripKey d.dkimPublicKey = d.dkimPublicKey) :
    (checkDkim [dkimValue d] d.dkimPublicKey).status = .ok ↔ ';' ∉ d.dkimPublicKey := by
  have hcut : stripKey (d.dkimPublicKey.takeWhile (· ≠ ';')) =
      d.dkimPublicKey.takeWhile (· ≠ ';') := by
    refine List.filter_eq_self.mpr fun c hc ↦ ?_
    exact List.filter_eq_self.mp h c (List.takeWhile_subset _ hc)
  have htake : d.dkimPublicKey.takeWhile (· ≠ ';') = d.dkimPublicKey ↔ ';' ∉ d.dkimPublicKey := by
    rw [List.takeWhile_eq_self_iff]
    constructor
    · intro hall hmem
      exact absurd (hall ';' hmem) (by decide)
    · intro hnot c hc
      exact decide_eq_true fun he ↦ hnot (he ▸ hc)
  rw [checkDkim, if_neg (List.cons_ne_nil _ _), List.any_cons, List.any_nil, Bool.or_false,
    dkimKeyOf_dkimValue, hcut, h, ← htake]
  split_ifs with hsame
  · simpa using hsame
  · simpa using hsame

theorem checkSpf_self (spf : Text) : (checkSpf [spf] spf).any (·.status = .ok) ↔
    HasVersion "v=spf1".toList spf := by
  rw [← isSpf_eq_true]
  unfold checkSpf tryFilter
  cases isSpf spf with
  | none => simp
  | some found => cases found <;> simp [tryFilter, eqIgnoreAsciiCase]

theorem cleanPolicy_ok {raw : Option Text} (h : cleanPolicy raw = .ok policy) :
    ∀ p ∈ policy, p ∈ POLICY_LADDER := by
  unfold cleanPolicy at h
  split at h
  · obtain rfl := Except.ok.inj h
    exact nofun
  · dsimp only at h
    split_ifs at h with hempty hladder
    · obtain rfl := Except.ok.inj h
      exact nofun
    · obtain rfl := Except.ok.inj h
      exact fun p hp ↦ Option.some.inj hp ▸ hladder

theorem checkDmarc_suggested (foundAt : Option Text) (h : ∀ p ∈ policy, p ∈ POLICY_LADDER) :
    (checkDmarc ["v=DMARC1; p=none".toList] foundAt policy).any (·.status = .ok) ↔
      policy = none ∨ policy = some "none".toList := by
  have hversion : HasVersion "v=DMARC1".toList "v=DMARC1; p=none".toList :=
    authorizes_iff.mp (by decide)
  rw [checkDmarc_cons hversion, Option.any_some, decide_eq_true_eq, judgeDmarc_status]
  cases policy with
  | none => decide
  | some p =>
    have hladder := h p rfl
    simp only [POLICY_LADDER, List.mem_cons, List.not_mem_nil, or_false] at hladder
    rcases hladder with rfl | rfl | rfl <;> decide

theorem checkMx_of_same {exchange host : Text} (h : normalizeHost exchange = normalizeHost host) :
    (checkMx [exchange] host).status = .ok := by
  rw [checkMx, if_neg (List.cons_ne_nil _ _), List.any_cons, decide_eq_true h, Bool.true_or, if_pos rfl]

end Rows

section Verify

variable {spfDefault : Option Text} {req : DomainAdd} {dns : Resolver} {d : SendingDomain}
  {mailbox : Option Text} {peer : Peer} {nonce : Option ℕ}

theorem dmarcNames_head (h : Cleaned spfDefault req d) :
    ∃ names, dmarcNames d.domain = dmarcName d :: names := by
  have hclean : toAsciiLowercase (trimEndMatches '.' d.domain) = d.domain := by
    rw [h.domain, cleanDomain, trimEndMatches_toAsciiLowercase, toAsciiLowercase_toAsciiLowercase]
    exact congrArg toAsciiLowercase (List.rdropWhile_idempotent _ _)
  unfold dmarcNames
  dsimp only
  rw [hclean]
  exact ⟨_, rfl⟩

/-- What is observed where the rows are published. -/
theorem observe_published (h : Cleaned spfDefault req d)
    (hdns : Publishes dns d.domain (recordRows d none)) :
    ∃ hosts, (∀ host, d.mxExpected = some host →
        ∃ exchange, hosts = [exchange] ∧ normalizeHost exchange = normalizeHost host) ∧
      (@observe dns d.domain d.dkimSelector).run = some (.ok {
        domainTxt := [d.spfExpected], dkimTxt := [dkimValue d]
        dmarcTxt := ["v=DMARC1; p=none".toList], dmarcFoundAt := some (dmarcName d)
        mx := hosts, reportAuth := [] }) := by
  have hspf : @DnsCheck.txt dns d.domain = .ok [d.spfExpected] := hdns.txt _ (.head _) rfl
  have hdkim : @DnsCheck.txt dns (dkimName d) = .ok [dkimValue d] :=
    hdns.txt _ (List.mem_append_left _ (.tail _ (.head _))) rfl
  have hdmarc : @DnsCheck.txt dns (dmarcName d) = .ok ["v=DMARC1; p=none".toList] :=
    hdns.txt _ (List.mem_append_left _ (.tail _ (.tail _ (.head _)))) rfl
  obtain ⟨hosts, hmx⟩ := hdns.answered
  obtain ⟨names, hnames⟩ := dmarcNames_head h
  have hfound : @findDmarc dns (dmarcNames d.domain) =
      .ok (some (dmarcName d, ["v=DMARC1; p=none".toList])) := by
    rw [hnames, findDmarc, hdmarc]
    rfl
  refine ⟨hosts, fun host hhost ↦ ?_, ?_⟩
  · obtain ⟨host', exchange, hvalue, hsame, hanswer⟩ := hdns.mx
      { kind := "mx".toList, type := "MX".toList, name := d.domain, value := "10 ".toList ++ host
        prescribed := true } (List.mem_append_right _ (by rw [hhost]; exact .head _)) rfl
    obtain rfl := List.append_cancel_left hvalue
    exact ⟨exchange, Except.ok.inj (hmx.symm.trans hanswer), hsame⟩
  · have hask : ∀ {α : Type} {answer : Except ResolveError α} {a : α}, answer = .ok a →
        (ask answer).run = some (.ok a) := fun h ↦ congrArg some h
    have hconsents : (@consents dns (some (dmarcName d, ["v=DMARC1; p=none".toList]))).run =
        some (.ok []) := rfl
    rw [dkimName] at hdkim
    rw [observe, run_bind_of_ok (hask hspf), run_bind_of_ok (hask hdkim), run_bind_of_ok (hask hfound),
      run_bind_of_ok (hask hmx), run_bind_of_ok hconsents]
    rfl

/-- The relay's answer has no part in the verdict. -/
theorem checkDomain_valid {o : Observed} (h : (@observe dns d.domain d.dkimSelector).run = some (.ok o)) :
    (∃ result, (@CheckRounds.checkDomain dns mailbox peer nonce d).run = some (.ok result) ∧
      result.valid) ↔ (evaluate (CheckRounds.expected d) o).any (·.valid) := by
  rw [CheckRounds.checkDomain, run_bind_of_ok h]
  cases heval : evaluate (CheckRounds.expected d) o with
  | none => exact iff_of_false (fun ⟨_, hrun, _⟩ ↦ by cases hrun) nofun
  | some r =>
    have hlift : (ExceptT.lift (some r) : ExceptT ResolveError Option DomainResult).run =
        some (.ok r) := rfl
    rw [run_bind_of_ok hlift]
    split
    · refine ⟨fun ⟨result, hrun, hvalid⟩ ↦ ?_, fun hvalid ↦ ⟨_, rfl, hvalid⟩⟩
      obtain rfl := Except.ok.inj (Option.some.inj hrun)
      exact hvalid
    · refine ⟨fun ⟨result, hrun, hvalid⟩ ↦ ?_, fun hvalid ↦ ⟨_, rfl, hvalid⟩⟩
      obtain rfl := Except.ok.inj (Option.some.inj hrun)
      exact hvalid

theorem evaluate_valid {expected : Expected} {o : Observed} :
    (evaluate expected o).any (·.valid) ↔ (checkSpf o.domainTxt expected.spf).any (·.status = .ok) ∧
      (checkDkim o.dkimTxt expected.dkimPublicKey).status = .ok ∧
      (checkDmarc o.dmarcTxt o.dmarcFoundAt expected.dmarcPolicy).any (·.status = .ok) ∧
      ∀ host ∈ expected.mx, (checkMx o.mx host).status = .ok := by
  rw [evaluate]
  cases checkSpf o.domainTxt expected.spf with
  | none => simp
  | some spf =>
    cases checkDmarc o.dmarcTxt o.dmarcFoundAt expected.dmarcPolicy with
    | none => simp
    | some dmarc =>
      cases expected.mx with
      | none => simp [and_assoc]
      | some host => simp [and_assoc]

/-- Where the admin's rows are published as they are shown, the check finds the
domain valid, but for an SPF record that is none, a key that is cut off, and a
policy that is to be stricter than the one suggested. -/
theorem prescribed_verifies [Platform] {actor : Text} {db db' : Registry} {now : Time}
    {view : DomainView} (h : domainAdd spfDefault actor db now req = (db', .ok view))
    (hdns : Publishes dns view.domain.domain view.records) :
    (∃ result, (@CheckRounds.checkDomain dns mailbox peer nonce view.domain).run = some (.ok result) ∧
      result.valid) ↔ HasVersion "v=spf1".toList view.domain.spfExpected ∧
        ';' ∉ view.domain.dkimPublicKey ∧ (view.domain.dmarcPolicyExpected = none ∨
          view.domain.dmarcPolicyExpected = some "none".toList) := by
  obtain ⟨hclean, hrows⟩ := domainAdd_ok h
  generalize view.domain = d at *
  rw [hrows] at hdns
  obtain ⟨hosts, hhosts, hobserve⟩ := observe_published hclean hdns
  have hkey : stripKey d.dkimPublicKey = d.dkimPublicKey := by
    rw [hclean.dkimPublicKey, stripKey_stripKey]
  have hpolicy := cleanPolicy_ok hclean.dmarcPolicyExpected
  rw [← checkSpf_self, ← checkDkim_dkimValue hkey, ← checkDmarc_suggested (some (dmarcName d)) hpolicy]
  have hmx : ∀ host ∈ d.mxExpected, (checkMx hosts host).status = .ok := by
    intro host hhost
    obtain ⟨exchange, rfl, hsame⟩ := hhosts host hhost
    exact checkMx_of_same hsame
  rw [checkDomain_valid hobserve, evaluate_valid]
  exact ⟨fun ⟨hspf, hdkim, hdmarc, _⟩ ↦ ⟨hspf, hdkim, hdmarc⟩,
    fun ⟨hspf, hdkim, hdmarc⟩ ↦ ⟨hspf, hdkim, hdmarc, hmx⟩⟩

end Verify

/-! The row of a domain that has been checked. -/

/-- The last tag of a record is its policy. -/
def EndsWithPolicy (record : Text) : Prop :=
  ∃ front last key value, record = front ++ ';' :: last ∧ ';' ∉ last ∧
    dmarcTag front "p".toList = none ∧ splitOnce '=' last = some (key, value) ∧
      eqIgnoreAsciiCase (trim key) "p".toList

section Shown

variable {record : Text} {d : SendingDomain} {dns : Resolver} {mailbox : Option Text} {peer : Peer}
  {nonce : Option ℕ} {o : Observed} {result : DomainResult}

theorem mem_trim {c : Char} {p : Text} (hc : isWhitespace c = false) (h : c ∈ p) : c ∈ trim p := by
  obtain ⟨u, v, hp, hu, hv⟩ := exists_trim p
  rw [hp, List.append_assoc, List.mem_append, List.mem_append] at h
  obtain h | h | h := h
  · cases (hu c h).symm.trans hc
  · exact h
  · cases (hv c h).symm.trans hc

theorem policyRank_of_paren {p : Text} (h : '(' ∈ p) : policyRank p = none := by
  have hlower : '(' ∈ toAsciiLowercase (trim p) :=
    (mem_toAsciiLowercase (by decide) (by decide)).mpr (mem_trim rfl h)
  refine List.findIdx?_eq_none_iff.mpr fun q hq ↦ decide_eq_false fun he ↦ ?_
  rw [← he] at hlower
  exact absurd hlower ((by decide : ∀ q ∈ POLICY_LADDER, '(' ∉ q) q hq)

theorem dmarcTag_append (front rest tag : Text) : dmarcTag (front ++ ';' :: rest) tag =
    (dmarcTag front tag).or (dmarcTag rest tag) := by
  rw [dmarcTag, List.splitOn_append_cons_self, List.findSome?_append]
  rfl

theorem judgeDmarc_observed (record name : Text) (expected : Option Text) : ∃ rest,
    (judgeDmarc record (some name) expected).observed =
      some (normalizeSpaces record ++ " (at ".toList ++ rest) := by
  have hshown : ∀ more, normalizeSpaces record ++ " (at ".toList ++ name ++ ")".toList ++ more =
      normalizeSpaces record ++ " (at ".toList ++ (name ++ ")".toList ++ more) := by
    simp only [List.append_assoc, implies_true]
  have hwhole : normalizeSpaces record ++ " (at ".toList ++ name ++ ")".toList =
      normalizeSpaces record ++ " (at ".toList ++ (name ++ ")".toList) := List.append_assoc _ _ _
  unfold judgeDmarc
  dsimp only
  cases (dmarcTag record "p".toList).bind policyRank with
  | none => exact ⟨_, congrArg some (by rw [List.append_assoc _ " — ".toList, hshown])⟩
  | some rank =>
    cases expected with
    | none => exact ⟨_, congrArg some hwhole⟩
    | some want =>
      dsimp only
      cases policyRank want with
      | none => exact ⟨_, congrArg some (by rw [List.append_assoc _ " — ".toList, hshown])⟩
      | some least =>
        dsimp only
        split_ifs
        · exact ⟨_, congrArg some (by rw [List.append_assoc _ " — ".toList, hshown])⟩
        · exact ⟨_, congrArg some (by rw [List.append_assoc _ " — stricter than the expected p=".toList, hshown])⟩
        · exact ⟨_, congrArg some hwhole⟩

theorem evaluate_dmarc {expected : Expected} {r : DomainResult} (h : evaluate expected o = some r) :
    checkDmarc o.dmarcTxt o.dmarcFoundAt expected.dmarcPolicy = some r.dmarc := by
  obtain ⟨spf, -, h⟩ := Option.bind_eq_some_iff.mp h
  obtain ⟨dmarc, hdmarc, h⟩ := Option.bind_eq_some_iff.mp h
  obtain rfl := Option.some.inj h
  exact hdmarc

/-- What is said of the record is read as a part of its last tag. -/
theorem policy_of_shown (h : EndsWithPolicy record) (rest : Text) :
    (dmarcTag (record ++ " (at ".toList ++ rest) "p".toList).bind policyRank = none := by
  obtain ⟨front, last, key, value, rfl, hlast, hfront, hsplit, hkey⟩ := h
  obtain ⟨rfl, hkeyEq⟩ := splitOnce_spec hsplit
  obtain ⟨parts, hparts⟩ := exists_splitOn ';' (key ++ '=' :: value ++ " (at ".toList ++ rest)
  have htake : (key ++ '=' :: value ++ " (at ".toList ++ rest).takeWhile (· ≠ ';') =
      key ++ '=' :: (value ++ " (at ".toList ++ rest.takeWhile (· ≠ ';')) := by
    rw [List.takeWhile_append_of_pos]
    · simp only [List.append_assoc, List.cons_append]
    · intro c hc
      rw [decide_eq_true_eq]
      rintro rfl
      obtain hc | hc := List.mem_append.mp hc
      · exact hlast hc
      · exact absurd hc (by decide)
  have hwhole : front ++ ';' :: (key ++ '=' :: value) ++ " (at ".toList ++ rest =
      front ++ ';' :: (key ++ '=' :: value ++ " (at ".toList ++ rest) := by
    simp only [List.append_assoc, List.cons_append]
  rw [hwhole, dmarcTag_append, hfront, Option.none_or, dmarcTag, hparts, List.findSome?_cons, htake,
    splitOnce_of_notMem hkeyEq]
  simp only [Option.bind_some, hkey, if_true]
  exact policyRank_of_paren (mem_trim rfl (List.mem_append_left _ (List.mem_append_right _ (by decide))))

/-- The row of the policy as it was last seen. -/
theorem mem_recordRows {check : Option DomainCheck} {observed : Text}
    (h : check.bind (·.dmarcObserved) = some observed) : ∃ row ∈ recordRows d check,
      row.kind = "dmarc".toList ∧ row.type = "TXT".toList ∧ row.value = observed := by
  unfold recordRows
  rw [h]
  exact ⟨_, List.mem_append_left _ (.tail _ (.tail _ (.head _))), rfl, rfl, rfl⟩

/-- A policy that is shown after a check, and published as it is shown, is none. -/
theorem shown_policy_fails [Platform] {db db' : Registry} {now : Time} {name : Text}
    (hobserve : (@observe dns d.domain d.dkimSelector).run = some (.ok o))
    (hfound : tryFind isDmarc o.dmarcTxt = some (some record)) (hname : o.dmarcFoundAt = some name)
    (hlast : EndsWithPolicy (normalizeSpaces record))
    (hrun : (@CheckRounds.checkDomain dns mailbox peer nonce d).run = some (.ok result))
    (hdb : Domain.recordCheck db now d.id result = some db') :
    ∃ row ∈ (domainView db' d).records, row.kind = "dmarc".toList ∧ row.type = "TXT".toList ∧
      ∀ foundAt policy, ¬ (checkDmarc [row.value] foundAt policy).any (·.status = .ok) := by
  obtain ⟨o', r, hobserve', heval, hresult, -⟩ := CheckRounds.checkDomain_ok hrun
  obtain rfl := Except.ok.inj (Option.some.inj (hobserve.symm.trans hobserve'))
  have hdmarc : r.dmarc = judgeDmarc record (some name) d.dmarcPolicyExpected := by
    have hcheck := evaluate_dmarc heval
    rw [checkDmarc, hfound, hname] at hcheck
    exact (Option.some.inj hcheck).symm
  obtain ⟨rest, hrest⟩ := judgeDmarc_observed record name d.dmarcPolicyExpected
  have hcheck : (Domain.latestChecks db' d.id).bind (·.dmarcObserved) =
      some (normalizeSpaces record ++ " (at ".toList ++ rest) := by
    rw [CheckRounds.latestChecks_recordCheck hdb, if_pos rfl, Option.bind_some, Domain.checkRow, hresult,
      hdmarc, hrest]
  obtain ⟨row, hrow, hkind, htype, hvalue⟩ := mem_recordRows hcheck
  refine ⟨row, hrow, hkind, htype, fun foundAt policy ↦ ?_⟩
  rw [hvalue, checkDmarc, tryFind]
  cases isDmarc (normalizeSpaces record ++ " (at ".toList ++ rest) with
  | none => exact Bool.false_ne_true
  | some found =>
    cases found with
    | false => exact Bool.false_ne_true
    | true =>
      change ¬ (some (judgeDmarc _ foundAt policy)).any _
      rw [Option.any_some, decide_eq_true_eq, judgeDmarc_status, policy_of_shown hlast]
      intro hok
      cases hok

end Shown

section Example

attribute [local instance] Platform.ascii

def exampleRequest : DomainAdd where
  domain := " Example.com. ".toList
  dmarcPolicyExpected := some "None".toList
  spfExpected := some "v=spf1 -all".toList
  dkimSelector := "s".toList
  dkimPublicKey := List.replicate 64 'A'
  mxExpected := some "mail.example.com".toList

def exampleDomain : SendingDomain where
  id := 1
  domain := "example.com".toList
  spfExpected := "v=spf1 -all".toList
  dkimSelector := "s".toList
  dkimPublicKey := List.replicate 64 'A'
  mxExpected := some "mail.example.com".toList
  dmarcPolicyExpected := some "none".toList
  createdAt := 0
  createdBy := "ops".toList

@[reducible] def publishing : Resolver where
  txtLookup name :=
    if name = exampleDomain.domain then .ok [[utf8 exampleDomain.spfExpected]]
    else if name = dkimName exampleDomain then .ok [[utf8 (dkimValue exampleDomain)]]
    else if name = dmarcName exampleDomain then .ok [[utf8 "v=DMARC1; p=none".toList]]
    else .error .noRecordsFound
  mxLookup name :=
    if name = exampleDomain.domain then .ok ["Mail.example.com.".toList] else .error .noRecordsFound

theorem publishes_example : Publishes publishing exampleDomain.domain (recordRows exampleDomain none) where
  txt := by decide +kernel
  mx := by
    have hrows : ∀ row ∈ recordRows exampleDomain none, row.type = "MX".toList →
        row.name = exampleDomain.domain ∧ row.value = "10 mail.example.com".toList := by
      decide +kernel
    intro row hrow hmx
    obtain ⟨hname, hvalue⟩ := hrows row hrow hmx
    exact ⟨"mail.example.com".toList, "Mail.example.com.".toList, hvalue, by decide +kernel,
      hname ▸ rfl⟩
  answered := ⟨_, rfl⟩

theorem prescribed_verifies_example : ∃ db' view,
    domainAdd none "ops".toList {} 0 exampleRequest = (db', .ok view) ∧
    ∃ result, (@CheckRounds.checkDomain publishing none CheckRounds.unreachable none view.domain).run =
      some (.ok result) ∧ result.valid := by
  have hadd : (domainAdd none "ops".toList {} 0 exampleRequest).2.toOption =
      some ⟨exampleDomain, recordRows exampleDomain none, none⟩ := by decide +kernel
  generalize hres : domainAdd none "ops".toList {} 0 exampleRequest = res at hadd
  obtain ⟨db', err | view⟩ := res
  · cases hadd
  · obtain rfl := Option.some.inj hadd
    exact ⟨db', _, rfl, (prescribed_verifies hres publishes_example).mpr
      ⟨isSpf_eq_true.mp (by decide +kernel), by decide +kernel, .inr rfl⟩⟩

/-- The suggested policy is published, and shown with the name that it was found at. -/
theorem shown_policy_fails_example : ∃ (result : DomainResult) (db' : Registry),
    (@CheckRounds.checkDomain publishing none CheckRounds.unreachable none exampleDomain).run =
      some (.ok result) ∧
    Domain.recordCheck CheckRounds.registered.db 0 1 result = some db' ∧
    ∃ row ∈ (domainView db' exampleDomain).records, row.kind = "dmarc".toList ∧
      row.type = "TXT".toList ∧ ¬ (checkDmarc [row.value] none none).any (·.status = .ok) := by
  have hcheck : (@CheckRounds.checkDomain publishing none CheckRounds.unreachable none
      exampleDomain).run.any fun res ↦ res.toOption.any fun result ↦
        (Domain.recordCheck CheckRounds.registered.db 0 1 result).isSome := by decide +kernel
  obtain ⟨res, hrun, hres⟩ := (Option.any_eq_true _ _).mp hcheck
  obtain ⟨result, hresult, hstored⟩ := (Option.any_eq_true _ _).mp hres
  obtain ⟨db', hdb⟩ := Option.isSome_iff_exists.mp hstored
  cases res with
  | error err => cases hresult
  | ok r =>
    obtain rfl := Option.some.inj hresult
    have hobs : (@observe publishing exampleDomain.domain exampleDomain.dkimSelector).run =
        some (.ok { domainTxt := [exampleDomain.spfExpected], dkimTxt := [dkimValue exampleDomain]
                    dmarcTxt := ["v=DMARC1; p=none".toList]
                    dmarcFoundAt := some (dmarcName exampleDomain)
                    mx := ["Mail.example.com.".toList] }) := by decide +kernel
    have hends : EndsWithPolicy (normalizeSpaces "v=DMARC1; p=none".toList) :=
      ⟨"v=DMARC1".toList, " p=none".toList, " p".toList, "none".toList, by decide +kernel,
        by decide +kernel, by decide +kernel, by decide +kernel, by decide +kernel⟩
    obtain ⟨row, hrow, hkind, htype, hfails⟩ := shown_policy_fails hobs (by decide +kernel) rfl hends
      hrun hdb
    exact ⟨r, db', hrun, hdb, row, hrow, hkind, htype, hfails none none⟩

end Example

end Postbud.Api
