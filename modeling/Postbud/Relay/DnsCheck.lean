import Postbud.Core.DnsOrder
import Postbud.Lib.DmarcPolicy
import Postbud.Lib.Result
import Postbud.Lib.Utf8

namespace Postbud.DnsCheck

open Lib Lib.Text Lib.ByteSlice Lib.Utf8 Lib.Result
open Lib.DmarcPolicy (Policy Governs Demands Readable)

inductive ResolveError
  | noRecordsFound
  | other (message : Text)
  deriving DecidableEq

/-- What the resolver answers: a TXT record comes in chunks. -/
class Resolver where
  txtLookup : Text → Except ResolveError (List (List Bytes))
  mxLookup : Text → Except ResolveError (List Text)

/-- That there are no records is an answer. -/
def emptyIfAbsent {α : Type} : Except ResolveError (List α) → Except ResolveError (List α)
  | .error .noRecordsFound => .ok []
  | result => result

section Observe

variable [Resolver]

def txt (name : Text) : Except ResolveError (List Text) :=
  (emptyIfAbsent (Resolver.txtLookup name)).map (List.map fun record ↦ record.flatMap fromUtf8Lossy)

def mx (name : Text) : Except ResolveError (List Text) := emptyIfAbsent (Resolver.mxLookup name)

/-- The first name that answers with a DMARC record, and all it answers. -/
def findDmarc : List Text → Except ResolveError (Option (Text × List Text))
  | [] => .ok none
  | name :: names => do
    let records ← txt name
    if records.any authorizes then return some (name, records)
    findDmarc names

def ask {α : Type} (answer : Except ResolveError α) : ExceptT ResolveError Option α :=
  .mk (some answer)

/-- The names at which other domains consent to the reports of that record. -/
def consents (found : Option (Text × List Text)) : ExceptT ResolveError Option (List (Text × List Text)) :=
  match found with
  | none => return []
  | some (foundAt, records) =>
    match records.find? authorizes with
    | none => return []
    | some record => do
      let names ← .lift (reportAuthNames ((stripPrefix "_dmarc.".toList foundAt).getD foundAt) record)
      names.mapM fun name ↦ do return (name, ← ask (txt name))

/-- Everything the evaluation needs for one domain. -/
def observe (domain dkimSelector : Text) : ExceptT ResolveError Option Observed := do
  let domainTxt ← ask (txt domain)
  let dkimTxt ← ask (txt (dkimSelector ++ "._domainkey.".toList ++ domain))
  let found ← ask (findDmarc (dmarcNames domain))
  let mx ← ask (mx domain)
  let reportAuth ← consents found
  return {
    domainTxt, dkimTxt, mx, reportAuth
    dmarcTxt := (found.map (·.2)).getD []
    dmarcFoundAt := found.map (·.1) }

end Observe

/-! What receivers apply to mail from a domain. -/

section Receivers

variable [Resolver]

def answers (name : Text) : List Text := match txt name with
  | .ok records => records
  | .error _ => []

/-- What a domain answers with at its own name, and where it inherits from. -/
def ownAnswers (domain : Text) : List Text :=
  answers ("_dmarc.".toList ++ toAsciiLowercase (trimEndMatches '.' domain))

def organizationalAnswers (domain : Text) : List Text :=
  answers ("_dmarc.".toList ++ organizationalDomain (toAsciiLowercase (trimEndMatches '.' domain)))

def protection (domain : Text) : Policy :=
  DmarcPolicy.applied (ownAnswers domain) (organizationalAnswers domain)

/-- What the check takes for the DMARC records of a domain: its own, or those of
its organizational domain where it has none. -/
def taken (domain : Text) : List Text :=
  if (ownAnswers domain).filter authorizes = [] then
    (organizationalAnswers domain).filter authorizes
  else (ownAnswers domain).filter authorizes

def level (tag : Option Text) : ℕ := (tag.bind policyRank).getD 0

end Receivers

section Discovery

variable {domain : Text}

theorem authorizes_iff {t : Text} : authorizes t ↔ HasVersion "v=DMARC1".toList t := by
  simp only [authorizes, Option.any_eq_true, Prod.exists, splitAtByte_eq_some, and_assoc]
  rfl

theorem trimEndMatches_toAsciiLowercase (t : Text) :
    trimEndMatches '.' (toAsciiLowercase t) = toAsciiLowercase (trimEndMatches '.' t) := by
  have hdot : (fun c ↦ decide (c = '.')) ∘ asciiLower = fun c ↦ decide (c = '.') := by
    funext c
    exact decide_eq_decide.mpr (asciiLower_eq_iff (by decide) (by decide))
  rw [trimEndMatches, List.rdropWhile, toAsciiLowercase, ← List.map_reverse, List.dropWhile_map,
    hdot, ← List.map_reverse]
  rfl

/-- The last labels of a name are not empty unless it is. -/
theorem organizationalDomain_eq_nil (h : organizationalDomain domain = []) :
    trimEndMatches '.' domain = [] := by
  have hjoin : ['.'].intercalate ((trimEndMatches '.' domain).splitOn '.') = _ :=
    List.intercalate_splitOn '.'
  have hempty := List.map_eq_nil_iff.mp h
  generalize (trimEndMatches '.' domain).splitOn '.' = labels at hjoin hempty
  by_cases hlen : labels.length ≤ 2
  · rw [Nat.sub_eq_zero_of_le hlen, List.drop_zero] at hempty
    exact hjoin.symm.trans hempty
  · have htwo : (labels.drop (labels.length - 2)).length = 2 := by
      rw [List.length_drop]
      omega
    obtain ⟨a, b, hab⟩ := List.length_eq_two.mp htwo
    rw [hab, join, List.intercalate_cons_cons] at hempty
    simp at hempty

theorem any_authorizes {records : List Text} :
    records.any authorizes = false ↔ records.filter authorizes = [] := by
  simp only [List.any_eq_false, List.filter_eq_nil_iff]

theorem head?_filter_authorizes {records : List Text} {found : Option Text}
    (h : tryFind isDmarc records = some found) : (records.filter authorizes).head? = found := by
  rw [List.head?_filter, ← find?_of_tryFind h]
  congr 1
  funext t
  rw [Bool.eq_iff_iff, decide_eq_true_eq, isDmarc_eq_true, authorizes_iff]

variable [Resolver] {dkimSelector : Text} {o : Observed}

theorem findDmarc_taken {found : Option (Text × List Text)}
    (h : findDmarc (dmarcNames domain) = .ok found) :
    ((found.map (·.2)).getD []).filter authorizes = taken domain := by
  unfold dmarcNames at h
  unfold taken ownAnswers organizationalAnswers
  dsimp only at h
  have htrim : trimEndMatches '.' (toAsciiLowercase (trimEndMatches '.' domain)) =
      toAsciiLowercase (trimEndMatches '.' domain) := by
    rw [trimEndMatches_toAsciiLowercase]
    exact congrArg _ (List.rdropWhile_idempotent _ _)
  generalize toAsciiLowercase (trimEndMatches '.' domain) = name at h htrim ⊢
  obtain ⟨records, hrecords, h⟩ := ok_of_bind h
  have hanswers : answers ("_dmarc.".toList ++ name) = records := by
    rw [answers, hrecords]
  rw [hanswers]
  cases hany : records.any authorizes with
  | true =>
    rw [hany, if_pos rfl] at h
    obtain rfl := Except.ok.inj h
    rw [if_neg (by rw [← any_authorizes, hany]; decide)]
    rfl
  | false =>
    rw [hany, if_neg (by decide)] at h
    rw [if_pos (any_authorizes.mp hany)]
    split_ifs at h with horg
    · obtain ⟨inherited, hinherited, h⟩ := ok_of_bind h
      have hanswers : answers ("_dmarc.".toList ++ organizationalDomain name) = inherited := by
        rw [answers, hinherited]
      rw [hanswers]
      cases hany : inherited.any authorizes with
      | true =>
        rw [hany, if_pos rfl] at h
        obtain rfl := Except.ok.inj h
        rfl
      | false =>
        rw [hany, if_neg (by decide)] at h
        obtain rfl := Except.ok.inj h
        exact (any_authorizes.mp hany).symm
    · -- The organizational domain is the domain itself, and has been asked.
      have hsame : organizationalDomain name = name := by
        by_cases hname : organizationalDomain name = name
        · exact hname
        · have hnil : organizationalDomain name = [] := not_not.mp fun h ↦ horg ⟨hname, h⟩
          rw [hnil, ← htrim]
          exact (organizationalDomain_eq_nil hnil).symm
      obtain rfl := Except.ok.inj h
      rw [hsame, hanswers]
      exact (any_authorizes.mp hany).symm

theorem observe_dmarcTxt (h : (observe domain dkimSelector).run = some (.ok o)) :
    o.dmarcTxt.filter authorizes = taken domain := by
  obtain ⟨domainTxt, -, h⟩ := run_ok_of_bind h
  obtain ⟨dkimTxt, -, h⟩ := run_ok_of_bind h
  obtain ⟨found, hfound, h⟩ := run_ok_of_bind h
  obtain ⟨mx, -, h⟩ := run_ok_of_bind h
  obtain ⟨reportAuth, -, h⟩ := run_ok_of_bind h
  obtain rfl := Except.ok.inj (Option.some.inj h)
  exact findDmarc_taken (Option.some.inj hfound)

/-- The badge is green exactly where the first record that is taken for one
enforces the expected policy. -/
theorem evaluate_dmarc_ok {expected : Expected} {r : DomainResult}
    (hobs : (observe domain dkimSelector).run = some (.ok o)) (heval : evaluate expected o = some r) :
    r.dmarc.status = .ok ↔ ∃ record rest, taken domain = record :: rest ∧
      Enforces expected.dmarcPolicy record := by
  obtain ⟨spf, -, heval⟩ := Option.bind_eq_some_iff.mp heval
  obtain ⟨dmarc, hdmarc, heval⟩ := Option.bind_eq_some_iff.mp heval
  obtain rfl := Option.some.inj heval
  obtain ⟨found, hfound, hjudged⟩ := Option.bind_eq_some_iff.mp hdmarc
  have hhead := head?_filter_authorizes hfound
  rw [observe_dmarcTxt hobs] at hhead
  cases found with
  | none =>
    obtain rfl := Option.some.inj hjudged
    rw [List.head?_eq_none_iff.mp hhead]
    exact iff_of_false nofun nofun
  | some record =>
    obtain rfl := Option.some.inj hjudged
    obtain ⟨rest, hrest⟩ := List.head?_eq_some_iff.mp hhead
    rw [hrest]
    constructor
    · exact fun hok ↦ ⟨record, rest, rfl, (judgeDmarc_ok _).mp hok⟩
    · rintro ⟨_, _, h, henforces⟩
      obtain ⟨rfl, rfl⟩ := List.cons.inj h
      exact (judgeDmarc_ok _).mpr henforces

end Discovery

section Reading

variable {record : Text}

theorem trimEnds_isWsp {t : Text} (h : ∀ c ∈ t, isWhitespace c → DmarcPolicy.isWsp c) :
    trimEnds DmarcPolicy.isWsp t = trim t := by
  have hsame : ∀ c ∈ t, DmarcPolicy.isWsp c = isWhitespace c := by
    intro c hc
    refine Bool.eq_iff_iff.mpr ⟨fun hwsp ↦ ?_, h c hc⟩
    rcases (Bool.or_eq_true _ _).mp hwsp with hc | hc <;> rw [of_decide_eq_true hc] <;> rfl
  exact trimEnds_congr hsame

theorem trim_of_dmarcTag {name value : Text} (h : dmarcTag record name = some value) :
    trim value = value := by
  obtain ⟨part, -, hpart⟩ := List.exists_of_findSome?_eq_some h
  obtain ⟨⟨key, raw⟩, -, hread⟩ := Option.bind_eq_some_iff.mp hpart
  obtain ⟨-, hread⟩ := Option.ite_none_right_eq_some.mp hread
  obtain rfl := Option.some.inj hread
  exact trim_trim raw

theorem policyRank_of_trim {value : Text} (h : trim value = value) :
    policyRank value = (DmarcPolicy.policyOf value).map Policy.level := by
  rw [policyRank, h, DmarcPolicy.policyOf, POLICY_LADDER]
  generalize toAsciiLowercase value = word
  simp only [List.findIdx?_cons, List.findIdx?_nil, eq_comm (b := word), decide_eq_true_eq]
  by_cases hnone : word = "none".toList
  · rw [if_pos hnone, if_pos hnone]
    rfl
  rw [if_neg hnone, if_neg hnone]
  by_cases hquarantine : word = "quarantine".toList
  · rw [if_pos hquarantine, if_pos hquarantine]
    rfl
  rw [if_neg hquarantine, if_neg hquarantine]
  split_ifs <;> rfl

/-- Where all white space is spaces and tabs, the check finds the tags that receivers find. -/
theorem dmarcTag_eq_tag {name : Text} (hname : DmarcPolicy.isTagName name)
    (hlower : toAsciiLowercase name = name)
    (h : ∀ c ∈ record, isWhitespace c → DmarcPolicy.isWsp c) :
    dmarcTag record name = DmarcPolicy.tag record name := by
  rw [DmarcPolicy.tag_eq_findSome? hname]
  rw [dmarcTag, ← List.head?_filterMap, ← List.head?_filterMap]
  refine congrArg _ (List.filterMap_congr fun part hpart ↦ ?_)
  cases hsplit : splitOnce '=' part with
  | none => rfl
  | some pair =>
    obtain ⟨key, value⟩ := pair
    obtain ⟨rfl, -⟩ := splitOnce_spec hsplit
    have hpart : ∀ c ∈ key ++ '=' :: value, isWhitespace c → DmarcPolicy.isWsp c :=
      fun c hc ↦ h c (mem_of_mem_splitOn hpart hc).1
    have hkey := trimEnds_isWsp fun c hc ↦ hpart c (List.mem_append_left _ hc)
    have hvalue := trimEnds_isWsp fun c hc ↦
      hpart c (List.mem_append_right _ (List.mem_cons_of_mem _ hc))
    simp only [Option.bind_some, hkey, hvalue, eqIgnoreAsciiCase, hlower, decide_eq_true_eq]

/-- It reads the policy that they read, too. -/
theorem level_dmarcTag (h : ∀ c ∈ record, isWhitespace c → DmarcPolicy.isWsp c) :
    level (dmarcTag record "p".toList) =
      (DmarcPolicy.policyIn record "p".toList).elim 0 Policy.level := by
  rw [DmarcPolicy.policyIn, ← dmarcTag_eq_tag (by decide) (by decide) h]
  cases hp : dmarcTag record "p".toList with
  | none => rfl
  | some value =>
    have htrim : trim value = value := trim_of_dmarcTag hp
    rw [level, Option.bind_some, Option.bind_some, policyRank_of_trim htrim]
    cases DmarcPolicy.policyOf value <;> rfl

end Reading

section Badge

variable [Resolver] {domain dkimSelector : Text} {expected : Expected} {o : Observed}
  {r : DomainResult}

/-- If the first record that is taken for one has a `p=` of that level, then one
record decides for receivers, and the tag of it that counts has that level too. -/
def Covered (domain : Text) (least : ℕ) : Prop :=
  ∀ record rest, taken domain = record :: rest →
    least ≤ level (dmarcTag record "p".toList) → least = 0 ∨ ∃ inherited governing,
      Governs (ownAnswers domain) (organizationalAnswers domain) inherited governing ∧
        Demands governing inherited least

/-- What a green badge says of the receivers holds where they read a record as
the badge does, and no other record and no `sp=` undoes it. -/
theorem green_badge_iff (hobs : (observe domain dkimSelector).run = some (.ok o))
    (heval : evaluate expected o = some r) :
    (r.dmarc.status = .ok → ∀ want least, expected.dmarcPolicy = some want →
      policyRank want = some least → least ≤ (protection domain).level) ↔
    ∀ want least, expected.dmarcPolicy = some want → policyRank want = some least →
      Covered domain least := by
  rw [evaluate_dmarc_ok hobs heval]
  constructor
  · intro h want least hexpected hwant record rest htaken hp
    rw [← DmarcPolicy.le_level_applied]
    cases hrank : (dmarcTag record "p".toList).bind policyRank with
    | none =>
      -- No policy is read, and nothing less than none is expected.
      simp only [level, hrank, Option.getD_none] at hp
      omega
    | some rank =>
      simp only [level, hrank, Option.getD_some] at hp
      refine h ⟨record, rest, htaken, ?_⟩ want least hexpected hwant
      rw [hexpected, enforces_iff hwant]
      exact ⟨rank, hrank, hp⟩
  · rintro h ⟨record, rest, htaken, henforces⟩ want least hexpected hwant
    rw [hexpected, enforces_iff hwant] at henforces
    obtain ⟨rank, hrank, hle⟩ := henforces
    have hp : least ≤ level (dmarcTag record "p".toList) := by
      rwa [level, hrank]
    exact DmarcPolicy.le_level_applied.mpr (h want least hexpected hwant record rest htaken hp)

/-- An own record that receivers read as the badge does covers every level. -/
theorem covered_of_own {record : Text} {rest : List Text} (htaken : taken domain = record :: rest)
    (hown : (ownAnswers domain).filter DmarcPolicy.isRecord = [record]) (hread : Readable record)
    (hwsp : ∀ c ∈ record, isWhitespace c → DmarcPolicy.isWsp c) (least : ℕ) :
    Covered domain least := by
  intro record' rest' htaken' hp
  obtain ⟨rfl, rfl⟩ := List.cons.inj (htaken.symm.trans htaken')
  obtain ⟨policy, hpolicy⟩ := Option.isSome_iff_exists.mp hread.p
  rw [level_dmarcTag hwsp, hpolicy, Option.elim_some] at hp
  exact .inr ⟨false, record, .own hown, hread, policy, hpolicy, hp⟩

end Badge

/-- An organizational domain that rejects, except for its subdomains. -/
@[reducible] def Resolver.lenient : Resolver where
  txtLookup name :=
    if name = "_dmarc.example.com".toList then .ok [[utf8 "v=DMARC1; p=reject; sp=none".toList]]
    else .error .noRecordsFound
  mxLookup _ := .error .noRecordsFound

attribute [local instance] Resolver.lenient

def rejecting : Expected := ⟨[], [], none, some "reject".toList⟩

def observedAt : Observed where
  dmarcTxt := ["v=DMARC1; p=reject; sp=none".toList]
  dmarcFoundAt := some "_dmarc.example.com".toList

/-- The domain itself is as protected as its badge says. -/
theorem green_badge_iff_own : 2 ≤ (protection "example.com".toList).level := by
  have hobs : (observe "example.com".toList "s".toList).run = some (.ok observedAt) := by
    decide +kernel
  have hstatus : (evaluate rejecting observedAt).map (fun r ↦ r.dmarc.status) = some .ok := by
    decide +kernel
  obtain ⟨r, hr, hok⟩ := Option.map_eq_some_iff.mp hstatus
  have htaken : taken "example.com".toList = ["v=DMARC1; p=reject; sp=none".toList] := by
    decide +kernel
  refine (green_badge_iff hobs hr).mpr ?_ hok "reject".toList 2 rfl (by decide)
  intro want least _ _
  exact covered_of_own htaken (by decide +kernel) (by decide +kernel) (by decide +kernel) least

/-- Its subdomain is not. -/
theorem subdomain_unprotected : ¬ ∀ (_ : Resolver) (domain dkimSelector : Text)
    (expected : Expected) (o : Observed) (r : DomainResult),
    (observe domain dkimSelector).run = some (.ok o) → evaluate expected o = some r →
    r.dmarc.status = .ok → ∀ want least, expected.dmarcPolicy = some want →
      policyRank want = some least → least ≤ (protection domain).level := by
  intro h
  have hobs : (observe "mail.example.com".toList "s".toList).run = some (.ok observedAt) := by
    decide +kernel
  have hstatus : (evaluate rejecting observedAt).map (fun r ↦ r.dmarc.status) = some .ok := by
    decide +kernel
  obtain ⟨r, hr, hok⟩ := Option.map_eq_some_iff.mp hstatus
  have hle := h _ _ _ _ _ _ hobs hr hok "reject".toList 2 rfl (by decide)
  have hzero : (protection "mail.example.com".toList).level = 0 := by decide +kernel
  omega

end Postbud.DnsCheck
