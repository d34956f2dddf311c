import Postbud.Lib.ByteSlice

namespace Postbud.DnsCheck

open Lib Lib.Text Lib.ByteSlice

/-- What DNS answered. -/
structure Observed where
  domainTxt : List Text := []
  dkimTxt : List Text := []
  dmarcTxt : List Text := []
  dmarcFoundAt : Option Text := none
  mx : List Text := []
  reportAuth : List (Text × List Text) := []
  deriving DecidableEq

/-- What DNS is supposed to say. -/
structure Expected where
  spf : Text
  dkimPublicKey : Text
  mx : Option Text
  dmarcPolicy : Option Text
  deriving DecidableEq

inductive Status
  | ok
  | missing
  | mismatch
  deriving DecidableEq, Repr

structure RecordResult where
  status : Status
  observed : Option Text
  deriving DecidableEq

structure DomainResult where
  spf : RecordResult
  dkim : RecordResult
  dmarc : RecordResult
  mx : Option RecordResult
  bounce : Option RecordResult
  reportAuth : Option RecordResult
  valid : Bool
  deriving DecidableEq

def trimEndMatches (c : Char) (t : Text) : Text := t.rdropWhile (· = c)

def eqIgnoreAsciiCase (a b : Text) : Bool := toAsciiLowercase a = toAsciiLowercase b

def join (sep : Text) (parts : List Text) : Text := sep.intercalate parts

def normalizeSpaces (t : Text) : Text := join [' '] (splitWhitespace t)

/-- `t.len() >= n && t[..n].eq_ignore_ascii_case(word)` -/
def startsAt (n : ℕ) (word t : Text) : Option Bool :=
  if n ≤ byteLength t then (splitAtByte n t).map fun p ↦ eqIgnoreAsciiCase p.1 word else some false

def isSpf (t : Text) : Option Bool := startsAt 6 "v=spf1".toList (trimStart t)

def isDmarc (t : Text) : Option Bool := startsAt 8 "v=DMARC1".toList (trimStart t)

def checkSpf (observed : List Text) (expected : Text) : Option RecordResult := do
  match ← tryFilter isSpf observed with
  | [] => return ⟨.missing, none⟩
  | [record] =>
    let seen := normalizeSpaces record
    return ⟨if eqIgnoreAsciiCase seen (normalizeSpaces expected) then .ok else .mismatch, some seen⟩
  | spf => return ⟨.mismatch, some (decimal spf.length ++
      " SPF records — RFC 7208 PermError; receivers treat the domain as having none".toList)⟩

def stripKey (t : Text) : Text := t.filter fun c ↦ !isWhitespace c && c ≠ '"'

def dkimKeyOf (record : Text) : Option Text :=
  (record.splitOn ';').findSome? fun tag ↦ (stripPrefix "p=".toList (trim tag)).map stripKey

def checkDkim (observed : List Text) (expectedKey : Text) : RecordResult :=
  if observed = [] then ⟨.missing, none⟩
  else if observed.any fun record ↦ dkimKeyOf record = some (stripKey expectedKey) then
    ⟨.ok, some "published key matches the signing key".toList⟩
  else ⟨.mismatch,
    some "a DKIM record exists but its key is NOT the relay's signing key".toList⟩

/-- The enforcement levels, weakest first. -/
def POLICY_LADDER : List Text := ["none".toList, "quarantine".toList, "reject".toList]

def policyRank (p : Text) : Option ℕ := POLICY_LADDER.findIdx? (· = toAsciiLowercase (trim p))

def dmarcTag (record name : Text) : Option Text :=
  (record.splitOn ';').findSome? fun part ↦ (splitOnce '=' part).bind fun (key, value) ↦
    if eqIgnoreAsciiCase (trim key) name then some (trim value) else none

/-- What is said of the DMARC record once it is found. -/
def judgeDmarc (record : Text) (foundAt expected : Option Text) : RecordResult :=
  let shown := match foundAt with
    | some name => normalizeSpaces record ++ " (at ".toList ++ name ++ ")".toList
    | none => normalizeSpaces record
  let mismatch (why : Text) : RecordResult := ⟨.mismatch, some (shown ++ " — ".toList ++ why)⟩
  let found := dmarcTag record "p".toList
  match found.bind policyRank with
  | none => mismatch <| match found with
    | some p => "'p=".toList ++ p ++ "' is not one of ".toList ++ join ", ".toList POLICY_LADDER ++
        "; receivers that cannot read the policy fall back to no enforcement".toList
    | none => "no p= tag, so the record enforces nothing".toList
  | some rank =>
    match expected with
    | none => ⟨.ok, some shown⟩
    | some want =>
      match policyRank want with
      | none => mismatch ("expected policy '".toList ++ want ++ "' is not a DMARC policy".toList)
      | some wantRank =>
        if rank < wantRank then
          mismatch ("expected p=".toList ++ want ++ ", published p=".toList ++ found.getD [] ++
            " — the domain is enforcing LESS than it is meant to".toList)
        else if wantRank < rank then
          ⟨.ok, some (shown ++ " — stricter than the expected p=".toList ++ want)⟩
        else ⟨.ok, some shown⟩

def checkDmarc (observed : List Text) (foundAt expected : Option Text) : Option RecordResult := do
  match ← tryFind isDmarc observed with
  | none => return ⟨.missing, none⟩
  | some record => return judgeDmarc record foundAt expected

def normalizeHost (h : Text) : Text := toAsciiLowercase (trimEndMatches '.' (trim h))

def checkMx (observed : List Text) (expected : Text) : RecordResult :=
  if observed = [] then ⟨.missing, none⟩
  else ⟨if observed.any fun h ↦ normalizeHost h = normalizeHost expected then .ok else .mismatch,
    some (join ", ".toList observed)⟩

/-- The last two labels. -/
def organizationalDomain (domain : Text) : Text :=
  let labels := (trimEndMatches '.' domain).splitOn '.'
  toAsciiLowercase (join ['.'] (labels.drop (labels.length - 2)))

/-- The host of one address of a `rua=` tag. -/
def ruaHost (uri : Text) : Option (Option Text) :=
  let uri := trim uri
  if byteLength uri < 7 then some none
  else (splitAtByte 7 uri).map fun (scheme, addr) ↦
    if eqIgnoreAsciiCase scheme "mailto:".toList then
      (rsplitOnce '@' (addr.takeWhile (· ≠ '!'))).bind fun (_, host) ↦
        let host := normalizeHost host
        if host = [] then none else some host
    else none

def ruaUris (record : Text) : List Text :=
  (record.splitOn ';').flatMap fun tag ↦ match splitOnce '=' tag with
    | none => []
    | some (key, value) => if eqIgnoreAsciiCase (trim key) "rua".toList then value.splitOn ',' else []

/-- The mail domains named by a record's `rua=` tag. -/
def ruaDomains (record : Text) : Option (List Text) :=
  (ruaUris record).foldlM (fun out uri ↦ do
    match ← ruaHost uri with
    | some host => return if host ∈ out then out else out ++ [host]
    | none => return out) []

def reportAuthNames (publishingDomain record : Text) : Option (List Text) := do
  let org := organizationalDomain publishingDomain
  let hosts ← ruaDomains record
  return (hosts.filter fun host ↦ organizationalDomain host ≠ org).map fun host ↦
    publishingDomain ++ "._report._dmarc.".toList ++ host

/-- The version of a record as `get(..8)` reads it. -/
def authorizes (t : Text) : Bool :=
  (splitAtByte 8 (trimStart t)).any fun p ↦ eqIgnoreAsciiCase p.1 "v=DMARC1".toList

def checkReportAuth (observed : List (Text × List Text)) : Option RecordResult :=
  if observed = [] then none
  else
    let missing := (observed.filter fun (_, txt) ↦ !txt.any authorizes).map (·.1)
    if missing = [] then some ⟨.ok, some (join ", ".toList (observed.map (·.1)))⟩
    else some ⟨.missing,
      some ("reports will NOT be sent: ".toList ++ join ", ".toList missing ++ " is missing".toList)⟩

/-- The `_dmarc.` names a receiver would try, in order. -/
def dmarcNames (domain : Text) : List Text :=
  let domain := toAsciiLowercase (trimEndMatches '.' domain)
  let org := organizationalDomain domain
  ("_dmarc.".toList ++ domain) ::
    if org ≠ domain ∧ org ≠ [] then ["_dmarc.".toList ++ org] else []

/-- The verdict on a domain, if no check panics. -/
def evaluate (expected : Expected) (observed : Observed) : Option DomainResult := do
  let spf ← checkSpf observed.domainTxt expected.spf
  let dkim := checkDkim observed.dkimTxt expected.dkimPublicKey
  let dmarc ← checkDmarc observed.dmarcTxt observed.dmarcFoundAt expected.dmarcPolicy
  let mx := expected.mx.map (checkMx observed.mx)
  return {
    spf, dkim, dmarc, mx
    bounce := none
    reportAuth := checkReportAuth observed.reportAuth
    valid := spf.status = .ok && dkim.status = .ok && dmarc.status = .ok &&
      mx.all fun m ↦ m.status = .ok }

/-- The text starts with a version, read as far as a boundary of its characters. -/
def HasVersion (word t : Text) : Prop :=
  ∃ a b, trimStart t = a ++ b ∧ byteLength a = byteLength word ∧ eqIgnoreAsciiCase a word

/-- No character stands across the byte at which the record is cut, or the
record is too short to be cut. -/
def Cuttable (n : ℕ) (t : Text) : Prop := n ≤ byteLength t → IsBoundary n t

/-- The records that a search for the first DMARC record looks at. -/
def Reached (records : List Text) (t : Text) : Prop :=
  ∃ l₁ l₂, records = l₁ ++ t :: l₂ ∧ ∀ u ∈ l₁, ¬ HasVersion "v=DMARC1".toList u

def RuaUri (record uri : Text) : Prop :=
  ∃ tag ∈ record.splitOn ';', ∃ key value, splitOnce '=' tag = some (key, value) ∧
    eqIgnoreAsciiCase (trim key) "rua".toList ∧ uri ∈ value.splitOn ','

variable {n : ℕ} {word t : Text} {records : List Text} {record : Text}

theorem isSome_startsAt : (startsAt n word t).isSome ↔ Cuttable n t := by
  unfold startsAt Cuttable
  split_ifs with h
  · rw [Option.isSome_map, isSome_splitAtByte]
    exact ⟨fun hb _ ↦ hb, fun hb ↦ hb h⟩
  · exact iff_of_true rfl fun h' ↦ absurd h' h

theorem startsAt_eq_true : startsAt n word t = some true ↔
    ∃ a b, t = a ++ b ∧ byteLength a = n ∧ eqIgnoreAsciiCase a word := by
  unfold startsAt
  split_ifs with h
  · simp only [Option.map_eq_some_iff, Prod.exists, splitAtByte_eq_some, and_assoc]
  · refine iff_of_false nofun ?_
    rintro ⟨a, b, rfl, rfl, -⟩
    exact h (byteLength_append a b ▸ Nat.le_add_right _ _)

theorem startsAt_eq_false (hsome : (startsAt n word t).isSome) :
    startsAt n word t = some false ↔
      ¬ ∃ a b, t = a ++ b ∧ byteLength a = n ∧ eqIgnoreAsciiCase a word := by
  rw [← startsAt_eq_true]
  obtain ⟨found, hfound⟩ := Option.isSome_iff_exists.mp hsome
  rw [hfound]
  cases found <;> decide

theorem isSpf_eq_true : isSpf t = some true ↔ HasVersion "v=spf1".toList t := startsAt_eq_true

theorem isDmarc_eq_true : isDmarc t = some true ↔ HasVersion "v=DMARC1".toList t :=
  startsAt_eq_true

theorem isDmarc_eq_false (hsome : (isDmarc t).isSome) :
    isDmarc t = some false ↔ ¬ HasVersion "v=DMARC1".toList t := startsAt_eq_false hsome

theorem isSome_checkSpf (expected : Text) : (checkSpf records expected).isSome ↔
    ∀ t ∈ records, Cuttable 6 (trimStart t) := by
  have hiff : (tryFilter isSpf records).isSome ↔ ∀ t ∈ records, Cuttable 6 (trimStart t) := by
    rw [isSome_tryFilter]
    exact forall₂_congr fun t _ ↦ isSome_startsAt
  rw [← hiff, checkSpf]
  cases tryFilter isSpf records with
  | none => rfl
  | some spf => rcases spf with - | ⟨record, - | -⟩ <;> rfl

theorem isSome_tryFind_isDmarc : (tryFind isDmarc records).isSome ↔
    ∀ t, Reached records t → Cuttable 8 (trimStart t) := by
  rw [isSome_tryFind]
  constructor
  · intro h
    -- Every record before one that is reached is looked at first, and is no DMARC record.
    have hbefore : ∀ l₁ l₂, records = l₁ ++ l₂ → (∀ u ∈ l₁, ¬ HasVersion "v=DMARC1".toList u) →
        ∀ u ∈ l₁, isDmarc u = some false := by
      intro l₁
      induction l₁ using List.reverseRecOn with
      | nil => exact fun _ _ _ ↦ nofun
      | append_singleton l₁ u ih =>
        intro l₂ he hno v hv
        rw [List.append_assoc] at he
        have hall := ih _ he fun w hw ↦ hno w (List.mem_append_left _ hw)
        rcases List.mem_append.mp hv with hv | hv
        · exact hall v hv
        · obtain rfl := List.mem_singleton.mp hv
          exact (isDmarc_eq_false (h l₁ v l₂ he hall)).mpr (hno v (List.mem_append_right _ hv))
    rintro t ⟨l₁, l₂, he, hno⟩
    exact isSome_startsAt.mp (h l₁ t l₂ he (hbefore l₁ _ he hno))
  · intro h l₁ t l₂ he hl
    refine isSome_startsAt.mpr (h t ⟨l₁, l₂, he, fun u hu ↦ ?_⟩)
    have hfalse := hl u hu
    exact (isDmarc_eq_false (by rw [hfalse]; rfl)).mp hfalse

theorem isSome_checkDmarc (foundAt expected : Option Text) :
    (checkDmarc records foundAt expected).isSome ↔
      ∀ t, Reached records t → Cuttable 8 (trimStart t) := by
  rw [← isSome_tryFind_isDmarc, checkDmarc]
  cases tryFind isDmarc records with
  | none => rfl
  | some found => cases found <;> rfl

theorem isSome_evaluate (expected : Expected) (observed : Observed) :
    (evaluate expected observed).isSome ↔
      (∀ t ∈ observed.domainTxt, Cuttable 6 (trimStart t)) ∧
        ∀ t, Reached observed.dmarcTxt t → Cuttable 8 (trimStart t) := by
  rw [← isSome_checkSpf expected.spf,
    ← isSome_checkDmarc observed.dmarcFoundAt expected.dmarcPolicy, evaluate]
  cases checkSpf observed.domainTxt expected.spf with
  | none => simp
  | some spf =>
    cases checkDmarc observed.dmarcTxt observed.dmarcFoundAt expected.dmarcPolicy <;> simp

theorem isSome_ruaHost (uri : Text) : (ruaHost uri).isSome ↔ Cuttable 7 (trim uri) := by
  unfold ruaHost Cuttable
  dsimp only
  split_ifs with h
  · exact iff_of_true rfl fun h' ↦ absurd h (Nat.not_lt.mpr h')
  · rw [Option.isSome_map, isSome_splitAtByte]
    exact ⟨fun hb _ ↦ hb, fun hb ↦ hb (Nat.not_lt.mp h)⟩

theorem mem_ruaUris {uri : Text} : uri ∈ ruaUris record ↔ RuaUri record uri := by
  simp only [ruaUris, List.mem_flatMap, RuaUri]
  refine exists_congr fun tag ↦ and_congr_right fun _ ↦ ?_
  cases splitOnce '=' tag with
  | none => simp
  | some p =>
    obtain ⟨key, value⟩ := p
    simp only [Option.some.injEq, Prod.mk.injEq]
    constructor
    · intro h
      split_ifs at h with hk
      · exact ⟨key, value, ⟨rfl, rfl⟩, hk, h⟩
      · cases h
    · rintro ⟨_, _, ⟨rfl, rfl⟩, hk, h⟩
      rwa [if_pos hk]

theorem isSome_ruaDomains : (ruaDomains record).isSome ↔
    ∀ uri, RuaUri record uri → Cuttable 7 (trim uri) := by
  rw [ruaDomains, isSome_foldlM (q := fun uri ↦ Cuttable 7 (trim uri))]
  · exact forall_congr' fun uri ↦ by rw [mem_ruaUris]
  · intro out uri
    rw [← isSome_ruaHost]
    cases ruaHost uri with
    | none => rfl
    | some host => cases host <;> rfl

theorem isSome_reportAuthNames (publishingDomain : Text) :
    (reportAuthNames publishingDomain record).isSome ↔
      ∀ uri, RuaUri record uri → Cuttable 7 (trim uri) := by
  rw [← isSome_ruaDomains, reportAuthNames]
  cases ruaDomains record <;> rfl

/-- What DNS says brings the check of a domain down exactly where a record is
cut through a character. -/
theorem returns_iff (expected : Expected) (observed : Observed) (publishingDomain record : Text) :
    ((evaluate expected observed).isSome ∧ (ruaDomains record).isSome ∧
        (reportAuthNames publishingDomain record).isSome) ↔
      (∀ t ∈ observed.domainTxt, Cuttable 6 (trimStart t)) ∧
        (∀ t, Reached observed.dmarcTxt t → Cuttable 8 (trimStart t)) ∧
        ∀ uri, RuaUri record uri → Cuttable 7 (trim uri) := by
  rw [isSome_evaluate, isSome_ruaDomains, isSome_reportAuthNames, and_self, and_assoc]

/-- A record that has nothing to do with mail has an `ø` across its sixth byte. -/
theorem unrelated_record_panics : ¬ ∀ (expected : Expected) (observed : Observed)
    (publishingDomain record : Text), (evaluate expected observed).isSome ∧
      (ruaDomains record).isSome ∧ (reportAuthNames publishingDomain record).isSome := by
  intro h
  have hreturns := (h ⟨"v=spf1 -all".toList, [], none, none⟩
    { domainTxt := ["v=spf1 -all".toList, "kundeø=ja".toList] } [] []).1
  exact absurd hreturns (by decide)

end Postbud.DnsCheck
