import Postbud.Core.Rdns
import Postbud.Relay.DnsCheck

namespace Postbud.Rdns

open Lib Lib.Text Lib.Result DnsCheck

/-- Which of its two queries `lookup_ip` makes, and in which order. The
resolver's default is the last. -/
inductive LookupIpStrategy
  | ipv4Only
  | ipv6Only
  | ipv4AndIpv6 (ipv4First : Bool)
  | ipv6thenIpv4
  | ipv4thenIpv6
  deriving DecidableEq

/-- What there is to be known about a relay: the A and the AAAA records of a
host, the names of an address, which of the queries for them fail, how an
address is written, and the line that the relay greets with, if it does. -/
class Surroundings (ι : outParam Type) where
  strategy : LookupIpStrategy
  ipv4 : Text → List ι
  ipv6 : Text → List ι
  ptr : ι → List Text
  ipv4Failure : Text → Option Text := fun _ ↦ none
  ipv6Failure : Text → Option Text := fun _ ↦ none
  ptrFailure : ι → Option Text := fun _ ↦ none
  ipText : ι → Text
  greeting : Text → ℕ → Option Text

section Lookup

variable {α : Type}

/-- A query that does not fail answers with the records there are. -/
def answer (failure : Option Text) (records : List α) : Except ResolveError (List α) :=
  match failure with
  | some message => .error (.other message)
  | none => if records = [] then .error .noRecordsFound else .ok records

/-- Both queries at once: an answer counts though the other query fails. -/
def bothAnswers : Except ResolveError (List α) → Except ResolveError (List α) →
    Except ResolveError (List α)
  | .ok ips, .ok ips' => .ok (ips ++ ips')
  | .ok ips, .error _ => .ok ips
  | .error _, .ok ips' => .ok ips'
  | .error err, .error _ => .error err

/-- The second query is made where the first answers with nothing, or fails. -/
def firstAnswer : Except ResolveError (List α) → Except ResolveError (List α) →
    Except ResolveError (List α)
  | .ok ips, _ => .ok ips
  | .error _, second => second

theorem emptyIfAbsent_answer {failure : Option Text} {records found : List α} :
    emptyIfAbsent (answer failure records) = .ok found ↔ failure = none ∧ found = records := by
  cases failure with
  | some message => exact iff_of_false (fun h ↦ by cases h) fun h ↦ by cases h.1
  | none =>
    rw [answer]
    by_cases h : records = []
    · subst h
      exact ⟨fun h ↦ ⟨rfl, (Except.ok.inj h).symm⟩, fun h ↦ congrArg Except.ok h.2.symm⟩
    · rw [if_neg h]
      exact ⟨fun h ↦ ⟨rfl, (Except.ok.inj h).symm⟩, fun h ↦ congrArg Except.ok h.2.symm⟩

end Lookup

section Observe

variable {ι : Type} [Surroundings ι]

def ipv4Lookup (host : Text) : Except ResolveError (List ι) :=
  answer (Surroundings.ipv4Failure host) (Surroundings.ipv4 host)

def ipv6Lookup (host : Text) : Except ResolveError (List ι) :=
  answer (Surroundings.ipv6Failure host) (Surroundings.ipv6 host)

def lookupIp (host : Text) : Except ResolveError (List ι) :=
  match Surroundings.strategy with
  | .ipv4Only => ipv4Lookup host
  | .ipv6Only => ipv6Lookup host
  | .ipv4AndIpv6 true => bothAnswers (ipv4Lookup host) (ipv6Lookup host)
  | .ipv4AndIpv6 false => bothAnswers (ipv6Lookup host) (ipv4Lookup host)
  | .ipv6thenIpv4 => firstAnswer (ipv6Lookup host) (ipv4Lookup host)
  | .ipv4thenIpv6 => firstAnswer (ipv4Lookup host) (ipv6Lookup host)

def reverseLookup (ip : ι) : Except ResolveError (List Text) :=
  answer (Surroundings.ptrFailure ip) (Surroundings.ptr ip)

/-- `220 mail.example.com ESMTP` -/
def smtpBannerHost (host : Text) (port : ℕ) : Option Text := do
  let line ← Surroundings.greeting host port
  match splitWhitespace line with
  | code :: name :: _ =>
    if code = "220".toList then
      let name := plain name
      if name = [] then none else some name
    else none
  | _ => none

def pushNew (names : List Text) (name : Text) : List Text :=
  if name ∈ names then names else names ++ [name]

/-- The names of all the addresses in one list, each once. -/
def ptrNames : List ι → List Text → Except ResolveError (List Text)
  | [], names => .ok names
  | ip :: ips, names => do
    let found ← emptyIfAbsent (reverseLookup ip)
    ptrNames ips ((found.map plain).foldl pushNew names)

def observeRelay (host smtpHost : Text) (smtpPort : ℕ) : Except ResolveError Observed := do
  let forwardIps ← emptyIfAbsent (lookupIp host)
  let names ← ptrNames forwardIps []
  return {
    forwardIps := forwardIps.map Surroundings.ipText
    ptrNames := names
    bannerHost := smtpBannerHost smtpHost smtpPort }

/-- The addresses of a host. -/
def addresses (host : Text) : List ι := Surroundings.ipv4 host ++ Surroundings.ipv6 host

/-- Those of them that the check gets to see. -/
def forwardIps (host : Text) : List ι :=
  match emptyIfAbsent (lookupIp host) with
  | .ok ips => ips
  | .error _ => []

/-- An address that resolves back to a host. -/
def ResolvesBack (host : Text) (ip : ι) : Prop :=
  ∃ name ∈ Surroundings.ptr ip, sameHost name host

/-- The host could be looked up, and so could the names of what that gave. -/
def LookedUp (host : Text) : Prop :=
  (∃ ips, emptyIfAbsent (lookupIp host) = .ok ips) ∧
    ∀ ip ∈ forwardIps host, Surroundings.ptrFailure ip = none

/-- A relay that is called valid is forward-confirmed for every address. -/
def Confirmed (host smtpHost : Text) (smtpPort : ℕ) : Prop :=
  ∀ observed, observeRelay host smtpHost smtpPort = .ok observed →
    (evaluate host observed).valid → ∀ ip ∈ addresses host, ResolvesBack host ip

variable {host smtpHost : Text} {smtpPort : ℕ} {ip : ι}

theorem mem_foldl_pushNew {name : Text} {found names : List Text} :
    name ∈ found.foldl pushNew names ↔ name ∈ names ∨ name ∈ found := by
  induction found generalizing names with
  | nil => simp
  | cons n found ih =>
    have hpush : name ∈ pushNew names n ↔ name ∈ names ∨ name = n := by
      rw [pushNew]
      split_ifs with hn
      · exact ⟨.inl, fun h ↦ h.elim id fun he ↦ he ▸ hn⟩
      · rw [List.mem_append, List.mem_singleton]
    rw [List.foldl_cons, ih, hpush, List.mem_cons, or_assoc]

/-- The list holds the names of every address that was asked about. -/
theorem mem_ptrNames {name : Text} {ips : List ι} {seen names : List Text}
    (h : ptrNames ips seen = .ok names) :
    name ∈ names ↔ name ∈ seen ∨ ∃ ip ∈ ips, name ∈ (Surroundings.ptr ip).map plain := by
  induction ips generalizing seen with
  | nil =>
    obtain rfl : seen = names := Except.ok.inj h
    simp
  | cons ip ips ih =>
    obtain ⟨found, hfound, h⟩ := ok_of_bind h
    obtain ⟨-, rfl⟩ := emptyIfAbsent_answer.mp hfound
    rw [ih h, mem_foldl_pushNew, or_assoc, List.exists_mem_cons_iff]

theorem ptrNames_ok_iff {ips : List ι} {seen : List Text} :
    (∃ names, ptrNames ips seen = .ok names) ↔ ∀ ip ∈ ips, Surroundings.ptrFailure ip = none := by
  induction ips generalizing seen with
  | nil => exact iff_of_true ⟨seen, rfl⟩ nofun
  | cons ip ips ih =>
    rw [List.forall_mem_cons, ptrNames]
    cases hfound : emptyIfAbsent (reverseLookup ip) with
    | error err =>
      refine iff_of_false (fun h ↦ ?_) fun h ↦ ?_
      · obtain ⟨names, hnames⟩ := h
        cases hnames
      · rw [reverseLookup, emptyIfAbsent_answer.mpr ⟨h.1, rfl⟩] at hfound
        cases hfound
    | ok found => exact ih.trans (and_iff_right (emptyIfAbsent_answer.mp hfound).1).symm

theorem observeRelay_eq_ok {observed : Observed} :
    observeRelay host smtpHost smtpPort = .ok observed ↔
      (∃ ips, emptyIfAbsent (lookupIp host) = .ok ips) ∧
        observed.forwardIps = (forwardIps host).map Surroundings.ipText ∧
          ptrNames (forwardIps host) [] = .ok observed.ptrNames ∧
            observed.bannerHost = smtpBannerHost smtpHost smtpPort := by
  rw [observeRelay, forwardIps]
  cases emptyIfAbsent (lookupIp host) with
  | error err =>
    refine iff_of_false (fun h ↦ by cases h) fun h ↦ ?_
    obtain ⟨⟨ips, hips⟩, -⟩ := h
    cases hips
  | ok ips =>
    change (ptrNames ips [] >>= _) = _ ↔ _ ∧ _ ∧ ptrNames ips [] = _ ∧ _
    cases ptrNames ips [] with
    | error err =>
      refine iff_of_false (fun h ↦ by cases h) fun h ↦ ?_
      obtain ⟨-, -, hnames, -⟩ := h
      cases hnames
    | ok names =>
      constructor
      · intro h
        obtain rfl := Except.ok.inj h
        exact ⟨⟨ips, rfl⟩, rfl, rfl, rfl⟩
      · rintro ⟨-, hips, hnames, hbanner⟩
        obtain ⟨forwardIps, ptrNames, bannerHost⟩ := observed
        obtain rfl : forwardIps = ips.map Surroundings.ipText := hips
        obtain rfl : names = ptrNames := Except.ok.inj hnames
        obtain rfl : bannerHost = smtpBannerHost smtpHost smtpPort := hbanner
        rfl

theorem observes_iff : (∃ observed, observeRelay host smtpHost smtpPort = .ok observed) ↔
    LookedUp host := by
  rw [LookedUp, ← ptrNames_ok_iff]
  constructor
  · rintro ⟨observed, h⟩
    obtain ⟨hips, -, hnames, -⟩ := observeRelay_eq_ok.mp h
    exact ⟨hips, _, hnames⟩
  · rintro ⟨hips, names, hnames⟩
    exact ⟨⟨_, names, _⟩, observeRelay_eq_ok.mpr ⟨hips, rfl, hnames, rfl⟩⟩

/-- One address that resolves back speaks for all. -/
theorem exists_name_iff {observed : Observed}
    (h : observeRelay host smtpHost smtpPort = .ok observed) :
    (∃ name ∈ observed.ptrNames, sameHost name host) ↔
      ∃ ip ∈ forwardIps host, ResolvesBack host ip := by
  obtain ⟨-, -, hnames, -⟩ := observeRelay_eq_ok.mp h
  simp only [mem_ptrNames hnames, ResolvesBack, List.not_mem_nil, false_or]
  constructor
  · rintro ⟨name, ⟨ip, hip, hname⟩, hsame⟩
    obtain ⟨raw, hraw, rfl⟩ := List.mem_map.mp hname
    exact ⟨ip, hip, raw, hraw, sameHost_plain raw host ▸ hsame⟩
  · rintro ⟨ip, hip, raw, hraw, hsame⟩
    exact ⟨plain raw, ⟨ip, hip, List.mem_map_of_mem hraw⟩, (sameHost_plain raw host).symm ▸ hsame⟩

/-- What `evaluate` calls valid: the host has an address that is seen and
resolves back, and the relay greets with no other name. -/
theorem valid_observed_iff {observed : Observed}
    (h : observeRelay host smtpHost smtpPort = .ok observed) :
    (evaluate host observed).valid ↔ (∃ ip ∈ forwardIps host, ResolvesBack host ip) ∧
      ∀ banner ∈ smtpBannerHost smtpHost smtpPort, sameHost banner host := by
  obtain ⟨-, hips, -, hbanner⟩ := observeRelay_eq_ok.mp h
  rw [valid_iff, exists_name_iff h, hips, hbanner]
  refine and_iff_right_of_imp fun hback hnil ↦ ?_
  obtain ⟨⟨ip, hip, -⟩, -⟩ := hback
  exact List.ne_nil_of_mem hip (List.map_eq_nil_iff.mp hnil)

/-- A relay that is called valid is confirmed for every address just when its
addresses do not differ, those included that the check does not get to see,
unless its greeting gives it away. -/
theorem confirmed_iff (host smtpHost : Text) (smtpPort : ℕ) :
    Confirmed host smtpHost smtpPort ↔ ¬ LookedUp host ∨
      (∃ banner ∈ smtpBannerHost smtpHost smtpPort, ¬ sameHost banner host) ∨
        (∀ ip ∈ forwardIps host, ¬ ResolvesBack host ip) ∨
          ∀ ip ∈ addresses host, ResolvesBack host ip := by
  constructor
  · intro h
    by_contra hnot
    push Not at hnot
    obtain ⟨hlooked, hbanner, hsome, ip, hip, hback⟩ := hnot
    obtain ⟨observed, hobserved⟩ := observes_iff.mpr hlooked
    exact hback (h observed hobserved ((valid_observed_iff hobserved).mpr ⟨hsome, hbanner⟩) ip hip)
  · intro h observed hobserved hvalid
    obtain ⟨⟨ip, hip, hback⟩, hbanner⟩ := (valid_observed_iff hobserved).mp hvalid
    rcases h with hlooked | ⟨banner, hread, hother⟩ | hnone | hall
    · exact absurd (observes_iff.mp ⟨observed, hobserved⟩) hlooked
    · exact absurd (hbanner banner hread) hother
    · exact absurd hback (hnone ip hip)
    · exact hall

end Observe

section HalfNamed

/-- Two addresses, and a name for the first. -/
@[reducible] def halfNamed : Surroundings Text where
  strategy := .ipv4thenIpv6
  ipv4 _ := ["198.51.100.7".toList, "198.51.100.8".toList]
  ipv6 _ := []
  ptr ip := if ip = "198.51.100.7".toList then ["mail.example.com.".toList] else []
  ipText := id
  greeting _ _ := some "220 mail.example.com ESMTP\r\n".toList

attribute [local instance] halfNamed

theorem halfNamed_not_confirmed :
    ¬ Confirmed "mail.example.com".toList "127.0.0.1".toList 25 := by
  intro h
  have hlooked : LookedUp "mail.example.com".toList := ⟨⟨_, rfl⟩, fun _ _ ↦ rfl⟩
  obtain ⟨observed, hobserved⟩ := observes_iff.mpr hlooked
  have hback : ResolvesBack "mail.example.com".toList "198.51.100.7".toList :=
    ⟨"mail.example.com.".toList, List.mem_singleton_self _, by decide⟩
  have hbanner : ∀ banner ∈ smtpBannerHost "127.0.0.1".toList 25,
      sameHost banner "mail.example.com".toList := by decide
  have hvalid : (evaluate "mail.example.com".toList observed).valid :=
    (valid_observed_iff hobserved).mpr ⟨⟨_, List.mem_cons_self, hback⟩, hbanner⟩
  obtain ⟨name, hname, -⟩ := h observed hobserved hvalid "198.51.100.8".toList (by decide)
  exact List.not_mem_nil hname

end HalfNamed

end Postbud.Rdns
