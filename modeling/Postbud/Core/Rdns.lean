import Postbud.Core.DnsCheck

namespace Postbud.Rdns

open Lib Lib.Text DnsCheck

structure Observed where
  forwardIps : List Text := []
  ptrNames : List Text := []
  bannerHost : Option Text := none
  deriving DecidableEq

structure RelayResult where
  forward : RecordResult
  ptr : RecordResult
  helo : Option RecordResult
  valid : Bool
  deriving DecidableEq

def sameHost (a b : Text) : Bool :=
  eqIgnoreAsciiCase (trimEndMatches '.' a) (trimEndMatches '.' b)

def NO_PTR : Text := "no PTR — the address's owner must set it".toList

def evaluate (expectedHost : Text) (observed : Observed) : RelayResult :=
  let forward : RecordResult :=
    if observed.forwardIps = [] then ⟨.missing, none⟩
    else ⟨.ok, some (join ", ".toList observed.forwardIps)⟩
  let ptr : RecordResult :=
    if observed.ptrNames = [] then ⟨.missing, some NO_PTR⟩
    else
      ⟨if observed.ptrNames.any (sameHost · expectedHost) then .ok else .mismatch,
        some (join ", ".toList observed.ptrNames)⟩
  let helo := observed.bannerHost.map fun banner ↦
    (⟨if sameHost banner expectedHost then .ok else .mismatch, some banner⟩ : RecordResult)
  { forward, ptr, helo
    valid := forward.status = .ok && ptr.status = .ok && helo.all (·.status = .ok) }

/-- A name as `observe_relay` keeps it. -/
def plain (name : Text) : Text := toAsciiLowercase (trimEndMatches '.' name)

theorem trimEndMatches_plain (name : Text) : trimEndMatches '.' (plain name) = plain name := by
  refine List.rdropWhile_eq_self_iff.mpr fun hne hdot ↦ ?_
  have hname : trimEndMatches '.' name ≠ [] := fun h ↦ hne (congrArg toAsciiLowercase h)
  have hlast := List.rdropWhile_last_not (fun c ↦ decide (c = '.')) name hname
  have hlower : (plain name).getLast hne = asciiLower ((trimEndMatches '.' name).getLast hname) :=
    List.getLast_map hne
  rw [hlower, decide_eq_true_iff, asciiLower_eq_iff (by decide) (by decide)] at hdot
  exact hlast (decide_eq_true hdot)

theorem sameHost_plain (name host : Text) : sameHost (plain name) host = sameHost name host := by
  rw [sameHost, trimEndMatches_plain, plain, eqIgnoreAsciiCase, toAsciiLowercase_toAsciiLowercase]
  rfl

variable {host : Text} {observed : Observed}

theorem forward_ok_iff : (evaluate host observed).forward.status = .ok ↔
    observed.forwardIps ≠ [] := by
  rw [evaluate, apply_ite RecordResult.status]
  by_cases h : observed.forwardIps = []
  · simp only [h, if_true, ne_eq, not_true_eq_false, reduceCtorEq]
  · simp only [h, if_false, ne_eq, not_false_eq_true]

theorem ptr_ok_iff : (evaluate host observed).ptr.status = .ok ↔
    ∃ name ∈ observed.ptrNames, sameHost name host := by
  rw [evaluate, apply_ite RecordResult.status, ← List.any_eq_true]
  by_cases h : observed.ptrNames = []
  · simp only [h, if_true, List.any_nil, reduceCtorEq]
  · by_cases hmatched : observed.ptrNames.any (sameHost · host)
    · simp only [h, hmatched, if_true, if_false]
    · simp only [h, hmatched, if_false, reduceCtorEq]

theorem helo_ok_iff : (evaluate host observed).helo.all (·.status = .ok) ↔
    ∀ banner ∈ observed.bannerHost, sameHost banner host := by
  simp only [evaluate]
  cases observed.bannerHost with
  | none => exact iff_of_true rfl nofun
  | some banner =>
    rw [Option.map_some, Option.all_some, decide_eq_true_iff]
    by_cases h : sameHost banner host
    · simp [h]
    · simp [h]

theorem valid_iff : (evaluate host observed).valid ↔
    observed.forwardIps ≠ [] ∧ (∃ name ∈ observed.ptrNames, sameHost name host) ∧
      ∀ banner ∈ observed.bannerHost, sameHost banner host := by
  have hvalid : (evaluate host observed).valid ↔ ((evaluate host observed).forward.status = .ok ∧
      (evaluate host observed).ptr.status = .ok) ∧
        (evaluate host observed).helo.all (·.status = .ok) := by
    rw [evaluate, Bool.and_eq_true, Bool.and_eq_true, decide_eq_true_iff, decide_eq_true_iff]
  rw [hvalid, forward_ok_iff, ptr_ok_iff, helo_ok_iff, and_assoc]

end Postbud.Rdns
