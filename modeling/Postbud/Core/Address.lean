import Postbud.Lib.Text

namespace Postbud

open Lib Lib.Text

inductive AddressError
  | empty
  | whitespace
  | noAt
  | emptyPart
  | bareDomain
  deriving DecidableEq, Repr

def AddressError.message : AddressError → Text
  | empty => "address is empty".toList
  | whitespace => "address contains whitespace".toList
  | noAt => "address has no '@'".toList
  | emptyPart => "address has an empty local part or domain".toList
  | bareDomain => "domain has no dot".toList

namespace Address

def normalize (raw : Text) : Except AddressError Text :=
  let trimmed := trim raw
  if trimmed = [] then .error .empty
  else if trimmed.any isWhitespace then .error .whitespace
  else match rsplitOnce '@' trimmed with
    | none => .error .noAt
    | some (localPart, domain) =>
      if localPart = [] ∨ domain = [] then .error .emptyPart
      else if '.' ∉ domain then .error .bareDomain
      else .ok (localPart ++ '@' :: toAsciiLowercase domain)

def domain (address : Text) : Option Text :=
  ((rsplitOnce '@' address).map fun p ↦ toAsciiLowercase p.2).filter (· ≠ [])

/-- The envelope sender for a message: a mailbox of the installation in the sender's domain. -/
def bounceSender (mailFrom mailbox : Text) : Option Text :=
  let mailbox := trim mailbox
  if mailbox = [] ∨ mailbox.any fun c ↦ c = '@' || isWhitespace c then none
  else (domain mailFrom).map fun domain ↦ mailbox ++ '@' :: domain

/-- An address as `normalize` leaves it. -/
structure Normal (address localPart domain : Text) : Prop where
  split : rsplitOnce '@' address = some (localPart, domain)
  lower : toAsciiLowercase domain = domain
  unspaced : ∀ c ∈ address, ¬ isWhitespace c
  localPart : localPart ≠ []
  dot : '.' ∈ domain

theorem Normal.eq {address localPart domain : Text} (h : Normal address localPart domain) :
    address = localPart ++ '@' :: domain :=
  (rsplitOnce_spec h.split).1

theorem Normal.normalize {address localPart domain : Text} (h : Normal address localPart domain) :
    Address.normalize address = .ok address := by
  have htrim : trim address = address := trim_of_no_whitespace h.unspaced
  have hne : address ≠ [] := by
    rw [h.eq]
    exact List.append_ne_nil_of_right_ne_nil _ (List.cons_ne_nil _ _)
  have hany : address.any isWhitespace = false :=
    List.any_eq_false.mpr h.unspaced
  have hparts : ¬ (localPart = [] ∨ domain = []) :=
    not_or.mpr ⟨h.localPart, List.ne_nil_of_mem h.dot⟩
  simp only [Address.normalize, htrim, hne, hany, h.split, hparts, h.dot, h.lower, if_false,
    not_true_eq_false, Bool.false_eq_true]
  rw [← h.eq]

theorem normal_of_normalize {raw address : Text} (h : normalize raw = .ok address) :
    ∃ localPart domain, Normal address localPart domain := by
  unfold normalize at h
  dsimp only at h
  split_ifs at h with hne hspace
  split at h
  · cases h
  · rename_i localPart domain hsplit
    split_ifs at h with hparts hdot
    obtain rfl := Except.ok.inj h
    obtain ⟨htrim, hat⟩ := rsplitOnce_spec hsplit
    have hkeep {c : Char} (hc : c = '@' ∨ c = '.') : c ∈ toAsciiLowercase domain ↔ c ∈ domain := by
      rcases hc with rfl | rfl <;> exact mem_toAsciiLowercase (by decide) (by decide)
    refine ⟨localPart, toAsciiLowercase domain, ?_, toAsciiLowercase_toAsciiLowercase domain, ?_,
      fun he ↦ hparts (.inl he), (hkeep (.inr rfl)).mpr hdot⟩
    · exact rsplitOnce_of_notMem (mt (hkeep (.inl rfl)).mp hat) localPart
    · have hclean : ∀ c ∈ localPart ++ '@' :: domain, ¬ isWhitespace c := by
        rw [← htrim]
        exact List.any_eq_false.mp (Bool.not_eq_true _ ▸ hspace)
      intro c hc
      rcases List.mem_append.mp hc with hc | hc
      · exact hclean c (List.mem_append_left _ hc)
      · rcases List.mem_cons.mp hc with rfl | hc
        · decide
        · obtain ⟨d, hd, rfl⟩ := List.mem_map.mp hc
          rw [isWhitespace_asciiLower]
          exact hclean d (List.mem_append_right _ (List.mem_cons_of_mem _ hd))

theorem Normal.domain_eq {address localPart domain : Text} (h : Normal address localPart domain) :
    Address.domain address = some domain := by
  have hne : decide (domain ≠ []) = true := decide_eq_true (List.ne_nil_of_mem h.dot)
  simp only [Address.domain, h.split, Option.map_some, h.lower, Option.filter_some, hne, if_true]

end Address

/-- Matching is exact on the domain, and a subdomain is not implied. -/
def Authz.maySendAs (mailFrom : Text) (allowedDomains : List Text) : Bool :=
  match Address.domain mailFrom with
  | none => false
  | some domain => allowedDomains.any fun allowed ↦ toAsciiLowercase (trim allowed) = toAsciiLowercase domain

/-- Nothing but an entry of the list itself lets its domain through. -/
theorem Authz.maySendAs_iff {mailFrom localPart domain : Text} {allowedDomains : List Text}
    (h : Address.Normal mailFrom localPart domain) :
    Authz.maySendAs mailFrom allowedDomains ↔
      ∃ allowed ∈ allowedDomains, toAsciiLowercase (trim allowed) = domain := by
  simp only [Authz.maySendAs, h.domain_eq, h.lower, List.any_eq_true, decide_eq_true_eq]

end Postbud
