import Mathlib.Data.List.Nodup
import Postbud.Lib.Text

namespace Postbud.Lib.DmarcPolicy

open Text

/-! What a receiver applies to mail from a domain: policy discovery as RFC 7489
has it in section 6.6.3, over records of the format of section 6.3, whose tags
may stand in any order after the version. -/

inductive Policy
  | none
  | quarantine
  | reject
  deriving DecidableEq

def Policy.level : Policy → ℕ
  | none => 0
  | quarantine => 1
  | reject => 2

/-- `WSP` -/
def isWsp (c : Char) : Bool := c = ' ' || c = '\t'

def isTagName : Text → Bool
  | [] => false
  | c :: name => c.isAlpha && name.all fun c ↦ c.isAlphanum || c = '_'

/-- The tags of a record, with their names in lower case: names are compared
without case. What is no tag is passed over. -/
def tags (record : Text) : List (Text × Text) :=
  (record.splitOn ';').filterMap fun part ↦ (splitOnce '=' part).bind fun (name, value) ↦
    let name := toAsciiLowercase (trimEnds isWsp name)
    if isTagName name then some (name, trimEnds isWsp value) else none

def tag (record name : Text) : Option Text := ((tags record).find? (·.1 = name)).map (·.2)

/-- A DMARC record starts with its version, and that is exactly `DMARC1`. -/
def isRecord (record : Text) : Bool :=
  (splitOnce '=' (record.takeWhile (· ≠ ';'))).any fun (name, value) ↦
    toAsciiLowercase (name.rdropWhile isWsp) = "v".toList && trimEnds isWsp value = "DMARC1".toList

def policyOf (value : Text) : Option Policy :=
  if toAsciiLowercase value = "none".toList then some .none
  else if toAsciiLowercase value = "quarantine".toList then some .quarantine
  else if toAsciiLowercase value = "reject".toList then some .reject
  else Option.none

def policyIn (record name : Text) : Option Policy := (tag record name).bind policyOf

/-- No tag stands twice in a record, its `p` is valid, and so is its `sp` if it has one. -/
structure Readable (record : Text) : Prop where
  once : ((tags record).map (·.1)).Nodup
  p : (policyIn record "p".toList).isSome
  sp : (tag record "sp".toList).isSome → (policyIn record "sp".toList).isSome

instance (record : Text) : Decidable (Readable record) :=
  decidable_of_iff (((tags record).map (·.1)).Nodup ∧ (policyIn record "p".toList).isSome ∧
    ((tag record "sp".toList).isSome → (policyIn record "sp".toList).isSome))
    ⟨fun h ↦ ⟨h.1, h.2.1, h.2.2⟩, fun h ↦ ⟨h.once, h.p, h.sp⟩⟩

/-- The tag that counts: for a domain that inherits the record, `sp` where there is one. -/
def counting (record : Text) (inherited : Bool) : Text :=
  if inherited ∧ (tag record "sp".toList).isSome then "sp".toList else "p".toList

/-- What a record asks for. One that cannot be read asks for nothing. -/
def asked (record : Text) (inherited : Bool) : Policy :=
  if Readable record then (policyIn record (counting record inherited)).getD .none else .none

/-- The records that are retrieved, and whether the domain inherits them. -/
def retrieved (own organizational : List Text) : Bool × List Text :=
  if own.filter isRecord = [] then (true, organizational.filter isRecord)
  else (false, own.filter isRecord)

/-- Several records are as good as none. -/
def applied (own organizational : List Text) : Policy :=
  match retrieved own organizational with
  | (inherited, [record]) => asked record inherited
  | _ => .none

/-- The one record that decides. -/
inductive Governs (own organizational : List Text) : Bool → Text → Prop
  | own {record : Text} (h : own.filter isRecord = [record]) :
    Governs own organizational false record
  | inherited {record : Text} (hown : own.filter isRecord = [])
      (h : organizational.filter isRecord = [record]) : Governs own organizational true record

/-- The record can be read, and the tag that counts asks for at least that level. -/
structure Demands (record : Text) (inherited : Bool) (least : ℕ) : Prop where
  readable : Readable record
  counting : ∃ policy, policyIn record (counting record inherited) = some policy ∧
    least ≤ policy.level

variable {own organizational : List Text} {record : Text} {inherited : Bool} {least : ℕ}

/-- The first part of a record that is the tag gives its value. -/
theorem tag_eq_findSome? {name : Text} (hname : isTagName name) :
    tag record name = (record.splitOn ';').findSome? fun part ↦
      (splitOnce '=' part).bind fun (key, value) ↦
        if toAsciiLowercase (trimEnds isWsp key) = name then some (trimEnds isWsp value)
        else Option.none := by
  rw [tag, tags]
  induction record.splitOn ';' with
  | nil => rfl
  | cons part parts ih =>
    rw [List.filterMap_cons, List.findSome?_cons]
    cases splitOnce '=' part with
    | none => exact ih
    | some pair =>
      obtain ⟨key, value⟩ := pair
      simp only [Option.bind_some]
      by_cases hkey : toAsciiLowercase (trimEnds isWsp key) = name
      · simp only [hkey, hname, if_true, List.find?_cons, decide_true, Option.map_some]
      · rw [if_neg hkey, ← ih]
        split_ifs
        · simp only [List.find?_cons, hkey, decide_false]
        · rfl

theorem governs_iff : Governs own organizational inherited record ↔
    retrieved own organizational = (inherited, [record]) := by
  unfold retrieved
  constructor
  · intro h
    cases h with
    | own h => rw [if_neg (by rw [h]; exact List.cons_ne_nil _ _), h]
    | inherited hown h => rw [if_pos hown, h]
  · intro h
    split_ifs at h with hown <;> rw [Prod.mk.injEq] at h <;> obtain ⟨rfl, h⟩ := h
    · exact .inherited hown h
    · exact .own h

theorem le_level_asked (hleast : least ≠ 0) :
    least ≤ (asked record inherited).level ↔ Demands record inherited least := by
  have hnone : ¬ least ≤ Policy.none.level := fun h ↦ hleast (Nat.le_zero.mp h)
  rw [asked]
  split_ifs with hread
  · cases hcounting : policyIn record (counting record inherited) with
    | none =>
      refine iff_of_false hnone fun h ↦ ?_
      obtain ⟨policy, hpolicy, -⟩ := h.counting
      rw [hcounting] at hpolicy
      cases hpolicy
    | some policy =>
      rw [Option.getD_some]
      refine ⟨fun h ↦ ⟨hread, policy, hcounting, h⟩, fun h ↦ ?_⟩
      obtain ⟨policy', hpolicy, hle⟩ := h.counting
      obtain rfl := Option.some.inj (hcounting.symm.trans hpolicy)
      exact hle
  · exact iff_of_false hnone fun h ↦ hread h.readable

/-- A level is reached where one record decides and asks for it. -/
theorem le_level_applied : least ≤ (applied own organizational).level ↔ least = 0 ∨
    ∃ inherited record, Governs own organizational inherited record ∧
      Demands record inherited least := by
  by_cases hleast : least = 0
  · subst hleast
    exact iff_of_true (Nat.zero_le _) (.inl rfl)
  simp only [hleast, false_or, governs_iff]
  unfold applied
  generalize retrieved own organizational = r
  have hnone : ¬ least ≤ Policy.none.level := fun h ↦ hleast (Nat.le_zero.mp h)
  obtain ⟨inherited, records⟩ := r
  cases records with
  | nil =>
    refine iff_of_false hnone fun h ↦ ?_
    obtain ⟨_, _, h, -⟩ := h
    cases h
  | cons record rest =>
    cases rest with
    | nil =>
      rw [le_level_asked hleast]
      constructor
      · exact fun h ↦ ⟨inherited, record, rfl, h⟩
      · rintro ⟨_, _, h, hdemands⟩
        cases h
        exact hdemands
    | cons _ _ =>
      refine iff_of_false hnone fun h ↦ ?_
      obtain ⟨_, _, h, -⟩ := h
      cases h

end Postbud.Lib.DmarcPolicy
