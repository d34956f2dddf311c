import Mathlib.Data.List.Rotate
import Postbud.Db.LastAdmin

namespace Postbud.AdminUser

open Lib Lib.Transition

section Resolve

variable [Platform]

/-- The role of an identity does not depend on where the rows of the table
are, nor on which of the grants found `limit 1` leaves. -/
def OrderFree (db : AdminUsers) (sub : Text) (email : Option Text) : Prop :=
  ∀ rows, rows.Perm db.rows → ∀ k k',
    (resolve { db with rows } k sub email).1 = (resolve db k' sub email).1

/-- A grant to a subject id, matched exactly. -/
def BySub (sub : Text) (u : AdminUser) : Prop := u.active ∧ u.identifier = sub

/-- A grant to an email, matched case-insensitively. -/
def ByEmail (email : Option Text) (u : AdminUser) : Prop :=
  u.active ∧ ∃ e ∈ email, Platform.lower u.identifier = Platform.lower e

variable {db : AdminUsers} {sub : Text} {email : Option Text} {u v : AdminUser} {k : ℕ}

instance : Decidable (BySub sub u) := inferInstanceAs (Decidable (_ ∧ _))

instance : Decidable (ByEmail email u) := inferInstanceAs (Decidable (_ ∧ ∃ e ∈ email, _))

def found (db : AdminUsers) (sub : Text) (email : Option Text) : List AdminUser :=
  db.rows.filter fun u ↦ u.active &&
    (u.identifier = sub || email.any fun e ↦ Platform.lower u.identifier = Platform.lower e)

theorem mem_found : u ∈ found db sub email ↔
    u ∈ db.rows ∧ (BySub sub u ∨ ByEmail email u) := by
  simp only [found, BySub, ByEmail, List.mem_filter, Bool.and_eq_true, Bool.or_eq_true,
    decide_eq_true_eq, Option.any_eq_true, Option.mem_def, ← and_or_left]

/-- Any grant that is found may be the one that is left. -/
theorem resolve_of_mem_found (h : u ∈ found db sub email) :
    ∃ k, (resolve db k sub email).1 = some u.role := by
  obtain ⟨k, hk, rfl⟩ := List.getElem_of_mem h
  refine ⟨k, ?_⟩
  show ((found db sub email).rotate k).head?.map (·.role) = _
  rw [List.head?_rotate hk, List.getElem?_eq_getElem hk]
  rfl

theorem resolve_cases (db : AdminUsers) (k : ℕ) (sub : Text) (email : Option Text) :
    (found db sub email = [] ∧ (resolve db k sub email).1 = none) ∨
      ∃ u ∈ found db sub email, (resolve db k sub email).1 = some u.role := by
  have hres : (resolve db k sub email).1 =
      ((found db sub email).rotate k).head?.map (·.role) := rfl
  cases hh : ((found db sub email).rotate k).head? with
  | none =>
    rw [hh] at hres
    exact .inl ⟨List.rotate_eq_nil_iff.mp (List.head?_eq_none_iff.mp hh), hres⟩
  | some u =>
    rw [hh] at hres
    exact .inr ⟨u, List.mem_rotate.mp (List.mem_of_head? hh), hres⟩

theorem orderFree_iff : OrderFree db sub email ↔
    ∀ u ∈ found db sub email, ∀ v ∈ found db sub email, u.role = v.role := by
  constructor
  · intro h u hu v hv
    obtain ⟨k, hk⟩ := resolve_of_mem_found hu
    obtain ⟨k', hk'⟩ := resolve_of_mem_found hv
    exact Option.some.inj ((hk.symm.trans (h db.rows (.refl _) k k')).trans hk')
  · intro h rows hperm k k'
    have hfound : (found { db with rows } sub email).Perm (found db sub email) := hperm.filter _
    rcases resolve_cases { db with rows } k sub email with ⟨hnil, hk⟩ | ⟨u, hu, hk⟩
    · rcases resolve_cases db k' sub email with ⟨-, hk'⟩ | ⟨v, hv, -⟩
      · rw [hk, hk']
      · rw [hnil] at hfound
        rw [hfound.nil_eq.symm] at hv
        cases hv
    · have hu := hfound.mem_iff.mp hu
      rcases resolve_cases db k' sub email with ⟨hnil, -⟩ | ⟨v, hv, hk'⟩
      · rw [hnil] at hu
        cases hu
      · rw [hk, hk', h u hu v hv]

/-- The index leaves an identity two grants at most, one by subject and one
by email, so its role hangs on the two agreeing. -/
theorem orderFree_of_unique (hunique : db.rows.Pairwise fun u v ↦ ¬ u.SameGrant v) :
    OrderFree db sub email ↔ ∀ u ∈ db.rows, ∀ v ∈ db.rows, BySub sub u → ByEmail email v →
      u.role = v.role := by
  have : Std.Symm fun u v : AdminUser ↦ ¬ u.SameGrant v :=
    ⟨fun _ _ h hg ↦ h ⟨hg.2.1, hg.1, hg.2.2.symm⟩⟩
  have hone : ∀ u ∈ db.rows, ∀ v ∈ db.rows, u.SameGrant v → u = v := by
    intro u hu v hv hg
    by_contra hne
    exact hunique.forall hu hv hne hg
  rw [orderFree_iff]
  constructor
  · intro h u hu v hv hsub hemail
    exact h u (mem_found.mpr ⟨hu, .inl hsub⟩) v (mem_found.mpr ⟨hv, .inr hemail⟩)
  · intro h u hu v hv
    obtain ⟨hu, hu'⟩ := mem_found.mp hu
    obtain ⟨hv, hv'⟩ := mem_found.mp hv
    rcases hu' with hsub | hemail
    · rcases hv' with hsub' | hemail'
      · rw [hone u hu v hv ⟨hsub.1, hsub'.1, by rw [hsub.2, hsub'.2]⟩]
      · exact h u hu v hv hsub hemail'
    · rcases hv' with hsub' | hemail'
      · exact (h v hv u hu hsub' hemail).symm
      · obtain ⟨hactive, e, he, hlow⟩ := hemail
        obtain ⟨hactive', e', he', hlow'⟩ := hemail'
        obtain rfl := Option.some.inj (he.symm.trans he')
        rw [hone u hu v hv ⟨hactive, hactive', hlow.trans hlow'.symm⟩]

/-- In every table that calls lead to, whatever interleaves, the role of an
identity is one for all orders of the rows exactly when its grant by subject
and its grant by email, if it has both, are of one role. -/
theorem resolve_orderFree_iff {l : List Action} {s : State} (hs : Run step {} l s) (sub : Text)
    (email : Option Text) : OrderFree s.db sub email ↔
      ∀ u ∈ s.db.rows, ∀ v ∈ s.db.rows, BySub sub u → ByEmail email v → u.role = v.role := by
  have hinv : Inv s := hs.invariant Inv (fun _ _ _ h hs ↦ (h.step hs).1) .init
  exact orderFree_of_unique (hinv.unique.imp fun h hg ↦ h (.inr hg))

end Resolve

/-- A viewer by subject id who is made an admin by email. -/
def grantTwice : List Action :=
  [.call (.add "8f14e45f".toList "viewer".toList none "admin-token".toList) 0,
    .statement 0 0, .statement 0 0,
    .call (.add "kari@example.com".toList "admin".toList none "admin-token".toList) 1,
    .statement 1 0, .statement 1 0]

attribute [local instance] Platform.ascii

theorem resolve_orderFree_iff_grantTwice : ∃ s, Run step {} grantTwice s ∧
    (∃ u ∈ s.db.rows, ∃ v ∈ s.db.rows, BySub "8f14e45f".toList u ∧
      ByEmail (some "Kari@example.com".toList) v ∧ u.role ≠ v.role) ∧
    ¬ OrderFree s.db "8f14e45f".toList (some "Kari@example.com".toList) := by
  have hexec : (exec step {} grantTwice).any fun s ↦ s.db.rows.any fun u ↦ s.db.rows.any fun v ↦
      decide (BySub "8f14e45f".toList u) && decide (ByEmail (some "Kari@example.com".toList) v) &&
        u.role ≠ v.role := by
    decide +kernel
  obtain ⟨s, hs, hp⟩ := run_of_any hexec
  simp only [List.any_eq_true, Bool.and_eq_true, decide_eq_true_eq] at hp
  obtain ⟨u, hu, v, hv, ⟨hsub, hemail⟩, hne⟩ := hp
  exact ⟨s, hs, ⟨u, hu, v, hv, hsub, hemail, hne⟩,
    fun hfree ↦ hne ((resolve_orderFree_iff hs _ _).mp hfree u hu v hv hsub hemail)⟩

/-- One identity is viewer or admin as the rows happen to lie. -/
theorem two_grants_two_roles : ¬ ∀ (_ : Platform) (l : List Action) (s : State),
    Run step {} l s → ∀ sub email, OrderFree s.db sub email := by
  intro h
  have hrun : (exec step {} grantTwice).any fun s ↦
      (resolve s.db 0 "8f14e45f".toList (some "Kari@example.com".toList)).1 = some .viewer &&
        (resolve { s.db with rows := s.db.rows.reverse } 0 "8f14e45f".toList
          (some "Kari@example.com".toList)).1 = some .admin := by decide +kernel
  obtain ⟨s, hs, hp⟩ := run_of_any hrun
  simp only [Bool.and_eq_true, decide_eq_true_eq] at hp
  have hfree := h Platform.ascii grantTwice s hs "8f14e45f".toList (some "Kari@example.com".toList)
    s.db.rows.reverse (List.reverse_perm _) 0 0
  rw [hp.1, hp.2] at hfree
  cases hfree

end Postbud.AdminUser
