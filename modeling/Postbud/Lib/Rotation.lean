import Mathlib.Data.Finset.Basic
import Postbud.Lib.Processes
import Postbud.Lib.Transition

namespace Postbud.Lib.Rotation

open Transition Processes

/-- What a client of the store has under way: nothing, a token on its way to
the issuer, or the token that replaces one on its way back. -/
inductive Client
  | idle
  | carries (t : ℕ)
  | brings (t : ℕ)
  deriving DecidableEq

def Client.token : Client → Option ℕ
  | .idle => none
  | .carries t => some t
  | .brings t => some t

/-- A store of one token that any number of clients share, and an issuer that
honours a token once and answers with the next. -/
structure State where
  stored : Option ℕ := none
  clients : List Client := []
  live : Finset ℕ := ∅
  issued : ℕ := 0

inductive Action
  | join
  | send (i : ℕ)
  | rotate (i : ℕ)
  | mint (i : ℕ)
  | rest (i : ℕ)
  | land (i : ℕ)
  | clear

def step (s : State) : Action → Option State
  | .join => some { s with clients := s.clients ++ [.idle] }
  | .send i => match s.clients[i]?, s.stored with
    | some .idle, some t => some { s with clients := s.clients.set i (.carries t) }
    | _, _ => none
  | .rotate i => match s.clients[i]? with
    | some (.carries t) => if t ∈ s.live then
        some { s with clients := s.clients.set i (.brings s.issued), issued := s.issued + 1
                      live := insert s.issued (s.live.erase t) }
      else none
    | _ => none
  | .mint i => match s.clients[i]? with
    | some .idle =>
      some { s with clients := s.clients.set i (.brings s.issued), issued := s.issued + 1
                    live := insert s.issued s.live }
    | _ => none
  | .rest i => match s.clients[i]? with
    | some (.carries _) => some { s with clients := s.clients.set i .idle }
    | _ => none
  | .land i => match s.clients[i]? with
    | some (.brings t) => some { s with clients := s.clients.set i .idle, stored := some t }
    | _ => none
  | .clear => some { s with stored := none }

/-- No one has under way the token that a client brings. -/
def Client.Apart (c c' : Client) : Prop :=
  (∀ t, c = .brings t → c'.token ≠ some t) ∧ ∀ t, c' = .brings t → c.token ≠ some t

instance : Std.Symm Client.Apart where
  symm _ _ h := ⟨h.2, h.1⟩

structure Inv (s : State) : Prop where
  storedLt : ∀ t ∈ s.stored, t < s.issued
  tokenLt : ∀ c ∈ s.clients, ∀ t ∈ c.token, t < s.issued
  liveLt : ∀ t ∈ s.live, t < s.issued
  fresh : ∀ (i t : ℕ), s.clients[i]? = some (.brings t) → t ∈ s.live ∧ s.stored ≠ some t
  apart : Processes.Apart Client.Apart s.clients
  chain : ∀ t ∈ s.stored, t ∈ s.live ∨ ∃ u, .brings u ∈ s.clients

theorem inv_init : Inv {} where
  storedLt := nofun
  tokenLt := nofun
  liveLt := nofun
  fresh _ _ h := by cases h
  apart := .nil
  chain := nofun

section Step

variable {s : State} {i t : ℕ} {c : Client}

theorem apart_idle (c : Client) : Client.Apart .idle c := ⟨nofun, fun _ _ ↦ nofun⟩

/-- A token that is not out yet is apart from all that are. -/
theorem apart_issued (h : Inv s) (hc : c ∈ s.clients) : Client.Apart (.brings s.issued) c := by
  refine ⟨fun t ht hct ↦ ?_, fun t hct ht ↦ ?_⟩
  · obtain rfl := Client.brings.inj ht
    exact Nat.lt_irrefl _ (h.tokenLt c hc _ hct)
  · obtain rfl := Option.some.inj ht
    subst hct
    exact Nat.lt_irrefl _ (h.tokenLt _ hc _ rfl)

theorem inv_rest (h : Inv s) (hi : s.clients[i]? = some (.carries t)) :
    Inv { s with clients := s.clients.set i .idle } where
  storedLt := h.storedLt
  tokenLt := forall_mem_set nofun fun c hc ↦ h.tokenLt c (List.mem_of_mem_eraseIdx hc)
  liveLt := h.liveLt
  fresh j u hj := by
    obtain ⟨-, hu⟩ | ⟨-, hj⟩ := getElem?_set_cases hj
    · cases hu
    · exact h.fresh j u hj
  apart := h.apart.set fun j c _ _ ↦ apart_idle c
  chain u hu := (h.chain u hu).imp_right fun ⟨v, hv⟩ ↦ ⟨v, mem_set_of_ne hi hv nofun⟩

/-- A client is given a new token, and what it carried, if anything, may be dead. -/
theorem inv_issue {live : Finset ℕ} (h : Inv s) (hi : s.clients[i]? = some c)
    (hnew : s.issued ∈ live) (hold : ∀ t ∈ live, t = s.issued ∨ t ∈ s.live)
    (hkept : ∀ t ∈ s.live, c.token ≠ some t → t ∈ live) :
    Inv { s with clients := s.clients.set i (.brings s.issued), issued := s.issued + 1, live } where
  storedLt t ht := Nat.lt_succ_of_lt (h.storedLt t ht)
  tokenLt := forall_mem_set (fun t ht ↦ Option.some.inj ht ▸ Nat.lt_succ_self _)
    fun c hc t ht ↦ Nat.lt_succ_of_lt (h.tokenLt c (List.mem_of_mem_eraseIdx hc) t ht)
  liveLt t ht := by
    obtain rfl | ht := hold t ht
    · exact Nat.lt_succ_self _
    · exact Nat.lt_succ_of_lt (h.liveLt t ht)
  fresh j t hj := by
    obtain ⟨-, ht⟩ | ⟨hne, hj⟩ := getElem?_set_cases hj
    · obtain rfl := Client.brings.inj ht
      exact ⟨hnew, fun hs ↦ Nat.lt_irrefl _ (h.storedLt _ hs)⟩
    · obtain ⟨hlive, hstored⟩ := h.fresh j t hj
      exact ⟨hkept t hlive ((h.apart i j _ _ hne.symm hi hj).2 t rfl), hstored⟩
  apart := h.apart.set fun j c' _ hj ↦ apart_issued h (List.mem_of_getElem? hj)
  chain t _ := .inr ⟨_, mem_set_self hi⟩

theorem inv_send (h : Inv s) (ht : s.stored = some t) (hi : s.clients[i]? = some .idle) :
    Inv { s with clients := s.clients.set i (.carries t) } where
  storedLt := h.storedLt
  tokenLt := forall_mem_set (fun u hu ↦ Option.some.inj hu ▸ h.storedLt t ht)
    fun c hc ↦ h.tokenLt c (List.mem_of_mem_eraseIdx hc)
  liveLt := h.liveLt
  fresh j u hj := by
    obtain ⟨-, hu⟩ | ⟨-, hj⟩ := getElem?_set_cases hj
    · cases hu
    · exact h.fresh j u hj
  apart := h.apart.set fun j c _ hj ↦ ⟨nofun, fun u hu he ↦ by
    subst hu
    exact (h.fresh j u hj).2 (ht.trans he)⟩
  chain u hu := (h.chain u hu).imp_right fun ⟨v, hv⟩ ↦ ⟨v, mem_set_of_ne hi hv nofun⟩

theorem inv_land (h : Inv s) (hi : s.clients[i]? = some (.brings t)) :
    Inv { s with clients := s.clients.set i .idle, stored := some t } where
  storedLt u hu := Option.some.inj hu ▸ h.tokenLt _ (List.mem_of_getElem? hi) t rfl
  tokenLt := forall_mem_set nofun fun c hc ↦ h.tokenLt c (List.mem_of_mem_eraseIdx hc)
  liveLt := h.liveLt
  fresh j u hj := by
    obtain ⟨-, hu⟩ | ⟨hne, hj⟩ := getElem?_set_cases hj
    · cases hu
    · exact ⟨(h.fresh j u hj).1, (h.apart i j _ _ hne.symm hi hj).2 u rfl⟩
  apart := h.apart.set fun j c _ _ ↦ apart_idle c
  chain u hu := .inl (Option.some.inj hu ▸ (h.fresh i t hi).1)

theorem inv_step {a : Action} {s' : State} (h : Inv s) (ha : step s a = some s') : Inv s' := by
  cases a with
  | join =>
    obtain rfl := Option.some.inj ha
    refine ⟨h.storedLt, forall_mem_concat h.tokenLt nofun, h.liveLt, fun j t hj ↦ ?_,
      h.apart.concat fun c _ ↦ apart_idle c, fun t ht ↦ ?_⟩
    · obtain hj | ⟨-, hj⟩ := getElem?_concat_cases hj
      · exact h.fresh j t hj
      · cases hj
    · exact (h.chain t ht).imp_right fun ⟨u, hu⟩ ↦ ⟨u, List.mem_append_left _ hu⟩
  | send i =>
    simp only [step] at ha
    split at ha
    · rename_i t hi ht
      obtain rfl := Option.some.inj ha
      exact inv_send h ht hi
    · cases ha
  | rotate i =>
    simp only [step] at ha
    split at ha
    · rename_i t hi
      obtain ⟨-, ha⟩ := Option.ite_none_right_eq_some.mp ha
      obtain rfl := Option.some.inj ha
      refine inv_issue h hi (Finset.mem_insert_self _ _) (fun u hu ↦ ?_) fun u hu hne ↦ ?_
      · exact (Finset.mem_insert.mp hu).imp_right Finset.mem_of_mem_erase
      · exact Finset.mem_insert_of_mem (Finset.mem_erase.mpr ⟨fun he ↦ hne (congrArg some he.symm), hu⟩)
    · cases ha
  | mint i =>
    simp only [step] at ha
    split at ha
    · rename_i hi
      obtain rfl := Option.some.inj ha
      exact inv_issue h hi (Finset.mem_insert_self _ _) (fun u hu ↦ Finset.mem_insert.mp hu)
        fun u hu _ ↦ Finset.mem_insert_of_mem hu
    · cases ha
  | rest i =>
    simp only [step] at ha
    split at ha
    · rename_i t hi
      obtain rfl := Option.some.inj ha
      exact inv_rest h hi
    · cases ha
  | land i =>
    simp only [step] at ha
    split at ha
    · rename_i t hi
      obtain rfl := Option.some.inj ha
      exact inv_land h hi
    · cases ha
  | clear =>
    obtain rfl := Option.some.inj ha
    exact ⟨nofun, h.tokenLt, h.liveLt, fun j t hj ↦ ⟨(h.fresh j t hj).1, nofun⟩, h.apart, nofun⟩

end Step

theorem inv_run {s s' : State} {l : List Action} (hs : Inv s) (h : Run step s l s') : Inv s' :=
  h.invariant Inv (fun _ _ _ hi ha ↦ inv_step hi ha) hs

end Postbud.Lib.Rotation
