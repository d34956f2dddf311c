import Mathlib.Data.List.Basic

namespace Postbud.Lib.Wakeup

theorem unheard (listening : Bool) : false = true → listening = true :=
  fun h ↦ absurd h Bool.false_ne_true

/-- One that sleeps until something is added to a pool of work: whoever adds
sends a notice, which waits in the `inbox` of a listener and then sets the
`permit` that wakes the sleeper. Two ghosts: one that sleeps has looked and
`asleep` is what it could not take then; `heard` says that it has listened
since it looked. -/
structure Waiter (ι : Type) where
  asleep : Option (List ι) := none
  permit : Bool := false
  listening : Bool := false
  inbox : ℕ := 0
  heard : Bool := false
  heard_listening : heard → listening := by exact Lib.Wakeup.unheard _

variable {ι : Type}

namespace Waiter

def send (w : Waiter ι) : Waiter ι :=
  { w with inbox := if w.listening then w.inbox + 1 else w.inbox }

def receive (w : Waiter ι) : Option (Waiter ι) :=
  if 0 < w.inbox then some { w with inbox := w.inbox - 1, permit := true } else none

def subscribe (w : Waiter ι) : Waiter ι :=
  { w with listening := true, heard_listening := fun _ ↦ rfl }

/-- What was sent and not received is lost. -/
def disconnect (w : Waiter ι) : Waiter ι :=
  { w with listening := false, inbox := 0, heard := false, heard_listening := unheard false }

/-- It has looked and found nothing that it could take. -/
def sleep (w : Waiter ι) (left : List ι) : Waiter ι :=
  { w with asleep := some left, heard := w.listening, heard_listening := id }

def wake (w : Waiter ι) : Option (Waiter ι) :=
  if w.asleep.isSome ∧ w.permit then some { w with asleep := none, permit := false } else none

/-- The timeout leaves a permit where it is. -/
def timeOut (w : Waiter ι) : Option (Waiter ι) :=
  if w.asleep.isSome then some { w with asleep := none } else none

/-- No notice is lost: one that sleeps on more than it could not take is about
to be woken. -/
def Covers (w : Waiter ι) (pool : List ι) : Prop :=
  ∀ left ∈ w.asleep, w.heard → w.permit ∨ 0 < w.inbox ∨ pool ⊆ left

variable {w w' : Waiter ι} {pool pool' left : List ι}

theorem covers_of_awake (h : w.asleep = none) : w.Covers pool := by
  intro left hl
  rw [h] at hl
  cases hl

theorem Covers.mono (h : w.Covers pool) (hp : pool' ⊆ pool) : w.Covers pool' := by
  intro left hl hh
  rcases h left hl hh with hpermit | hinbox | hpool
  · exact .inl hpermit
  · exact .inr (.inl hinbox)
  · exact .inr (.inr (List.Subset.trans hp hpool))

theorem covers_send (pool : List ι) : w.send.Covers pool := by
  intro left _ hh
  have hl : w.listening = true := w.heard_listening hh
  refine .inr (.inl ?_)
  change 0 < if w.listening then w.inbox + 1 else w.inbox
  rw [if_pos hl]
  exact Nat.succ_pos _

theorem covers_sleep (h : pool ⊆ left) : (w.sleep left).Covers pool := by
  intro left' hl _
  obtain rfl := Option.some.inj hl
  exact .inr (.inr h)

/-- What a waiter and its listener do of their own. -/
inductive Heeds (w : Waiter ι) : Waiter ι → Prop
  | receive {w' : Waiter ι} (h : w.receive = some w') : Heeds w w'
  | wake {w' : Waiter ι} (h : w.wake = some w') : Heeds w w'
  | timeOut {w' : Waiter ι} (h : w.timeOut = some w') : Heeds w w'
  | subscribe : Heeds w w.subscribe
  | disconnect : Heeds w w.disconnect

theorem Heeds.covers (h : w.Heeds w') (hc : w.Covers pool) : w'.Covers pool := by
  cases h with
  | receive h =>
    obtain ⟨-, h⟩ := Option.ite_none_right_eq_some.mp h
    obtain rfl := Option.some.inj h
    exact fun _ _ _ ↦ .inl rfl
  | wake h =>
    obtain ⟨-, h⟩ := Option.ite_none_right_eq_some.mp h
    obtain rfl := Option.some.inj h
    exact covers_of_awake rfl
  | timeOut h =>
    obtain ⟨-, h⟩ := Option.ite_none_right_eq_some.mp h
    obtain rfl := Option.some.inj h
    exact covers_of_awake rfl
  | subscribe => exact hc
  | disconnect => exact fun _ _ hh ↦ absurd hh Bool.false_ne_true

theorem Heeds.awake (h : w.Heeds w') (ha : w.asleep = none) : w'.asleep = none := by
  cases h with
  | receive h =>
    obtain ⟨-, h⟩ := Option.ite_none_right_eq_some.mp h
    obtain rfl := Option.some.inj h
    exact ha
  | wake h =>
    obtain ⟨-, h⟩ := Option.ite_none_right_eq_some.mp h
    obtain rfl := Option.some.inj h
    rfl
  | timeOut h =>
    obtain ⟨-, h⟩ := Option.ite_none_right_eq_some.mp h
    obtain rfl := Option.some.inj h
    rfl
  | subscribe => exact ha
  | disconnect => exact ha

theorem Covers.subset (h : w.Covers pool) (hl : w.asleep = some left) (hh : w.heard)
    (hp : w.permit = false) (hi : w.inbox = 0) : pool ⊆ left := by
  rcases h left hl hh with hpermit | hinbox | hpool
  · exact absurd (hp.symm.trans hpermit) Bool.false_ne_true
  · exact absurd hi (Nat.pos_iff_ne_zero.mp hinbox)
  · exact hpool

end Waiter

end Postbud.Lib.Wakeup
