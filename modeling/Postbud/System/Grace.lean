import Postbud.Relay.QueueReport
import Postbud.System.BounceOrder
import Postbud.System.Invariant

namespace Postbud.System

open Lib Lib.Transition

section Runs

variable [Platform]

/-- If the relay takes a message in this step, the time is `h`. -/
def HandedAt (id : Uuid) (h : Time) (s : State) (a : Action) : Prop :=
  ∀ d queueId, a = .handoff d (.accepted queueId) → d.claimed.id = id → s.now = h

/-- The relay took a message no earlier than `h`, and was said to have taken it only then. -/
structure HandedSince (id : Uuid) (h : Time) (s : State) : Prop where
  held : ∀ d ∈ s.held, d.claimed.id = id → ∀ q, d.outcome = some (.accepted q) → h ≤ s.now
  sent : ∀ m ∈ s.db.message, m.id = id → m.status = .sent → ∀ t ∈ m.completedAt, h ≤ t

variable {s s' : State} {a : Action} {id : Uuid} {h : Time}

theorem Step.now_le (h : Step s a s') : s.now ≤ s'.now := by
  cases h with
  | tick dt => exact Int.le_add_of_nonneg_right (Int.natCast_nonneg dt)
  | _ => exact Int.le_refl _

/-- An outcome in a worker's hands was there before, or is the relay's answer. -/
theorem Step.held_outcome (h : Step s a s') {d : Delivery} (hd : d ∈ s'.held) {outcome : Outcome}
    (ho : d.outcome = some outcome) : d ∈ s.held ∨
      ∃ d₀, a = .handoff d₀ outcome ∧ d₀.claimed = d.claimed := by
  cases h with
  | claim worker batch locked =>
    rcases List.mem_append.mp hd with hd | hd
    · exact .inl hd
    · obtain ⟨c, -, rfl⟩ := List.mem_map.mp hd
      cases ho
  | handoff d₀ outcome' hd₀ ho' =>
    rcases List.mem_append.mp hd with hd | hd
    · exact .inl (List.mem_of_mem_erase hd)
    · obtain rfl := List.mem_singleton.mp hd
      obtain rfl := Option.some.inj ho
      exact .inr ⟨d₀, rfl, rfl⟩
  | record d₀ outcome' hd₀ ho' => exact .inl (List.mem_of_mem_erase hd)
  | abandon d₀ hd₀ => exact .inl (List.mem_of_mem_erase hd)
  | _ => exact .inl hd

theorem HandedSince.settle (hi : HandedSince id h s) {d : Delivery} {outcome : Outcome}
    (hd : d ∈ s.held) (ho : d.outcome = some outcome) {m : Message} (hm : m ∈ s.db.message)
    (hid : m.id = id) (hdid : d.claimed.id = id)
    (hs : (Worker.settle Retry.SCHEDULE s.now d.claimed outcome m).status = .sent) :
    ∀ t ∈ (Worker.settle Retry.SCHEDULE s.now d.claimed outcome m).completedAt, h ≤ t := by
  intro t ht
  rcases Worker.settle_cases Retry.SCHEDULE s.now d.claimed outcome with
    ⟨queueId, rfl, he⟩ | ⟨detail, he, -⟩ | ⟨next, detail, he, -⟩ <;> rw [he] at hs ht
  · obtain rfl := Option.some.inj ht
    exact hi.held d hd hdid queueId ho
  · cases hs
  · exact hi.sent m hm hid hs t ht

theorem HandedSince.step (hi : HandedSince id h s) (ha : HandedAt id h s a) (hs : Step s a s') :
    HandedSince id h s' where
  held d hd hid q ho := by
    rcases hs.held_outcome hd ho with hd₀ | ⟨d₀, rfl, hcl⟩
    · exact (hi.held d hd₀ hid q ho).trans hs.now_le
    · rw [← ha d₀ q rfl (hcl ▸ hid)]
      exact hs.now_le
  sent m' hm' hid hsent := by
    rcases hs.added_or_touched hm' with ⟨c, id', suppressed, rfl, -⟩ | ⟨m, hm, htouched⟩
    · cases suppressed <;> cases hsent
    · obtain ⟨hmail, hout | ⟨d, outcome, -, hd, ho, hdid, he⟩⟩ := htouched.mail
      · rw [hout.completedAt]
        exact hi.sent m hm (hmail.id ▸ hid) (hout.status ▸ hsent)
      · rw [hmail.id] at hid
        rw [he] at hsent ⊢
        exact hi.settle hd ho hm hid (hdid.trans hid) hsent

section Invoice

end Invoice

end Runs

attribute [local instance] Platform.ascii

end Postbud.System
