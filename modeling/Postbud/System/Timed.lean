import Postbud.Lib.Processes
import Postbud.System.Rows

namespace Postbud.System

open Lib Lib.Processes Lib.Transition

/-- Two deliveries are of different messages. -/
def Delivery.Apart (d d' : Delivery) : Prop := d.claimed.id ≠ d'.claimed.id

instance : Std.Symm Delivery.Apart := ⟨fun _ _ h ↦ Ne.symm h⟩

instance (d d' : Delivery) : Decidable (d.Apart d') := by unfold Delivery.Apart; infer_instance

/-- A state of the system, and a ghost beside it: each message a worker holds
with the time of its claim. -/
structure Timed [Platform] where
  state : State
  since : List (Delivery × Time) := []

variable [Platform]

def Timed.held (x : Timed) : Action → List (Delivery × Time)
  | .claim worker batch locked =>
    x.since ++ (claim x.state.db x.state.now worker batch locked).2.map fun c ↦
      (⟨worker, c, x.state.db.suppressionSeq, none⟩, x.state.now)
  | .handoff d outcome =>
    x.since.eraseP (·.1 = d) ++ ((x.since.find? (·.1 = d)).map fun e ↦
      ({ d with outcome := some outcome }, e.2)).toList
  | .record d | .abandon d => x.since.eraseP (·.1 = d)
  | _ => x.since

def Timed.step (x : Timed) (a : Action) : Option Timed :=
  (System.step x.state a).map fun s ↦ ⟨s, x.held a⟩

/-- No claim that a worker still holds is older than the timeout. -/
def InTime (x : Timed) : Prop :=
  ∀ e ∈ x.since, x.state.now ≤ e.2 + minutes Message.CLAIM_TIMEOUT_MINUTES

instance (x : Timed) : Decidable (InTime x) := by unfold InTime; infer_instance

/-- The row says that the worker claimed it at this time, and nothing since. -/
structure Carries (m : Message) (d : Delivery) (t : Time) : Prop where
  id : m.id = d.claimed.id
  status : m.status = .queued
  attempts : m.attempts = d.claimed.attempts
  claimedAt : m.claimedAt = some t
  claimedBy : m.claimedBy = some d.worker

/-- What holds of the claims while none is older than the timeout. -/
structure Claims (x : Timed) : Prop where
  held : x.since.map (·.1) = x.state.held
  carried : ∀ e ∈ x.since, ∃ m ∈ x.state.db.message, Carries m e.1 e.2
  apart : x.since.Pairwise fun e e' ↦ e.1.Apart e'.1

variable {s s' : State} {x x' : Timed} {a : Action} {d : Delivery} {t : Time} {m m' : Message}

theorem Timed.step_eq_some : x.step a = some x' ↔
    System.step x.state a = some x'.state ∧ x'.since = x.held a := by
  simp only [Timed.step, Option.map_eq_some_iff]
  constructor
  · intro h
    obtain ⟨s, hs, rfl⟩ := h
    exact ⟨hs, rfl⟩
  · intro h
    exact ⟨x'.state, h.1, by rw [← h.2]⟩

theorem Timed.step_cases (hs : x.step a = some x') :
    ∃ s', x' = ⟨s', x.held a⟩ ∧ Step x.state a s' := by
  obtain ⟨s', hstep, rfl⟩ := Option.map_eq_some_iff.mp hs
  exact ⟨s', rfl, step_spec hstep⟩

/-- The ghost takes nothing from the system and adds nothing to it. -/
theorem timed_run {l : List Action} (since : List (Delivery × Time)) :
    Run step s l s' ↔ ∃ since', Run Timed.step ⟨s, since⟩ l ⟨s', since'⟩ := by
  constructor
  · intro h
    induction h generalizing since with
    | nil => exact ⟨since, .nil _⟩
    | @cons s s₁ t a l ha _ ih =>
      obtain ⟨since', hrun⟩ := ih (Timed.held ⟨s, since⟩ a)
      exact ⟨since', .cons (Timed.step_eq_some.mpr ⟨ha, rfl⟩) hrun⟩
  · intro h
    obtain ⟨since', hrun⟩ := h
    have hproj {x y : Timed} {l : List Action} (h : Run Timed.step x l y) :
        Run step x.state l y.state := by
      induction h with
      | nil => exact .nil _
      | cons ha _ ih => exact .cons (Timed.step_eq_some.mp ha).1 ih
    exact hproj hrun

theorem Touched.carries (h : Touched s a m m') (hm : m ∈ s.db.message) (hc : Carries m d t)
    (ht : s.now ≤ t + minutes Message.CLAIM_TIMEOUT_MINUTES)
    (hrec : ∀ d', a = .record d' → d'.Apart d) : Carries m' d t := by
  cases h with
  | kept => exact hc
  | claimed worker batch locked ha hid =>
    obtain ⟨m₁, hm₁, hid₁, hdue, -⟩ := mem_claimIds hid
    obtain rfl : m₁ = m := s.db.message_eq_of_id hm₁ hm hid₁
    exact absurd hdue (Message.not_due_of_claimed hc.claimedAt ht)
  | settled d' outcome ha hd ho hid => exact absurd (hid.trans hc.id) (hrec d' ha)
  | observed entries graceSecs ha =>
    rcases RelayQueue.observed_spec s.now entries m with he | ⟨-, -, -, state, detail, -, he⟩
    · rwa [he]
    · rw [he]
      exact ⟨hc.id, hc.status, hc.attempts, hc.claimedAt, hc.claimedBy⟩
  | delivered entries graceSecs ha habs =>
    exact ⟨hc.id, hc.status, hc.attempts, hc.claimedAt, hc.claimedBy⟩
  | blanked days cutoff ha he =>
    exact ⟨hc.id, hc.status, hc.attempts, hc.claimedAt, hc.claimedBy⟩

/-- Within the timeout only its own worker takes a claim off a row. -/
theorem Step.carries (h : Step s a s') (hc : ∃ m ∈ s.db.message, Carries m d t)
    (ht : s.now ≤ t + minutes Message.CLAIM_TIMEOUT_MINUTES)
    (hrec : ∀ d', a = .record d' → d'.Apart d) :
    ∃ m ∈ s'.db.message, Carries m d t := by
  obtain ⟨m, hm, hc⟩ := hc
  obtain ⟨m', hm', htouched⟩ := h.exists_touched hm
  exact ⟨m', hm', htouched.carries hm hc ht hrec⟩

theorem Timed.held_map (h : x.since.map (·.1) = x.state.held) (hs : x.step a = some x') :
    x'.since.map (·.1) = x'.state.held := by
  obtain ⟨s', rfl, hstep⟩ := Timed.step_cases hs
  cases hstep with
  | claim worker batch locked =>
    simp only [Timed.held, State.hold, List.map_append, h, List.map_map]
    rfl
  | handoff d outcome hd ho =>
    rw [← h] at hd
    obtain ⟨t, -, hf⟩ := find?_noted hd
    simp only [Timed.held, List.map_append, map_eraseP_noted, h, hf]
    rfl
  | record d outcome hd ho => simp only [Timed.held, map_eraseP_noted, h]
  | abandon d hd => simp only [Timed.held, map_eraseP_noted, h]
  | _ => exact h

/-- Where a delivery in a worker's hands comes from. -/
inductive Timed.Comes (x : Timed) (a : Action) : Delivery × Time → Prop
  | kept (e : Delivery × Time) (he : e ∈ x.since) (hrec : ∀ d, a = .record d → d.Apart e.1) :
    Comes x a e
  | handed (d : Delivery) (outcome : Outcome) (t : Time) (he : (d, t) ∈ x.since)
      (ha : a = .handoff d outcome) : Comes x a ({ d with outcome := some outcome }, t)
  | claimed (worker : Text) (batch : ℕ) (locked : List Uuid) (c : Claimed)
      (ha : a = .claim worker batch locked)
      (hc : c ∈ (claim x.state.db x.state.now worker batch locked).2) :
    Comes x a (⟨worker, c, x.state.db.suppressionSeq, none⟩, x.state.now)

theorem Claims.comes (h : Claims x) (hs : x.step a = some x') {e : Delivery × Time}
    (he : e ∈ x'.since) : x.Comes a e := by
  obtain ⟨s', rfl, hstep⟩ := Timed.step_cases hs
  cases hstep with
  | claim worker batch locked =>
    rcases List.mem_append.mp he with he | he
    · exact .kept e he nofun
    · obtain ⟨c, hc, rfl⟩ := List.mem_map.mp he
      exact .claimed worker batch locked c rfl hc
  | handoff d outcome hd ho =>
    rw [← h.held] at hd
    obtain ⟨t, hmem, hf⟩ := find?_noted hd
    simp only [Timed.held, hf] at he
    rcases List.mem_append.mp he with he | he
    · exact .kept e (List.mem_of_mem_eraseP he) nofun
    · obtain rfl := List.mem_singleton.mp he
      exact .handed d outcome t hmem rfl
  | record d outcome hd ho =>
    rw [← h.held] at hd
    refine .kept e (List.mem_of_mem_eraseP he) fun d' hd' ↦ ?_
    obtain rfl := Action.record.inj hd'
    exact symm (apart_of_mem_eraseP h.apart hd he)
  | abandon d hd => exact .kept e (List.mem_of_mem_eraseP he) nofun
  | _ => exact .kept e he fun _ hd ↦ Action.noConfusion hd

/-- A claim takes no row that a worker holds. -/
theorem Claims.claim_apart (h : Claims x) (ht : InTime x) {worker : Text} {batch : ℕ}
    {locked : List Uuid} {c : Claimed} (hc : c ∈ (claim x.state.db x.state.now worker batch locked).2)
    {e : Delivery × Time} (he : e ∈ x.since) : e.1.claimed.id ≠ c.id := by
  intro hid
  obtain ⟨m, hm, hdue, hmid, -⟩ := mem_claim hc
  obtain ⟨m', hm', hcar⟩ := h.carried e he
  obtain rfl : m' = m := x.state.db.message_eq_of_id hm' hm (hcar.id.trans (hid.trans hmid.symm))
  exact Message.not_due_of_claimed hcar.claimedAt (ht e he) hdue

theorem carries_of_claim {worker : Text} {batch : ℕ} {locked : List Uuid} {c : Claimed}
    (hc : c ∈ (claim s.db s.now worker batch locked).2) (seen : ℕ) :
    ∃ m ∈ (claim s.db s.now worker batch locked).1.message,
      Carries m ⟨worker, c, seen, none⟩ s.now := by
  obtain ⟨m, hm, rfl⟩ := List.mem_map.mp hc
  obtain ⟨hm, hid⟩ := List.mem_filter.mp hm
  have hid := of_decide_eq_true hid
  obtain ⟨m', hm', he, hdue, -⟩ := mem_claimIds hid
  obtain rfl : m' = m := s.db.message_eq_of_id hm' hm he
  have hstatus : m'.status = .queued := Message.status_of_due hdue
  refine ⟨m'.claimBy worker s.now, ?_, rfl, hstatus, rfl, rfl, rfl⟩
  rw [Table.mem_def, rows_claim]
  exact List.mem_map.mpr ⟨m', hm, if_pos hid⟩

theorem Claims.carried_step (h : Claims x) (ht : InTime x) (hs : x.step a = some x') :
    ∀ e ∈ x'.since, ∃ m ∈ x'.state.db.message, Carries m e.1 e.2 := by
  intro e he
  have hstep := step_spec (Timed.step_eq_some.mp hs).1
  cases h.comes hs he with
  | kept e hmem hrec => exact hstep.carries (h.carried e hmem) (ht e hmem) hrec
  | handed d outcome t hmem ha =>
    obtain ⟨m, hm, hc⟩ := hstep.carries (h.carried (d, t) hmem) (ht (d, t) hmem) (ha ▸ nofun)
    exact ⟨m, hm, hc.id, hc.status, hc.attempts, hc.claimedAt, hc.claimedBy⟩
  | claimed worker batch locked c ha hc =>
    subst ha
    obtain ⟨s', since'⟩ := x'
    cases hstep with
    | claim => exact carries_of_claim hc _

theorem Claims.apart_step (h : Claims x) (ht : InTime x) (hs : x.step a = some x') :
    x'.since.Pairwise fun e e' ↦ e.1.Apart e'.1 := by
  obtain ⟨s', rfl, hstep⟩ := Timed.step_cases hs
  cases hstep with
  | claim worker batch locked =>
    apply List.pairwise_append.mpr
    refine ⟨h.apart, List.pairwise_map.mpr claim_pairwise, fun e he e' he' ↦ ?_⟩
    obtain ⟨c, hc, rfl⟩ := List.mem_map.mp he'
    exact h.claim_apart ht hc he
  | handoff d outcome hd ho =>
    rw [← h.held] at hd
    obtain ⟨t, -, hf⟩ := find?_noted hd
    simp only [Timed.held, hf]
    apply List.pairwise_append.mpr
    refine ⟨h.apart.sublist List.eraseP_sublist, List.pairwise_singleton _ _, fun e he e' he' ↦ ?_⟩
    obtain rfl := List.mem_singleton.mp he'
    have hapart : e.1.Apart d := apart_of_mem_eraseP h.apart hd he
    exact hapart
  | record d outcome hd ho => exact h.apart.sublist List.eraseP_sublist
  | abandon d hd => exact h.apart.sublist List.eraseP_sublist
  | _ => exact h.apart

theorem claims_init (now : Time) : Claims ⟨{ now }, []⟩ where
  held := rfl
  carried _ he := absurd he List.not_mem_nil
  apart := .nil

theorem Claims.step (h : Claims x) (ht : InTime x) (hs : x.step a = some x') : Claims x' where
  held := Timed.held_map h.held hs
  carried := h.carried_step ht hs
  apart := h.apart_step ht hs

end Postbud.System
