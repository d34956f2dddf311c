import Postbud.Relay.WorkerBatches
import Postbud.System.Grace

namespace Postbud

open Lib Lib.Transition Lib.Wakeup Lib.Processes

/-- A queued message that no worker has ever claimed. -/
def Message.fresh (m : Message) : Bool :=
  m.status = .queued && m.attempts = 0 && m.claimedAt = none

namespace Message

variable {m m' : Message}

theorem fresh_iff : m.fresh ↔ m.status = .queued ∧ m.attempts = 0 ∧ m.claimedAt = none := by
  simp only [fresh, Bool.and_eq_true, decide_eq_true_eq, and_assoc]

theorem due_of_fresh {now : Time} (h : m.fresh) (ht : m.nextAttemptAt ≤ now) : m.due now := by
  obtain ⟨hs, -, hc⟩ := fresh_iff.mp h
  simp only [due, hs, hc, ht, Option.all_none, decide_true, Bool.and_self]

theorem not_fresh_settle (schedule : List ℕ) (now : Time) (msg : Claimed) (outcome : Outcome) :
    ¬ (Worker.settle schedule now msg outcome m).fresh := by
  intro h
  obtain ⟨hs, ha, -⟩ := fresh_iff.mp h
  rcases Worker.settle_cases schedule now msg outcome with
    ⟨queueId, -, he⟩ | ⟨detail, he, -⟩ | ⟨next, detail, he, -⟩
  · rw [he] at hs
    cases hs
  · rw [he] at hs
    cases hs
  · rw [he] at ha
    cases ha

end Message

namespace WorkerLoop

section Pool

variable [Platform] {s s' : System.State} {a : System.Action} {m m' : Message}

/-- What was never claimed after a step was never claimed before it. -/
theorem fresh_of_touched (h : System.Touched s a m m') (hf : m'.fresh) :
    m.fresh ∧ m'.id = m.id ∧ m'.nextAttemptAt = m.nextAttemptAt := by
  cases h with
  | kept => exact ⟨hf, rfl, rfl⟩
  | claimed worker batch locked ha hm =>
    cases (Message.fresh_iff.mp hf).2.2
  | settled d outcome ha hd ho hid => exact absurd hf (Message.not_fresh_settle _ _ _ _)
  | observed entries graceSecs ha =>
    rcases RelayQueue.observed_spec s.now entries m with he | ⟨_, _, _, state, detail, _, he⟩ <;>
      rw [he] at hf ⊢ <;> exact ⟨hf, rfl, rfl⟩
  | delivered entries graceSecs ha habs => exact ⟨hf, rfl, rfl⟩
  | blanked days cutoff ha he => exact ⟨hf, rfl, rfl⟩

theorem not_commits (h : System.Step s a s') (ha : ∀ i uuid, a ≠ .accept i uuid) :
    ¬ System.Commits s s' := by
  rintro ⟨i, c, c', id, suppressed, stored, hi, hset, hc, hc', -⟩
  have hi' : s'.accepts[i]? = some c' := by
    rw [hset, List.getElem?_set_self', hi]
    rfl
  have hstage : s'.accepts[i]? = some c ∨ ∃ d, s'.accepts[i]? = some d ∧ d.stage = .failed := by
    cases h with
    | accept k uuid => exact absurd rfl (ha k uuid)
    | submit msg =>
      exact .inl (getElem?_concat_left hi)
    | acceptFails k d hk hd =>
      by_cases hki : k = i
      · subst hki
        exact .inr ⟨_, by rw [List.getElem?_set_self', hk]; rfl, rfl⟩
      · exact .inl ((List.getElem?_set_ne hki).trans hi)
    | _ => exact .inl hi
  rcases hstage with he | ⟨d, he, hd⟩
  · obtain rfl := Option.some.inj (hi'.symm.trans he)
    cases hc.symm.trans hc'
  · obtain rfl := Option.some.inj (hi'.symm.trans he)
    cases hd.symm.trans hc'

/-- A message that was never claimed was there before, or is committed along with a wake-up. -/
theorem fresh_cases (h : System.Step s a s') (hm' : m' ∈ s'.db.message) (hf : m'.fresh) :
    (∃ m ∈ s.db.message, m.fresh ∧ m'.id = m.id ∧ m'.nextAttemptAt = m.nextAttemptAt) ∨
      notifies s' a ∧ ∃ c ∈ s.accepts, m'.nextAttemptAt = c.now := by
  by_cases ha : ∃ i uuid, a = .accept i uuid
  · obtain ⟨i, uuid, rfl⟩ := ha
    cases h with
    | accept _ _ c c' db hi h =>
      cases h with
      | committed id suppressed stored message hc ht =>
        obtain ⟨-, hrows⟩ := Table.insert?_eq_some.mp ht
        rw [Table.mem_def, hrows] at hm'
        rcases List.mem_append.mp hm' with hm' | hm'
        · exact .inl ⟨m', hm', hf, rfl, rfl⟩
        · obtain rfl := List.mem_singleton.mp hm'
          refine .inr ⟨?_, c, List.mem_of_getElem? hi, rfl⟩
          have hqueued : suppressed = false := by
            cases suppressed with
            | false => rfl
            | true => cases (Message.fresh_iff.mp hf).1
          simp [notifies, List.getElem?_set_self', hi, hqueued]
      | _ => exact .inl ⟨m', hm', hf, rfl, rfl⟩
  · rcases h.touched with hc | ⟨f, hrows, hf'⟩
    · exact absurd hc (not_commits h fun i uuid he ↦ ha ⟨i, uuid, he⟩)
    · rw [Table.mem_def, hrows] at hm'
      obtain ⟨m, hm, rfl⟩ := List.mem_map.mp hm'
      exact .inl ⟨m, hm, fresh_of_touched (hf' m hm) hf⟩

theorem now_of_accept {db db' : Db} {others : List Message} {uuid : Uuid} {c c' : AcceptCall}
    (h : AcceptCall.Step db others uuid c db' c') : c'.now = c.now := by
  cases h <;> rfl

/-- No message waits for a time that has not come unless it was tried before. -/
structure Timely (s : System.State) : Prop where
  accepts : ∀ c ∈ s.accepts, c.now ≤ s.now
  fresh : ∀ m ∈ s.db.message, m.fresh → m.nextAttemptAt ≤ s.now

theorem Timely.step (ht : Timely s) (h : System.Step s a s') : Timely s' where
  accepts c hc := by
    rcases h.accepts with he | ⟨msg, he⟩ | ⟨i, uuid, c₀, c', hi, he, hstep⟩
    · rw [he] at hc
      exact (ht.accepts c hc).trans h.now_le
    · rw [he] at hc
      rcases List.mem_append.mp hc with hc | hc
      · exact (ht.accepts c hc).trans h.now_le
      · obtain rfl := List.mem_singleton.mp hc
        exact h.now_le
    · rw [he] at hc
      rcases List.mem_or_eq_of_mem_set hc with hc | rfl
      · exact (ht.accepts c hc).trans h.now_le
      · rw [now_of_accept hstep]
        exact (ht.accepts c₀ (List.mem_of_getElem? hi)).trans h.now_le
  fresh m' hm' hf := by
    rcases fresh_cases h hm' hf with ⟨m, hm, hfm, -, hn⟩ | ⟨-, c, hc, hn⟩
    · rw [hn]
      exact (ht.fresh m hm hfm).trans h.now_le
    · rw [hn]
      exact (ht.accepts c hc).trans h.now_le

/-- The messages that wait for their first claim. -/
def pool (s : System.State) : List Uuid := (s.db.message.rows.filter (·.fresh)).map (·.id)

theorem mem_pool {id : Uuid} : id ∈ pool s ↔ ∃ m ∈ s.db.message, m.fresh ∧ m.id = id := by
  rw [pool, List.mem_map]
  refine exists_congr fun m ↦ ?_
  rw [List.mem_filter, and_assoc]
  rfl

theorem pool_subset (h : System.Step s a s') : pool s' ⊆ pool s ∨ notifies s' a := by
  by_cases hn : notifies s' a
  · exact .inr hn
  · refine .inl fun id hid ↦ ?_
    obtain ⟨m', hm', hf, rfl⟩ := mem_pool.mp hid
    rcases fresh_cases h hm' hf with ⟨m, hm, hfm, he, -⟩ | ⟨hn', -⟩
    · exact mem_pool.mpr ⟨m, hm, hfm, he.symm⟩
    · exact absurd hn' hn

/-- One that finds nothing has left out all that waits. -/
theorem pool_subset_locked (ht : Timely s) {worker : Text} {batch : ℕ} {locked : List Uuid}
    (hbatch : 0 < batch) (h : hold s worker locked batch = []) : pool s ⊆ locked := by
  intro id hid
  obtain ⟨m, hm, hf, rfl⟩ := mem_pool.mp hid
  by_contra hfree
  have hdue : m.due s.now := Message.due_of_fresh hf (ht.fresh m hm hf)
  obtain ⟨due, hdefn⟩ : ∃ due, due = (s.db.message.rows.filter fun m ↦
      m.due s.now && m.id ∉ locked).insertionSort fun m m' ↦ m.nextAttemptAt ≤ m'.nextAttemptAt :=
    ⟨_, rfl⟩
  have hmem : m ∈ due := by
    rw [hdefn, List.mem_insertionSort, List.mem_filter, hdue]
    exact ⟨hm, decide_eq_true hfree⟩
  obtain ⟨first, rest, hcons⟩ := List.exists_cons_of_ne_nil (List.ne_nil_of_mem hmem)
  obtain ⟨n, rfl⟩ : ∃ n, batch = n + 1 := Nat.exists_eq_succ_of_ne_zero hbatch.ne'
  have hfirst : first.id ∈ claimIds s.db s.now (n + 1) locked := by
    rw [claimIds, ← hdefn, hcons]
    exact List.mem_cons_self
  have hrow : first ∈ s.db.message.rows := by
    have hin : first ∈ due := hcons ▸ List.mem_cons_self
    rw [hdefn, List.mem_insertionSort] at hin
    exact (List.mem_filter.mp hin).1
  have hclaimed : first ∈ s.db.message.rows.filter (·.id ∈ claimIds s.db s.now (n + 1) locked) :=
    List.mem_filter.mpr ⟨hrow, decide_eq_true hfirst⟩
  rw [hold, Postbud.claim, List.map_map, List.map_eq_nil_iff] at h
  rw [h] at hclaimed
  cases hclaimed

end Pool

section Runs

variable [Platform] {w w' : World} {a : Action} {i : ℕ} {l l' : Loop} {base : System.State}

/-- No worker sleeps on a message that waits for its first claim. -/
structure Listened (w : World) : Prop where
  timely : Timely w.base
  covers : ∀ l ∈ w.loops, 0 < l.config.batch → l.wake.Covers (pool w.base)

theorem listened_init (now : Time) : Listened { base := { now } } where
  timely := ⟨fun _ hc ↦ absurd hc List.not_mem_nil, fun _ hm ↦ absurd hm (Table.not_mem_empty _)⟩
  covers _ hl := absurd hl List.not_mem_nil

theorem Listened.set (hw : Listened w) (ht : Timely base) (hp : pool base ⊆ pool w.base)
    (hl : 0 < l'.config.batch → l'.wake.Covers (pool base)) :
    Listened { base, loops := w.loops.set i l' } where
  timely := ht
  covers := forall_mem_set hl fun l hl hb ↦
    (hw.covers l (List.mem_of_mem_eraseIdx hl) hb).mono hp

theorem Listened.step (hw : Listened w) (h : Step w a w') : Listened w' := by
  cases h with
  | other a base ha hs =>
    have hstep := System.step_spec hs
    refine ⟨hw.timely.step hstep, fun l hl hb ↦ ?_⟩
    obtain ⟨l, hl₀, rfl⟩ := List.mem_map.mp hl
    rcases pool_subset hstep with hp | hn
    · have hc := (hw.covers l hl₀ (by rwa [Loop.notify, apply_ite Loop.config, ite_self] at hb)).mono hp
      rw [Loop.notify]
      split
      · exact Waiter.covers_send _
      · exact hc
    · rw [Loop.notify, if_pos hn]
      exact Waiter.covers_send _
  | start config =>
    exact ⟨hw.timely, forall_mem_concat hw.covers fun _ ↦ Waiter.covers_of_awake rfl⟩
  | claims i locked l base hi hl hwake hs =>
    have hstep := System.step_spec hs
    have hp : pool base ⊆ pool w.base := (pool_subset hstep).resolve_right Bool.false_ne_true
    refine hw.set (hw.timely.step hstep) hp fun hb ↦ ?_
    by_cases he : hold w.base l.config.workerName locked l.config.batch = []
    · rw [Loop.claimed, if_pos he] at hb ⊢
      exact Waiter.covers_sleep (List.Subset.trans hp (pool_subset_locked hw.timely hb he))
    · rw [Loop.claimed, if_neg he]
      exact Waiter.covers_of_awake hwake
  | tasks a i j l d t pending deliveries own base ha hi hl hj hown hs =>
    have hstep := System.step_spec hs
    have hquiet : notifies base own = false := by cases hown <;> rfl
    have hp : pool base ⊆ pool w.base :=
      (pool_subset hstep).resolve_right (Bool.not_eq_true _ ▸ hquiet)
    exact hw.set (hw.timely.step hstep) hp fun hb ↦
      (hw.covers l (List.mem_of_getElem? hi) hb).mono hp
  | dies i l hi =>
    exact hw.set ⟨hw.timely.accepts, hw.timely.fresh⟩ (List.Subset.refl _) fun _ ↦
      Waiter.covers_of_awake rfl
  | heeds a i l wake ha hi hwake =>
    exact hw.set hw.timely (List.Subset.refl _) fun hb ↦
      hwake.covers (hw.covers l (List.mem_of_getElem? hi) hb)
  | spawns i l d pending deliveries hi hl hlt =>
    exact hw.set hw.timely (List.Subset.refl _) (hw.covers l (List.mem_of_getElem? hi))
  | joins i j l pending deliveries hi hl hj hfull =>
    exact hw.set hw.timely (List.Subset.refl _) (hw.covers l (List.mem_of_getElem? hi))
  | drained i l hi hl =>
    exact hw.set hw.timely (List.Subset.refl _) (hw.covers l (List.mem_of_getElem? hi))

/-- A worker whose listener has held its subscription since it last looked, and
which sleeps with no permit and nothing in its inbox, sleeps on no message that
waits for its first claim but those that others had locked when it looked. -/
theorem no_lost_wakeup {now : Time} {acts : List Action}
    (h : Run step { base := { now } } acts w) (hl : l ∈ w.loops) (hb : 0 < l.config.batch)
    {locked : List Uuid} (hs : l.wake.asleep = some locked) (hh : l.wake.heard)
    (hp : l.wake.permit = false) (hi : l.wake.inbox = 0) :
    ∀ m ∈ w.base.db.message, m.fresh → m.id ∈ locked := by
  intro m hm hf
  have hlistened := h.invariant Listened (fun _ _ _ hw hs ↦ hw.step (step_spec hs))
    (listened_init now)
  exact (hlistened.covers l hl hb).subset hs hh hp hi (mem_pool.mpr ⟨m, hm, hf, rfl⟩)

end Runs

attribute [local instance] Platform.ascii

theorem sendsAndSleeps_no_lost_wakeup : ∃ w l, Run step { base := { now := 0 } } sendsAndSleeps w ∧
    l ∈ w.loops ∧ l.wake.asleep = some [] ∧ ∀ m ∈ w.base.db.message, m.fresh → m.id ∈ ([] : List Uuid) := by
  have hrun : (exec step { base := { now := 0 } } sendsAndSleeps).any fun w ↦
      w.loops.any fun l ↦ 0 < l.config.batch && l.wake.asleep = some [] && l.wake.heard &&
        !l.wake.permit && l.wake.inbox = 0 := by decide +kernel
  obtain ⟨w, hw, hp⟩ := run_of_any hrun
  obtain ⟨l, hl, hp⟩ := List.any_eq_true.mp hp
  simp only [Bool.and_eq_true, decide_eq_true_eq, Bool.not_eq_true'] at hp
  obtain ⟨⟨⟨⟨hb, hs⟩, hh⟩, hpermit⟩, hi⟩ := hp
  exact ⟨w, l, hw, hl, hs, no_lost_wakeup hw hl hb hs hh hpermit hi⟩

end WorkerLoop

end Postbud
