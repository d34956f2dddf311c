import Mathlib
import Postbud.Lib.Variant
import Postbud.Relay.WorkerLoop
import Postbud.System.Outcomes

namespace Postbud.WorkerLoop

open Lib Lib.Transition Lib.Wakeup Lib.Processes
open Postbud.System (Delivery)

/-- A worker with messages in hand is awake, and keeps to its two bounds. -/
def Loop.Sound (l : Loop) : Prop :=
  ∀ pending deliveries, l.phase = .delivering pending deliveries →
    l.wake.asleep = none ∧ deliveries.length ≤ l.config.concurrency ∧
      pending.length + deliveries.length ≤ l.config.batch

section Runs

variable [Platform]

/-- The claims that the system knows of are those of its workers. -/
structure Inv (w : World) : Prop where
  held : w.base.held.Perm (w.loops.flatMap (·.phase.held))
  sound : ∀ l ∈ w.loops, l.Sound

theorem inv_init (now : Time) : Inv { base := { now } } where
  held := .nil
  sound _ hl := absurd hl List.not_mem_nil

section Held

variable {base base' : System.State} {own : System.Action} {d : Delivery} {t : Task} {l : Loop}

theorem held_of_other (ha : ofWorker own = false) (h : System.Step base own base') :
    base'.held = base.held := by
  cases h with
  | claim => cases ha
  | handoff => cases ha
  | record => cases ha
  | abandon => cases ha
  | _ => rfl

theorem phase_notify (base : System.State) (a : System.Action) (l : Loop) :
    (l.notify base a).phase = l.phase := by
  rw [Loop.notify]
  split <;> rfl

theorem Becomes.held (hown : Becomes d own t) (h : System.Step base own base') :
    d ∈ base.held ∧ base'.held.Perm (t.held ++ base.held.erase d) := by
  cases hown with
  | handedOver outcome =>
    cases h with
    | handoff _ _ hd ho => exact ⟨hd, List.perm_append_comm⟩
  | recorded =>
    cases h with
    | record _ outcome hd ho => exact ⟨hd, .refl _⟩
  | failed =>
    cases h with
    | abandon _ hd => exact ⟨hd, .refl _⟩

omit [Platform] in
theorem held_claimed {claimed : List Delivery} {locked : List Uuid} (hl : l.phase = .claiming) :
    (l.claimed claimed locked).phase.held = claimed := by
  rw [Loop.claimed]
  split
  · rename_i he
    rw [hl, he]
    rfl
  · exact List.append_nil claimed

omit [Platform] in
theorem diff_held (held rest : List Delivery) : (held ++ rest).diff held = rest := by
  induction held with
  | nil => rfl
  | cons d held ih => rw [List.cons_append, List.diff_cons, List.erase_cons_head, ih]

theorem length_hold (base : System.State) (worker : Text) (locked : List Uuid) (batch : ℕ) :
    (hold base worker locked batch).length ≤ batch := by
  rw [hold, List.length_map]
  obtain ⟨claimed, hc⟩ : ∃ x, x = (Postbud.claim base.db base.now worker batch locked).2 := ⟨_, rfl⟩
  have hsub : claimed.map (·.id) ⊆ claimIds base.db base.now batch locked := by
    intro id hid
    obtain ⟨x, hx, rfl⟩ := List.mem_map.mp hid
    rw [hc] at hx
    obtain ⟨m, hm, rfl⟩ := List.mem_map.mp hx
    exact of_decide_eq_true (List.mem_filter.mp hm).2
  have hnodup : (claimed.map (·.id)).Nodup := by
    rw [hc]
    exact List.pairwise_map.mpr claim_pairwise
  have hle := (List.subperm_of_subset hnodup hsub).length_le
  have hbatch : (claimIds base.db base.now batch locked).length ≤ batch := by
    rw [claimIds, List.length_map]
    exact List.length_take_le _ _
  rw [List.length_map, hc] at hle
  exact hle.trans hbatch

end Held

variable {w w' : World} {a : Action} {i j : ℕ} {l l' : Loop} {base : System.State}

/-- One worker moves: what it exchanges the system exchanges. -/
theorem Inv.set (hinv : Inv w) (hi : w.loops[i]? = some l) (hl : l'.Sound)
    (hheld : ∀ rest, w.base.held.Perm (l.phase.held ++ rest) →
      base.held.Perm (l'.phase.held ++ rest)) :
    Inv { base, loops := w.loops.set i l' } where
  held := by
    have hbefore := hinv.held.trans (perm_flatMap (·.phase.held) hi)
    exact (hheld _ hbefore).trans (perm_flatMap_set (·.phase.held) l' hi).symm
  sound := forall_mem_set hl fun l hl ↦ hinv.sound l (List.mem_of_mem_eraseIdx hl)

omit [Platform] in
theorem sound_deliver {pending : List Delivery} {deliveries : List Task}
    (hw : l.wake.asleep = none) (hc : deliveries.length ≤ l.config.concurrency)
    (hb : pending.length + deliveries.length ≤ l.config.batch) :
    (l.deliver pending deliveries).Sound := by
  intro pending' deliveries' he
  obtain ⟨rfl, rfl⟩ := Phase.delivering.inj he
  exact ⟨hw, hc, hb⟩

omit [Platform] in
theorem sound_claimed {claimed : List Delivery} {locked : List Uuid} (hl : l.phase = .claiming)
    (hw : l.wake.asleep = none) (hb : claimed.length ≤ l.config.batch) :
    (l.claimed claimed locked).Sound := by
  rw [Loop.claimed]
  split
  · intro pending deliveries he
    rw [hl] at he
    cases he
  · exact sound_deliver hw (Nat.zero_le _) hb

theorem Inv.step (hinv : Inv w) (h : Step w a w') : Inv w' := by
  cases h with
  | other a base ha hs =>
    refine ⟨?_, fun l hl ↦ ?_⟩
    · have hphase : (w.loops.map (Loop.notify base a)).flatMap (·.phase.held) =
          w.loops.flatMap (·.phase.held) := by
        rw [List.flatMap_map]
        exact List.flatMap_congr fun l _ ↦ congrArg Phase.held (phase_notify base a l)
      rw [held_of_other ha (System.step_spec hs), hphase]
      exact hinv.held
    · obtain ⟨l, hl₀, rfl⟩ := List.mem_map.mp hl
      intro pending deliveries hp
      rw [phase_notify] at hp
      rw [Loop.notify]
      split <;> exact hinv.sound l hl₀ pending deliveries hp
  | start config =>
    refine ⟨?_, forall_mem_concat hinv.sound fun _ _ he ↦ ?_⟩
    · rw [List.flatMap_append]
      exact hinv.held.trans (.of_eq (List.append_nil _).symm)
    · cases he
  | claims i locked l base hi hl hw hs =>
    cases System.step_spec hs with
    | claim =>
      apply hinv.set hi (sound_claimed hl hw (length_hold w.base _ _ _))
      intro rest hrest
      rw [hl] at hrest
      rw [held_claimed hl]
      exact (hrest.append_right _).trans List.perm_append_comm
  | spawns i l d pending deliveries hi hl hlt =>
    obtain ⟨hw, hc, hb⟩ := hinv.sound l (List.mem_of_getElem? hi) _ _ hl
    rw [List.length_cons] at hb
    refine hinv.set hi (sound_deliver hw ?_ ?_) fun rest hrest ↦ hrest.trans (.append_right rest ?_)
    · rw [List.length_append, List.length_singleton]
      omega
    · rw [List.length_append, List.length_singleton]
      omega
    · rw [hl]
      change (d :: (pending ++ deliveries.flatMap Task.held)).Perm
        (pending ++ (deliveries ++ [Task.running d]).flatMap Task.held)
      rw [List.flatMap_append, ← List.append_assoc]
      exact (List.perm_append_singleton d _).symm
  | tasks a i j l d t pending deliveries own base ha hi hl hj hown hs =>
    obtain ⟨hw, hc, hb⟩ := hinv.sound l (List.mem_of_getElem? hi) _ _ hl
    obtain ⟨hd, hheld⟩ := hown.held (System.step_spec hs)
    refine hinv.set hi (sound_deliver hw ?_ ?_) fun rest hrest ↦ ?_
    · rwa [List.length_set]
    · rwa [List.length_set]
    · rw [hl] at hrest
      have hout : (w.base.held.erase d).Perm
          (pending ++ (deliveries.eraseIdx j).flatMap Task.held ++ rest) := by
        have hfront := (perm_flatMap Task.held hj).append_left pending
        have hall := hrest.trans ((hfront.trans List.perm_middle).append_right rest)
        exact ((List.perm_cons_erase hd).symm.trans hall).cons_inv
      have hin := ((perm_flatMap_set Task.held t hj).append_left pending).append_right rest
      refine hheld.trans ((hout.append_left t.held).trans (.trans ?_ hin.symm))
      rw [← List.append_assoc, ← List.append_assoc, ← List.append_assoc]
      exact (List.perm_append_comm.append_right _).append_right rest
  | joins i j l pending deliveries hi hl hj hfull =>
    obtain ⟨hw, hc, hb⟩ := hinv.sound l (List.mem_of_getElem? hi) _ _ hl
    have hlen := List.length_eraseIdx_le deliveries j
    refine hinv.set hi (sound_deliver hw (by omega) (by omega)) fun rest hrest ↦
      hrest.trans (.append_right rest ?_)
    rw [hl]
    exact (perm_flatMap Task.held hj).append_left pending
  | drained i l hi hl =>
    apply hinv.set hi (fun _ _ he ↦ by cases he)
    intro rest hrest
    rwa [hl] at hrest
  | dies i l hi =>
    apply hinv.set hi (fun _ _ he ↦ by cases he)
    intro rest hrest
    have hdiff := hrest.diff_right l.phase.held
    rwa [diff_held] at hdiff
  | heeds a i l wake ha hi hw =>
    have hsound : Loop.Sound { l with wake } := by
      intro pending deliveries he
      obtain ⟨hawake, hbounds⟩ := hinv.sound l (List.mem_of_getElem? hi) pending deliveries he
      exact ⟨hw.awake hawake, hbounds⟩
    exact hinv.set hi hsound fun _ ↦ id

theorem inv_of_run {now : Time} {acts : List Action} (h : Run step { base := { now } } acts w) :
    Inv w :=
  h.invariant Inv (fun _ _ _ hinv hs ↦ hinv.step (step_spec hs)) (inv_init now)

theorem run_abandons {s : System.State} {held rest : List Delivery}
    (h : s.held.Perm (held ++ rest)) :
    Run System.step s (held.map .abandon) { s with held := s.held.diff held } := by
  induction held generalizing s with
  | nil => exact .nil s
  | cons d held ih =>
    have hd : d ∈ s.held := h.mem_iff.mpr List.mem_cons_self
    have hrest : (s.held.erase d).Perm (held ++ rest) :=
      ((List.perm_cons_erase hd).symm.trans h).cons_inv
    rw [List.diff_cons]
    exact .cons (if_pos hd) (ih (s := { s with held := s.held.erase d }) hrest)

/-- The workers do nothing that the system does not. -/
theorem simulates : Simulates step System.step (fun _ _ ↦ True)
    fun (w : World) s ↦ Inv w ∧ w.base = s := by
  intro w a w' s _ hR h
  obtain ⟨hinv, rfl⟩ := hR
  have hstep := step_spec h
  have hinv' := hinv.step hstep
  cases hstep with
  | other a base ha hs => exact ⟨[a], base, .one hs, hinv', rfl⟩
  | claims i locked l base hi hl hw hs => exact ⟨_, base, .one hs, hinv', rfl⟩
  | tasks a i j l d t pending deliveries own base ha hi hl hj hown hs =>
    exact ⟨_, base, .one hs, hinv', rfl⟩
  | dies i l hi =>
    have hperm := hinv.held.trans (perm_flatMap (·.phase.held) hi)
    exact ⟨_, _, run_abandons hperm, hinv', rfl⟩
  | _ => exact ⟨[], w.base, .nil _, hinv', rfl⟩

def Phase.deliveries : Phase → List Task
  | .delivering _ deliveries => deliveries
  | _ => []

omit [Platform] in
theorem length_held_le (deliveries : List Task) :
    (deliveries.flatMap Task.held).length ≤ deliveries.length := by
  induction deliveries with
  | nil => exact Nat.le_refl 0
  | cons t deliveries ih =>
    rw [List.flatMap_cons, List.length_append, List.length_cons]
    have ht : t.held.length ≤ 1 := by
      cases t with
      | running d => exact Nat.le_refl 1
      | finished => exact Nat.zero_le 1
    omega

omit [Platform] in
theorem Loop.Sound.bounds (h : l.Sound) : l.phase.held.length ≤ l.config.batch ∧
    l.phase.deliveries.length ≤ l.config.concurrency := by
  obtain ⟨config, phase, wake⟩ := l
  cases phase with
  | delivering pending deliveries =>
    obtain ⟨-, hc, hb⟩ := h pending deliveries rfl
    have hle := length_held_le deliveries
    refine ⟨?_, hc⟩
    rw [Phase.held, List.length_append]
    exact (Nat.add_le_add_left hle _).trans hb
  | _ => exact ⟨Nat.zero_le _, Nat.zero_le _⟩

/-- Any number of workers, with what becomes of their tasks and of themselves,
are a run of the system, in which no message is in the hands of two of them or
of none; and none takes on more than it is set to. -/
theorem workers_are_the_system {now : Time} {acts : List Action}
    (h : Run step { base := { now } } acts w) :
    (∃ l, Run System.step { now } l w.base) ∧
      w.base.held.Perm (w.loops.flatMap (·.phase.held)) ∧
      ∀ l ∈ w.loops, l.phase.held.length ≤ l.config.batch ∧
        l.phase.deliveries.length ≤ l.config.concurrency := by
  have hinv := inv_of_run h
  obtain ⟨l, s, hrun, -, rfl⟩ :=
    h.simulated simulates (along_of_forall fun _ _ _ ↦ trivial) ⟨inv_init now, rfl⟩
  exact ⟨⟨l, hrun⟩, hinv.held, fun l hl ↦ (hinv.sound l hl).bounds⟩

section Drain

/-! How many steps a batch is from its end. -/

def Task.left : Task → ℕ
  | .running d => if d.outcome.isNone then 3 else 2
  | .finished => 1

def Phase.left : Phase → ℕ
  | .delivering pending deliveries => 4 * pending.length + (deliveries.map Task.left).sum + 1
  | _ => 0

omit [Platform] in
theorem sum_eraseIdx {deliveries : List Task} {t : Task} (h : deliveries[j]? = some t) :
    (deliveries.map Task.left).sum = t.left + ((deliveries.eraseIdx j).map Task.left).sum := by
  have hperm := perm_flatMap (fun t ↦ [t]) h
  rw [List.flatMap_singleton', List.flatMap_singleton'] at hperm
  exact (hperm.map Task.left).sum_eq.trans List.sum_cons

omit [Platform] in
theorem sum_set {deliveries : List Task} {t : Task} (t' : Task) (h : deliveries[j]? = some t) :
    ((deliveries.set j t').map Task.left).sum =
      t'.left + ((deliveries.eraseIdx j).map Task.left).sum := by
  have hperm := perm_flatMap_set (fun t ↦ [t]) t' h
  rw [List.flatMap_singleton', List.flatMap_singleton'] at hperm
  exact (hperm.map Task.left).sum_eq.trans List.sum_cons

theorem Becomes.left {d : Delivery} {own : System.Action} {t : Task} {base base' : System.State}
    (hown : Becomes d own t) (h : System.Step base own base') :
    t.left < (Task.running d).left := by
  cases hown with
  | handedOver outcome =>
    cases h with
    | handoff _ _ hd ho =>
      simp only [Task.left, ho, Option.isNone_none, Option.isNone_some, if_true,
        Bool.false_eq_true, if_false]
      decide
  | recorded =>
    simp only [Task.left]
    split <;> decide
  | failed =>
    simp only [Task.left]
    split <;> decide

def Delivering (i : ℕ) (w : World) : Prop := ∃ l, w.loops[i]? = some l ∧ 0 < l.phase.left

def World.left (i : ℕ) (w : World) : ℕ := (w.loops[i]?.map (·.phase.left)).getD 0

theorem left_of_getElem? (hi : w.loops[i]? = some l) : w.left i = l.phase.left := by
  rw [World.left, hi]
  rfl

theorem left_set {k : ℕ} {x x' : Loop} (hk : w.loops[k]? = some x) :
    (World.mk base (w.loops.set k x')).left i =
      if k = i then x'.phase.left else w.left i := by
  split
  · rename_i hki
    subst hki
    exact left_of_getElem? (by rw [List.getElem?_set_self', hk]; rfl)
  · rename_i hki
    rw [World.left, List.getElem?_set_ne hki, World.left]

/-- A step of the worker's own brings the end of its batch nearer, and no other puts it off. -/
theorem Step.left (h : Step w a w') (hd : Delivering i w) :
    w'.left i + (if a.drains = some i then 1 else 0) ≤ w.left i := by
  obtain ⟨l, hi, hpos⟩ := hd
  have hquiet {base : System.State} {k : ℕ} {x x' : Loop} (hk : w.loops[k]? = some x)
      (ha : a.drains = none) (hle : k = i → x'.phase.left ≤ x.phase.left) :
      (World.mk base (w.loops.set k x')).left i + (if a.drains = some i then 1 else 0) ≤
        w.left i := by
    rw [left_set hk, ha, if_neg (Option.some_ne_none i ∘ Eq.symm)]
    split
    · rename_i hki
      rw [← hki, left_of_getElem? hk]
      exact hle hki
    · exact Nat.le_refl _
  have hmove {base : System.State} {k : ℕ} {x x' : Loop} (hk : w.loops[k]? = some x)
      (ha : a.drains = some k) (hlt : x'.phase.left < x.phase.left) :
      (World.mk base (w.loops.set k x')).left i + (if a.drains = some i then 1 else 0) ≤
        w.left i := by
    rw [left_set hk, ha]
    by_cases hki : k = i
    · rw [if_pos hki, if_pos (congrArg some hki), ← hki, left_of_getElem? hk]
      exact hlt
    · rw [if_neg hki, if_neg fun he ↦ hki (Option.some.inj he)]
      exact Nat.le_refl _
  cases h with
  | other a base ha hs =>
    rw [World.left, List.getElem?_map, hi, Option.map_some, Option.map_some, Option.getD_some,
      phase_notify, left_of_getElem? hi]
    exact Nat.le_refl _
  | start config =>
    rw [World.left, List.getElem?_append_left (List.getElem?_eq_some_iff.mp hi).1]
    exact Nat.le_refl _
  | claims k locked x base hk hx hw hs =>
    refine hquiet hk rfl fun hki ↦ ?_
    subst hki
    obtain rfl : x = l := Option.some.inj (hk.symm.trans hi)
    rw [hx] at hpos
    exact absurd hpos (Nat.lt_irrefl 0)
  | spawns k x d pending deliveries hk hx hlt =>
    refine hmove hk rfl ?_
    have hd : (Task.running d).left ≤ 3 := by
      simp only [Task.left]
      split <;> decide
    rw [hx]
    simp only [Loop.deliver, Phase.left, List.length_cons, List.map_append, List.sum_append,
      List.map_cons, List.map_nil, List.sum_cons, List.sum_nil]
    omega
  | tasks a k j x d t pending deliveries own base ha hk hx hj hown hs =>
    refine hmove hk ha ?_
    have hlt := hown.left (System.step_spec hs)
    rw [hx]
    simp only [Loop.deliver, Phase.left, sum_set t hj, sum_eraseIdx hj]
    omega
  | joins k j x pending deliveries hk hx hj hfull =>
    refine hmove hk rfl ?_
    rw [hx]
    simp only [Loop.deliver, Phase.left, sum_eraseIdx hj, Task.left]
    omega
  | drained k x hk hx =>
    refine hmove hk rfl ?_
    rw [hx]
    exact Nat.zero_lt_one
  | dies k x hk => exact hquiet hk rfl fun _ ↦ Nat.zero_le _
  | heeds a k x wake ha hk hw => exact hquiet hk ha fun _ ↦ Nat.le_refl _

omit [Platform] in
theorem Loop.Sound.left_le (h : l.Sound) : l.phase.left ≤ 4 * l.config.batch + 1 := by
  obtain ⟨config, phase, wake⟩ := l
  cases phase with
  | delivering pending deliveries =>
    have hb : pending.length + deliveries.length ≤ config.batch := (h pending deliveries rfl).2.2
    have hsum : (deliveries.map Task.left).sum ≤ deliveries.length * 4 := by
      rw [← List.length_map Task.left]
      refine List.sum_le_card_nsmul _ 4 fun n hn ↦ ?_
      obtain ⟨t, -, rfl⟩ := List.mem_map.mp hn
      cases t with
      | running d =>
        simp only [Task.left]
        split <;> decide
      | finished => decide
    simp only [Phase.left]
    omega
  | _ => exact Nat.zero_le _

/-- A worker that delivers is never stuck, however its tasks have ended so far. -/
theorem Inv.exists_drain (hinv : Inv w) (hi : w.loops[i]? = some l) {pending : List Delivery}
    {deliveries : List Task} (hl : l.phase = .delivering pending deliveries) :
    ∃ a, Action.drains a = some i ∧ (∀ j, a ≠ .fails i j) ∧ (WorkerLoop.step w a).isSome := by
  by_cases hrun : ∃ d, .running d ∈ deliveries
  · obtain ⟨d, hd⟩ := hrun
    obtain ⟨j, hj⟩ := List.mem_iff_getElem?.mp hd
    have hheld : d ∈ w.base.held := by
      refine hinv.held.mem_iff.mpr (List.mem_flatMap.mpr ⟨l, List.mem_of_getElem? hi, ?_⟩)
      rw [hl]
      exact List.mem_append_right _ (List.mem_flatMap.mpr ⟨_, hd, List.mem_singleton_self d⟩)
    have htask : l.task j = some (d, fun t ↦ l.deliver pending (deliveries.set j t)) := by
      simp only [Loop.task, hl, hj]
    cases ho : d.outcome with
    | none =>
      refine ⟨.handsOver i j (.accepted none), rfl, (fun _ h ↦ by cases h), ?_⟩
      simp [WorkerLoop.step, hi, htask, World.act, System.step, hheld, ho]
    | some answer =>
      refine ⟨.records i j, rfl, (fun _ h ↦ by cases h), ?_⟩
      simp [WorkerLoop.step, hi, htask, World.act, System.step, hheld, ho]
  · have hover : ∀ t ∈ deliveries, t = .finished := by
      intro t ht
      cases t with
      | running d => exact absurd ⟨d, ht⟩ hrun
      | finished => rfl
    have hjoin {t : Task} {rest : List Task} (he : deliveries = t :: rest)
        (hfull : pending ≠ [] → l.config.concurrency ≤ deliveries.length) :
        (WorkerLoop.step w (.joins i 0)).isSome := by
      have ht : deliveries[0]? = some .finished := by
        rw [he, hover t (he ▸ List.mem_cons_self)]
        rfl
      have hj : l.join 0 = some (l.deliver pending (deliveries.eraseIdx 0)) := by
        simp only [Loop.join, hl]
        exact if_pos ⟨ht, hfull⟩
      simp [WorkerLoop.step, World.move, hi, hj]
    cases pending with
    | cons d pending =>
      by_cases hlt : deliveries.length < l.config.concurrency
      · refine ⟨.spawns i, rfl, (fun _ h ↦ by cases h), ?_⟩
        simp [WorkerLoop.step, World.move, hi, Loop.spawn, hl, hlt]
      · obtain ⟨t, rest, he⟩ : ∃ t rest, deliveries = t :: rest :=
          List.exists_cons_of_length_pos (l.config.positive.trans_le (Nat.le_of_not_lt hlt))
        exact ⟨.joins i 0, rfl, (fun _ h ↦ by cases h), hjoin he fun _ ↦ Nat.le_of_not_lt hlt⟩
    | nil =>
      cases hdel : deliveries with
      | nil =>
        refine ⟨.drained i, rfl, (fun _ h ↦ by cases h), ?_⟩
        simp [WorkerLoop.step, World.move, hi, Loop.drain, hl, hdel]
      | cons t rest =>
        exact ⟨.joins i 0, rfl, (fun _ h ↦ by cases h), hjoin hdel fun he ↦ absurd rfl he⟩

/-- A batch ends: the worker can always go on, and does not go on for long. -/
theorem batch_ends {now : Time} {acts : List Action} (h : Run step { base := { now } } acts w)
    (hi : w.loops[i]? = some l) {pending : List Delivery} {deliveries : List Task}
    (hl : l.phase = .delivering pending deliveries) :
    (∃ a, a.drains = some i ∧ (∀ j, a ≠ .fails i j) ∧ (step w a).isSome) ∧
      ∀ acts' w', Run step w acts' w' → Along step (fun w _ ↦ Delivering i w) w acts' →
        acts'.countP (·.drains = some i) ≤ 4 * l.config.batch + 1 := by
  have hinv := inv_of_run h
  refine ⟨hinv.exists_drain hi hl, fun acts' w' hrun hd ↦ ?_⟩
  have hle : w'.left i + acts'.countP (fun a ↦ a.drains = some i) ≤ w.left i :=
    hrun.countP_le (World.left i)
      (fun _ _ _ hd hs ↦ by simpa only [decide_eq_true_eq] using (step_spec hs).left hd) hd
  have hsound := (hinv.sound l (List.mem_of_getElem? hi)).left_le
  rw [left_of_getElem? hi] at hle
  omega

end Drain

end Runs

/-- A worker finds nothing, sleeps until a message is accepted, and claims it. -/
def wakesAndClaims : List Action :=
  [.start ⟨"w1".toList, 20, 8, by decide⟩, .subscribes 0, .claims 0 [],
    .other (.submit System.invoice), .other (.accept 0 7), .other (.accept 0 7),
    .other (.accept 0 7), .other (.accept 0 7), .receives 0, .wakes 0, .claims 0 []]

def sendsAndSleeps : List Action :=
  wakesAndClaims ++ [.spawns 0, .handsOver 0 0 (.accepted (some "4bXlNq2Qh8z1Yk".toList)),
    .records 0 0, .joins 0 0, .drained 0, .claims 0 []]

attribute [local instance] Platform.ascii

theorem sendsAndSleeps_workers : ∃ w, Run step { base := { now := 0 } } sendsAndSleeps w ∧
    (∃ l, Run System.step { now := 0 } l w.base) := by
  have hrun : (exec step { base := { now := 0 } } sendsAndSleeps).any fun _ ↦ true := by
    decide +kernel
  obtain ⟨w, hw, -⟩ := run_of_any hrun
  exact ⟨w, hw, (workers_are_the_system hw).1⟩

theorem wakesAndClaims_batch_ends : ∃ w, Run step { base := { now := 0 } } wakesAndClaims w ∧
    ∃ a, Action.drains a = some 0 ∧ (∀ j, a ≠ .fails 0 j) ∧ (step w a).isSome := by
  have hrun : (exec step { base := { now := 0 } } wakesAndClaims).any fun w ↦
      w.loops[0]?.any fun l ↦
        l.phase = .delivering [⟨"w1".toList, System.claimedInvoice, 0, none⟩] [] := by
    decide +kernel
  obtain ⟨w, hw, hp⟩ := run_of_any hrun
  obtain ⟨l, hl, hp⟩ := (Option.any_eq_true _ _).mp hp
  exact ⟨w, hw, (batch_ends hw hl (of_decide_eq_true hp)).1⟩

end Postbud.WorkerLoop
