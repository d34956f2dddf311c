import Mathlib.Data.List.Chain
import Mathlib.Data.List.Nodup
import Mathlib.Data.List.Perm.Subperm
import Postbud.Lib.Processes
import Postbud.Lib.Simulation

namespace Postbud.Lib.Pacing

open Transition Processes

/-! Workers that look whether something is due again and, later, do it. Each
time it is done it is settled how long it need not be done again. Two workers
may find it due at the same time. -/

structure Mark where
  worker : ℕ
  time : ℤ
  wait : ℤ
  deriving DecidableEq

/-- `asked` has the clock at which each worker found it due, until it is done. -/
structure State where
  marks : List Mark := []
  asked : List (Option ℤ) := []
  now : ℤ := 0
  deriving DecidableEq

inductive Action
  | tick (time : ℕ)
  | join
  | ask (worker : ℕ) (clock : ℤ)
  | drop (worker : ℕ)
  | mark (worker : ℕ) (wait : ℤ)
  deriving DecidableEq

def Due (marks : List Mark) (clock : ℤ) : Prop := ∀ m ∈ marks.getLast?, m.time + m.wait < clock

instance (marks : List Mark) (clock : ℤ) : Decidable (Due marks clock) := by
  unfold Due; infer_instance

/-- The clock of a worker is at most `skew` ahead, and no wait is below `least`. -/
def step (skew least : ℤ) (s : State) : Action → Option State
  | .tick time => some { s with now := s.now + time }
  | .join => some { s with asked := s.asked ++ [none] }
  | .ask worker clock =>
    if worker < s.asked.length ∧ Due s.marks clock ∧ clock ≤ s.now + skew then
      some { s with asked := s.asked.set worker (some clock) }
    else none
  | .drop worker => some { s with asked := s.asked.set worker none }
  | .mark worker wait =>
    match s.asked[worker]? with
    | some (some _) =>
      if least ≤ wait then
        some { s with
          marks := s.marks ++ [⟨worker, s.now, wait⟩]
          asked := s.asked.set worker none }
      else none
    | _ => none

/-- Nothing is done again before its wait is over. -/
def Paced (skew : ℤ) (marks : List Mark) : Prop :=
  marks.IsChain fun m m' ↦ m.time + m.wait < m'.time + skew

structure Inv (skew least : ℤ) (s : State) : Prop where
  past : ∀ m ∈ s.marks, m.time ≤ s.now ∧ least ≤ m.wait ∧ m.worker < s.asked.length
  sorted : s.marks.Pairwise fun m m' ↦ m.time ≤ m'.time
  asked : ∀ (w : ℕ) (clock : ℤ), s.asked[w]? = some (some clock) → clock ≤ s.now + skew ∧
    ∀ m ∈ s.marks, m.worker = w → m.time + least < clock
  own : s.marks.Pairwise fun m m' ↦ m.worker = m'.worker → m.time + least < m'.time + skew
  alone : s.asked.length ≤ 1 → Paced skew s.marks ∧
    ∀ (w : ℕ) (clock : ℤ), s.asked[w]? = some (some clock) → Due s.marks clock

variable {skew least : ℤ} {s s' t : State} {a : Action} {l : List Action} {w : ℕ} {clock : ℤ}

/-- What a worker finds due, it did long enough ago itself. -/
theorem Inv.lt_of_due (h : Inv skew least s) (hdue : Due s.marks clock) :
    ∀ m ∈ s.marks, m.time + least < clock := by
  intro m hm
  obtain ⟨l, last, hlast⟩ := s.marks.eq_nil_or_concat.resolve_left (List.ne_nil_of_mem hm)
  rw [List.concat_eq_append] at hlast
  have hdue' : last.time + last.wait < clock := hdue last (by rw [hlast, List.getLast?_concat]; rfl)
  have hmem : last ∈ s.marks := hlast ▸ List.mem_append_right _ List.mem_cons_self
  have hle : m.time ≤ last.time := by
    have hsorted := h.sorted
    rw [hlast] at hsorted hm
    obtain hm | hm := List.mem_append.mp hm
    · exact (List.pairwise_append.mp hsorted).2.2 m hm last List.mem_cons_self
    · exact List.mem_singleton.mp hm ▸ Int.le_refl _
  have hwait := (h.past last hmem).2.1
  omega

theorem getElem?_set_none {i : ℕ} (h : (s.asked.set w none)[i]? = some (some clock)) :
    s.asked[i]? = some (some clock) := by
  obtain ⟨-, h⟩ | ⟨-, h⟩ := getElem?_set_cases h
  · cases h
  · exact h

theorem Inv.drop (h : Inv skew least s) (w : ℕ) :
    Inv skew least { s with asked := s.asked.set w none } where
  past := by simpa only [List.length_set] using h.past
  sorted := h.sorted
  asked i clock hi := h.asked i clock (getElem?_set_none hi)
  own := h.own
  alone hone := by
    rw [List.length_set] at hone
    exact ⟨(h.alone hone).1, fun i clock hi ↦ (h.alone hone).2 i clock (getElem?_set_none hi)⟩

theorem Inv.mark (h : Inv skew least s) {wait : ℤ} (hw : s.asked[w]? = some (some clock))
    (hwait : least ≤ wait) :
    Inv skew least { s with
      marks := s.marks ++ [⟨w, s.now, wait⟩]
      asked := s.asked.set w none } where
  past := by
    refine forall_mem_concat ?_ ⟨Int.le_refl _, hwait, ?_⟩
    · simpa only [List.length_set] using h.past
    · simpa only [List.length_set] using (List.getElem?_eq_some_iff.mp hw).1
  sorted := List.pairwise_append.mpr ⟨h.sorted, List.pairwise_singleton _ _, fun m hm m' hm' ↦ by
    rw [List.mem_singleton.mp hm']
    exact (h.past m hm).1⟩
  asked i clock' hi := by
    have hi' := getElem?_set_none hi
    refine ⟨(h.asked i clock' hi').1, forall_mem_concat (h.asked i clock' hi').2 fun he ↦ ?_⟩
    -- The worker that is done has not asked again.
    obtain rfl : w = i := he
    rw [List.getElem?_set_self (List.getElem?_eq_some_iff.mp hw).1] at hi
    cases hi
  own := List.pairwise_append.mpr ⟨h.own, List.pairwise_singleton _ _, fun m hm m' hm' ↦ by
    rw [List.mem_singleton.mp hm']
    intro he
    obtain ⟨hclock, hall⟩ := h.asked w clock hw
    have hlt := hall m hm he
    dsimp only
    omega⟩
  alone hone := by
    rw [List.length_set] at hone
    obtain ⟨hpaced, hdue⟩ := h.alone hone
    constructor
    · refine List.isChain_append.mpr ⟨hpaced, List.isChain_singleton _, fun m hm m' hm' ↦ ?_⟩
      obtain rfl := Option.some.inj hm'
      have hlt := hdue w clock hw m hm
      have hclock := (h.asked w clock hw).1
      dsimp only
      omega
    · intro i clock' hi
      -- There is no other worker.
      have hi' := (List.getElem?_eq_some_iff.mp (getElem?_set_none hi)).1
      have hw' := (List.getElem?_eq_some_iff.mp hw).1
      obtain rfl : w = i := by omega
      rw [List.getElem?_set_self hw'] at hi
      cases hi

theorem Inv.ask (h : Inv skew least s) (hdue : Due s.marks clock) (hclock : clock ≤ s.now + skew)
    (w : ℕ) : Inv skew least { s with asked := s.asked.set w (some clock) } where
  past := by simpa only [List.length_set] using h.past
  sorted := h.sorted
  asked i clock' hi := by
    obtain ⟨-, he⟩ | ⟨-, hi⟩ := getElem?_set_cases hi
    · obtain rfl := Option.some.inj he
      exact ⟨hclock, fun m hm _ ↦ h.lt_of_due hdue m hm⟩
    · exact h.asked i clock' hi
  own := h.own
  alone hone := by
    rw [List.length_set] at hone
    refine ⟨(h.alone hone).1, fun i clock' hi ↦ ?_⟩
    obtain ⟨-, he⟩ | ⟨-, hi⟩ := getElem?_set_cases hi
    · obtain rfl := Option.some.inj he
      exact hdue
    · exact (h.alone hone).2 i clock' hi

theorem Inv.tick (h : Inv skew least s) (time : ℕ) :
    Inv skew least { s with now := s.now + time } where
  past m hm := by
    obtain ⟨hle, hrest⟩ := h.past m hm
    exact ⟨by dsimp only; omega, hrest⟩
  sorted := h.sorted
  asked i clock hi := by
    obtain ⟨hle, hrest⟩ := h.asked i clock hi
    exact ⟨by dsimp only; omega, hrest⟩
  own := h.own
  alone := h.alone

theorem Inv.join (h : Inv skew least s) : Inv skew least { s with asked := s.asked ++ [none] } := by
  have hasked : ∀ (i : ℕ) (clock : ℤ), (s.asked ++ [none])[i]? = some (some clock) →
      s.asked[i]? = some (some clock) := by
    intro i clock hi
    obtain hi | ⟨-, hi⟩ := getElem?_concat_cases hi
    · exact hi
    · cases hi
  exact {
    past := fun m hm ↦ by
      obtain ⟨hle, hwait, hlt⟩ := h.past m hm
      refine ⟨hle, hwait, ?_⟩
      rw [List.length_append]
      omega
    sorted := h.sorted
    asked := fun i clock hi ↦ h.asked i clock (hasked i clock hi)
    own := h.own
    alone := fun hone ↦ by
      have hone' : s.asked.length ≤ 1 := by
        rw [List.length_append] at hone
        omega
      exact ⟨(h.alone hone').1, fun i clock hi ↦ (h.alone hone').2 i clock (hasked i clock hi)⟩ }

theorem inv_step (h : Inv skew least s) (hs : step skew least s a = some s') :
    Inv skew least s' := by
  cases a with
  | tick time =>
    obtain rfl := Option.some.inj hs
    exact h.tick time
  | join =>
    obtain rfl := Option.some.inj hs
    exact h.join
  | ask worker clock =>
    obtain ⟨⟨-, hdue, hclock⟩, hs⟩ := Option.ite_none_right_eq_some.mp hs
    obtain rfl := Option.some.inj hs
    exact h.ask hdue hclock worker
  | drop worker =>
    obtain rfl := Option.some.inj hs
    exact h.drop worker
  | mark worker wait =>
    simp only [step] at hs
    split at hs
    · rename_i hw
      obtain ⟨hwait, hs⟩ := Option.ite_none_right_eq_some.mp hs
      obtain rfl := Option.some.inj hs
      exact h.mark hw hwait
    · cases hs

theorem inv_run (h : Inv skew least s) (hrun : Run (step skew least) s l t) : Inv skew least t :=
  hrun.invariant _ (fun _ _ _ hi ha ↦ inv_step hi ha) h

theorem inv_init (skew least now : ℤ) (workers : ℕ) :
    Inv skew least { asked := List.replicate workers none, now } where
  past := nofun
  sorted := .nil
  asked i clock hi := by
    cases List.eq_of_mem_replicate (List.mem_of_getElem? hi)
  own := .nil
  alone _ := ⟨.nil, fun i clock hi ↦ by
    cases List.eq_of_mem_replicate (List.mem_of_getElem? hi)⟩

/-- No worker does it twice within the least wait, and so in such a time it is
done by as many as there are workers at most. -/
theorem Inv.length_window_le (h : Inv skew least s) (start : ℤ) :
    (s.marks.filter fun m ↦ start < m.time ∧ m.time ≤ start + least - skew).length ≤
      s.asked.length := by
  set window := s.marks.filter fun m ↦ start < m.time ∧ m.time ≤ start + least - skew with hwindow
  have hmem : ∀ m ∈ window, m ∈ s.marks ∧ start < m.time ∧ m.time ≤ start + least - skew := by
    intro m hm
    obtain ⟨hm, hin⟩ := List.mem_filter.mp hm
    exact ⟨hm, of_decide_eq_true hin⟩
  have hnodup : (window.map (·.worker)).Nodup := by
    refine List.pairwise_map.mpr ((h.own.filter _).imp_of_mem fun {m m'} hm hm' hown he ↦ ?_)
    have hlt := hown he
    obtain ⟨-, hfrom, -⟩ := hmem m hm
    obtain ⟨-, -, hto⟩ := hmem m' hm'
    omega
  have hsub : window.map (·.worker) ⊆ List.range s.asked.length := by
    intro w hw
    obtain ⟨m, hm, rfl⟩ := List.mem_map.mp hw
    exact List.mem_range.mpr (h.past m (hmem m hm).1).2.2
  have hle := (List.subperm_of_subset hnodup hsub).length_le
  rwa [List.length_map, List.length_range] at hle

/-! What is kept of it: when it was done, and for how long. -/

def Mark.entry (m : Mark) : ℤ × ℤ := (m.time, m.wait)

/-- What one worker may do to the history, and to whether it still has to do it. -/
inductive Paces (skew least now : ℤ) : Option ℤ → List (ℤ × ℤ) → Option ℤ → List (ℤ × ℤ) → Prop
  | stays (o : Option ℤ) (history : List (ℤ × ℤ)) : Paces skew least now o history o history
  | drops (o : Option ℤ) (history : List (ℤ × ℤ)) : Paces skew least now o history none history
  | asks {clock : ℤ} {history : List (ℤ × ℤ)} (o : Option ℤ)
      (hdue : ∀ e ∈ history.getLast?, e.1 + e.2 < clock) (hclock : clock ≤ now + skew) :
      Paces skew least now o history (some clock) history
  | marks {wait : ℤ} (clock : ℤ) (history : List (ℤ × ℤ)) (hwait : least ≤ wait) :
      Paces skew least now (some clock) history none (history ++ [(now, wait)])

theorem due_iff_entries : Due s.marks clock ↔
    ∀ e ∈ (s.marks.map Mark.entry).getLast?, e.1 + e.2 < clock := by
  rw [List.getLast?_map, Due]
  cases s.marks.getLast? with
  | none => simp
  | some m => simp [Mark.entry]

theorem Paces.run {o o' : Option ℤ} {history history' : List (ℤ × ℤ)}
    (h : Paces skew least s.now o history o' history') (hw : s.asked[w]? = some o)
    (hs : s.marks.map Mark.entry = history) :
    ∃ l t, Run (step skew least) s l t ∧ t.now = s.now ∧ t.asked = s.asked.set w o' ∧
      t.marks.map Mark.entry = history' := by
  obtain ⟨hlt, hget⟩ := List.getElem?_eq_some_iff.mp hw
  cases h with
  | stays =>
    refine ⟨[], s, .nil s, rfl, ?_, hs⟩
    rw [← hget, List.set_getElem_self]
  | drops => exact ⟨[.drop w], { s with asked := s.asked.set w none }, .one rfl, rfl, rfl, hs⟩
  | @asks clock _ _ hdue hclock =>
    rw [← hs, ← due_iff_entries] at hdue
    exact ⟨[.ask w clock], { s with asked := s.asked.set w (some clock) },
      .one (if_pos ⟨hlt, hdue, hclock⟩), rfl, rfl, hs⟩
  | @marks wait clock _ hwait =>
    refine ⟨[.mark w wait], { s with
      marks := s.marks ++ [⟨w, s.now, wait⟩]
      asked := s.asked.set w none }, .one ?_, rfl, rfl, ?_⟩
    · simp only [step, hw, if_pos hwait]
    · rw [← hs, List.map_append]
      rfl

theorem Inv.paced_entries (h : Inv skew least s) (hone : s.asked.length ≤ 1) :
    (s.marks.map Mark.entry).IsChain fun e e' ↦ e.1 + e.2 < e'.1 + skew :=
  (List.isChain_map _).mpr (h.alone hone).1

theorem Inv.length_entries_le (h : Inv skew least s) (start : ℤ) :
    ((s.marks.map Mark.entry).filter fun e ↦ start < e.1 ∧ e.1 ≤ start + least - skew).length ≤
      s.asked.length := by
  rw [List.filter_map, List.length_map]
  exact h.length_window_le start

end Postbud.Lib.Pacing
