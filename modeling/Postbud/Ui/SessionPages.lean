import Postbud.Ui.Session

namespace Postbud.Session

open Lib Lib.Transition Lib.Processes

/-! How the calls of a page share one exchange. -/

def Kind.isRefresh : Kind → Bool
  | .refresh _ => true
  | _ => false

def Phase.settled? : Phase → Bool
  | .settled _ => true
  | _ => false

/-- A refresh that is not over. -/
def Task.refreshes (task : Task) : Bool := task.kind.isRefresh && !task.phase.settled?

structure Shared (w : World) : Prop where
  running : ∀ (i : ℕ) (task : Task) (page : Page), w.tasks[i]? = some task → task.refreshes →
    w.pages[task.page]? = some page → page.isOpen → page.refreshing = some i
  pending : ∀ (p : ℕ) (page : Page) (i : ℕ), w.pages[p]? = some page → page.isOpen →
    page.refreshing = some i → ∃ task, w.tasks[i]? = some task ∧ task.page = p ∧ task.refreshes
  awaited : ∀ call ∈ w.calls, ∀ i, call.phase = .awaiting i →
    ∃ task, w.tasks[i]? = some task ∧ task.page = call.page ∧ task.kind.isRefresh
  pageLt : ∀ task ∈ w.tasks, task.page < w.pages.length

theorem shared_init : Shared {} where
  running _ _ _ hi := by cases hi
  pending _ _ _ hp := by cases hp
  awaited := nofun
  pageLt := nofun

section Steps

variable {oidc : Bool} {w w' : World} {a : Action} {i p c : ℕ} {task task' : Task} {kind : Kind}
  {f : Page → Page} {cookie : Option ℕ} {phase : CallPhase}

theorem Shared.load (h : Shared w) : Shared w.load where
  running i task page hi hr hp ho := by
    obtain hp | ⟨he, -⟩ := getElem?_concat_cases hp
    · exact h.running i task page hi hr hp ho
    · exact absurd (h.pageLt task (List.mem_of_getElem? hi)) (Nat.not_lt.mpr (Nat.le_of_eq he.symm))
  pending p page i hp ho hr := by
    obtain hp | ⟨-, rfl⟩ := getElem?_concat_cases hp
    · exact h.pending p page i hp ho hr
    · cases hr
  awaited := h.awaited
  pageLt task htask := by
    rw [World.load, List.length_append]
    exact Nat.lt_add_right _ (h.pageLt task htask)

/-- A change of pages that has nothing to do with their refreshes. -/
theorem Shared.setPage (h : Shared w) (hopen : ∀ page, (f page).isOpen → page.isOpen)
    (hrefreshing : ∀ page, (f page).refreshing = page.refreshing) : Shared (w.setPage p f) where
  running i task page' hi hr hp ho := by
    obtain ⟨page, hpage, rfl⟩ := getElem?_setPage.mp hp
    have hrun := h.running i task page hi hr hpage
    split_ifs at ho ⊢
    · exact (hrefreshing page).trans (hrun (hopen page ho))
    · exact hrun ho
  pending q page' i hp ho hr := by
    obtain ⟨page, hpage, rfl⟩ := getElem?_setPage.mp hp
    split_ifs at ho hr
    · exact h.pending q page i hpage (hopen page ho) ((hrefreshing page).symm.trans hr)
    · exact h.pending q page i hpage ho hr
  awaited := h.awaited
  pageLt task htask := by
    rw [World.setPage, List.length_modify]
    exact h.pageLt task htask

/-- A task goes on, and stays what it is. -/
theorem Shared.setTask (h : Shared w) (hi : w.tasks[i]? = some task) (hpage : task'.page = task.page)
    (hkind : task'.kind.isRefresh = task.kind.isRefresh)
    (hphase : task'.phase.settled? = task.phase.settled?) :
    Shared { w with tasks := w.tasks.set i task' } where
  running j t page hj hr hp ho := by
    obtain ⟨rfl, rfl⟩ | ⟨-, hj⟩ := getElem?_set_cases hj
    · rw [Task.refreshes, hkind, hphase] at hr
      exact h.running j task page hi hr (hpage ▸ hp) ho
    · exact h.running j t page hj hr hp ho
  pending q page j hp ho hr := by
    refine exists_getElem?_set hi ?_ (h.pending q page j hp ho hr)
    rintro ⟨hq, href⟩
    refine ⟨hpage.trans hq, ?_⟩
    rwa [Task.refreshes, hkind, hphase]
  awaited call hcall j hj := by
    refine exists_getElem?_set hi ?_ (h.awaited call hcall j hj)
    rintro ⟨hp, hr⟩
    exact ⟨hpage.trans hp, hkind.trans hr⟩
  pageLt := forall_mem_set (hpage ▸ h.pageLt task (List.mem_of_getElem? hi))
    fun t ht ↦ h.pageLt t (List.mem_of_mem_eraseIdx ht)

/-- A task ends, and the page that it was run by forgets it. -/
theorem Shared.settle (h : Shared w) (hi : w.tasks[i]? = some task) (hs : ¬ task.phase.settled?)
    (ok : Bool) : Shared (w.settle i task ok) where
  running j t page' hj hr hp ho := by
    obtain ⟨-, rfl⟩ | ⟨hne, hj⟩ := getElem?_set_cases hj
    · rw [Task.refreshes, Phase.settled?, Bool.not_true, Bool.and_false] at hr
      cases hr
    · obtain ⟨page, hpage, rfl⟩ := getElem?_setPage.mp hp
      have hrun := h.running j t page hj hr hpage
      split_ifs at ho ⊢ with he
      · cases hkind : task.kind with
        | refresh attempt =>
          -- The page runs one refresh at a time, and it is this one.
          rw [hkind] at ho
          have hrefreshes : task.refreshes := by
            rw [Task.refreshes, hkind, Bool.eq_false_iff.mpr hs]
            rfl
          have hself := h.running i task page hi hrefreshes (he ▸ hpage) ho
          exact absurd (Option.some.inj ((hrun ho).symm.trans hself)) hne
        | exchange =>
          rw [hkind] at ho
          exact hrun ho
        | logout =>
          rw [hkind] at ho
          cases ho
      · exact hrun ho
  pending q page' j hp ho hr := by
    obtain ⟨page, hpage, rfl⟩ := getElem?_setPage.mp hp
    have hother : page.isOpen → page.refreshing = some j → (task.page = q → task.kind.isRefresh = false) →
        ∃ t, (w.tasks.set i { task with phase := .settled ok })[j]? = some t ∧ t.page = q ∧ t.refreshes := by
      intro ho hr hkind
      obtain ⟨t, ht, hq, href⟩ := h.pending q page j hpage ho hr
      refine ⟨t, ?_, hq, href⟩
      rw [List.getElem?_set_ne, ht]
      rintro rfl
      obtain rfl := Option.some.inj (hi.symm.trans ht)
      rw [Task.refreshes, hkind hq, Bool.false_and] at href
      cases href
    split_ifs at ho hr with he
    · cases hkind : task.kind with
      | refresh attempt =>
        rw [hkind] at hr
        cases hr
      | exchange =>
        rw [hkind] at ho hr
        exact hother ho hr fun _ ↦ by rw [hkind]; rfl
      | logout =>
        rw [hkind] at ho
        cases ho
    · exact hother ho hr fun hq ↦ absurd hq he
  awaited call hcall j hj := exists_getElem?_set hi id (h.awaited call hcall j hj)
  pageLt := by
    rw [World.settle, World.setPage, World.setPhase, List.length_modify]
    exact forall_mem_set (h.pageLt task (List.mem_of_getElem? hi))
      fun t ht ↦ h.pageLt t (List.mem_of_mem_eraseIdx ht)

/-- A task begins that is no refresh. -/
theorem Shared.start (h : Shared w) (hp : p < w.pages.length) (hkind : kind.isRefresh = false) :
    Shared (w.start p kind cookie) where
  running i task page hi hr hp ho := by
    obtain hi | ⟨-, rfl⟩ := getElem?_concat_cases hi
    · exact h.running i task page hi hr hp ho
    · rw [Task.refreshes, hkind, Bool.false_and] at hr
      cases hr
  pending q page i hq ho hr := by
    obtain ⟨task, hi, hpage, href⟩ := h.pending q page i hq ho hr
    exact ⟨task, getElem?_concat_left hi, hpage, href⟩
  awaited call hcall i hi := by
    obtain ⟨task, hi, hpage, href⟩ := h.awaited call hcall i hi
    exact ⟨task, getElem?_concat_left hi, hpage, href⟩
  pageLt := forall_mem_concat h.pageLt hp

/-- A refresh begins on a page that runs none. -/
theorem Shared.startRefresh {page : Page} (h : Shared w) (hpage : w.pages[p]? = some page)
    (hnone : page.refreshing = none) : Shared ((w.start p (.refresh 0) cookie).setPage p
      fun page ↦ { page with refreshing := some w.tasks.length }) where
  running i task page' hi hr hp ho := by
    obtain ⟨page₀, hpage₀, rfl⟩ := getElem?_setPage.mp hp
    obtain hi | ⟨rfl, rfl⟩ := getElem?_concat_cases hi
    · split_ifs at ho ⊢ with he
      · obtain rfl : page = page₀ := by
          rw [he] at hpage
          exact Option.some.inj (hpage.symm.trans hpage₀)
        cases hnone.symm.trans (h.running i task page hi hr hpage₀ ho)
      · exact h.running i task page₀ hi hr hpage₀ ho
    · rw [if_pos rfl]
  pending q page' i hp ho hr := by
    obtain ⟨page₀, hpage₀, rfl⟩ := getElem?_setPage.mp hp
    split_ifs at ho hr with he
    · obtain rfl := Option.some.inj hr
      exact ⟨_, List.getElem?_concat_length, he, rfl⟩
    · obtain ⟨task, hi, hpage, href⟩ := h.pending q page₀ i hpage₀ ho hr
      exact ⟨task, getElem?_concat_left hi, hpage, href⟩
  awaited call hcall i hi := by
    obtain ⟨task, hi, hpage, href⟩ := h.awaited call hcall i hi
    exact ⟨task, getElem?_concat_left hi, hpage, href⟩
  pageLt := by
    rw [World.setPage, List.length_modify]
    exact forall_mem_concat h.pageLt (List.getElem?_eq_some_iff.mp hpage).1

/-- Who asks for a refresh gets one that the page runs. -/
theorem Shared.refreshSession (h : Shared w) (hopen : w.openAt p) :
    Shared (w.refreshSession p).1 ∧ ∃ task,
      (w.refreshSession p).1.tasks[(w.refreshSession p).2]? = some task ∧ task.page = p ∧
        task.kind.isRefresh := by
  obtain ⟨page, hpage, ho⟩ := openAt_iff.mp hopen
  unfold World.refreshSession
  rw [hpage, Option.bind_some]
  split
  · rename_i i hi
    obtain ⟨task, htask, hp, href⟩ := h.pending p page i hpage ho hi
    exact ⟨h, task, htask, hp, (Bool.and_eq_true_iff.mp href).1⟩
  · rename_i hnone
    exact ⟨h.startRefresh hpage hnone, _, List.getElem?_concat_length, rfl, rfl⟩

theorem Shared.setCall (h : Shared w) (c : ℕ) (call : Call)
    (hphase : ∀ i, phase = .awaiting i → ∃ task, w.tasks[i]? = some task ∧ task.page = call.page ∧
      task.kind.isRefresh) : Shared (w.setCall c call phase) where
  running := h.running
  pending := h.pending
  awaited := forall_mem_set hphase fun call hcall ↦ h.awaited call (List.mem_of_mem_eraseIdx hcall)
  pageLt := h.pageLt

theorem Shared.setToken (h : Shared w) (p : ℕ) (token : Option Credential) :
    Shared (w.setToken p token) :=
  h.setPage (fun _ ho ↦ ho) fun _ ↦ rfl

theorem Shared.lands {r : Reply} (h : Shared w) (hi : w.tasks[i]? = some task)
    (hphase : task.phase = .answered r) (hlands : Lands w i task r w') : Shared w' := by
  have hset : Shared (w.setCookie r) := by
    unfold World.setCookie
    split
    · exact h
    · exact ⟨h.running, h.pending, h.awaited, h.pageLt⟩
  have hi' : (w.setCookie r).tasks[i]? = some task := by rwa [tasks_setCookie]
  have hs : ¬ task.phase.settled? := by
    rw [hphase]
    exact nofun
  cases hlands with
  | settles ok => exact hset.settle hi' hs ok
  | signsIn => exact (hset.setToken _ _).settle hi' hs true
  | pauses => exact hset.setTask hi' rfl rfl (by rw [hphase]; rfl)

theorem Serves.frame {verdict : Verdict} {r : Reply} (h : Serves w kind cookie verdict w' r) :
    w'.pages = w.pages ∧ w'.tasks = w.tasks ∧ w'.calls = w.calls := by
  cases h <;> exact ⟨rfl, rfl, rfl⟩

theorem shared_step (h : Shared w) (ha : step oidc w a = some w') : Shared w' := by
  cases step_spec ha with
  | tick => exact ⟨h.running, h.pending, h.awaited, h.pageLt⟩
  | opens =>
    refine (h.load.refreshSession (openAt_iff.mpr ⟨_, List.getElem?_concat_length, rfl⟩)).1
  | returns =>
    refine h.load.start ?_ rfl
    rw [World.load, List.length_append]
    exact Nat.lt_succ_self _
  | mismatches => exact h.load
  | types p => exact h.setToken _ _
  | calls => exact ⟨h.running, h.pending, forall_mem_concat h.awaited nofun, h.pageLt⟩
  | @answers c call mayRefresh unauthorized hcall hopen =>
    unfold World.answer
    split
    · exact h.setCall _ _ nofun
    · split
      · obtain ⟨hshared, task, htask, hp, href⟩ := h.refreshSession hopen
        refine hshared.setCall _ _ fun i hi ↦ ?_
        obtain rfl := CallPhase.awaiting.inj hi
        exact ⟨task, htask, hp, href⟩
      · exact (h.setToken _ _).setCall _ _ nofun
  | @resumes c call ok =>
    unfold World.resume
    split
    · exact h.setCall _ _ nofun
    · exact (h.setToken _ _).setCall _ _ nofun
  | @signsOut p hopen =>
    obtain ⟨page, hpage, -⟩ := openAt_iff.mp hopen
    refine (h.setToken p none).start ?_ rfl
    rw [World.setToken, World.setPage, List.length_modify]
    exact (List.getElem?_eq_some_iff.mp hpage).1
  | closes p => exact h.setPage (fun _ ho ↦ by cases ho) fun _ ↦ rfl
  | @serves i task cookie verdict w₁ r hi hphase hserves =>
    obtain ⟨hpages, htasks, hcalls⟩ := hserves.frame
    have hshared : Shared w₁ := by
      refine ⟨?_, ?_, ?_, ?_⟩
      · rw [hpages, htasks]
        exact h.running
      · rw [hpages, htasks]
        exact h.pending
      · rw [hcalls, htasks]
        exact h.awaited
      · rw [hpages, htasks]
        exact h.pageLt
    have hi : w₁.tasks[i]? = some task := htasks ▸ hi
    exact hshared.setTask hi rfl rfl (by rw [hphase]; rfl)
  | loses hi hphase =>
    refine h.settle hi (fun hs ↦ ?_) false
    obtain ⟨_, hphase⟩ | ⟨_, hphase⟩ := hphase <;>
    · rw [hphase] at hs
      cases hs
  | lands hi hphase hlands => exact h.lands hi hphase hlands
  | retries hi hphase hkind => exact h.setTask hi rfl (by rw [hkind]; rfl) (by rw [hphase]; rfl)
  | givesUp hi hphase =>
    refine h.settle hi (fun hs ↦ ?_) false
    rw [hphase] at hs
    cases hs

/-- However many calls of a page meet a 401, the page runs one refresh at a time,
and every call that waits does so for that one or for one that is over. -/
theorem one_refresh_a_page {l : List Action} (h : Run (step oidc) {} l w) {p : ℕ}
    (hopen : w.openAt p) :
    (w.tasks.countP fun task ↦ task.page = p && task.refreshes) ≤ 1 ∧
    ∀ call ∈ w.calls, call.page = p → ∀ i, call.phase = .awaiting i →
      ∃ task, w.tasks[i]? = some task ∧ task.page = p ∧ task.kind.isRefresh ∧
        (task.phase.settled? ∨ w.pages[p]?.bind (·.refreshing) = some i) := by
  have hshared := h.invariant Shared (fun _ _ _ hi ha ↦ shared_step hi ha) shared_init
  obtain ⟨page, hpage, ho⟩ := openAt_iff.mp hopen
  constructor
  · have hapart : Apart (fun task task' : Task ↦ ¬ ((task.page = p ∧ task.refreshes) ∧
        task'.page = p ∧ task'.refreshes)) w.tasks := by
      rintro i j task task' hij hi hj ⟨⟨hp, href⟩, hp', href'⟩
      have hself := hshared.running i task page hi href (by rwa [hp]) ho
      have hother := hshared.running j task' page hj href' (by rwa [hp']) ho
      exact hij (Option.some.inj (hself.symm.trans hother))
    refine countP_le_one hapart.pairwise fun task _ task' _ ht ht' hno ↦ hno ?_
    rw [Bool.and_eq_true, decide_eq_true_eq] at ht ht'
    exact ⟨ht, ht'⟩
  · intro call hcall hp i hi
    obtain ⟨task, htask, htp, href⟩ := hshared.awaited call hcall i hi
    refine ⟨task, htask, htp.trans hp, href, ?_⟩
    by_cases hs : task.phase.settled?
    · exact .inl hs
    · refine .inr ?_
      rw [hpage, Option.bind_some]
      refine hshared.running i task page htask ?_ (by rwa [htp, hp]) ho
      rw [Task.refreshes, href, Bool.eq_false_iff.mpr hs]
      rfl

end Steps

/-- Two calls of a page that has just been signed in meet a 401. -/
def twoCalls : List Action :=
  [.openCallback true, .serve 0 (.honours true true true), .land 0, .call 0, .call 0, .answer 0 true,
    .answer 1 true]

theorem one_refresh_two_calls : ∃ w, Run (step true) {} twoCalls w ∧
    w.calls.map (·.phase) = [.awaiting 1, .awaiting 1] ∧
    (w.tasks.countP fun task ↦ task.page = 0 && task.refreshes) ≤ 1 := by
  have hexec : (exec (step true) {} twoCalls).any fun w ↦
      w.calls.map (·.phase) = [.awaiting 1, .awaiting 1] && w.openAt 0 := by decide +kernel
  obtain ⟨w, hrun, hw⟩ := run_of_any hexec
  obtain ⟨hcalls, hopen⟩ := Bool.and_eq_true_iff.mp hw
  exact ⟨w, hrun, of_decide_eq_true hcalls, (one_refresh_a_page hrun hopen).1⟩

end Postbud.Session
