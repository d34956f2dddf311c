import Postbud.Ui.SessionChain

namespace Postbud.Session

open Lib Lib.Transition Lib.Processes

/-! What is left of a session when it has been ended. -/

/-- A task by which no one gets signed in: it spends no cookie, and brings neither
a cookie nor an id token. -/
def Task.Quiet (task : Task) : Prop := match task.phase with
  | .requested cookie => task.kind ≠ .exchange ∧ task.kind.spends cookie = none
  | .answered r => r.idToken = none ∧ ∀ t, r.setCookie ≠ some (some t)
  | _ => True

/-- No one comes back from the issuer with a code. -/
def NoLogin (_ : World) (a : Action) : Prop := a ≠ .openCallback true

structure SignedOut (w₀ w : World) : Prop where
  jar : w.jar = none
  quiet : ∀ task ∈ w.tasks, task.Quiet
  tokens : ∀ (p : ℕ) (page : Page) (n : ℕ), w.pages[p]? = some page →
    page.token = some (.idToken n) →
      ∃ page₀, w₀.pages[p]? = some page₀ ∧ page₀.token = some (.idToken n)

section Steps

variable {oidc : Bool} {w₀ w w' : World} {a : Action} {i p : ℕ} {task task' : Task} {kind : Kind}
  {f : Page → Page}

theorem cookie_of_jar (h : w.jar = none) : w.cookie = none := by
  rw [World.cookie, h]
  rfl

theorem SignedOut.setPage (h : SignedOut w₀ w)
    (hf : ∀ page n, (f page).token = some (.idToken n) → page.token = some (.idToken n)) :
    SignedOut w₀ (w.setPage p f) where
  jar := h.jar
  quiet := h.quiet
  tokens q page' n hq hn := by
    obtain ⟨page, hpage, rfl⟩ := getElem?_setPage.mp hq
    refine h.tokens q page n hpage ?_
    split_ifs at hn
    · exact hf page n hn
    · exact hn

theorem SignedOut.setToken (h : SignedOut w₀ w) (p : ℕ) {token : Option Credential}
    (htoken : ∀ n, token ≠ some (.idToken n)) : SignedOut w₀ (w.setToken p token) :=
  h.setPage fun _ n hn ↦ absurd hn (htoken n)

theorem SignedOut.setCall (h : SignedOut w₀ w) (c : ℕ) (call : Call) (phase : CallPhase) :
    SignedOut w₀ (w.setCall c call phase) :=
  ⟨h.jar, h.quiet, h.tokens⟩

theorem SignedOut.setTask (h : SignedOut w₀ w) (hquiet : task'.Quiet) :
    SignedOut w₀ { w with tasks := w.tasks.set i task' } where
  jar := h.jar
  quiet := forall_mem_set hquiet fun task htask ↦ h.quiet task (List.mem_of_mem_eraseIdx htask)
  tokens := h.tokens

theorem SignedOut.settle (h : SignedOut w₀ w) (i : ℕ) (task : Task) (ok : Bool) :
    SignedOut w₀ (w.settle i task ok) := by
  have hset : SignedOut w₀ (w.setPhase i task (.settled ok)) := h.setTask trivial
  refine hset.setPage fun page n hn ↦ ?_
  split at hn <;> exact hn

theorem SignedOut.load (h : SignedOut w₀ w) : SignedOut w₀ w.load where
  jar := h.jar
  quiet := h.quiet
  tokens p page n hp hn := by
    obtain hp | ⟨-, rfl⟩ := getElem?_concat_cases hp
    · exact h.tokens p page n hp hn
    · cases hn

theorem SignedOut.start (h : SignedOut w₀ w) (hkind : kind ≠ .exchange) :
    SignedOut w₀ (w.start p kind none) where
  jar := h.jar
  quiet := forall_mem_concat h.quiet ⟨hkind, by cases kind <;> rfl⟩
  tokens := h.tokens

theorem SignedOut.refreshSession (h : SignedOut w₀ w) (p : ℕ) :
    SignedOut w₀ (w.refreshSession p).1 := by
  unfold World.refreshSession
  split
  · exact h
  · rw [cookie_of_jar h.jar]
    have hstart : SignedOut w₀ (w.start p (.refresh 0) none) := h.start nofun
    exact hstart.setPage fun page n (hn : page.token = _) ↦ hn

theorem SignedOut.lands {r : Reply} (h : SignedOut w₀ w) (hi : w.tasks[i]? = some task)
    (hphase : task.phase = .answered r) (hlands : Lands w i task r w') : SignedOut w₀ w' := by
  have hquiet := h.quiet task (List.mem_of_getElem? hi)
  rw [Task.Quiet, hphase] at hquiet
  obtain ⟨hid, hcookie⟩ := hquiet
  have hset : SignedOut w₀ (w.setCookie r) := by
    unfold World.setCookie
    split
    · exact h
    · rename_i cookie hset
      cases cookie with
      | none => exact ⟨rfl, h.quiet, h.tokens⟩
      | some t => exact absurd hset (hcookie t)
  cases hlands with
  | settles ok => exact hset.settle i task ok
  | signsIn hn => cases hid.symm.trans hn
  | pauses => exact hset.setTask trivial

theorem SignedOut.serves {cookie : Option ℕ} {verdict : Verdict} {r : Reply} (h : SignedOut w₀ w)
    (hi : w.tasks[i]? = some task) (hphase : task.phase = .requested cookie)
    (hserves : Serves w task.kind cookie verdict w' r) :
    SignedOut w₀ (w'.setPhase i task (.answered r)) := by
  have hquiet := h.quiet task (List.mem_of_getElem? hi)
  rw [Task.Quiet, hphase] at hquiet
  obtain ⟨hkind, hspends⟩ := hquiet
  cases hserves with
  | fails hcookie hid =>
    exact h.setTask ⟨hid, fun t ht ↦ by cases hcookie.symm.trans ht⟩
  | logout => exact h.setTask ⟨rfl, nofun⟩
  | keeps _ hgrant =>
    obtain hexchange | ⟨t, ht, -⟩ := hgrant
    · exact absurd hexchange hkind
    · cases hspends.symm.trans ht
  | rotates _ hgrant =>
    obtain hexchange | ⟨t, ht, -⟩ := hgrant
    · exact absurd hexchange hkind
    · cases hspends.symm.trans ht

theorem signedOut_step (hP : NoLogin w a) (h : SignedOut w₀ w) (ha : step oidc w a = some w') :
    SignedOut w₀ w' := by
  cases step_spec ha with
  | tick => exact ⟨h.jar, h.quiet, h.tokens⟩
  | opens => exact h.load.refreshSession _
  | returns => exact absurd rfl hP
  | mismatches => exact h.load
  | types p => exact h.setToken p fun n hn ↦ by cases hn
  | calls => exact ⟨h.jar, h.quiet, h.tokens⟩
  | @answers c call mayRefresh unauthorized =>
    unfold World.answer
    split
    · exact h.setCall _ _ _
    · split
      · exact (h.refreshSession call.page).setCall _ _ _
      · exact (h.setToken call.page fun n hn ↦ by cases hn).setCall _ _ _
  | @resumes c call ok =>
    unfold World.resume
    split
    · exact h.setCall _ _ _
    · exact (h.setToken call.page fun n hn ↦ by cases hn).setCall _ _ _
  | @signsOut p => exact (h.setToken p fun n hn ↦ by cases hn).start nofun
  | closes p => exact h.setPage fun page n hn ↦ hn
  | serves hi hphase hserves => exact h.serves hi hphase hserves
  | loses => exact h.settle _ _ _
  | lands hi hphase hlands => exact h.lands hi hphase hlands
  | retries hi hphase hkind =>
    rw [cookie_of_jar h.jar]
    exact h.setTask ⟨nofun, rfl⟩
  | givesUp => exact h.settle _ _ _

/-- Once the cookie is dropped and nothing that could bring one back is under
way, no page is signed in but with the id token it has, until someone logs in. -/
theorem signed_out_stays {l : List Action} (h : Run (step oidc) w l w') (hjar : w.jar = none)
    (hquiet : ∀ task ∈ w.tasks, task.Quiet) (hP : Along (step oidc) NoLogin w l) :
    SignedOut w w' :=
  h.invariant_along (SignedOut w) (fun _ _ _ hi hp ha ↦ signedOut_step hp hi ha) hP
    ⟨hjar, hquiet, fun _ page _ hpage hn ↦ ⟨page, hpage, hn⟩⟩

end Steps

def signedOutWorld : World where
  pages := [⟨some (.idToken 0), none, true⟩, ⟨none, none, false⟩]
  tasks := [⟨1, .logout, .settled true⟩]

/-- A page that is loaded after the logout has no cookie to ask with. -/
theorem signed_out_stays_reload : ∃ w,
    Run (step true) signedOutWorld [.openPage, .serve 1 .unreachable, .land 1] w ∧
      SignedOut signedOutWorld w := by
  have hexec : (exec (step true) signedOutWorld [.openPage, .serve 1 .unreachable, .land 1]).any
      fun w ↦ w.pages.length = 3 := by decide +kernel
  obtain ⟨w, hrun, -⟩ := run_of_any hexec
  refine ⟨w, hrun, signed_out_stays hrun rfl ?_ (along_of_forall fun s a ha ↦ ?_)⟩
  · exact List.forall_mem_singleton.mpr trivial
  · simp only [List.mem_cons, List.not_mem_nil, or_false] at ha
    rcases ha with rfl | rfl | rfl <;> exact fun he ↦ by cases he

/-- A refresh of one page that is under way when another signs out. -/
def signOutRace : List Action :=
  logIn ++ [.openPage, .serve 1 (.honours true true true), .signOut 0, .serve 2 .unreachable, .land 2]

/-- Its answer puts a cookie back, and the next page is signed in as before. -/
theorem signed_out_undone : ∃ w₀ w, Run (step true) {} signOutRace w₀ ∧ w₀.jar = none ∧
    Run (step true) w₀ [.land 1, .openPage, .serve 3 (.honours true true true), .land 3] w ∧
      (w.pages[2]?.bind (·.token)).isSome := by
  have hexec : (exec (step true) {} signOutRace).any fun w₀ ↦ w₀.jar = none &&
      (exec (step true) w₀ [.land 1, .openPage, .serve 3 (.honours true true true), .land 3]).any
        fun w ↦ (w.pages[2]?.bind (·.token)).isSome := by decide +kernel
  obtain ⟨w₀, hrun, hw₀⟩ := run_of_any hexec
  obtain ⟨hjar, hrest⟩ := Bool.and_eq_true_iff.mp hw₀
  obtain ⟨w, hrun', hw⟩ := run_of_any hrest
  exact ⟨w₀, w, hrun, of_decide_eq_true hjar, hrun', hw⟩

end Postbud.Session
