import Postbud.Ui.Session

namespace Postbud.Session

open Lib Lib.Transition Lib.Processes

/-! The refresh token of a browser, from answer to answer. -/

def Task.client (task : Task) : Rotation.Client := match task.phase with
  | .requested cookie => match task.kind.spends cookie with
    | some t => .carries t
    | none => .idle
  | .answered r => match r.setCookie with
    | some (some t) => .brings t
    | _ => .idle
  | _ => .idle

def Task.Brings (task : Task) : Prop := match task.client with
  | .brings _ => True
  | _ => False

instance (task : Task) : Decidable task.Brings := by
  unfold Task.Brings
  split <;> infer_instance

/-- What pages, calls and clocks are to the tokens: nothing. -/
def World.chain (w : World) : Rotation.State where
  stored := w.jar.map (·.1)
  clients := w.tasks.map Task.client
  live := w.live
  issued := w.issued

/-- No answer that brings a token gets lost, between the issuer and postbud or
between postbud and the browser. -/
def Keeps (w : World) : Action → Prop
  | .serve _ (.honours true _ reads) => reads
  | .lose i => ∀ task ∈ w.tasks[i]?, ¬ task.Brings
  | _ => True

instance (w : World) (a : Action) : Decidable (Keeps w a) := by
  unfold Keeps
  split <;> infer_instance

/-- What the tokens go through. -/
def Follows (w w' : World) : Prop := ∃ l, Run Rotation.step w.chain l w'.chain

section Steps

variable {w w' : World} {a : Action} {i p : ℕ} {task task' : Task} {kind : Kind} {cookie : Option ℕ}
  {r : Reply}

theorem follows_of_eq (h : w'.chain = w.chain) : Follows w w' := ⟨[], h ▸ .nil _⟩

theorem client_requested (p : ℕ) (kind : Kind) (cookie : Option ℕ) :
    Task.client ⟨p, kind, .requested cookie⟩ = match kind.spends cookie with
      | some t => .carries t
      | none => .idle := rfl

theorem client_of_requested (h : task.phase = .requested cookie) : task.client =
    match task.kind.spends cookie with
      | some t => .carries t
      | none => .idle := by
  rw [Task.client, h]

theorem client_chain (hi : w.tasks[i]? = some task) : w.chain.clients[i]? = some task.client := by
  rw [World.chain, List.getElem?_map, hi]
  rfl

theorem map_client_set (w : World) (i : ℕ) (task' : Task) :
    (w.tasks.set i task').map Task.client = w.chain.clients.set i task'.client :=
  List.map_set

/-- A task is left with nothing under way: what it carried may still be live. -/
theorem follows_idle (hi : w.tasks[i]? = some task) (hidle : task'.client = .idle)
    (hbrings : ∀ t, task.client ≠ .brings t) :
    Follows w { w with tasks := w.tasks.set i task' } := by
  have hclient := client_chain hi
  have hset : (w.tasks.set i task').map Task.client = w.chain.clients.set i .idle := by
    rw [map_client_set, hidle]
  cases hc : task.client with
  | idle =>
    refine follows_of_eq ?_
    rw [hc] at hclient
    obtain ⟨hlt, hget⟩ := List.getElem?_eq_some_iff.mp hclient
    have hsame : w.chain.clients.set i .idle = w.chain.clients := by
      rw [← hget, List.set_getElem_self]
    simp only [World.chain] at hset hsame ⊢
    rw [hset, hsame]
  | carries t =>
    refine ⟨[.rest i], .one ?_⟩
    rw [hc] at hclient
    simp only [Rotation.step, hclient]
    simp only [World.chain, hset]
  | brings t => exact absurd hc (hbrings t)

/-- A task begins, or goes on, with the cookie there is. -/
theorem follows_send (hi : w.tasks[i]? = some task) (hidle : task.client = .idle)
    (hcookie : ∀ t, task'.client = .carries t → w.jar.map (·.1) = some t)
    (hbrings : ∀ t, task'.client ≠ .brings t) :
    Follows w { w with tasks := w.tasks.set i task' } := by
  cases hc : task'.client with
  | idle => exact follows_idle hi hc fun t ↦ by rw [hidle]; exact nofun
  | carries t =>
    have hclient : w.chain.clients[i]? = some .idle := hidle ▸ client_chain hi
    have hstored : w.chain.stored = some t := hcookie t hc
    refine ⟨[.send i], .one ?_⟩
    simp only [Rotation.step, hclient, hstored]
    simp only [World.chain, List.map_set, hc, hcookie t hc]
  | brings t => exact absurd hc (hbrings t)

theorem cookie_eq_some {t : ℕ} (h : w.cookie = some t) : w.jar.map (·.1) = some t := by
  obtain ⟨⟨t', expires⟩, hjar, h⟩ := Option.bind_eq_some_iff.mp h
  obtain ⟨-, h⟩ := Option.ite_none_right_eq_some.mp h
  obtain rfl := Option.some.inj h
  rw [hjar, Option.map_some]

theorem follows_start (hcookie : ∀ t, kind.spends cookie = some t → w.jar.map (·.1) = some t) :
    Follows w (w.start p kind cookie) := by
  have hidle : Task.client ⟨p, kind, .requested none⟩ = .idle := by cases kind <;> rfl
  have hjoin : Run Rotation.step w.chain [.join] (w.start p kind none).chain := by
    refine .one ?_
    simp only [Rotation.step, World.chain, World.start, List.map_append, List.map_singleton, hidle]
  have hi : (w.start p kind none).tasks[w.tasks.length]? = some ⟨p, kind, .requested none⟩ :=
    List.getElem?_concat_length
  have hset : (w.start p kind none).tasks.set w.tasks.length ⟨p, kind, .requested cookie⟩ =
      (w.start p kind cookie).tasks := by
    rw [World.start, List.set_append_right _ _ (Nat.le_refl _), Nat.sub_self, List.set_cons_zero]
    rfl
  have hsend : Follows (w.start p kind none) { w.start p kind none with
      tasks := (w.start p kind none).tasks.set w.tasks.length ⟨p, kind, .requested cookie⟩ } := by
    refine follows_send hi hidle (fun t ht ↦ ?_) fun t ht ↦ ?_
    · rw [client_requested] at ht
      split at ht
      · rename_i t' hspends
        obtain rfl := Rotation.Client.carries.inj ht
        exact hcookie _ hspends
      · cases ht
    · rw [client_requested] at ht
      split at ht <;> cases ht
  rw [hset] at hsend
  obtain ⟨l, hl⟩ := hsend
  exact ⟨[.join] ++ l, hjoin.trans hl⟩

theorem follows_refreshSession (w : World) (p : ℕ) : Follows w (w.refreshSession p).1 := by
  unfold World.refreshSession
  split
  · exact follows_of_eq rfl
  · exact follows_start fun t ht ↦ cookie_eq_some ht

theorem follows_lands {w' : World} (hi : w.tasks[i]? = some task) (hphase : task.phase = .answered r)
    (h : Lands w i task r w') : Follows w w' := by
  have hclient := client_chain hi
  -- Whatever the page makes of it, the task has nothing under way any more.
  have hland : ∀ task' : Task, task'.client = .idle →
      Follows w { w.setCookie r with tasks := w.tasks.set i task' } := by
    intro task' hidle
    have hset : (w.tasks.set i task').map Task.client = w.chain.clients.set i .idle := by
      rw [map_client_set, hidle]
    rcases hcookie : r.setCookie with - | - | t
    · simp only [World.setCookie, hcookie]
      refine follows_idle hi hidle fun t ↦ ?_
      rw [Task.client, hphase]
      simp only [hcookie]
      exact nofun
    · simp only [World.setCookie, hcookie]
      obtain ⟨l, hl⟩ := follows_idle (w := { w with jar := none }) hi hidle fun t ↦ by
        rw [Task.client, hphase]
        simp only [hcookie]
        exact nofun
      exact ⟨.clear :: l, .cons rfl hl⟩
    · have hbrings : task.client = .brings t := by
        rw [Task.client, hphase]
        simp only [hcookie]
      rw [hbrings] at hclient
      refine ⟨[.land i], .one ?_⟩
      simp only [Rotation.step, hclient]
      simp only [World.setCookie, hcookie, World.chain, hset, Option.map_some]
  cases h with
  | settles ok =>
    have h := hland { task with phase := .settled ok } rfl
    rwa [← tasks_setCookie r] at h
  | signsIn =>
    have h := hland { task with phase := .settled true } rfl
    rwa [← tasks_setCookie r] at h
  | pauses =>
    have h := hland { task with phase := .pausing } rfl
    rwa [← tasks_setCookie r] at h

theorem follows_serves {verdict : Verdict} (hi : w.tasks[i]? = some task)
    (hphase : task.phase = .requested cookie) (h : Serves w task.kind cookie verdict w' r)
    (hP : ∀ names reads, verdict = .honours true names reads → reads) :
    Follows w (w'.setPhase i task (.answered r)) := by
  have hnone : ∀ t, task.client ≠ .brings t := by
    intro t ht
    rw [client_of_requested hphase] at ht
    split at ht <;> cases ht
  cases h with
  | fails hcookie =>
    refine follows_idle hi ?_ hnone
    simp only [Task.client, hcookie]
  | logout => exact follows_idle hi rfl hnone
  | keeps hcookie =>
    refine follows_idle (w := w) hi ?_ hnone
    simp only [Task.client, hcookie]
  | @rotates names reads _ hcookie hkind =>
    obtain rfl : reads = true := hP names reads rfl
    have hbrings : Task.client { task with phase := .answered r } = .brings w.issued := by
      simp only [Task.client, hcookie, if_true]
    have hclient := client_chain hi
    rw [client_of_requested hphase] at hclient
    obtain hkind | ⟨t, hspends, hlive⟩ := hkind
    · have hspends : task.kind.spends cookie = none := by rw [hkind]; rfl
      rw [hspends] at hclient
      refine ⟨[.mint i], .one ?_⟩
      simp only [Rotation.step, hclient]
      simp only [World.setPhase, World.chain, map_client_set, hbrings, hspends, Option.elim_none]
    · rw [hspends] at hclient
      refine ⟨[.rotate i], .one ?_⟩
      simp only [Rotation.step, hclient]
      rw [if_pos (show t ∈ w.chain.live from hlive)]
      simp only [World.setPhase, World.chain, map_client_set, hbrings, hspends, Option.elim_some]

theorem Steps.follows (h : Steps w a w') (hP : Keeps w a) : Follows w w' := by
  cases h with
  | opens => exact follows_refreshSession w.load w.pages.length
  | returns => exact follows_start (w := w.load) fun t ht ↦ by cases ht
  | @answers c call mayRefresh unauthorized hcall hopen =>
    unfold World.answer
    split
    · exact follows_of_eq rfl
    · split
      · exact follows_refreshSession w call.page
      · exact follows_of_eq rfl
  | @resumes c call ok =>
    unfold World.resume
    split <;> exact follows_of_eq rfl
  | @signsOut p =>
    exact follows_start (w := w.setToken p none) fun t ht ↦ by cases ht
  | serves hi hphase h =>
    refine follows_serves hi hphase h fun names reads he ↦ ?_
    subst he
    exact hP
  | @loses i task hi hphase =>
    refine follows_idle hi rfl fun t ht ↦ hP task hi ?_
    rw [Task.Brings, ht]
    trivial
  | lands hi hphase h => exact follows_lands hi hphase h
  | @retries i task hi hphase hkind =>
    refine follows_send hi (by simp only [Task.client, hphase]) (fun t ht ↦ ?_) fun t ht ↦ ?_
    · rw [client_of_requested rfl] at ht
      simp only [Kind.spends] at ht
      split at ht
      · rename_i t' hcookie
        obtain rfl := Rotation.Client.carries.inj ht
        exact cookie_eq_some hcookie
      · cases ht
    · rw [client_of_requested rfl] at ht
      split at ht <;> cases ht
  | @givesUp i task hi hphase =>
    refine follows_idle hi rfl fun t ht ↦ ?_
    simp only [Task.client, hphase] at ht
    cases ht
  | _ => exact follows_of_eq rfl

/-- A replacement that the issuer honours is on its way to the jar. -/
def Replaced (w : World) : Prop :=
  ∃ task ∈ w.tasks, ∃ r t, task.phase = .answered r ∧ r.setCookie = some (some t) ∧ t ∈ w.live

/-- As long as no token gets lost on its way, the session does not: the issuer
honours the token in the jar, or one that is about to land there. A request that
comes with a dead token has lost a race: the jar has another, or is about to. -/
theorem session_survives {oidc : Bool} {l : List Action} (h : Run (step oidc) {} l w)
    (hP : Along (step oidc) Keeps {} l) :
    (∀ t expires, w.jar = some (t, expires) → t ∈ w.live ∨ Replaced w) ∧
    ∀ task ∈ w.tasks, ∀ t, task.client = .carries t → t ∉ w.live →
      w.jar.map (·.1) ≠ some t ∨ Replaced w := by
  have hsim : Simulates (step oidc) Rotation.step Keeps fun w s ↦ s = w.chain := by
    rintro w a w' s hp rfl ha
    obtain ⟨l, hl⟩ := (step_spec ha).follows hp
    exact ⟨l, _, hl, rfl⟩
  obtain ⟨s, rfl, hinv⟩ := h.of_simulation hsim hP (t := {}) rfl fun l' t ht ↦
    Rotation.inv_run Rotation.inv_init ht
  have hreplaced : (∃ u, .brings u ∈ w.chain.clients) → Replaced w := by
    rintro ⟨u, hu⟩
    obtain ⟨i, hi⟩ := List.mem_iff_getElem?.mp hu
    obtain ⟨task, htask, hclient⟩ := Option.map_eq_some_iff.mp (List.getElem?_map ▸ hi)
    refine ⟨task, List.mem_of_getElem? htask, ?_⟩
    unfold Task.client at hclient
    split at hclient
    · split at hclient <;> cases hclient
    · rename_i r hphase
      split at hclient
      · rename_i t hcookie
        obtain rfl := Rotation.Client.brings.inj hclient
        exact ⟨r, t, hphase, hcookie, (hinv.fresh i t hi).1⟩
      · cases hclient
    · cases hclient
  have hjar : ∀ t, w.jar.map (·.1) = some t → t ∈ w.live ∨ Replaced w := fun t ht ↦
    (hinv.chain t ht).imp_right hreplaced
  refine ⟨fun t expires ht ↦ hjar t (by rw [ht, Option.map_some]), fun task _ t _ hdead ↦ ?_⟩
  by_cases ht : w.jar.map (·.1) = some t
  · exact .inr ((hjar t ht).resolve_left hdead)
  · exact .inl ht

end Steps

def logIn : List Action := [.openCallback true, .serve 0 (.honours true true true), .land 0]

/-- Two pages spend one cookie, and the loser's second attempt has the winner's. -/
def rotationRace : List Action :=
  logIn ++ [.openPage, .openPage, .serve 1 (.honours true true true), .serve 2 .refuses, .land 2,
    .land 1, .wake 2, .serve 2 (.honours true true true), .land 2]

theorem session_survives_race : ∃ w, Run (step true) {} rotationRace w ∧
    w.pages.map (·.token) = [some (.idToken 0), some (.idToken 1), some (.idToken 2)] ∧
    ∀ t expires, w.jar = some (t, expires) → t ∈ w.live ∨ Replaced w := by
  have hexec : (exec (step true) {} rotationRace).any fun w ↦
      w.pages.map (·.token) = [some (.idToken 0), some (.idToken 1), some (.idToken 2)] := by
    decide +kernel
  obtain ⟨w, hrun, hw⟩ := run_of_any hexec
  exact ⟨w, hrun, of_decide_eq_true hw, (session_survives hrun (by decide +kernel)).1⟩

end Postbud.Session
