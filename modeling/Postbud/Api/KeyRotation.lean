import Postbud.Api.Verify

namespace Postbud.Jwks

open Lib Lib.Transition Lib.Processes Api

section Runs

variable {κ : Type} [Jwt κ] {w w' w₁ : World κ} {a : Action κ} {c : Call κ} {i : ℕ} {stage : Stage κ}
  {Q : JwkSet κ → Prop} {kid : Text} {jwk : Jwk κ} {acts : List (Action κ)}

def Serving (Q : JwkSet κ → Prop) (w : World κ) : Prop := ∀ uri set, w.keys uri = some set → Q set

/-- All sets that there are: the cached one, those on their way, and those the issuer serves. -/
structure Holds (Q : JwkSet κ → Prop) (w : World κ) : Prop where
  cache : ∀ set ∈ w.oidc.jwksCache, Q set
  calls : ∀ c ∈ w.calls, ∀ refresh uri set, c.stage = .fetches refresh uri (some (some set)) → Q set
  keys : Serving Q w

def Serves (Q : JwkSet κ → Prop) : Action κ → Prop
  | .serve _ (some set) => Q set
  | _ => True

omit [Jwt κ] in
theorem Serves.imp {Q' : JwkSet κ → Prop} (h : Serves Q a) (hQ : ∀ set, Q set → Q' set) :
    Serves Q' a := by
  cases a with
  | serve uri set =>
    cases set with
    | none => trivial
    | some set => exact hQ set h
  | _ => trivial

theorem Moves.keys (h : Moves w c a stage w₁) : w₁.keys = w.keys := by cases h <;> rfl

theorem Serving.step (hw : Serving Q w) (hQ : Serves Q a) (h : Step w a w') : Serving Q w' := by
  cases h with
  | serve uri set =>
    intro u set' hu
    simp only at hu
    split at hu
    · subst hu
      exact hQ
    · exact hw u set' hu
  | moves a i c stage w₁ ha hi h =>
    intro uri set hu
    exact hw uri set (h.keys ▸ hu)
  | _ => exact hw

theorem judge_ne_fetches (oidc : Verifier κ) (refresh : Bool) (set : JwkSet κ) (c : Call κ)
    (refresh' : Bool) (uri : Text) (answer : Option (Option (JwkSet κ))) :
    judge oidc refresh set c ≠ .fetches refresh' uri answer := by
  intro h
  rcases judge_cases oidc refresh set c with ⟨jwk, -, he⟩ | ⟨-, he | ⟨-, he⟩⟩ <;>
    cases he.symm.trans h

theorem look_ne_answered (oidc : Verifier κ) (refresh : Bool) (c : Call κ) (refresh' : Bool)
    (uri : Text) (answer : Option (JwkSet κ)) :
    look oidc refresh c ≠ .fetches refresh' uri (some answer) := by
  intro h
  rcases look_cases oidc refresh c with ⟨set, -, he⟩ | ⟨-, ⟨d, -, he⟩ | he⟩
  · exact judge_ne_fetches _ _ _ _ _ _ _ (he.symm.trans h)
  · cases he.symm.trans h
  · cases he.symm.trans h

theorem Moves.holds (h : Moves w c a stage w₁) (hw : Holds Q w) (hc : c ∈ w.calls) :
    (∀ set ∈ w₁.oidc.jwksCache, Q set) ∧
      ∀ refresh uri set, stage = .fetches refresh uri (some (some set)) → Q set := by
  cases h with
  | looks i refresh hs =>
    exact ⟨hw.cache, fun _ _ _ he ↦ absurd he (look_ne_answered _ _ _ _ _ _)⟩
  | publishes i refresh hs => exact ⟨hw.cache, fun _ _ _ he ↦ by cases he⟩
  | hears i refresh d hs => exact ⟨hw.cache, fun _ _ _ he ↦ by cases he⟩
  | serves i refresh uri hs =>
    refine ⟨hw.cache, fun _ _ set he ↦ ?_⟩
    obtain ⟨-, -, hset⟩ := Stage.fetches.inj he
    exact hw.keys uri set (Option.some.inj hset)
  | stores i refresh uri set hs =>
    refine ⟨fun set' hset ↦ ?_, fun _ _ _ he ↦ absurd he (judge_ne_fetches _ _ _ _ _ _ _)⟩
    obtain rfl := Option.some.inj hset
    exact hw.calls c hc refresh uri set hs
  | _ => exact ⟨hw.cache, fun _ _ _ he ↦ by cases he⟩

/-- Nothing but what the issuer serves anew brings in another set. -/
theorem Holds.step (hw : Holds Q w) (hQ : Serves Q a) (h : Step w a w') : Holds Q w' := by
  have hkeys := hw.keys.step hQ h
  cases h with
  | publish document => exact ⟨hw.cache, hw.calls, hkeys⟩
  | serve uri set => exact ⟨hw.cache, hw.calls, hkeys⟩
  | verify token kid hk =>
    refine ⟨hw.cache, forall_mem_concat hw.calls ?_, hkeys⟩
    intro refresh uri set he
    cases he
  | unread token => exact hw
  | moves a i c stage w₁ ha hi h =>
    obtain ⟨hcache, hstage⟩ := h.holds hw (List.mem_of_getElem? hi)
    refine ⟨hcache, ?_, hkeys⟩
    change ∀ c' ∈ w₁.calls.set i { c with stage }, _
    rw [h.calls]
    exact forall_mem_set hstage fun c' hc' ↦ hw.calls c' (List.mem_of_mem_eraseIdx hc')

def Without (kid : Text) (set : JwkSet κ) : Prop := set.find kid = none

/-- Whoever has been let in with the key has been so before. -/
def Kept (kid : Text) (w w' : World κ) : Prop :=
  ∀ (i : ℕ) (c : Call κ), w'.calls[i]? = some c → c.kid = kid →
    ∀ identity, c.stage = .done (some identity) → w.calls[i]? = some c

theorem Kept.step (hw : Kept kid w₁ w) (hwithout : Holds (Without kid) w)
    (hstatic : w.oidc.jwksStatic = none) (h : Step w a w') : Kept kid w₁ w' := by
  intro i c hi hk identity hdone
  cases h with
  | publish document => exact hw i c hi hk identity hdone
  | serve uri set => exact hw i c hi hk identity hdone
  | unread token => exact hw i c hi hk identity hdone
  | verify token kid' hk' =>
    rcases getElem?_concat_cases hi with hi | ⟨-, rfl⟩
    · exact hw i c hi hk identity hdone
    · cases hdone
  | moves a j c₀ stage v ha hi₀ hmoves =>
    change (v.calls.set j { c₀ with stage })[i]? = some c at hi
    rw [hmoves.calls] at hi
    rcases getElem?_set_cases hi with ⟨rfl, rfl⟩ | ⟨-, hi⟩
    · change stage = .done (some identity) at hdone
      change c₀.kid = kid at hk
      rw [hdone] at hmoves
      obtain ⟨set, ⟨jwk, hf, -⟩, hset⟩ := hmoves.accepts
      have hnone : set.find kid = none := by
        rcases hset with hset | ⟨-, hset⟩ | ⟨refresh, uri, hset⟩
        · cases hstatic.symm.trans hset
        · exact hwithout.cache set hset
        · exact hwithout.calls c₀ (List.mem_of_getElem? hi₀) refresh uri set hset
      rw [hk, hnone] at hf
      cases hf
    · exact hw i c hi hk identity hdone

/-- Once a key is gone from the cache, from the answers on their way and from
what the issuer serves, nobody is let in with it any more. -/
theorem retired_key_refused (hstatic : w.oidc.jwksStatic = none) (hw : Holds (Without kid) w)
    (h : Run step w acts w') (hserve : Along step (fun _ a ↦ Serves (Without kid) a) w acts) :
    Kept kid w w' := by
  have hinv := h.invariant_along
    (fun v ↦ Holds (Without kid) v ∧ v.oidc.jwksStatic = none ∧ Kept kid w v)
    (fun v a v' hv hserve hs ↦ ⟨hv.1.step hserve (step_spec hs),
      (step_spec hs).settings.1.trans hv.2.1, hv.2.2.step hv.1 hv.2.1 (step_spec hs)⟩)
    hserve ⟨hw, hstatic, fun _ _ hi _ _ _ ↦ hi⟩
  exact hinv.2.2

/-! A call takes its time and no more. -/

def Stage.left : Stage κ → ℕ
  | .looks refresh => (if refresh then 0 else 5) + 5
  | .discovers refresh answer => (if refresh then 0 else 5) + if answer.isNone then 4 else 3
  | .fetches refresh _ answer => (if refresh then 0 else 5) + if answer.isNone then 2 else 1
  | .done _ => 0

theorem left_judge (oidc : Verifier κ) (refresh : Bool) (set : JwkSet κ) (c : Call κ) :
    (judge oidc refresh set c).left ≤ if refresh then 0 else 5 := by
  rcases judge_cases oidc refresh set c with ⟨jwk, -, he⟩ | ⟨-, he | ⟨rfl, he⟩⟩
  · rw [he]
    exact Nat.zero_le _
  · rw [he]
    exact Nat.zero_le _
  · rw [he]
    exact Nat.le_refl _

theorem left_look (oidc : Verifier κ) (refresh : Bool) (c : Call κ) :
    (look oidc refresh c).left ≤ (if refresh then 0 else 5) + 4 := by
  rcases look_cases oidc refresh c with ⟨set, -, he⟩ | ⟨-, ⟨d, -, he⟩ | he⟩
  · rw [he]
    exact (left_judge _ _ _ _).trans (Nat.le_add_right _ 4)
  · rw [he]
    exact Nat.add_le_add_left (Nat.le_add_right 2 2) _
  · rw [he]
    exact Nat.le_refl _

theorem Moves.left (h : Moves w c a stage w₁) : stage.left < c.stage.left := by
  cases h with
  | looks i refresh hs =>
    rw [hs]
    exact Nat.lt_succ_of_le (left_look _ _ _)
  | publishes i refresh hs =>
    rw [hs]
    exact Nat.lt_succ_self _
  | hears i refresh d hs =>
    rw [hs]
    exact Nat.lt_succ_self _
  | serves i refresh uri hs =>
    rw [hs]
    exact Nat.lt_succ_self _
  | stores i refresh uri set hs =>
    rw [hs]
    exact Nat.lt_succ_of_le (left_judge _ _ _ _)
  | noDocument i refresh hs =>
    rw [hs]
    exact Nat.succ_pos _
  | noSet i refresh uri hs =>
    rw [hs]
    exact Nat.succ_pos _
  | fails i hs =>
    cases he : c.stage with
    | done identity => exact absurd he (hs identity)
    | looks refresh => exact Nat.succ_pos _
    | discovers refresh answer => cases answer <;> exact Nat.succ_pos _
    | fetches refresh uri answer => cases answer <;> exact Nat.succ_pos _

def World.left (i : ℕ) (w : World κ) : ℕ := (w.calls[i]?.map (·.stage.left)).getD 0

theorem Step.left (h : Step w a w') (hi : w.calls[i]? = some c) :
    w'.left i + (if a.call = some i then 1 else 0) ≤ w.left i := by
  have hleft : w.left i = c.stage.left := by
    rw [World.left, hi]
    rfl
  cases h with
  | verify token kid hk =>
    rw [World.left, List.getElem?_append_left (List.getElem?_eq_some_iff.mp hi).1]
    exact Nat.le_refl _
  | moves a j c₀ stage w₁ ha hj h =>
    change ((w₁.calls.set j { c₀ with stage })[i]?.map (·.stage.left)).getD 0 + _ ≤ _
    rw [h.calls, ha]
    by_cases hji : j = i
    · subst hji
      obtain rfl : c₀ = c := Option.some.inj (hj.symm.trans hi)
      rw [List.getElem?_set_self', hj, hleft, if_pos rfl]
      exact h.left
    · rw [List.getElem?_set_ne hji, if_neg fun he ↦ hji (Option.some.inj he)]
      exact Nat.le_refl _
  | _ => exact Nat.le_refl _

theorem exists_getElem? (h : Step w a w') (hi : w.calls[i]? = some c) :
    ∃ stage, w'.calls[i]? = some { c with stage } := by
  cases h with
  | verify token kid hk =>
    exact ⟨c.stage, getElem?_concat_left hi⟩
  | moves a j c₀ stage w₁ ha hj h =>
    change ∃ stage', (w₁.calls.set j { c₀ with stage })[i]? = some { c with stage := stage' }
    rw [h.calls]
    by_cases hji : j = i
    · subst hji
      obtain rfl : c₀ = c := Option.some.inj (hj.symm.trans hi)
      exact ⟨stage, by rw [List.getElem?_set_self', hj]; rfl⟩
    · exact ⟨c.stage, (List.getElem?_set_ne hji).trans hi⟩
  | _ => exact ⟨c.stage, hi⟩

def Called (i : ℕ) (w : World κ) : Prop := ∃ c, w.calls[i]? = some c

theorem own_steps_le (h : Run step w acts w') (hi : w.calls[i]? = some c) :
    w'.left i + acts.countP (·.call = some i) ≤ w.left i := by
  have hcalled : Along step (fun v _ ↦ Called i v) w acts := by
    apply along_of_inv (J := Called i)
    · rintro v a v' ⟨c, hc⟩ hs
      obtain ⟨stage, hstage⟩ := exists_getElem? (step_spec hs) hc
      exact ⟨_, hstage⟩
    · exact fun _ _ _ hv _ ↦ hv
    · exact ⟨c, hi⟩
  refine h.countP_le (World.left i) (fun v a v' hv hs ↦ ?_) hcalled
  obtain ⟨c, hc⟩ := hv
  simpa only [decide_eq_true_eq] using (step_spec hs).left hc

/-- Whatever answer has come, a call that is not done has a next step that is no failure. -/
theorem exists_next (hi : w.calls[i]? = some c) (hc : ∀ identity, c.stage ≠ .done identity) :
    ∃ a, Action.call a = some i ∧ a ≠ .fails i ∧ (step w a).isSome := by
  obtain ⟨token, kid, stage⟩ := c
  cases stage with
  | looks refresh => exact ⟨.looks i, rfl, (fun h ↦ by cases h), by simp [step, hi]⟩
  | discovers refresh answer =>
    cases answer with
    | none => exact ⟨.publishes i, rfl, (fun h ↦ by cases h), by simp [step, hi]⟩
    | some d => cases d <;> exact ⟨.hears i, rfl, (fun h ↦ by cases h), by simp [step, hi]⟩
  | fetches refresh uri answer =>
    cases answer with
    | none => exact ⟨.serves i, rfl, (fun h ↦ by cases h), by simp [step, hi]⟩
    | some set => cases set <;> exact ⟨.stores i, rfl, (fun h ↦ by cases h), by simp [step, hi]⟩
  | done identity => exact absurd rfl (hc identity)

/-! A new key is known as soon as a token names it. -/

def With (kid : Text) (jwk : Jwk κ) (set : JwkSet κ) : Prop := set.find kid = some jwk

/-- What the issuer answers the request that the call has under way. -/
def World.answers (w : World κ) (c : Call κ) : Bool :=
  match c.stage with
  | .discovers _ none => w.document.isSome
  | .fetches _ uri none => (w.keys uri).isSome
  | _ => true

/-- The request that the call has under way is neither lost nor refused. -/
def Answered (i : ℕ) (w : World κ) : Action κ → Prop
  | .fails j => j ≠ i
  | .publishes j | .serves j => j = i → w.calls[i]?.all w.answers
  | _ => True

/-- Where a call stands that has been answered so far. -/
def Stage.Served (kid : Text) (jwk : Jwk κ) (identity : Option Identity) : Stage κ → Prop
  | .looks _ | .discovers _ none | .fetches _ _ none => True
  | .discovers _ (some answer) => answer ≠ none
  | .fetches _ _ (some answer) => ∃ set, answer = some set ∧ With kid jwk set
  | .done answer => answer = identity

theorem judge_of_with {oidc : Verifier κ} {refresh : Bool} {set : JwkSet κ}
    (h : With c.kid jwk set) : judge oidc refresh set c =
      .done (Jwt.decode jwk oidc.issuer oidc.clientId c.token) := by
  rcases judge_cases oidc refresh set c with ⟨jwk', hf, he⟩ | ⟨hf, -⟩
  · obtain rfl := Option.some.inj (hf.symm.trans h)
    exact he
  · cases hf.symm.trans h

theorem judge_of_without {oidc : Verifier κ} {set : JwkSet κ} (hstatic : oidc.jwksStatic = none)
    (h : Without c.kid set) : judge oidc false set c = .looks true := by
  have hf : set.find c.kid = none := h
  simp only [judge, hf, hstatic, and_self, if_true]

theorem Moves.served (h : Moves w c a stage w₁) (hi : w.calls[i]? = some c) (ha : a.call = some i)
    (hstatic : w.oidc.jwksStatic = none)
    (hw : Holds (fun set ↦ Without c.kid set ∨ With c.kid jwk set) w)
    (hkeys : Serving (With c.kid jwk) w) (hanswer : Answered i w a)
    (hc : c.stage.Served c.kid jwk (Jwt.decode jwk w.oidc.issuer w.oidc.clientId c.token)) :
    stage.Served c.kid jwk (Jwt.decode jwk w.oidc.issuer w.oidc.clientId c.token) := by
  cases h with
  | looks j refresh hs =>
    rcases look_cases w.oidc refresh c with
      ⟨set, hset | ⟨-, hset, rfl⟩, he⟩ | ⟨-, ⟨d, -, he⟩ | he⟩
    · cases hstatic.symm.trans hset
    · rw [he]
      rcases hw.cache set hset with hnone | hsome
      · rw [judge_of_without hstatic hnone]
        trivial
      · rw [judge_of_with hsome]
        rfl
    · rw [he]
      trivial
    · rw [he]
      trivial
  | publishes j refresh hs =>
    obtain rfl := Option.some.inj ha
    have hall := hanswer rfl
    rw [hi, Option.all_some, World.answers, hs] at hall
    exact Option.isSome_iff_ne_none.mp hall
  | hears j refresh d hs => trivial
  | serves j refresh uri hs =>
    obtain rfl := Option.some.inj ha
    have hall := hanswer rfl
    rw [hi, Option.all_some, World.answers, hs] at hall
    obtain ⟨set, hset⟩ := Option.isSome_iff_exists.mp hall
    exact ⟨set, hset, hkeys uri set hset⟩
  | stores j refresh uri set hs =>
    rw [hs] at hc
    obtain ⟨set', hset, hwith⟩ := hc
    obtain rfl := Option.some.inj hset
    rw [judge_of_with hwith]
    rfl
  | noDocument j refresh hs =>
    rw [hs] at hc
    exact absurd rfl hc
  | noSet j refresh uri hs =>
    rw [hs] at hc
    obtain ⟨set', hset, -⟩ := hc
    cases hset
  | fails j hs =>
    exact absurd (Option.some.inj ha) hanswer

/-- What holds while a call is attended to. -/
structure Attended (i : ℕ) (token kid : Text) (jwk : Jwk κ) (issuer clientId : Text) (w : World κ) :
    Prop where
  holds : Holds (fun set ↦ Without kid set ∨ With kid jwk set) w
  keys : Serving (With kid jwk) w
  jwksStatic : w.oidc.jwksStatic = none
  sameIssuer : w.oidc.issuer = issuer
  sameClient : w.oidc.clientId = clientId
  call : ∃ stage, w.calls[i]? = some ⟨token, kid, stage⟩ ∧
    stage.Served kid jwk (Jwt.decode jwk issuer clientId token)

theorem Attended.step {token issuer clientId : Text} (hw : Attended i token kid jwk issuer clientId w)
    (hserves : Serves (With kid jwk) a) (hanswer : Answered i w a) (h : Step w a w') :
    Attended i token kid jwk issuer clientId w' := by
  obtain ⟨hstatic, hissuer, hclient⟩ := h.settings
  refine ⟨hw.holds.step (hserves.imp fun _ ↦ .inr) h, hw.keys.step hserves h,
    hstatic.trans hw.jwksStatic, hissuer.trans hw.sameIssuer, hclient.trans hw.sameClient, ?_⟩
  obtain ⟨stage, hstage, hserved⟩ := hw.call
  cases h with
  | verify token' kid' hk =>
    exact ⟨stage, getElem?_concat_left hstage, hserved⟩
  | moves a j c₀ stage' v ha hj hm =>
    change ∃ x, (v.calls.set j { c₀ with stage := stage' })[i]? = some ⟨token, kid, x⟩ ∧ _
    rw [hm.calls]
    by_cases hji : j = i
    · subst hji
      obtain rfl := Option.some.inj (hj.symm.trans hstage)
      refine ⟨stage', by rw [List.getElem?_set_self', hj]; rfl, ?_⟩
      rw [← hw.sameIssuer, ← hw.sameClient] at hserved ⊢
      exact hm.served hj ha hw.jwksStatic hw.holds hw.keys hanswer hserved
    · exact ⟨stage, (List.getElem?_set_ne hji).trans hstage, hserved⟩
  | _ => exact ⟨stage, hstage, hserved⟩

/-- A token of a key that the issuer serves is judged by that key, whatever
old set is cached and whatever other calls do, if the requests for it are
answered; and it is so within ten steps. -/
theorem rotated_key_accepted {token : Text} (hstatic : w.oidc.jwksStatic = none)
    (hw : Holds (fun set ↦ Without kid set ∨ With kid jwk set) w) (hkeys : Serving (With kid jwk) w)
    (hi : w.calls[i]? = some ⟨token, kid, .looks false⟩) (h : Run step w acts w')
    (hacts : Along step (fun v a ↦ Serves (With kid jwk) a ∧ Answered i v a) w acts) :
    ∃ stage, w'.calls[i]? = some ⟨token, kid, stage⟩ ∧
      (stage = .done (Jwt.decode jwk w.oidc.issuer w.oidc.clientId token) ∨
        ∃ a, Action.call a = some i ∧ a ≠ .fails i ∧ (step w' a).isSome) ∧
      acts.countP (·.call = some i) ≤ 10 := by
  have hinv := h.invariant_along (Attended i token kid jwk w.oidc.issuer w.oidc.clientId)
    (fun _ _ _ hv ha hs ↦ hv.step ha.1 ha.2 (step_spec hs)) hacts
    ⟨hw, hkeys, hstatic, rfl, rfl, _, hi, trivial⟩
  obtain ⟨stage, hstage, hserved⟩ := hinv.call
  refine ⟨stage, hstage, ?_, ?_⟩
  · by_cases hdone : ∀ identity, stage ≠ .done identity
    · exact .inr (exists_next hstage hdone)
    · obtain ⟨answer, rfl⟩ := not_forall_not.mp hdone
      exact .inl (congrArg Stage.done hserved)
  · have hle := own_steps_le h hi
    have hten : w.left i = 10 := by
      rw [World.left, hi]
      rfl
    omega

instance (kid : Text) : DecidablePred (Without (κ := κ) kid) :=
  fun set ↦ inferInstanceAs (Decidable (set.find kid = none))

instance [DecidableEq κ] (kid : Text) (jwk : Jwk κ) : DecidablePred (With kid jwk) :=
  fun set ↦ inferInstanceAs (Decidable (set.find kid = some jwk))

instance (Q : JwkSet κ → Prop) [DecidablePred Q] : DecidablePred (Serves Q)
  | .serve _ (some set) => inferInstanceAs (Decidable (Q set))
  | .serve _ none | .publish _ | .verify _ | .looks _ | .publishes _ | .hears _ | .serves _
  | .stores _ | .fails _ => .isTrue trivial

instance (i : ℕ) (w : World κ) : DecidablePred (Answered i w)
  | .fails j => inferInstanceAs (Decidable (j ≠ i))
  | .publishes j | .serves j => inferInstanceAs (Decidable (j = i → w.calls[i]?.all w.answers))
  | .serve .. | .publish _ | .verify _ | .looks _ | .hears _ | .stores _ => .isTrue trivial

end Runs

attribute [local instance] dotted

/-- The issuer has changed its key: the cache has the new one. -/
def rotated : World ℕ where
  oidc := { exampleVerifier with jwksCache := some secondKey, discovery := some exampleDiscovery }
  keys _ := some secondKey

theorem rotated_retired : ∃ w, Run step rotated
      [.verify "k1.ann".toList, .looks 0, .looks 0, .serves 0, .stores 0] w ∧
    w.calls = [⟨"k1.ann".toList, "k1".toList, .done none⟩] ∧ Kept "k1".toList rotated w := by
  have hrun : (exec step rotated
      [.verify "k1.ann".toList, .looks 0, .looks 0, .serves 0, .stores 0]).any fun w ↦
        w.calls = [⟨"k1.ann".toList, "k1".toList, .done none⟩] := by decide +kernel
  obtain ⟨w, hw, hp⟩ := run_of_any hrun
  have hsecond : Without "k1".toList secondKey := by decide +kernel
  refine ⟨w, hw, of_decide_eq_true hp, retired_key_refused rfl ⟨?_, ?_, ?_⟩ hw (by decide +kernel)⟩
  · intro set hset
    exact Option.some.inj hset ▸ hsecond
  · exact fun c hc ↦ absurd hc List.not_mem_nil
  · intro uri set hset
    exact Option.some.inj hset ▸ hsecond

/-- The issuer has changed its key, and nobody has named the new one so far. -/
def unnoticed : World ℕ where
  oidc := { exampleVerifier with jwksCache := some firstKey, discovery := some exampleDiscovery }
  keys _ := some secondKey
  calls := [⟨"k2.ann".toList, "k2".toList, .looks false⟩]

theorem unnoticed_accepted : ∃ w, Run step unnoticed [.looks 0, .looks 0, .serves 0, .stores 0] w ∧
    ∃ stage, w.calls[0]? = some ⟨"k2.ann".toList, "k2".toList, stage⟩ ∧
      (stage = .done (some ⟨"k2.ann".toList, none⟩) ∨
        ∃ a, Action.call a = some 0 ∧ a ≠ .fails 0 ∧ (step w a).isSome) := by
  have hrun : (exec step unnoticed [.looks 0, .looks 0, .serves 0, .stores 0]).any fun _ ↦ true := by
    decide +kernel
  obtain ⟨w, hw, -⟩ := run_of_any hrun
  have hfirst : Without "k2".toList firstKey := by decide +kernel
  have hsecond : With "k2".toList ⟨some "k2".toList, 2⟩ secondKey := by decide +kernel
  have hacts : Along step (fun v a ↦ Serves (With "k2".toList ⟨some "k2".toList, 2⟩) a ∧
      Answered 0 v a) unnoticed [.looks 0, .looks 0, .serves 0, .stores 0] := by decide +kernel
  have hholds : Holds (fun set ↦ Without "k2".toList set ∨
      With "k2".toList ⟨some "k2".toList, 2⟩ set) unnoticed := by
    refine ⟨fun set hset ↦ Option.some.inj hset ▸ .inl hfirst, fun c hc refresh uri set hs ↦ ?_,
      fun uri set hset ↦ Option.some.inj hset ▸ .inr hsecond⟩
    obtain rfl := List.mem_singleton.mp hc
    cases hs
  have hserving : Serving (With "k2".toList ⟨some "k2".toList, 2⟩) unnoticed :=
    fun uri set hset ↦ Option.some.inj hset ▸ hsecond
  obtain ⟨stage, hstage, hdone, -⟩ := rotated_key_accepted rfl hholds hserving rfl hw hacts
  refine ⟨w, hw, stage, hstage, hdone.imp_left fun h ↦ h.trans ?_⟩
  decide +kernel

end Postbud.Jwks
