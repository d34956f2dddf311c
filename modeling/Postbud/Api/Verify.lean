import Postbud.Api.Jwks

namespace Postbud.Jwks

open Lib Lib.Transition Lib.Processes Api

section Runs

variable {κ : Type} [Jwt κ] {w w' w₁ : World κ} {a : Action κ} {c : Call κ} {i : ℕ} {stage : Stage κ}
  {oidc : Verifier κ} {refresh : Bool} {set : JwkSet κ} {identity : Identity}

/-- The token is good under a key of the set. -/
def Accepts (oidc : Verifier κ) (set : JwkSet κ) (c : Call κ) (identity : Identity) : Prop :=
  ∃ jwk, set.find c.kid = some jwk ∧
    Jwt.decode jwk oidc.issuer oidc.clientId c.token = some identity

theorem judge_cases (oidc : Verifier κ) (refresh : Bool) (set : JwkSet κ) (c : Call κ) :
    (∃ jwk, set.find c.kid = some jwk ∧
      judge oidc refresh set c = .done (Jwt.decode jwk oidc.issuer oidc.clientId c.token)) ∨
    set.find c.kid = none ∧ (judge oidc refresh set c = .done none ∨
      refresh = false ∧ judge oidc refresh set c = .looks true) := by
  cases hf : set.find c.kid with
  | some jwk => exact .inl ⟨jwk, rfl, by simp only [judge, hf]⟩
  | none =>
    refine .inr ⟨rfl, ?_⟩
    simp only [judge, hf]
    split
    · rename_i h
      exact .inr ⟨h.2, rfl⟩
    · exact .inl rfl

theorem judge_accepts (h : judge oidc refresh set c = .done (some identity)) :
    Accepts oidc set c identity := by
  rcases judge_cases oidc refresh set c with ⟨jwk, hf, he⟩ | ⟨-, he | ⟨-, he⟩⟩
  · exact ⟨jwk, hf, Stage.done.inj (he.symm.trans h)⟩
  · cases he.symm.trans h
  · cases he.symm.trans h

theorem look_cases (oidc : Verifier κ) (refresh : Bool) (c : Call κ) :
    (∃ set, (oidc.jwksStatic = some set ∨
        oidc.jwksStatic = none ∧ oidc.jwksCache = some set ∧ refresh = false) ∧
      look oidc refresh c = judge oidc refresh set c) ∨
    oidc.jwksStatic = none ∧
      ((∃ d, oidc.discovery = some d ∧ look oidc refresh c = .fetches refresh d.jwksUri none) ∨
        look oidc refresh c = .discovers refresh none) := by
  simp only [look]
  cases hs : oidc.jwksStatic with
  | some set => exact .inl ⟨set, .inl rfl, rfl⟩
  | none =>
    cases hc : if refresh then none else oidc.jwksCache with
    | some set =>
      obtain ⟨hrefresh, hcache⟩ := Option.ite_none_left_eq_some.mp hc
      exact .inl ⟨set, .inr ⟨rfl, hcache, Bool.eq_false_iff.mpr hrefresh⟩, rfl⟩
    | none =>
      cases hd : oidc.discovery with
      | some d => exact .inr ⟨rfl, .inl ⟨d, rfl, rfl⟩⟩
      | none => exact .inr ⟨rfl, .inr rfl⟩

theorem Moves.calls (h : Moves w c a stage w₁) : w₁.calls = w.calls := by cases h <;> rfl

/-- Where the set comes from in which a token is found good. -/
theorem Moves.accepts (h : Moves w c a (.done (some identity)) w₁) :
    ∃ set, Accepts w.oidc set c identity ∧ (w.oidc.jwksStatic = some set ∨
      w.oidc.jwksStatic = none ∧ w.oidc.jwksCache = some set ∨
      ∃ refresh uri, c.stage = .fetches refresh uri (some (some set))) := by
  generalize hs : Stage.done (some identity) = stage at h
  cases h with
  | looks i refresh hc =>
    rcases look_cases w.oidc refresh c with ⟨set, hset, he⟩ | ⟨-, ⟨d, -, he⟩ | he⟩
    · refine ⟨set, judge_accepts (he.symm.trans hs.symm), ?_⟩
      rcases hset with hset | ⟨hstatic, hcache, -⟩
      · exact .inl hset
      · exact .inr (.inl ⟨hstatic, hcache⟩)
    · cases he.symm.trans hs.symm
    · cases he.symm.trans hs.symm
  | stores i refresh uri set hc => exact ⟨set, judge_accepts hs.symm, .inr (.inr ⟨refresh, uri, hc⟩)⟩
  | _ => cases hs

/-! Every key comes from the issuer. -/

/-- The issuer has served the set, at the address that a document of its names. -/
def Origin (w : World κ) (set : JwkSet κ) : Prop := ∃ d ∈ w.published, (d.jwksUri, set) ∈ w.served

def Call.Sound (w : World κ) (c : Call κ) : Prop :=
  Jwt.decodeHeader κ c.token = some (some c.kid) ∧
  match c.stage with
  | .looks _ => True
  | .discovers _ answer =>
      w.oidc.jwksStatic = none ∧ ∀ d, answer = some (some d) → d ∈ w.published
  | .fetches _ uri answer =>
      w.oidc.jwksStatic = none ∧ (∃ d ∈ w.published, d.jwksUri = uri) ∧
        ∀ set, answer = some (some set) → (uri, set) ∈ w.served
  | .done answer => ∀ identity, answer = some identity →
      ∃ set, Accepts w.oidc set c identity ∧
        (w.oidc.jwksStatic = some set ∨ w.oidc.jwksStatic = none ∧ Origin w set)

structure Inv (w : World κ) : Prop where
  discovery : ∀ d ∈ w.oidc.discovery, d ∈ w.published
  cache : ∀ set ∈ w.oidc.jwksCache, Origin w set
  calls : ∀ c ∈ w.calls, c.Sound w

/-- What a step leaves of the settings and the answers of the issuer. -/
structure Extends (w w' : World κ) : Prop where
  jwksStatic : w'.oidc.jwksStatic = w.oidc.jwksStatic
  issuer : w'.oidc.issuer = w.oidc.issuer
  clientId : w'.oidc.clientId = w.oidc.clientId
  published : w.published ⊆ w'.published
  served : w.served ⊆ w'.served

omit [Jwt κ] in
theorem Extends.refl (w : World κ) : Extends w w :=
  ⟨rfl, rfl, rfl, List.Subset.refl _, List.Subset.refl _⟩

theorem Moves.extends (h : Moves w c a stage w₁) : Extends w w₁ := by
  cases h with
  | publishes i refresh hc =>
    exact ⟨rfl, rfl, rfl, List.subset_append_right _ _, List.Subset.refl _⟩
  | serves i refresh uri hc =>
    exact ⟨rfl, rfl, rfl, List.Subset.refl _, List.subset_append_right _ _⟩
  | hears => exact ⟨rfl, rfl, rfl, List.Subset.refl _, List.Subset.refl _⟩
  | stores => exact ⟨rfl, rfl, rfl, List.Subset.refl _, List.Subset.refl _⟩
  | _ => exact .refl w

omit [Jwt κ] in
theorem Origin.mono (h : Origin w set) (he : Extends w w') : Origin w' set := by
  obtain ⟨d, hd, hset⟩ := h
  exact ⟨d, he.published hd, he.served hset⟩

theorem Accepts.mono (h : Accepts w.oidc set c identity) (he : Extends w w') :
    Accepts w'.oidc set c identity := by
  obtain ⟨jwk, hf, hd⟩ := h
  exact ⟨jwk, hf, by rw [he.issuer, he.clientId, hd]⟩

theorem Call.Sound.mono (h : c.Sound w) (he : Extends w w') : c.Sound w' := by
  obtain ⟨token, kid, stage⟩ := c
  obtain ⟨hheader, h⟩ := h
  refine ⟨hheader, ?_⟩
  cases stage with
  | looks refresh => trivial
  | discovers refresh answer =>
    exact ⟨he.jwksStatic.trans h.1, fun d hd ↦ he.published (h.2 d hd)⟩
  | fetches refresh uri answer =>
    obtain ⟨hstatic, ⟨d, hd, huri⟩, hserved⟩ := h
    exact ⟨he.jwksStatic.trans hstatic, ⟨d, he.published hd, huri⟩,
      fun set hset ↦ he.served (hserved set hset)⟩
  | done answer =>
    intro identity hid
    obtain ⟨set, hacc, hset⟩ := h identity hid
    refine ⟨set, hacc.mono he, ?_⟩
    rw [he.jwksStatic]
    exact hset.imp_right (.imp_right (·.mono he))

/-- Where a call is after it has a set, and nothing speaks against it. -/
theorem sound_judge (hheader : Jwt.decodeHeader κ c.token = some (some c.kid))
    (hset : w.oidc.jwksStatic = some set ∨ w.oidc.jwksStatic = none ∧ Origin w set) :
    Call.Sound w { c with stage := judge w.oidc refresh set c } := by
  refine ⟨hheader, ?_⟩
  rcases judge_cases w.oidc refresh set c with ⟨jwk, hf, he⟩ | ⟨-, he | ⟨-, he⟩⟩
  · rw [he]
    intro identity hid
    exact ⟨set, ⟨jwk, hf, hid⟩, hset⟩
  · rw [he]
    exact fun identity hid ↦ by cases hid
  · rw [he]
    trivial

theorem Moves.sound (h : Moves w c a stage w₁) (hinv : Inv w) (hc : c.Sound w) :
    Call.Sound w₁ { c with stage } := by
  obtain ⟨hheader, hc⟩ := hc
  cases h with
  | looks i refresh hs =>
    rcases look_cases w.oidc refresh c with ⟨set, hset, he⟩ | ⟨hstatic, ⟨d, hd, he⟩ | he⟩
    · rw [he]
      exact sound_judge hheader (hset.imp_right (.imp_right fun h ↦ hinv.cache set h.1))
    · rw [he]
      exact ⟨hheader, hstatic, ⟨d, hinv.discovery d hd, rfl⟩, fun _ hset ↦ by cases hset⟩
    · rw [he]
      exact ⟨hheader, hstatic, fun _ hd ↦ by cases hd⟩
  | publishes i refresh hs =>
    rw [hs] at hc
    refine ⟨hheader, hc.1, fun d hd ↦ ?_⟩
    have hdoc : w.document = some d := Option.some.inj hd
    exact List.mem_append_left _ (by rw [hdoc]; exact List.mem_singleton_self d)
  | hears i refresh d hs =>
    rw [hs] at hc
    exact ⟨hheader, hc.1, ⟨d, hc.2 d rfl, rfl⟩, fun _ hset ↦ by cases hset⟩
  | serves i refresh uri hs =>
    rw [hs] at hc
    refine ⟨hheader, hc.1, hc.2.1, fun set hset ↦ ?_⟩
    have hkeys : w.keys uri = some set := Option.some.inj hset
    exact List.mem_append_left _ (by rw [hkeys]; exact List.mem_singleton_self _)
  | stores i refresh uri set hs =>
    rw [hs] at hc
    obtain ⟨hstatic, ⟨d, hd, huri⟩, hserved⟩ := hc
    have horigin : Origin w set := ⟨d, hd, huri ▸ hserved set rfl⟩
    exact sound_judge hheader (.inr ⟨hstatic, horigin⟩)
  | _ => exact ⟨hheader, fun _ hid ↦ by cases hid⟩

theorem Inv.step (hinv : Inv w) (h : Step w a w') : Inv w' := by
  cases h with
  | publish document => exact ⟨hinv.discovery, hinv.cache, hinv.calls⟩
  | serve uri set => exact ⟨hinv.discovery, hinv.cache, hinv.calls⟩
  | verify token kid hk =>
    exact ⟨hinv.discovery, hinv.cache, forall_mem_concat hinv.calls ⟨hk, trivial⟩⟩
  | unread token => exact hinv
  | moves a i c stage w₁ ha hi h =>
    have he := h.extends
    have hc := hinv.calls c (List.mem_of_getElem? hi)
    have hcalls : ∀ c' ∈ w₁.calls.set i { c with stage }, c'.Sound w₁ := by
      rw [h.calls]
      exact forall_mem_set (h.sound hinv hc) fun c' hc' ↦
        (hinv.calls c' (List.mem_of_mem_eraseIdx hc')).mono he
    have hstores : (∀ d ∈ w₁.oidc.discovery, d ∈ w₁.published) ∧
        ∀ set ∈ w₁.oidc.jwksCache, Origin w₁ set := by
      cases h with
      | publishes i refresh hs =>
        exact ⟨fun d hd ↦ he.published (hinv.discovery d hd),
          fun set hset ↦ (hinv.cache set hset).mono he⟩
      | serves i refresh uri hs =>
        exact ⟨hinv.discovery, fun set hset ↦ (hinv.cache set hset).mono he⟩
      | hears i refresh d hs =>
        have hd := hc.2
        rw [hs] at hd
        exact ⟨fun d' hd' ↦ Option.some.inj hd' ▸ hd.2 d rfl, hinv.cache⟩
      | stores i refresh uri set hs =>
        have hset := hc.2
        rw [hs] at hset
        obtain ⟨-, ⟨d, hd, huri⟩, hserved⟩ := hset
        refine ⟨hinv.discovery, fun set' hset' ↦ ?_⟩
        obtain rfl := Option.some.inj hset'
        exact ⟨d, hd, huri ▸ hserved set rfl⟩
      | _ => exact ⟨hinv.discovery, hinv.cache⟩
    exact ⟨hstores.1, hstores.2, hcalls⟩

theorem inv_init (issuer clientId : Text) (jwksStatic : Option (JwkSet κ))
    (document : Option Discovery) (keys : Text → Option (JwkSet κ)) :
    Inv { oidc := { issuer, clientId, jwksStatic }, document, keys } where
  discovery _ hd := absurd hd (Option.not_mem_none _)
  cache _ hset := absurd hset (Option.not_mem_none _)
  calls _ hc := absurd hc List.not_mem_nil

theorem Step.settings (h : Step w a w') : w'.oidc.jwksStatic = w.oidc.jwksStatic ∧
    w'.oidc.issuer = w.oidc.issuer ∧ w'.oidc.clientId = w.oidc.clientId := by
  cases h with
  | moves a i c stage w₁ ha hi h => exact ⟨h.extends.jwksStatic, h.extends.issuer, h.extends.clientId⟩
  | _ => exact ⟨rfl, rfl, rfl⟩

/-- Whoever is let in has a token that is good under a key of the operator's
file or, where there is none, of a set that the issuer itself has served. -/
theorem accepted_key_was_served {issuer clientId : Text} {jwksStatic : Option (JwkSet κ)}
    {document : Option Discovery} {keys : Text → Option (JwkSet κ)} {acts : List (Action κ)}
    (h : Run step { oidc := { issuer, clientId, jwksStatic }, document, keys } acts w)
    (hc : c ∈ w.calls) (hdone : c.stage = .done (some identity)) :
    Jwt.decodeHeader κ c.token = some (some c.kid) ∧
      ∃ set, (jwksStatic = some set ∨ jwksStatic = none ∧
          ∃ d ∈ w.published, (d.jwksUri, set) ∈ w.served) ∧
        ∃ jwk, set.find c.kid = some jwk ∧
          Jwt.decode jwk issuer clientId c.token = some identity := by
  have hinv := h.invariant Inv (fun _ _ _ hinv hs ↦ hinv.step (step_spec hs)) (inv_init _ _ _ _ _)
  obtain ⟨rfl, rfl, rfl⟩ := h.invariant
    (fun w ↦ w.oidc.jwksStatic = jwksStatic ∧ w.oidc.issuer = issuer ∧ w.oidc.clientId = clientId)
    (fun _ _ _ hset hs ↦ by rwa [(step_spec hs).settings.1, (step_spec hs).settings.2.1,
      (step_spec hs).settings.2.2]) ⟨rfl, rfl, rfl⟩
  obtain ⟨hheader, hsound⟩ := hinv.calls c hc
  rw [hdone] at hsound
  obtain ⟨set, ⟨jwk, hf, hd⟩, hset⟩ := hsound identity rfl
  exact ⟨hheader, set, hset, jwk, hf, hd⟩

end Runs

/-! Tokens whose header is what stands before a dot, and which any key of that name has signed. -/

@[reducible] def dotted : Jwt ℕ where
  decodeHeader token := some (some (token.takeWhile (· ≠ '.')))
  decode jwk _ _ token :=
    if jwk.kid = some (token.takeWhile (· ≠ '.')) then some ⟨token, none⟩ else none

attribute [local instance] dotted

def exampleDiscovery : Discovery where
  authorizationEndpoint := "https://issuer.test/authorize".toList
  tokenEndpoint := "https://issuer.test/token".toList
  jwksUri := "https://issuer.test/jwks".toList
  endSessionEndpoint := none

def exampleVerifier : Verifier ℕ where
  issuer := "https://issuer.test".toList
  clientId := "postbud-admin".toList
  jwksStatic := none

def firstKey : JwkSet ℕ := [⟨some "k1".toList, 1⟩]

def secondKey : JwkSet ℕ := [⟨some "k2".toList, 2⟩]

def firstLogin : List (Action ℕ) :=
  [.verify "k1.ann".toList, .looks 0, .publishes 0, .hears 0, .serves 0, .stores 0]

def beforeLogin : World ℕ where
  oidc := exampleVerifier
  document := some exampleDiscovery
  keys _ := some firstKey

theorem firstLogin_served : ∃ w, ∃ c ∈ w.calls, Run step beforeLogin firstLogin w ∧
    c.stage = .done (some ⟨"k1.ann".toList, none⟩) ∧
    ∃ set, ∃ d ∈ w.published, (d.jwksUri, set) ∈ w.served := by
  have hrun : (exec step beforeLogin firstLogin).any fun w ↦
      w.calls.any (·.stage = .done (some ⟨"k1.ann".toList, none⟩)) := by decide +kernel
  obtain ⟨w, hw, hp⟩ := run_of_any hrun
  obtain ⟨c, hc, hp⟩ := List.any_eq_true.mp hp
  have hdone := of_decide_eq_true hp
  obtain ⟨-, set, hset | ⟨-, hserved⟩, -⟩ := accepted_key_was_served hw hc hdone
  · cases hset
  · exact ⟨w, c, hc, hw, hdone, set, hserved⟩

end Postbud.Jwks
