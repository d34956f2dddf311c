import Postbud.Lib.Processes
import Postbud.Lib.Transition
import Postbud.Ui.Pkce

namespace Postbud.Login

open Lib Lib.Transition Lib.Processes Ui.Oidc

/-- The parameters of the address that a page is loaded with. -/
structure Query where
  code : Option Text
  state : Option Text
  deriving DecidableEq

/-- A code, unless there is none or an empty one. -/
def Query.callback (q : Query) : Option Text := q.code.filter (· ≠ [])

structure ExchangeRequest where
  code : Text
  codeVerifier : Text
  redirectUri : Text
  deriving DecidableEq

/-- What comes of a page load: nothing, `Login state mismatch`, or a request. -/
inductive Reaction
  | noCallback
  | mismatch
  | exchange (r : ExchangeRequest)
  deriving DecidableEq

/-- `completeLogin` up to its request, and the flight it leaves behind. -/
def completeLogin (origin : Text) (q : Query) (flight : Option Flight) : Option Flight × Reaction :=
  match q.callback with
  | none => (flight, .noCallback)
  | some code =>
    (none, match flight with
      | some f =>
        if q.state = some f.state then .exchange ⟨code, f.verifier, redirectUri origin⟩
        else .mismatch
      | none => .mismatch)

/-- A code that the issuer has given out: the request it was asked for with,
and who was logged in. -/
structure Code where
  code : Text
  challenge : Text
  redirectUri : Text
  subject : Text
  spent : Bool := false
  deriving DecidableEq

/-- An exchange the page has posted. `answer` is the subject of the id token
it is answered with, if any; `flight` is a ghost. -/
structure Exchange where
  request : ExchangeRequest
  flight : Flight
  answer : Option (Option Text) := none
  deriving DecidableEq

/-- A tab of a browser, the issuer, and the exchanges on their way through the
proxy. `begun` is a ghost: the logins begun in the tab. -/
structure World where
  flight : Option Flight := none
  begun : List Flight := []
  codes : List Code := []
  exchanges : List Exchange := []

/-- `authorize` is a request of anyone at all that the issuer answers with a
code; `load` is a page of the tab, by whatever address; `serve` is the answer
to an exchange, which `fails` where the issuer or the proxy has a reason of
its own. -/
inductive Action
  | begin (verifierValues : Vector BigEndian.Byte 64) (stateValues : Vector BigEndian.Byte 32)
  | authorize (code challenge redirectUri subject : Text)
  | load (q : Query)
  | serve (i : ℕ) (fails : Bool)

/-- RFC 7636: the code is good once, for who asked for it and knows the verifier
whose SHA-256 digest the challenge is, in base64url. -/
def Code.serves (c : Code) (r : ExchangeRequest) : Bool :=
  c.code = r.code && !c.spent && c.redirectUri = r.redirectUri &&
    Base64.decodeUrl c.challenge = Sha256.digest (textEncode r.codeVerifier)

def spend (code : Text) (codes : List Code) : List Code :=
  codes.map fun c ↦ if c.code = code then { c with spent := true } else c

section Steps

variable [Urls]

def step (cfg : Config) (origin : Text) (w : World) : Action → Option World
  | .begin verifierValues stateValues =>
    let flight := (beginLogin cfg origin verifierValues stateValues).1
    some { w with flight := some flight, begun := w.begun ++ [flight] }
  | .authorize code challenge redirectUri subject =>
    if code ∈ w.codes.map (·.code) then none
    else some { w with codes := w.codes ++ [{ code, challenge, redirectUri, subject }] }
  | .load q =>
    let (flight, reaction) := completeLogin origin q w.flight
    match reaction, w.flight with
    | .exchange request, some f =>
      some { w with flight, exchanges := w.exchanges ++ [{ request, flight := f }] }
    | _, _ => some { w with flight }
  | .serve i fails => do
    let e ← w.exchanges[i]?
    if e.answer.isSome then none
    else
      match if fails then none else w.codes.find? (·.serves e.request) with
      | some c =>
        some { w with
          codes := spend c.code w.codes
          exchanges := w.exchanges.set i { e with answer := some (some c.subject) } }
      | none => some { w with exchanges := w.exchanges.set i { e with answer := some none } }

inductive Step (cfg : Config) (origin : Text) (w : World) : Action → World → Prop
  | begin (verifierValues : Vector BigEndian.Byte 64) (stateValues : Vector BigEndian.Byte 32) :
    Step cfg origin w (.begin verifierValues stateValues)
      { w with
        flight := some (beginLogin cfg origin verifierValues stateValues).1
        begun := w.begun ++ [(beginLogin cfg origin verifierValues stateValues).1] }
  | authorize (code challenge redirectUri subject : Text) (hc : code ∉ w.codes.map (·.code)) :
    Step cfg origin w (.authorize code challenge redirectUri subject)
      { w with codes := w.codes ++ [{ code, challenge, redirectUri, subject }] }
  | noCallback (q : Query) (hq : q.callback = none) : Step cfg origin w (.load q) w
  | mismatch (q : Query) (code : Text) (hq : q.callback = some code)
      (hf : ∀ f ∈ w.flight, q.state ≠ some f.state) :
    Step cfg origin w (.load q) { w with flight := none }
  | exchange (q : Query) (code : Text) (f : Flight) (hq : q.callback = some code)
      (hf : w.flight = some f) (hs : q.state = some f.state) :
    Step cfg origin w (.load q)
      { w with
        flight := none
        exchanges := w.exchanges ++ [{ request := ⟨code, f.verifier, redirectUri origin⟩, flight := f }] }
  | served (i : ℕ) (e : Exchange) (c : Code) (hi : w.exchanges[i]? = some e) (he : e.answer = none)
      (hc : c ∈ w.codes) (hs : c.serves e.request) :
    Step cfg origin w (.serve i false)
      { w with
        codes := spend c.code w.codes
        exchanges := w.exchanges.set i { e with answer := some (some c.subject) } }
  | refused (i : ℕ) (fails : Bool) (e : Exchange) (hi : w.exchanges[i]? = some e)
      (he : e.answer = none) (hc : fails = false → ∀ c ∈ w.codes, ¬ c.serves e.request) :
    Step cfg origin w (.serve i fails)
      { w with exchanges := w.exchanges.set i { e with answer := some none } }

variable {cfg : Config} {origin : Text} {w w' : World} {a : Action}

theorem step_spec (h : step cfg origin w a = some w') : Step cfg origin w a w' := by
  cases a with
  | begin verifierValues stateValues => exact Option.some.inj h ▸ .begin verifierValues stateValues
  | authorize code challenge redirectUri subject =>
    obtain ⟨hc, h⟩ := Option.ite_none_left_eq_some.mp h
    exact Option.some.inj h ▸ .authorize code challenge redirectUri subject hc
  | load q =>
    simp only [step, completeLogin] at h
    cases hq : q.callback with
    | none =>
      rw [hq] at h
      exact Option.some.inj h ▸ .noCallback q hq
    | some code =>
      rw [hq] at h
      cases hf : w.flight with
      | none =>
        rw [hf] at h
        exact Option.some.inj h ▸ .mismatch q code hq fun f hf' ↦ by cases hf.symm.trans hf'
      | some f =>
        rw [hf] at h
        by_cases hs : q.state = some f.state
        · simp only [if_pos hs] at h
          exact Option.some.inj h ▸ .exchange q code f hq hf hs
        · simp only [if_neg hs] at h
          refine Option.some.inj h ▸ .mismatch q code hq fun f' hf' ↦ ?_
          obtain rfl := Option.some.inj (hf.symm.trans hf')
          exact hs
  | serve i fails =>
    obtain ⟨e, hi, h⟩ := Option.bind_eq_some_iff.mp h
    obtain ⟨he, h⟩ := Option.ite_none_left_eq_some.mp h
    have he := Option.not_isSome_iff_eq_none.mp he
    cases fails with
    | true => exact Option.some.inj h ▸ .refused i true e hi he fun hfails ↦ by cases hfails
    | false =>
      cases hc : w.codes.find? (·.serves e.request) with
      | none =>
        simp only [Bool.false_eq_true, if_false, hc] at h
        exact Option.some.inj h ▸ .refused i false e hi he fun _ ↦ List.find?_eq_none.mp hc
      | some c =>
        simp only [Bool.false_eq_true, if_false, hc] at h
        have hs := List.find?_some hc
        exact Option.some.inj h ▸ .served i e c hi he (List.mem_of_find?_eq_some hc) hs

/-! Who is signed in by a login. -/

/-- The code that an exchange is answered for is one that was asked for with
a challenge that is the digest of the login's verifier. -/
def Redeems (w : World) (e : Exchange) : Prop :=
  ∀ subject, e.answer = some (some subject) → ∃ c ∈ w.codes,
    c.code = e.request.code ∧ c.subject = subject ∧ c.redirectUri = e.request.redirectUri ∧
      Base64.decodeUrl c.challenge = Sha256.digest (textEncode e.flight.verifier)

structure Inv (origin : Text) (w : World) : Prop where
  flights : (w.exchanges.map (·.flight) ++ w.flight.toList).Sublist w.begun
  requests : ∀ e ∈ w.exchanges,
    e.request.codeVerifier = e.flight.verifier ∧ e.request.redirectUri = redirectUri origin
  redeems : ∀ e ∈ w.exchanges, Redeems w e

omit [Urls] in
theorem Redeems.mono {e : Exchange} (h : Redeems w e)
    (hcodes : ∀ c ∈ w.codes, ∃ c' ∈ w'.codes, c'.code = c.code ∧ c'.subject = c.subject ∧
      c'.redirectUri = c.redirectUri ∧ c'.challenge = c.challenge) : Redeems w' e := by
  intro subject he
  obtain ⟨c, hc, hcode, hsubject, hredirect, hchallenge⟩ := h subject he
  obtain ⟨c', hc', hcode', hsubject', hredirect', hchallenge'⟩ := hcodes c hc
  exact ⟨c', hc', hcode'.trans hcode, hsubject'.trans hsubject, hredirect'.trans hredirect,
    hchallenge'.symm ▸ hchallenge⟩

omit [Urls] in
/-- An exchange that is answered stays the one that was posted. -/
theorem map_set_answer {β : Type} (f : Exchange → β) (answer : Option (Option Text)) {i : ℕ}
    {e : Exchange} (hi : w.exchanges[i]? = some e)
    (hf : f { e with answer } = f e) :
    (w.exchanges.set i { e with answer }).map f = w.exchanges.map f := by
  obtain ⟨hlt, he⟩ := List.getElem?_eq_some_iff.mp hi
  rw [List.map_set, hf, ← he, ← List.getElem_map f (h := by rwa [List.length_map]),
    List.set_getElem_self]

theorem inv_step (h : Inv origin w) (ha : step cfg origin w a = some w') : Inv origin w' := by
  obtain ⟨hflights, hrequests, hredeems⟩ := h
  cases step_spec ha with
  | begin verifierValues stateValues =>
    refine ⟨?_, hrequests, hredeems⟩
    exact ((List.sublist_append_left _ _).trans hflights).append_right _
  | authorize =>
    refine ⟨hflights, hrequests, fun e he ↦ (hredeems e he).mono fun c hc ↦ ?_⟩
    exact ⟨c, List.mem_append_left _ hc, rfl, rfl, rfl, rfl⟩
  | noCallback => exact ⟨hflights, hrequests, hredeems⟩
  | mismatch =>
    refine ⟨?_, hrequests, hredeems⟩
    rw [Option.toList_none, List.append_nil]
    exact (List.sublist_append_left _ _).trans hflights
  | exchange q code f _ hf =>
    refine ⟨?_, forall_mem_concat hrequests ⟨rfl, rfl⟩,
      forall_mem_concat hredeems fun subject hsubject ↦ by cases hsubject⟩
    rw [hf, Option.toList_some] at hflights
    simpa only [List.map_append, List.map_cons, List.map_nil, Option.toList_none,
      List.append_nil] using hflights
  | served i e c hi _ hc hs =>
    have hmono : ∀ c' ∈ w.codes, ∃ c'' ∈ spend c.code w.codes, c''.code = c'.code ∧
        c''.subject = c'.subject ∧ c''.redirectUri = c'.redirectUri ∧
          c''.challenge = c'.challenge := by
      intro c' hc'
      refine ⟨_, List.mem_map_of_mem hc', ?_⟩
      split <;> exact ⟨rfl, rfl, rfl, rfl⟩
    have hmem : e ∈ w.exchanges := List.mem_of_getElem? hi
    have hserves : Redeems w { e with answer := some (some c.subject) } := by
      intro subject hsubject
      obtain rfl : c.subject = subject := Option.some.inj (Option.some.inj hsubject)
      simp only [Code.serves, Bool.and_eq_true, decide_eq_true_eq] at hs
      obtain ⟨⟨⟨hcode, -⟩, hredirect⟩, hchallenge⟩ := hs
      rw [(hrequests e hmem).1] at hchallenge
      exact ⟨c, hc, hcode, rfl, hredirect, hchallenge⟩
    have hmap := map_set_answer (·.flight) (some (some c.subject)) hi rfl
    refine ⟨?_, forall_mem_set (hrequests e hmem) fun y hy ↦ ?_,
      forall_mem_set (hserves.mono hmono) fun y hy ↦ ?_⟩
    · simpa only [hmap] using hflights
    · exact hrequests y (List.mem_of_mem_eraseIdx hy)
    · exact (hredeems y (List.mem_of_mem_eraseIdx hy)).mono hmono
  | refused i fails e hi =>
    have hmem : e ∈ w.exchanges := List.mem_of_getElem? hi
    have hmap := map_set_answer (·.flight) (some none) hi rfl
    refine ⟨?_, forall_mem_set (hrequests e hmem) fun y hy ↦ ?_,
      forall_mem_set (fun _ hs ↦ by cases hs) fun y hy ↦ ?_⟩
    · simpa only [hmap] using hflights
    · exact hrequests y (List.mem_of_mem_eraseIdx hy)
    · exact hredeems y (List.mem_of_mem_eraseIdx hy)

/-- A login begun in the tab is exchanged at most once, and whoever it signs in
logged in with a request that carried the challenge of its verifier. A code
got by another request signs no one in here. -/
theorem exchange_redeems {l : List Action} (h : Run (step cfg origin) {} l w) :
    (w.exchanges.map (·.flight)).Sublist w.begun ∧
      ∀ e ∈ w.exchanges, ∀ subject, e.answer = some (some subject) →
        ∃ c ∈ w.codes, c.code = e.request.code ∧ c.subject = subject ∧
          c.redirectUri = redirectUri origin ∧
          Base64.decodeUrl c.challenge = Sha256.digest (textEncode e.flight.verifier) := by
  have hinit : Inv origin {} := ⟨List.nil_sublist _, nofun, nofun⟩
  have hinv : Inv origin w := h.invariant (Inv origin) (fun _ _ _ hi ha ↦ inv_step hi ha) hinit
  have hsub : (w.exchanges.map (·.flight)).Sublist w.begun :=
    (List.sublist_append_left _ _).trans hinv.flights
  refine ⟨hsub, fun e he subject hsubject ↦ ?_⟩
  obtain ⟨c, hc, hcode, hsubject, hredirect, hchallenge⟩ := hinv.redeems e he subject hsubject
  exact ⟨c, hc, hcode, hsubject, hredirect.trans (hinv.requests e he).2, hchallenge⟩

theorem step_serve {i : ℕ} {e : Exchange} {c : Code} (hi : w.exchanges[i]? = some e)
    (he : e.answer = none) (hc : w.codes.find? (·.serves e.request) = some c) :
    ∃ w', step cfg origin w (.serve i false) = some w' ∧
      w'.exchanges = w.exchanges.set i { e with answer := some (some c.subject) } := by
  have hstep : step cfg origin w (.serve i false) =
      some { w with
        codes := spend c.code w.codes
        exchanges := w.exchanges.set i { e with answer := some (some c.subject) } } := by
    refine Option.bind_eq_some_iff.mpr ⟨e, hi, ?_⟩
    rw [if_neg (by rw [he]; exact Bool.false_ne_true)]
    simp only [Bool.false_eq_true, if_false, hc]
  exact ⟨_, hstep, rfl⟩

/-- A login begun in the tab, and the issuer's answer to the request it is sent to the issuer with. -/
def roundTrip (verifierValues : Vector BigEndian.Byte 64) (stateValues : Vector BigEndian.Byte 32)
    (r : AuthorizationRequest) (code subject : Text) (i : ℕ) : List Action :=
  [.begin verifierValues stateValues, .authorize code r.codeChallenge r.redirectUri subject,
    .load ⟨some code, some r.state⟩, .serve i false]

/-- Whatever has gone on in the tab, a login that comes back as it went out signs in. -/
theorem roundTrip_answers {verifierValues : Vector BigEndian.Byte 64}
    {stateValues : Vector BigEndian.Byte 32} {r : AuthorizationRequest} {code : Text} (subject : Text)
    (hr : (beginLogin cfg origin verifierValues stateValues).2 = some r) (hcode : code ≠ [])
    (hfresh : code ∉ w.codes.map (·.code)) : ∃ w',
    Run (step cfg origin) w
      (roundTrip verifierValues stateValues r code subject w.exchanges.length) w' ∧
      w'.exchanges.map (·.answer) = w.exchanges.map (·.answer) ++ [some (some subject)] := by
  rw [beginLogin_eq] at hr
  obtain ⟨-, hr⟩ := Option.ite_none_right_eq_some.mp hr
  obtain rfl := Option.some.inj hr
  have hcallback : (Query.mk (some code) (some (randomString stateValues))).callback =
      some code := by
    rw [Query.callback, Option.filter_some, if_pos (decide_eq_true hcode)]
  let c : Code := ⟨code, Base64.encodeUrl (Sha256.digest (textEncode (randomString verifierValues))),
    redirectUri origin, subject, false⟩
  let flight : Flight := ⟨randomString verifierValues, randomString stateValues⟩
  let e : Exchange := ⟨⟨code, flight.verifier, redirectUri origin⟩, flight, none⟩
  have hnone : w.codes.find? (·.serves e.request) = none := by
    rw [List.find?_eq_none]
    intro c' hc' hserves
    simp only [Code.serves, Bool.and_eq_true, decide_eq_true_eq] at hserves
    exact hfresh (List.mem_map.mpr ⟨c', hc', hserves.1.1.1⟩)
  have hserves : c.serves e.request := by
    simp only [Code.serves, Bool.and_eq_true, decide_eq_true_eq]
    exact ⟨⟨⟨rfl, rfl⟩, rfl⟩, Base64.decodeUrl_encodeUrl _⟩
  have hfind : (w.codes ++ [c]).find? (·.serves e.request) = some c := by
    rw [List.find?_append, hnone, Option.none_or, List.find?_singleton, if_pos hserves]
  have hload : step cfg origin ⟨some flight, w.begun ++ [flight], w.codes ++ [c], w.exchanges⟩
      (.load ⟨some code, some flight.state⟩) =
        some ⟨none, w.begun ++ [flight], w.codes ++ [c], w.exchanges ++ [e]⟩ := by
    simp only [step, completeLogin, hcallback, flight, if_true]
    rfl
  obtain ⟨w', hserve, hw'⟩ : ∃ w', step cfg origin
      ⟨none, w.begun ++ [flight], w.codes ++ [c], w.exchanges ++ [e]⟩
      (.serve w.exchanges.length false) = some w' ∧
        w'.exchanges = (w.exchanges ++ [e]).set w.exchanges.length
          { e with answer := some (some subject) } :=
    step_serve (c := c) List.getElem?_concat_length rfl hfind
  refine ⟨w', .cons rfl (.cons (if_neg hfresh) (.cons hload (.cons hserve (.nil _)))), ?_⟩
  rw [hw', List.set_append_right _ _ (Nat.le_refl _), Nat.sub_self, List.map_append]
  rfl

end Steps

def webmail : Config := ⟨"postbud".toList, "https://id/authorize".toList⟩

@[reducible] def https : Urls := ⟨fun t ↦ "https://".toList <+: t⟩

section Example

attribute [local instance] https

theorem roundTrip_redeems : ∃ r w,
    (beginLogin webmail "https://admin".toList (.replicate 64 0) (.replicate 32 1)).2 = some r ∧
    Run (step webmail "https://admin".toList) {}
      (roundTrip (.replicate 64 0) (.replicate 32 1) r "c1".toList "ann".toList 0) w ∧
    ∃ e ∈ w.exchanges, e.answer = some (some "ann".toList) ∧
      ∃ c ∈ w.codes, c.code = e.request.code ∧ c.subject = "ann".toList ∧
        c.redirectUri = redirectUri "https://admin".toList ∧
        Base64.decodeUrl c.challenge = Sha256.digest (textEncode e.flight.verifier) := by
  have hurl : Urls.takes webmail.authorizationEndpoint := by decide
  obtain ⟨r, hr⟩ : ∃ r, (beginLogin webmail "https://admin".toList (.replicate 64 0)
      (.replicate 32 1)).2 = some r := by
    rw [beginLogin_eq, if_pos hurl]
    exact ⟨_, rfl⟩
  obtain ⟨w, hw, hanswers⟩ := roundTrip_answers (w := {}) "ann".toList hr
    (show "c1".toList ≠ [] by decide) (by decide)
  have hmem : some (some "ann".toList) ∈ w.exchanges.map (·.answer) := by
    rw [hanswers]
    exact List.mem_singleton_self _
  obtain ⟨e, he, hanswer⟩ := List.mem_map.mp hmem
  exact ⟨r, w, hr, hw, e, he, hanswer, (exchange_redeems hw).2 e he _ hanswer⟩

end Example

/-! What a login that is under way comes to. -/

/-- A page that comes with a code, and the state it comes with. -/
def Action.callback : Action → Option (Text × Option Text)
  | .load q => q.callback.map fun code ↦ (code, q.state)
  | _ => none

/-- What a login comes to when the first to come back is this. -/
def outcome (origin : Text) : Option Flight → Option (Text × Option Text) → List ExchangeRequest
  | some f, some (code, state) =>
    if state = some f.state then [⟨code, f.verifier, redirectUri origin⟩] else []
  | _, _ => []

def NoBegin (a : Action) : Prop := ∀ verifierValues stateValues, a ≠ .begin verifierValues stateValues

section Outcome

theorem outcome_none_left (origin : Text) (c : Option (Text × Option Text)) :
    outcome origin none c = [] := rfl

theorem outcome_none_right (origin : Text) (f : Option Flight) : outcome origin f none = [] := by
  cases f <;> rfl

variable [Urls] {cfg : Config} {origin : Text} {w w' : World} {a : Action}

/-- One step: a page with a code settles the login, anything else leaves it. -/
theorem outcome_step (hP : NoBegin a) (ha : step cfg origin w a = some w')
    (c : Option (Text × Option Text)) :
    w'.exchanges.map (·.request) ++ outcome origin w'.flight c =
      w.exchanges.map (·.request) ++ outcome origin w.flight (a.callback.or c) := by
  cases step_spec ha with
  | begin verifierValues stateValues => exact absurd rfl (hP verifierValues stateValues)
  | authorize => rfl
  | noCallback q hq => rw [Action.callback, hq, Option.map_none, Option.none_or]
  | mismatch q code hq hf =>
    rw [Action.callback, hq, Option.map_some, Option.some_or, outcome_none_left]
    cases hflight : w.flight with
    | none => rfl
    | some f => rw [outcome, if_neg (hf f hflight)]
  | exchange q code f hq hf hs =>
    rw [Action.callback, hq, Option.map_some, Option.some_or, outcome_none_left, hf, outcome, if_pos hs,
      List.map_append, List.append_nil]
    rfl
  | served i e c' hi =>
    have hmap := map_set_answer (·.request) (some (some c'.subject)) hi rfl
    exact congrArg (· ++ outcome origin w.flight c) hmap
  | refused i fails e hi =>
    have hmap := map_set_answer (·.request) (some none) hi rfl
    exact congrArg (· ++ outcome origin w.flight c) hmap

/-- Until the next login is begun in the tab, the exchanges it posts are one, for the
first code that comes back, if that comes with the state of the login; or none,
also where the issuer's own answer follows a forged one. -/
theorem login_outcome {l : List Action} (h : Run (step cfg origin) w l w')
    (hP : ∀ a ∈ l, NoBegin a) :
    w'.exchanges.map (·.request) =
      w.exchanges.map (·.request) ++ outcome origin w.flight (l.findSome? Action.callback) := by
  induction h with
  | nil w =>
    rw [List.findSome?_nil, outcome_none_right, List.append_nil]
  | @cons w w₁ w' a l ha _ ih =>
    rw [ih fun b hb ↦ hP b (List.mem_cons_of_mem _ hb),
      outcome_step (hP a List.mem_cons_self) ha, List.findSome?_cons]
    cases a.callback <;> rfl

end Outcome

section Example

attribute [local instance] https

/-- A forged code comes first: that of the login itself is not exchanged any more. -/
theorem forged_outcome : ∃ w, Run (step webmail "https://admin".toList)
    { flight := some ⟨"v".toList, "s".toList⟩ }
    [.load ⟨some "x".toList, some "t".toList⟩, .load ⟨some "c1".toList, some "s".toList⟩] w ∧
      w.exchanges.map (·.request) = [] := by
  have hrun : (exec (step webmail "https://admin".toList)
      { flight := some ⟨"v".toList, "s".toList⟩ } [.load ⟨some "x".toList, some "t".toList⟩,
        .load ⟨some "c1".toList, some "s".toList⟩]).isSome := by decide +kernel
  obtain ⟨w, hw⟩ := Option.isSome_iff_exists.mp hrun
  have hw := run_iff_exec.mpr hw
  refine ⟨w, hw, (login_outcome hw ?_).trans (by decide +kernel)⟩
  intro a ha verifierValues stateValues heq
  subst heq
  simp only [List.mem_cons, reduceCtorEq, List.not_mem_nil, or_self] at ha

end Example

end Postbud.Login
