import Postbud.Api.Admin
import Postbud.Lib.Processes
import Postbud.Lib.Variant

namespace Postbud.Jwks

open Lib Lib.Transition Lib.Processes Api

/-- A key of the issuer: its `kid`, and what `DecodingKey::from_jwk` reads. -/
structure Jwk (κ : Type) where
  kid : Option Text
  material : κ
  deriving DecidableEq

abbrev JwkSet (κ : Type) := List (Jwk κ)

def JwkSet.find {κ : Type} (set : JwkSet κ) (kid : Text) : Option (Jwk κ) :=
  List.find? (fun jwk ↦ jwk.kid = some kid) set

/-- The `jsonwebtoken` crate: the header of a token, and the identity that a
token asserts if it is signed with a key, of an issuer, for an audience and
not expired. -/
class Jwt (κ : Type) where
  decodeHeader : Text → Option (Option Text)
  decode : Jwk κ → (issuer clientId token : Text) → Option Identity

structure Discovery where
  authorizationEndpoint : Text
  tokenEndpoint : Text
  jwksUri : Text
  endSessionEndpoint : Option Text
  deriving DecidableEq

/-- What `verify` reads and writes of the `OidcAdmin`. -/
structure Verifier (κ : Type) where
  issuer : Text
  clientId : Text
  jwksStatic : Option (JwkSet κ)
  jwksCache : Option (JwkSet κ) := none
  discovery : Option Discovery := none

/-- Where a call of `verify` stands: about to call `jwks`, or waiting for what
the issuer answers a request, which is under way once it is `some` (and
`some none` is an answer that cannot be used). -/
inductive Stage (κ : Type)
  | looks (refresh : Bool)
  | discovers (refresh : Bool) (answer : Option (Option Discovery))
  | fetches (refresh : Bool) (uri : Text) (answer : Option (Option (JwkSet κ)))
  | done (identity : Option Identity)
  deriving DecidableEq

structure Call (κ : Type) where
  token : Text
  kid : Text
  stage : Stage κ
  deriving DecidableEq

/-- The server and the issuer: its discovery document, and what it serves at
each address. Ghosts: `published` and `served` are what it has answered. -/
structure World (κ : Type) where
  oidc : Verifier κ
  document : Option Discovery := none
  keys : Text → Option (JwkSet κ) := fun _ ↦ none
  published : List Discovery := []
  served : List (Text × JwkSet κ) := []
  calls : List (Call κ) := []

/-- `fails` is a request that gets no answer, or a caller that goes away. -/
inductive Action (κ : Type)
  | publish (document : Option Discovery)
  | serve (uri : Text) (set : Option (JwkSet κ))
  | verify (token : Text)
  | looks (i : ℕ)
  | publishes (i : ℕ)
  | hears (i : ℕ)
  | serves (i : ℕ)
  | stores (i : ℕ)
  | fails (i : ℕ)

variable {κ : Type} [Jwt κ]

/-- `verify` with a set in hand. -/
def judge (oidc : Verifier κ) (refresh : Bool) (set : JwkSet κ) (c : Call κ) : Stage κ :=
  match set.find c.kid with
  | some jwk => .done (Jwt.decode jwk oidc.issuer oidc.clientId c.token)
  | none => if oidc.jwksStatic = none ∧ refresh = false then .looks true else .done none

/-- `jwks` up to its first request. -/
def look (oidc : Verifier κ) (refresh : Bool) (c : Call κ) : Stage κ :=
  match oidc.jwksStatic with
  | some set => judge oidc refresh set c
  | none =>
    match if refresh then none else oidc.jwksCache with
    | some set => judge oidc refresh set c
    | none =>
      match oidc.discovery with
      | some d => .fetches refresh d.jwksUri none
      | none => .discovers refresh none

def World.set (w : World κ) (i : ℕ) (c : Call κ) (stage : Stage κ) : World κ :=
  { w with calls := w.calls.set i { c with stage } }

def step (w : World κ) : Action κ → Option (World κ)
  | .publish document => some { w with document }
  | .serve uri set => some { w with keys := fun u ↦ if u = uri then set else w.keys u }
  | .verify token =>
    match Jwt.decodeHeader κ token with
    | some (some kid) => some { w with calls := w.calls ++ [⟨token, kid, .looks false⟩] }
    | _ => some w
  | .looks i => do
    let c ← w.calls[i]?
    match c.stage with
    | .looks refresh => some (w.set i c (look w.oidc refresh c))
    | _ => none
  | .publishes i => do
    let c ← w.calls[i]?
    match c.stage with
    | .discovers refresh none =>
      some { w.set i c (.discovers refresh (some w.document)) with
        published := w.document.toList ++ w.published }
    | _ => none
  | .hears i => do
    let c ← w.calls[i]?
    match c.stage with
    | .discovers refresh (some (some d)) =>
      some { w.set i c (.fetches refresh d.jwksUri none) with
        oidc := { w.oidc with discovery := some d } }
    | .discovers _ (some none) => some (w.set i c (.done none))
    | _ => none
  | .serves i => do
    let c ← w.calls[i]?
    match c.stage with
    | .fetches refresh uri none =>
      some { w.set i c (.fetches refresh uri (some (w.keys uri))) with
        served := ((w.keys uri).map fun set ↦ (uri, set)).toList ++ w.served }
    | _ => none
  | .stores i => do
    let c ← w.calls[i]?
    match c.stage with
    | .fetches refresh _ (some (some set)) =>
      some { w.set i c (judge w.oidc refresh set c) with
        oidc := { w.oidc with jwksCache := some set } }
    | .fetches _ _ (some none) => some (w.set i c (.done none))
    | _ => none
  | .fails i => do
    let c ← w.calls[i]?
    match c.stage with
    | .done _ => none
    | _ => some (w.set i c (.done none))

def Action.call : Action κ → Option ℕ
  | .looks i | .publishes i | .hears i | .serves i | .stores i | .fails i => some i
  | _ => none

/-- How a call moves, and what of it others can see: the document or the set
that it keeps, and what the issuer has answered. -/
inductive Moves (w : World κ) (c : Call κ) : Action κ → Stage κ → World κ → Prop
  | looks (i : ℕ) (refresh : Bool) (hc : c.stage = .looks refresh) :
    Moves w c (.looks i) (look w.oidc refresh c) w
  | publishes (i : ℕ) (refresh : Bool) (hc : c.stage = .discovers refresh none) :
    Moves w c (.publishes i) (.discovers refresh (some w.document))
      { w with published := w.document.toList ++ w.published }
  | hears (i : ℕ) (refresh : Bool) (d : Discovery)
      (hc : c.stage = .discovers refresh (some (some d))) :
    Moves w c (.hears i) (.fetches refresh d.jwksUri none)
      { w with oidc := { w.oidc with discovery := some d } }
  | serves (i : ℕ) (refresh : Bool) (uri : Text) (hc : c.stage = .fetches refresh uri none) :
    Moves w c (.serves i) (.fetches refresh uri (some (w.keys uri)))
      { w with served := ((w.keys uri).map fun set ↦ (uri, set)).toList ++ w.served }
  | stores (i : ℕ) (refresh : Bool) (uri : Text) (set : JwkSet κ)
      (hc : c.stage = .fetches refresh uri (some (some set))) :
    Moves w c (.stores i) (judge w.oidc refresh set c)
      { w with oidc := { w.oidc with jwksCache := some set } }
  | noDocument (i : ℕ) (refresh : Bool) (hc : c.stage = .discovers refresh (some none)) :
    Moves w c (.hears i) (.done none) w
  | noSet (i : ℕ) (refresh : Bool) (uri : Text) (hc : c.stage = .fetches refresh uri (some none)) :
    Moves w c (.stores i) (.done none) w
  | fails (i : ℕ) (hc : ∀ identity, c.stage ≠ .done identity) : Moves w c (.fails i) (.done none) w

inductive Step (w : World κ) : Action κ → World κ → Prop
  | publish (document : Option Discovery) : Step w (.publish document) { w with document }
  | serve (uri : Text) (set : Option (JwkSet κ)) :
    Step w (.serve uri set) { w with keys := fun u ↦ if u = uri then set else w.keys u }
  | verify (token kid : Text) (hk : Jwt.decodeHeader κ token = some (some kid)) :
    Step w (.verify token) { w with calls := w.calls ++ [⟨token, kid, .looks false⟩] }
  | unread (token : Text) : Step w (.verify token) w
  | moves (a : Action κ) (i : ℕ) (c : Call κ) (stage : Stage κ) (w₁ : World κ)
      (ha : a.call = some i) (hi : w.calls[i]? = some c) (h : Moves w c a stage w₁) :
    Step w a (w₁.set i c stage)

variable {w w' : World κ} {a : Action κ}

theorem step_spec (h : step w a = some w') : Step w a w' := by
  cases a with
  | publish document => exact Option.some.inj h ▸ .publish document
  | serve uri set => exact Option.some.inj h ▸ .serve uri set
  | verify token =>
    simp only [step] at h
    split at h
    · rename_i kid hk
      exact Option.some.inj h ▸ .verify token kid hk
    · exact Option.some.inj h ▸ .unread token
  | looks i =>
    obtain ⟨c, hi, h⟩ := Option.bind_eq_some_iff.mp h
    split at h
    · rename_i refresh hc
      exact Option.some.inj h ▸ .moves _ i c _ _ rfl hi (.looks i refresh hc)
    · cases h
  | publishes i =>
    obtain ⟨c, hi, h⟩ := Option.bind_eq_some_iff.mp h
    split at h
    · rename_i refresh hc
      exact Option.some.inj h ▸ .moves _ i c _ _ rfl hi (.publishes i refresh hc)
    · cases h
  | hears i =>
    obtain ⟨c, hi, h⟩ := Option.bind_eq_some_iff.mp h
    split at h
    · rename_i refresh d hc
      exact Option.some.inj h ▸ .moves _ i c _ _ rfl hi (.hears i refresh d hc)
    · rename_i refresh hc
      exact Option.some.inj h ▸ .moves _ i c _ _ rfl hi (.noDocument i refresh hc)
    · cases h
  | serves i =>
    obtain ⟨c, hi, h⟩ := Option.bind_eq_some_iff.mp h
    split at h
    · rename_i refresh uri hc
      exact Option.some.inj h ▸ .moves _ i c _ _ rfl hi (.serves i refresh uri hc)
    · cases h
  | stores i =>
    obtain ⟨c, hi, h⟩ := Option.bind_eq_some_iff.mp h
    split at h
    · rename_i refresh uri set hc
      exact Option.some.inj h ▸ .moves _ i c _ _ rfl hi (.stores i refresh uri set hc)
    · rename_i refresh uri hc
      exact Option.some.inj h ▸ .moves _ i c _ _ rfl hi (.noSet i refresh uri hc)
    · cases h
  | fails i =>
    obtain ⟨c, hi, h⟩ := Option.bind_eq_some_iff.mp h
    split at h
    · cases h
    · rename_i hc
      exact Option.some.inj h ▸ .moves _ i c _ _ rfl hi (.fails i hc)

end Postbud.Jwks
