import Mathlib.Data.List.Rotate
import Postbud.Api.Auth
import Postbud.Db.AdminUser
import Postbud.Lib.Result
import Postbud.Lib.Transition

namespace Postbud.Api

open Lib Lib.Text Lib.Transition

structure Identity where
  sub : Text
  email : Option Text
  deriving DecidableEq

def Identity.actor (identity : Identity) : Text := identity.email.getD identity.sub

/-- The users of `ADMIN_OIDC_USERS`. -/
structure OidcAdmin where
  users : List Text
  deriving DecidableEq

def OidcAdmin.envAllowlisted (oidc : OidcAdmin) (identity : Identity) : Bool :=
  oidc.users.any fun u ↦ u = identity.sub ||
    identity.email.any fun e ↦ toAsciiLowercase e = toAsciiLowercase u

structure AppState where
  adminToken : Option Text
  adminOidc : Option OidcAdmin
  deriving DecidableEq

/-- An authenticated operator. -/
structure Admin where
  actor : Text
  role : Role
  deriving DecidableEq

inductive UserRequest
  | add (identifier role : Text) (note : Option Text)
  | role (id : ℤ) (role : Text)
  | end_ (id : ℤ)
  deriving DecidableEq

inductive UserResponse
  | user (u : AdminUser)
  | noContent
  deriving DecidableEq

/-- A request and what meets it: the time, what the issuer's keys make of a
token, and which of the grants that fit an identity the database returns. -/
structure UserCall where
  now : Time
  authorization : Option Text
  verify : Text → Option Identity
  row : ℕ
  request : UserRequest

variable [Platform]

/-- While the table has no active row, the environment allowlist governs. -/
def OidcAdmin.role (oidc : OidcAdmin) (db : AdminUsers) (row : ℕ) (identity : Identity) :
    Option Role :=
  match AdminUser.resolve db row identity.sub identity.email with
  | (some role, _) => some role
  | (none, anyActive) => if !anyActive && oidc.envAllowlisted identity then some .admin else none

def Admin.resolve (app : AppState) (db : AdminUsers) (call : UserCall) : Except ApiError Admin :=
  if app.adminToken.isNone && app.adminOidc.isNone then .error .adminDisabled
  else match call.authorization.bind (stripPrefix "Bearer ".toList) with
  | none => .error .unauthorized
  | some token =>
    let presented := trim token
    if app.adminToken.any fun configured ↦ hash presented = hash configured then
      .ok ⟨"admin-token".toList, .admin⟩
    else
      let admin : Option Admin := do
        let oidc ← app.adminOidc
        let identity ← call.verify presented
        let role ← oidc.role db call.row identity
        some ⟨identity.actor, role⟩
      admin.elim (.error .unauthorized) .ok

/-- Only the admin role may change things. -/
def AdminWrite.resolve (app : AppState) (db : AdminUsers) (call : UserCall) :
    Except ApiError Admin := do
  let admin ← Admin.resolve app db call
  if admin.role ≠ .admin then throw .forbidden
  return admin

def validRole (role : Text) : Except ApiError Unit :=
  match Role.ofText? role with
  | some _ => .ok ()
  | none => .error <| .badRequest <|
      "unknown role '".toList ++ role ++ "' (admin or viewer)".toList

def userAdd (db : AdminUsers) (now : Time) (admin : Admin) (identifier role : Text)
    (note : Option Text) : AdminUsers × Except ApiError UserResponse :=
  let identifier := trim identifier
  if identifier = [] then (db, .error (.badRequest "identifier is required".toList))
  else match validRole role with
  | .error err => (db, .error err)
  | .ok () =>
    match AdminUser.add db now identifier role note admin.actor with
    | (db, .ok user) => (db, .ok (.user user))
    | (db, .error message) => (db, .error (.badRequest message))

/-- What a call that may find no grant answers. -/
def grantAnswer : AdminUsers × Except Text Bool → AdminUsers × Except ApiError UserResponse
  | (db, .ok true) => (db, .ok .noContent)
  | (db, .ok false) => (db, .error .notFound)
  | (db, .error message) => (db, .error (.badRequest message))

def userRole (db : AdminUsers) (now : Time) (admin : Admin) (id : ℤ) (role : Text) :
    AdminUsers × Except ApiError UserResponse :=
  match validRole role with
  | .error err => (db, .error err)
  | .ok () => grantAnswer (AdminUser.setRole db now id role admin.actor)

def userEnd (db : AdminUsers) (now : Time) (admin : Admin) (id : ℤ) :
    AdminUsers × Except ApiError UserResponse :=
  grantAnswer (AdminUser.end_ db now id admin.actor)

def handleUser (app : AppState) (db : AdminUsers) (call : UserCall) :
    AdminUsers × Except ApiError UserResponse :=
  match AdminWrite.resolve app db call with
  | .error err => (db, .error err)
  | .ok admin =>
    match call.request with
    | .add identifier role note => userAdd db call.now admin identifier role note
    | .role id role => userRole db call.now admin id role
    | .end_ id => userEnd db call.now admin id

/-- A request that succeeds. -/
def userStep (app : AppState) (db : AdminUsers) (call : UserCall) : Option AdminUsers :=
  match handleUser app db call with
  | (db, .ok _) => some db
  | (_, .error _) => none

variable {app : AppState} {db db' : AdminUsers} {call : UserCall}

omit [Platform] in
theorem grantAnswer_ok {x : AdminUsers × Except Text Bool} {r : UserResponse}
    (h : grantAnswer x = (db', .ok r)) : x = (db', .ok true) := by
  obtain ⟨db, (message | (_ | _))⟩ := x
  · cases (Prod.mk.inj h).2
  · cases (Prod.mk.inj h).2
  · exact congrArg (·, _) (Prod.mk.inj h).1

/-- A request that succeeds was made by an admin, and one of the three functions did it. -/
theorem userStep_spec (h : userStep app db call = some db') :
    ∃ admin, AdminWrite.resolve app db call = .ok admin ∧
      match call.request with
      | .add identifier role note => ∃ user,
          AdminUser.add db call.now (trim identifier) role note admin.actor = (db', .ok user)
      | .role id role => AdminUser.setRole db call.now id role admin.actor = (db', .ok true)
      | .end_ id => AdminUser.end_ db call.now id admin.actor = (db', .ok true) := by
  obtain ⟨r, hr⟩ : ∃ r, handleUser app db call = (db', .ok r) := by
    unfold userStep at h
    split at h
    · rename_i db₁ r hr
      exact ⟨r, Option.some.inj h ▸ hr⟩
    · cases h
  unfold handleUser at hr
  split at hr
  · cases (Prod.mk.inj hr).2
  · rename_i admin hadmin
    refine ⟨admin, hadmin, ?_⟩
    cases hreq : call.request with
    | add identifier role note =>
      rw [hreq] at hr
      dsimp only [userAdd] at hr
      split at hr
      · cases (Prod.mk.inj hr).2
      · split at hr
        · cases (Prod.mk.inj hr).2
        · split at hr
          · rename_i db₁ user hadd
            exact ⟨user, (Prod.mk.inj hr).1 ▸ hadd⟩
          · cases (Prod.mk.inj hr).2
    | role id role =>
      rw [hreq] at hr
      dsimp only [userRole] at hr
      split at hr
      · cases (Prod.mk.inj hr).2
      · exact grantAnswer_ok hr
    | end_ id =>
      rw [hreq] at hr
      exact grantAnswer_ok hr

end Postbud.Api
