import Postbud.Db.Schema

namespace Postbud.Api

open Lib Lib.Text

/-- An internal error keeps its detail to itself. -/
inductive ApiError
  | unauthorized
  | badRequest (message : Text)
  | notFound
  | forbidden
  | adminDisabled
  | internal
  deriving DecidableEq

def PREFIX : Text := "pb_live_".toList

/-- `format!("{b:02x}")` -/
def hexByte (b : UInt8) : Text := [Nat.digitChar (b.toNat / 16), Nat.digitChar (b.toNat % 16)]

/-- A key of 32 random bytes. -/
def generate (bytes : Vector UInt8 32) : Text := PREFIX ++ bytes.toList.flatMap hexByte

theorem trim_generate (bytes : Vector UInt8 32) : trim (generate bytes) = generate bytes := by
  have hdigit : ∀ n < 16, ¬ isWhitespace (Nat.digitChar n) := by decide
  have hprefix : PREFIX.any isWhitespace = false := by decide
  refine trim_of_no_whitespace fun c hc ↦ ?_
  rcases List.mem_append.mp hc with hc | hc
  · exact List.any_eq_false.mp hprefix c hc
  · obtain ⟨b, -, hc⟩ := List.mem_flatMap.mp hc
    have hlt := b.toNat_lt
    rcases List.mem_cons.mp hc with rfl | hc
    · exact hdigit _ (by omega)
    · obtain rfl := List.mem_singleton.mp hc
      exact hdigit _ (by omega)

variable [Platform]

def hash (key : Text) : Bytes := Platform.sha256 (utf8 (trim key))

def authorizeRelay (bounceToken authorization : Option Text) : Except ApiError Unit :=
  match bounceToken with
  | none => .error .internal
  | some expected =>
    let presented := ((authorization.bind (stripPrefix "Bearer ".toList)).map trim).getD []
    if hash presented ≠ hash expected then .error .unauthorized else .ok ()

end Postbud.Api
