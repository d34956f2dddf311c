import Postbud.Lib.Base64
import Postbud.Ui.Oidc

namespace Postbud.Ui.Oidc

open Lib Lib.Base64 Lib.BigEndian Lib.JsArray Lib.Result

/-- `String.fromCharCode(...bytes)` -/
def fromCharCode (bytes : Uint8Array) : Text := bytes.map fun b ↦ Char.ofNat b.toNat

/-- `btoa`, which throws on a character that is no byte. -/
def btoa (s : Text) : Option Text :=
  if s.all (·.toNat < 256) then some (encode (s.map fun c ↦ .ofNat 8 c.toNat)) else none

def replace (c r : Char) (s : Text) : Text := s.map fun x ↦ if x = c then r else x

def base64url (bytes : Uint8Array) : Option Text :=
  (btoa (fromCharCode bytes)).map fun s ↦
    (replace '/' '_' (replace '+' '-' s)).rdropWhile (· = '=')

def unreserved : Text :=
  "ABCDEFGHIJKLMNOPQRSTUVWXYZabcdefghijklmnopqrstuvwxyz0123456789-._~".toList

/-- The values are those that `crypto.getRandomValues` has drawn. -/
def randomString {length : ℕ} (values : Vector Byte length) : Text :=
  values.toList.map fun v ↦ unreserved.getD (v.toNat % unreserved.length) 'A'

def redirectUri (origin : Text) : Text := origin ++ "/admin".toList

/-- `new TextEncoder().encode(s)` -/
def textEncode (s : Text) : Uint8Array := (Text.utf8 s).map (·.toBitVec)

/-- What the tab's `sessionStorage` holds while a login is under way. -/
structure Flight where
  verifier : Text
  state : Text
  deriving DecidableEq

structure Config where
  clientId : Text
  authorizationEndpoint : Text

/-- Where the browser is sent. -/
structure AuthorizationRequest where
  endpoint : Text
  clientId : Text
  redirectUri : Text
  responseType : Text
  scope : Text
  state : Text
  codeChallenge : Text
  codeChallengeMethod : Text
  deriving DecidableEq

def challenge (verifier : Text) : Option Text :=
  (sha256 (textEncode verifier)).toOption.bind base64url

/-- Whether `new URL` takes a text. Otherwise it throws. -/
class Urls where
  takes : Text → Bool

/-- The search parameters that the endpoint is given. -/
def authorizationRequest (cfg : Config) (origin : Text) (flight : Flight) (codeChallenge : Text) :
    AuthorizationRequest where
  endpoint := cfg.authorizationEndpoint
  clientId := cfg.clientId
  redirectUri := redirectUri origin
  responseType := "code".toList
  scope := "openid profile email".toList
  state := flight.state
  codeChallenge
  codeChallengeMethod := "S256".toList

/-- The flight is stored before the challenge is computed. -/
def beginLogin [Urls] (cfg : Config) (origin : Text) (verifierValues : Vector Byte 64)
    (stateValues : Vector Byte 32) : Flight × Option AuthorizationRequest :=
  let flight : Flight := ⟨randomString verifierValues, randomString stateValues⟩
  (flight, do
    let codeChallenge ← challenge flight.verifier
    if Urls.takes cfg.authorizationEndpoint then
      some (authorizationRequest cfg origin flight codeChallenge)
    else none)

theorem btoa_fromCharCode (l : Uint8Array) : btoa (fromCharCode l) = some (encode l) := by
  have hchar : ∀ b : Byte, (Char.ofNat b.toNat).toNat = b.toNat := by
    intro b
    have hlt := b.isLt
    rw [Char.toNat_ofNat, if_pos (Or.inl (by omega))]
  have hall : (fromCharCode l).all (·.toNat < 256) := by
    rw [fromCharCode, List.all_map, List.all_eq_true]
    intro b _
    simp only [Function.comp_apply, hchar, decide_eq_true_eq]
    exact b.isLt
  have hback : (fromCharCode l).map (fun c ↦ BitVec.ofNat 8 c.toNat) = l := by
    rw [fromCharCode, List.map_map]
    refine (List.map_congr_left fun b _ ↦ ?_).trans (List.map_id' l)
    rw [Function.comp_apply, hchar, BitVec.ofNat_toNat, BitVec.setWidth_eq]
  rw [btoa, if_pos hall, hback]

theorem replace_digits (l : Uint8Array) :
    replace '/' '_' (replace '+' '-' (digits "+/".toList l)) = digits "-_".toList l := by
  have hdigit : ∀ n < 64, (fun x ↦ if x = '/' then '_' else x)
      ((fun x ↦ if x = '+' then '-' else x) ((alphabet "+/".toList).getD n 'A')) =
        (alphabet "-_".toList).getD n 'A' := by decide +kernel
  rw [replace, replace, digits, digits, List.map_map, List.map_map]
  exact List.map_congr_left fun n hn ↦ hdigit n (sextets_lt l n hn)

/-- The replacements make the URL-safe form of what `btoa` gives. -/
theorem base64url_eq (l : Uint8Array) : base64url l = some (encodeUrl l) := by
  have hpad : replace '/' '_' (replace '+' '-' (padding l)) = padding l := by
    rw [padding, replace, replace, List.map_replicate, List.map_replicate]
    rfl
  have hnot : ∀ c ∈ encodeUrl l, ¬ (c = '=') := by
    have hdigit : ∀ n < 64, (alphabet "-_".toList).getD n 'A' ≠ '=' := by decide +kernel
    intro c hc
    obtain ⟨n, hn, rfl⟩ := List.mem_map.mp hc
    exact hdigit n (sextets_lt l n hn)
  have hsplit : replace '/' '_' (replace '+' '-' (encode l)) = encodeUrl l ++ padding l := by
    rw [encode, replace, replace, List.map_append, List.map_append]
    exact congrArg₂ (· ++ ·) (replace_digits l) hpad
  have hstrip : (encodeUrl l ++ padding l).rdropWhile (· = '=') = encodeUrl l := by
    rw [padding]
    generalize (3 - l.length % 3) % 3 = n
    induction n with
    | zero =>
      rw [List.replicate_zero, List.append_nil, List.rdropWhile_eq_self_iff]
      intro hne
      simpa only [decide_eq_true_eq] using hnot _ (List.getLast_mem hne)
    | succ n ih =>
      rw [List.replicate_succ', ← List.append_assoc,
        List.rdropWhile_concat_pos (fun x ↦ decide (x = '=')) _ '=' rfl, ih]
  rw [base64url, btoa_fromCharCode, Option.map_some, hsplit, hstrip]

theorem randomString_unreserved {n : ℕ} (values : Vector Byte n) :
    (randomString values).length = n ∧ ∀ c ∈ randomString values, c ∈ unreserved := by
  constructor
  · rw [randomString, List.length_map, Vector.length_toList]
  · intro c hc
    obtain ⟨v, -, rfl⟩ := List.mem_map.mp hc
    have hpos : 0 < unreserved.length := by decide +kernel
    have hlt := Nat.mod_lt v.toNat hpos
    rw [List.getD_eq_getElem _ _ hlt]
    exact List.getElem_mem hlt

theorem length_textEncode_le (s : Text) : (textEncode s).length ≤ 4 * s.length := by
  rw [textEncode, List.length_map, Text.utf8]
  induction s with
  | nil => exact Nat.le_refl 0
  | cons c s ih =>
    have hc := c.utf8Size_le_four
    rw [List.flatMap_cons, List.length_append, String.length_utf8EncodeChar, List.length_cons]
    omega

/-- The challenge is made of the digest of what the verifier is in bytes. -/
theorem challenge_eq (verifier : Text) (h : 4 * verifier.length < 2 ^ 31 - 8) :
    challenge verifier = some (encodeUrl (Sha256.digest (textEncode verifier))) := by
  have hle := length_textEncode_le verifier
  have hpad := Sha256.length_pad (textEncode verifier)
  obtain ⟨⟨w, H⟩, hrun, -, hH⟩ :=
    exists_blocks (p := Sha256.pad (textEncode verifier)) (by omega) (by omega)
  simp only at hH
  have hdigest : sha256 (textEncode verifier) = .ok (Sha256.digest (textEncode verifier)) := by
    rw [sha256, pad_eq (by omega), ok_bind, hrun, ok_bind]
    simp only
    rw [hH, output_words]
    rfl
  rw [challenge, hdigest]
  exact base64url_eq _

/-- The hash does not throw on a verifier that was drawn. -/
theorem beginLogin_eq [Urls] (cfg : Config) (origin : Text) (verifierValues : Vector Byte 64)
    (stateValues : Vector Byte 32) : beginLogin cfg origin verifierValues stateValues =
      (⟨randomString verifierValues, randomString stateValues⟩,
        if Urls.takes cfg.authorizationEndpoint then some (authorizationRequest cfg origin
          ⟨randomString verifierValues, randomString stateValues⟩
          (encodeUrl (Sha256.digest (textEncode (randomString verifierValues))))) else none) := by
  have hlength := (randomString_unreserved verifierValues).1
  rw [beginLogin, challenge_eq (randomString verifierValues) (by rw [hlength]; decide)]
  rfl

theorem length_digest (message : Uint8Array) : (Sha256.digest message).length = 32 := by
  simp [Sha256.digest, Sha256.Registers.words]

/-- Whatever is drawn, the browser goes to the issuer's endpoint, unless that is
no URL, with a challenge of 43 characters that stand in a URL as they are; read
back they are the SHA-256 digest of the verifier, which is one that RFC 7636 allows. -/
theorem beginLogin_request [Urls] (cfg : Config) (origin : Text) (verifierValues : Vector Byte 64)
    (stateValues : Vector Byte 32) : ∃ flight r,
    beginLogin cfg origin verifierValues stateValues =
        (flight, if Urls.takes cfg.authorizationEndpoint then some r else none) ∧
      (flight.verifier.length = 64 ∧ ∀ c ∈ flight.verifier, c ∈ unreserved) ∧
      (flight.state.length = 32 ∧ ∀ c ∈ flight.state, c ∈ unreserved) ∧
      r.endpoint = cfg.authorizationEndpoint ∧ r.state = flight.state ∧
      (r.codeChallenge.length = 43 ∧ ∀ c ∈ r.codeChallenge, c ∈ alphabet "-_".toList) ∧
      decodeUrl r.codeChallenge = Sha256.digest (textEncode flight.verifier) := by
  refine ⟨_, _, beginLogin_eq cfg origin verifierValues stateValues,
    randomString_unreserved verifierValues, randomString_unreserved stateValues, rfl, rfl,
    ⟨?_, fun c hc ↦ ?_⟩, decodeUrl_encodeUrl _⟩
  · exact (length_encodeUrl _).trans (by rw [length_digest])
  · obtain ⟨n, hn, rfl⟩ := List.mem_map.mp hc
    have hlt : n < (alphabet "-_".toList).length :=
      (sextets_lt _ n hn).trans_eq (by decide +kernel)
    rw [List.getD_eq_getElem _ _ hlt]
    exact List.getElem_mem hlt

end Postbud.Ui.Oidc
