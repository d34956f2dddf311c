import Postbud.Api.Auth
import Postbud.Lib.Cookies
import Postbud.Lib.JsonValue
import Postbud.Lib.Utf8

namespace Postbud.Api.Oidc

open Lib Lib.Text Lib.Json Lib.Cookies Lib.Utf8

/-- Headers under their names in lower case. A value is its octets, written as
the characters that have them for codes. -/
abbrev Headers := List (Text × Text)

/-- `serde_json`, which reads a document and writes it. -/
class SerdeValue where
  fromStr : Text → Option Value
  print : Value → Text

def visibleAscii (c : Char) : Bool := (32 ≤ c.toNat && c.toNat < 127) || c == '\t'

/-- `HeaderValue` of the crate `http`: its `to_str`, and `parse`. -/
class HeaderValues where
  toStr : Text → Option Text
  parse : Text → Option Text

/-- A value is a text just if it is visible ASCII, and visible ASCII is a value. -/
class LawfulHeaderValues [HeaderValues] : Prop where
  toStr_eq (value : Text) :
    HeaderValues.toStr value = if value.all visibleAscii then some value else none
  parse_ascii {t : Text} (h : ∀ c ∈ t, 32 ≤ c.toNat ∧ c.toNat < 127) : HeaderValues.parse t = some t

def REFRESH_COOKIE : Text := "postbud_admin_refresh".toList

def REFRESH_COOKIE_MAX_AGE : ℤ := 12 * 3600

section Headers

variable [HeaderValues]

def arrivedOverTls (headers : Headers) : Bool :=
  ((headers.lookup "x-forwarded-proto".toList).bind HeaderValues.toStr).any fun proto ↦
    (proto.splitOn ',').head?.any fun first ↦ toAsciiLowercase (trim first) = "https".toList

def PATH : Text := "; Path=/admin/api/oidc; Max-Age=".toList

def HTTP_ONLY : Text := "; HttpOnly;".toList

def SECURE : Text := " Secure;".toList

def SAME_SITE : Text := " SameSite=Strict".toList

def refreshCookie (headers : Headers) (value : Text) (maxAge : ℤ) : Text :=
  let secure := if arrivedOverTls headers then SECURE else []
  REFRESH_COOKIE ++ '=' :: (value ++ PATH ++ (toString maxAge).toList ++ HTTP_ONLY ++ secure ++
    SAME_SITE)

def cookieValue (headers : Headers) (name : Text) : Option Text := do
  let header ← headers.lookup "cookie".toList
  let text ← HeaderValues.toStr header
  (text.splitOn ';').findSome? fun c ↦ (stripPrefix name (trim c)).bind (stripPrefix ['='])

end Headers

/-- `as_object_mut` and `remove` -/
def remove (key : Text) : Value → Option Value × Value
  | .object fields => (fields.lookup key, .object (fields.filter (·.1 ≠ key)))
  | v => (none, v)

def asStr : Value → Option Text
  | .string t => some t
  | _ => none

section Proxy

variable [SerdeValue] [HeaderValues]

def splitRefreshToken (headers : Headers) (body : Text) : Except ApiError (Text × Option Text) :=
  match SerdeValue.fromStr body with
  | none => .error .internal
  | some parsed =>
    let (refresh, parsed) := remove "refresh_token".toList parsed
    .ok (SerdeValue.print parsed,
      (refresh.bind asStr).map fun r ↦ refreshCookie headers r REFRESH_COOKIE_MAX_AGE)

/-- What the proxy makes of the issuer's answer: the body for the page, and the
`Set-Cookie` header. -/
def tokenAnswer (headers : Headers) (body : Text) : Except ApiError (Text × Option Text) := do
  let (body, cookie) ← splitRefreshToken headers body
  match cookie with
  | none => return (body, none)
  | some cookie =>
    match HeaderValues.parse cookie with
    | none => throw .internal
    | some value => return (body, some value)

/-- A token as an issuer may choose it. -/
def Allowed (token : Text) : Prop := token ≠ [] ∧ ∀ c ∈ token, 32 ≤ c.toNat ∧ c.toNat < 127

instance (token : Text) : Decidable (Allowed token) := by
  unfold Allowed
  infer_instance

/-- A successful token response with a refresh token. -/
def Carries (body token : Text) : Prop :=
  ∃ fields, SerdeValue.fromStr body = some (.object fields) ∧
    fields.lookup "refresh_token".toList = some (.string token)

omit [SerdeValue] in
/-- The attributes that the proxy gives its cookie. -/
def ownAttributes (headers : Headers) : List (Text × Text) :=
  [("Path".toList, "/admin/api/oidc".toList), ("Max-Age".toList, "43200".toList),
    ("HttpOnly".toList, [])] ++
  (if arrivedOverTls headers then [("Secure".toList, [])] else []) ++
  [("SameSite".toList, "Strict".toList)]

/-- The cookie of a token is stored with these attributes and no others, and
sent back among other cookies it is read as that token; or there is an error. -/
def RoundTrips (headers : Headers) (body token : Text) (before after : List Cookie) : Prop :=
  (∃ err, tokenAnswer headers body = .error err) ∨
    ∃ page header cookie, tokenAnswer headers body = .ok (page, some header) ∧
      store header = some (cookie, ownAttributes headers) ∧
        cookieValue [("cookie".toList, cookieString (before ++ cookie :: after))]
          REFRESH_COOKIE = some token

end Proxy

section Read

variable {c : Cookie}

/-- What one part of the header is read as. -/
def readPart (name part : Text) : Option Text :=
  (stripPrefix name (trim part)).bind (stripPrefix ['='])

theorem isWhitespace_of_visible {d : Char} (h : visibleAscii d) : isWhitespace d = isBlank d := by
  simp only [visibleAscii, Bool.or_eq_true, Bool.and_eq_true, decide_eq_true_eq, beq_iff_eq] at h
  rcases h with ⟨hlow, hhigh⟩ | rfl
  · by_cases hspace : d = ' '
    · rw [hspace]
      rfl
    · have hcode : d.toNat ≠ 32 := fun he ↦ hspace (Char.toNat_inj.mp he)
      have htab : d ≠ '\t' := by
        rintro rfl
        exact absurd hlow (by decide)
      have hno : isWhitespace d = false := by
        simp only [isWhitespace, Bool.or_eq_false_iff, Bool.and_eq_false_iff, beq_eq_false_iff_ne,
          decide_eq_false_iff_not]
        omega
      rw [hno, isBlank, beq_eq_false_iff_ne.mpr hspace, beq_eq_false_iff_ne.mpr htab, Bool.or_self]
  · rfl

theorem trim_text (h : ∀ d ∈ c.text, visibleAscii d) : trim c.text = c.text := by
  obtain ⟨hstart, hend⟩ := c.ends_text
  refine trimEnds_eq_self_iff.mpr ⟨fun d hd ↦ ?_, fun d hd ↦ ?_⟩
  · rw [isWhitespace_of_visible (h d (List.mem_of_mem_head? hd)), hstart d hd]
  · rw [isWhitespace_of_visible (h d (List.mem_of_mem_getLast? hd)), hend d hd]

theorem readPart_text {name : Text} (hname : '=' ∉ name) (h : ∀ d ∈ c.text, visibleAscii d) :
    readPart name c.text = if c.name = name then some c.value else none := by
  rw [readPart, trim_text h, Cookie.text]
  split_ifs with he
  · rw [he, stripPrefix_append]
    exact stripPrefix_append ['='] c.value
  · refine Option.eq_none_iff_forall_not_mem.mpr fun v hv ↦ he ?_
    obtain ⟨rest, hrest, hv⟩ := Option.bind_eq_some_iff.mp hv
    rw [← takeWhile_ne_append c.name_free.2 (u := c.value), ← eq_append_of_stripPrefix hrest,
      ← eq_append_of_stripPrefix hv]
    exact takeWhile_ne_append hname

theorem readPart_blank (name part : Text) : readPart name (' ' :: part) = readPart name part := by
  have htrim : trim (' ' :: part) = trim part := by
    rw [trim, List.dropWhile_cons_of_pos rfl]
    rfl
  rw [readPart, htrim, readPart]

theorem findSome?_blank {name : Text} {cookies : List Cookie} (hname : '=' ∉ name)
    (h : ∀ c ∈ cookies, ∀ d ∈ c.text, visibleAscii d) :
    (cookies.map fun c ↦ ' ' :: c.text).findSome? (readPart name) =
      cookies.findSome? fun c ↦ if c.name = name then some c.value else none := by
  induction cookies with
  | nil => rfl
  | cons c cookies ih =>
    obtain ⟨hc, hcookies⟩ := List.forall_mem_cons.mp h
    rw [List.map_cons, List.findSome?_cons, List.findSome?_cons, readPart_blank,
      readPart_text hname hc, ih hcookies]

variable [HeaderValues] [LawfulHeaderValues]

/-- A header whose cookies can all be read is read cookie by cookie. -/
theorem cookieValue_cookieString {name : Text} {cookies : List Cookie} (hname : '=' ∉ name)
    (h : ∀ c' ∈ c :: cookies, ∀ d ∈ c'.text, visibleAscii d) :
    cookieValue [("cookie".toList, cookieString (c :: cookies))] name =
      (c :: cookies).findSome? fun c ↦ if c.name = name then some c.value else none := by
  have hchars : ∀ d ∈ cookieString (c :: cookies), visibleAscii d :=
    (forall_mem_cookieString (by decide)).mpr h
  have hvisible : (cookieString (c :: cookies)).all visibleAscii := List.all_eq_true.mpr hchars
  have hread : cookieValue [("cookie".toList, cookieString (c :: cookies))] name =
      ((cookieString (c :: cookies)).splitOn ';').findSome? (readPart name) := by
    rw [cookieValue, List.lookup_cons_self, Option.bind_eq_bind, Option.bind_some,
      LawfulHeaderValues.toStr_eq, if_pos hvisible]
    rfl
  obtain ⟨hc, hcookies⟩ := List.forall_mem_cons.mp h
  rw [hread, splitOn_cookieString, List.findSome?_cons, List.findSome?_cons, readPart_text hname hc,
    findSome?_blank hname hcookies]

/-- Among others, a cookie is found under its name if the whole header can be read. -/
theorem cookieValue_among {before after : List Cookie} (hname : '=' ∉ c.name)
    (hbefore : ∀ d ∈ before, d.name ≠ c.name) :
    cookieValue [("cookie".toList, cookieString (before ++ c :: after))] c.name =
      if ∀ c' ∈ before ++ c :: after, ∀ d ∈ c'.text, visibleAscii d then some c.value
      else none := by
  obtain ⟨first, rest, hall⟩ := List.exists_cons_of_ne_nil
    (List.append_ne_nil_of_right_ne_nil before (List.cons_ne_nil c after))
  split_ifs with hvisible
  · rw [hall] at hvisible
    have hnone : before.findSome? (fun d ↦ if d.name = c.name then some d.value else none) = none :=
      List.findSome?_eq_none_iff.mpr fun d hd ↦ if_neg (hbefore d hd)
    rw [hall, cookieValue_cookieString hname hvisible, ← hall, List.findSome?_append, hnone,
      Option.none_or, List.findSome?_cons, if_pos rfl]
  · have hstr : HeaderValues.toStr (cookieString (before ++ c :: after)) = none := by
      rw [LawfulHeaderValues.toStr_eq]
      refine if_neg fun hchars ↦ hvisible ?_
      rw [hall] at hchars ⊢
      exact (forall_mem_cookieString (by decide)).mp (List.all_eq_true.mp hchars)
    rw [cookieValue, List.lookup_cons_self, Option.bind_eq_bind, Option.bind_some, hstr]
    rfl

end Read

section Token

variable [HeaderValues] {headers : Headers} {token : Text}

/-- What the proxy writes behind the first semicolon of its own. -/
def trailer (headers : Headers) : Text :=
  PATH.tail ++ (toString REFRESH_COOKIE_MAX_AGE).toList ++ HTTP_ONLY ++
    (if arrivedOverTls headers then SECURE else []) ++ SAME_SITE

theorem refreshCookie_eq : refreshCookie headers token REFRESH_COOKIE_MAX_AGE =
    REFRESH_COOKIE ++ '=' :: (token ++ ';' :: trailer headers) := by
  have hpath : PATH = ';' :: PATH.tail := rfl
  rw [refreshCookie, trailer]
  conv_lhs => rw [hpath]
  simp only [List.append_assoc, List.cons_append]

theorem attributes_trailer : attributes (';' :: trailer headers) = ownAttributes headers := by
  rw [trailer, ownAttributes]
  cases arrivedOverTls headers
  · decide +kernel
  · decide +kernel

theorem ascii_trailer : ∀ c ∈ trailer headers, 32 ≤ c.toNat ∧ c.toNat < 127 := by
  rw [trailer]
  cases arrivedOverTls headers
  · decide +kernel
  · decide +kernel

theorem ascii_refreshCookie (h : Allowed token) :
    ∀ c ∈ refreshCookie headers token REFRESH_COOKIE_MAX_AGE, 32 ≤ c.toNat ∧ c.toNat < 127 := by
  have hname : ∀ c ∈ REFRESH_COOKIE, 32 ≤ c.toNat ∧ c.toNat < 127 := by decide
  rw [refreshCookie_eq]
  refine List.forall_mem_append.mpr ⟨hname, List.forall_mem_cons.mpr ⟨by decide, ?_⟩⟩
  exact List.forall_mem_append.mpr ⟨h.2, List.forall_mem_cons.mpr ⟨by decide, ascii_trailer⟩⟩

/-- What the browser sends back is the token up to its first semicolon, without
the blanks around that. -/
theorem exists_store (headers : Headers) (token : Text) : ∃ cookie,
    store (refreshCookie headers token REFRESH_COOKIE_MAX_AGE) =
        some (cookie, attributes ((token ++ ';' :: trailer headers).dropWhile (· ≠ ';'))) ∧
      cookie.name = REFRESH_COOKIE ∧
        cookie.value = trimEnds isBlank (token.takeWhile (· ≠ ';')) := by
  rw [refreshCookie_eq]
  exact store_append (by decide) (by decide) (by decide) (by decide)

omit [HeaderValues] in
/-- A token that comes back is one that the browser did not cut. -/
theorem uncut_iff (h : Allowed token) : trimEnds isBlank (token.takeWhile (· ≠ ';')) = token ↔
    ';' ∉ token ∧ token.head? ≠ some ' ' ∧ token.getLast? ≠ some ' ' := by
  constructor
  · intro htoken
    have hprefix : token.takeWhile (· ≠ ';') <+: token := List.takeWhile_prefix _
    have hlength : token.length ≤ (token.takeWhile (· ≠ ';')).length := by
      conv_lhs => rw [← htoken]
      exact ((List.rdropWhile_prefix isBlank _).length_le).trans
        (List.dropWhile_suffix isBlank).length_le
    have hwhole : token.takeWhile (· ≠ ';') = token := hprefix.eq_of_length_le hlength
    rw [hwhole] at htoken
    obtain ⟨hstart, hend⟩ := trimEnds_eq_self_iff.mp htoken
    refine ⟨fun hmem ↦ ?_, fun hspace ↦ ?_, fun hspace ↦ ?_⟩
    · exact notMem_takeWhile_ne (hwhole.symm ▸ hmem)
    · exact absurd (hstart ' ' hspace) (by decide)
    · exact absurd (hend ' ' hspace) (by decide)
  · rintro ⟨hsemicolon, hstart, hend⟩
    have hblank : ∀ c ∈ token, c ≠ ' ' → isBlank c = false := by
      intro c hc hspace
      have htab : c ≠ '\t' := by
        rintro rfl
        exact absurd (h.2 _ hc).1 (by decide)
      rw [isBlank, beq_eq_false_iff_ne.mpr hspace, beq_eq_false_iff_ne.mpr htab, Bool.or_self]
    rw [List.takeWhile_eq_self_iff.mpr (ne_of_notMem hsemicolon)]
    refine trimEnds_eq_self_iff.mpr ⟨fun c hc ↦ ?_, fun c hc ↦ ?_⟩
    · exact hblank c (List.mem_of_mem_head? hc) fun he ↦ hstart (he ▸ hc)
    · exact hblank c (List.mem_of_mem_getLast? hc) fun he ↦ hend (he ▸ hc)

omit [HeaderValues] in
theorem visible_text {cookie : Cookie} (h : Allowed token) (hname : cookie.name = REFRESH_COOKIE)
    (hvalue : cookie.value = trimEnds isBlank (token.takeWhile (· ≠ ';'))) :
    ∀ d ∈ cookie.text, visibleAscii d := by
  have hown : ∀ d ∈ REFRESH_COOKIE, visibleAscii d := by decide
  rw [Cookie.text, hname, hvalue]
  refine List.forall_mem_append.mpr ⟨hown, List.forall_mem_cons.mpr ⟨by decide, fun d hd ↦ ?_⟩⟩
  have hd : d ∈ token := (List.takeWhile_prefix _).subset (mem_of_mem_trimEnds hd)
  obtain ⟨hlow, hhigh⟩ := h.2 d hd
  simp only [visibleAscii, hlow, hhigh, decide_true, Bool.and_self, Bool.true_or]

variable [LawfulHeaderValues] [SerdeValue]

theorem tokenAnswer_of_carries {body : Text} (hbody : Carries body token) (h : Allowed token) :
    ∃ page, tokenAnswer headers body =
      .ok (page, some (refreshCookie headers token REFRESH_COOKIE_MAX_AGE)) := by
  obtain ⟨fields, hparsed, htoken⟩ := hbody
  have hsplit : splitRefreshToken headers body =
      .ok (SerdeValue.print (.object (fields.filter (·.1 ≠ "refresh_token".toList))),
        some (refreshCookie headers token REFRESH_COOKIE_MAX_AGE)) := by
    rw [splitRefreshToken, hparsed]
    dsimp only [remove]
    rw [htoken]
    rfl
  refine ⟨SerdeValue.print (.object (fields.filter (·.1 ≠ "refresh_token".toList))), ?_⟩
  unfold tokenAnswer
  rw [hsplit]
  dsimp only [bind, Except.bind]
  rw [LawfulHeaderValues.parse_ascii (ascii_refreshCookie h)]
  rfl

theorem roundTrips_iff_read {body : Text} {before after : List Cookie} {cookie : Cookie}
    {attrs : List (Text × Text)} (hbody : Carries body token) (h : Allowed token)
    (hstore : store (refreshCookie headers token REFRESH_COOKIE_MAX_AGE) = some (cookie, attrs)) :
    RoundTrips headers body token before after ↔ attrs = ownAttributes headers ∧
      cookieValue [("cookie".toList, cookieString (before ++ cookie :: after))]
        REFRESH_COOKIE = some token := by
  obtain ⟨page, hanswer⟩ : ∃ page, tokenAnswer headers body = .ok (page, some
    (refreshCookie headers token REFRESH_COOKIE_MAX_AGE)) := tokenAnswer_of_carries hbody h
  constructor
  · rintro (⟨err, herr⟩ | ⟨page', header, cookie', hok, hkept, hback⟩)
    · rw [hanswer] at herr
      cases herr
    · obtain ⟨-, hheader⟩ := Prod.mk.inj (Except.ok.inj (hanswer.symm.trans hok))
      rw [← Option.some.inj hheader] at hkept
      obtain ⟨rfl, rfl⟩ := Prod.mk.inj (Option.some.inj (hstore.symm.trans hkept))
      exact ⟨rfl, hback⟩
  · rintro ⟨rfl, hback⟩
    exact .inr ⟨page, _, cookie, hanswer, hstore, hback⟩

/-- The cookie of a token comes back as that token, with the attributes of the
proxy and no others, just when neither the token is cut by the browser nor the
header made unreadable by another cookie. -/
theorem roundTrips_iff (headers : Headers) (body token : Text) (before after : List Cookie)
    (hbody : Carries body token) (htoken : Allowed token)
    (hothers : ∀ c ∈ before ++ after, c.name ≠ REFRESH_COOKIE) :
    RoundTrips headers body token before after ↔
      (';' ∉ token ∧ token.head? ≠ some ' ' ∧ token.getLast? ≠ some ' ') ∧
        ∀ c ∈ before ++ after, ∀ d ∈ c.text, visibleAscii d := by
  obtain ⟨cookie, hstore, hname, hvalue⟩ := exists_store headers token
  have hread : cookieValue [("cookie".toList, cookieString (before ++ cookie :: after))]
      REFRESH_COOKIE = if ∀ c ∈ before ++ cookie :: after, ∀ d ∈ c.text, visibleAscii d then
        some cookie.value else none := by
    rw [← hname] at hothers ⊢
    exact cookieValue_among cookie.name_free.2 fun d hd ↦ hothers d (List.mem_append_left _ hd)
  rw [roundTrips_iff_read hbody htoken hstore, hread, ← uncut_iff htoken, ← hvalue]
  have hown : ∀ d ∈ cookie.text, visibleAscii d := visible_text htoken hname hvalue
  have hall : (∀ c ∈ before ++ cookie :: after, ∀ d ∈ c.text, visibleAscii d) ↔
      ∀ c ∈ before ++ after, ∀ d ∈ c.text, visibleAscii d := by
    simp only [List.forall_mem_append, List.forall_mem_cons]
    exact and_congr_right fun _ ↦ and_iff_right hown
  simp only [hall]
  constructor
  · rintro ⟨-, hback⟩
    obtain ⟨hvisible, hsome⟩ := Option.ite_none_right_eq_some.mp hback
    exact ⟨Option.some.inj hsome, hvisible⟩
  · rintro ⟨htoken', hvisible⟩
    refine ⟨?_, by rw [if_pos hvisible, htoken']⟩
    have hsemicolon : ';' ∉ token := ((uncut_iff htoken).mp (hvalue ▸ htoken')).1
    rw [dropWhile_ne_append hsemicolon, attributes_trailer]

end Token

section Examples

/-- Documents that are written without a space. -/
@[reducible] def SerdeValue.compact : SerdeValue := ⟨readDocument, Value.text⟩

/-- The octets of a text. -/
def octets (t : Text) : Text := (utf8 t).map fun b ↦ Char.ofNat b.toNat

theorem octets_of_ascii {t : Text} (h : ∀ d ∈ t, d.toNat < 128) : octets t = t := by
  induction t with
  | nil => rfl
  | cons d t ih =>
    obtain ⟨hd, ht⟩ := List.forall_mem_cons.mp h
    have hvalid : d.toNat.isValidChar := d.valid
    have hone : String.utf8EncodeChar d = [UInt8.ofNat d.toNat] := by
      have hencoded := utf8EncodeChar_ofNat hvalid
      rwa [Char.ofNat_toNat, if_pos (by omega)] at hencoded
    have hback : (UInt8.ofNat d.toNat).toNat = d.toNat :=
      UInt8.toNat_ofNat_of_lt' (show _ < 256 by omega)
    have hcons : octets (d :: t) = d :: octets t := by
      rw [octets, utf8, List.flatMap_cons, hone, List.map_append, List.map_singleton, hback,
        Char.ofNat_toNat]
      rfl
    rw [hcons, ih ht]

@[reducible] def HeaderValues.http : HeaderValues where
  toStr value := if value.all visibleAscii then some value else none
  parse t :=
    if (octets t).all fun c ↦ (32 ≤ c.toNat && c.toNat ≠ 127) || c == '\t' then some (octets t)
    else none

attribute [local instance] SerdeValue.compact HeaderValues.http

instance : LawfulHeaderValues where
  toStr_eq _ := rfl
  parse_ascii {t} h := by
    change (if _ then some (octets t) else none) = _
    rw [octets_of_ascii fun c hc ↦ (h c hc).2.trans (by decide)]
    refine if_pos (List.all_eq_true.mpr fun c hc ↦ ?_)
    obtain ⟨hlow, hhigh⟩ := h c hc
    simp only [decide_eq_true hlow, decide_eq_true (ne_of_lt hhigh), Bool.and_self, Bool.true_or]

def tokenBody (token : Text) : Text :=
  (Value.object [("refresh_token".toList, .string token)]).text

theorem carries_tokenBody (token : Text) : Carries (tokenBody token) token := by
  have htexts : (Value.object [("refresh_token".toList, .string token)]).OfTexts := by
    refine .object (List.pairwise_singleton _ _) fun f hf ↦ ?_
    rw [List.mem_singleton.mp hf]
    exact .string token
  exact ⟨_, readDocument_text htexts, rfl⟩

def theme : Cookie where
  name := "theme".toList
  value := "dark mode".toList
  name_ne := by decide
  name_free := by decide
  value_free := by decide
  name_trim := by decide
  value_trim := by decide

theorem roundTrips_among : RoundTrips [] (tokenBody "1//0g x".toList) "1//0g x".toList
    [theme] [theme] :=
  (roundTrips_iff [] _ _ [theme] [theme] (carries_tokenBody _) (by decide) (by decide)).mpr
    ⟨by decide, by decide⟩

/-- The browser keeps `1//0g`, and takes the rest for an attribute. -/
theorem semicolon_not_roundTrips :
    ¬ RoundTrips [] (tokenBody "1//0g; Domain=x".toList) "1//0g; Domain=x".toList [] [] := by
  have hallowed : Allowed "1//0g; Domain=x".toList := by decide
  intro h
  obtain ⟨cookie, hstore, hname, hvalue⟩ := exists_store [] "1//0g; Domain=x".toList
  obtain ⟨-, hback⟩ := (roundTrips_iff_read (carries_tokenBody _) hallowed hstore).mp h
  rw [← hname, cookieValue_among cookie.name_free.2 fun d hd ↦ absurd hd List.not_mem_nil] at hback
  obtain ⟨-, hsome⟩ := Option.ite_none_right_eq_some.mp hback
  have hcut := (uncut_iff hallowed).mp (hvalue ▸ Option.some.inj hsome)
  exact absurd hcut.1 (by decide)

end Examples

end Postbud.Api.Oidc
