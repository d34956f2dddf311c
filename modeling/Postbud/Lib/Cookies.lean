import Postbud.Lib.Text

namespace Postbud.Lib.Cookies

open Text

/-! Cookies as a browser keeps them. The octets of a header are written as the
characters that have them for codes. -/

def isBlank (c : Char) : Bool := c == ' ' || c == '\t'

structure Cookie where
  name : Text
  value : Text
  name_ne : name ≠ []
  name_free : ';' ∉ name ∧ '=' ∉ name
  value_free : ';' ∉ value
  name_trim : trimEnds isBlank name = name
  value_trim : trimEnds isBlank value = value

def Cookie.text (c : Cookie) : Text := c.name ++ '=' :: c.value

/-- The `Cookie` header. -/
def cookieString (cookies : List Cookie) : Text := "; ".toList.intercalate (cookies.map Cookie.text)

/-- Up to the first `=`, and behind it. -/
def nameValue (t : Text) : Text × Text :=
  (trimEnds isBlank (t.takeWhile (· ≠ '=')),
    trimEnds isBlank ((t.dropWhile (· ≠ '=')).drop 1))

/-- The attributes behind a value, and the `;` before each of them. -/
def attributes : Text → List (Text × Text)
  | [] => []
  | _ :: t => (t.splitOn ';').map nameValue

section NameValue

variable {t u : Text} {c d : Char}

theorem notMem_takeWhile_ne : c ∉ t.takeWhile (· ≠ c) := by
  intro h
  have hne := List.mem_takeWhile_imp h
  simp only [ne_eq, not_true_eq_false, decide_false, Bool.false_eq_true] at hne

theorem mem_of_mem_name (h : c ∈ (nameValue t).1) : c ∈ t :=
  (List.takeWhile_prefix _).subset (mem_of_mem_trimEnds h)

theorem mem_of_mem_value (h : c ∈ (nameValue t).2) : c ∈ t :=
  (List.dropWhile_suffix _).subset (List.mem_of_mem_drop (mem_of_mem_trimEnds h))

theorem notMem_name : '=' ∉ (nameValue t).1 := fun h ↦
  notMem_takeWhile_ne (mem_of_mem_trimEnds h)

theorem ne_of_notMem (h : c ∉ t) : ∀ d ∈ t, decide (d ≠ c) = true := fun _ hd ↦
  decide_eq_true fun he ↦ h (he ▸ hd)

/-- What stands in front of the first separator. -/
theorem takeWhile_ne_append (h : c ∉ t) : (t ++ c :: u).takeWhile (· ≠ c) = t := by
  rw [List.takeWhile_append_of_pos (ne_of_notMem h), List.takeWhile_cons_of_neg (by simp),
    List.append_nil]

theorem dropWhile_ne_append (h : c ∉ t) : (t ++ c :: u).dropWhile (· ≠ c) = c :: u := by
  rw [List.dropWhile_append_of_pos (ne_of_notMem h), List.dropWhile_cons_of_neg (by simp)]

theorem nameValue_append (h : '=' ∉ t) :
    nameValue (t ++ '=' :: u) = (trimEnds isBlank t, trimEnds isBlank u) := by
  rw [nameValue, takeWhile_ne_append h, dropWhile_ne_append h, List.drop_one, List.tail_cons]

end NameValue

/-- The cookie of a pair that names one. -/
def Cookie.ofPair (pair : Text) (hfree : ';' ∉ pair) (hname : (nameValue pair).1 ≠ []) : Cookie where
  name := (nameValue pair).1
  value := (nameValue pair).2
  name_ne := hname
  name_free := ⟨fun h ↦ hfree (mem_of_mem_name h), notMem_name⟩
  value_free := fun h ↦ hfree (mem_of_mem_value h)
  name_trim := trimEnds_trimEnds _ _
  value_trim := trimEnds_trimEnds _ _

/-- What a browser keeps of a `Set-Cookie` header: the cookie, whose value ends
at the first `;`, and its attributes. -/
def store (header : Text) : Option (Cookie × List (Text × Text)) :=
  let pair := header.takeWhile (· ≠ ';')
  if '=' ∉ pair then none
  else if h : (nameValue pair).1 = [] then none
  else some (.ofPair pair notMem_takeWhile_ne h, attributes (header.dropWhile (· ≠ ';')))

section Store

variable {name token rest : Text}

theorem takeWhile_token : (token ++ ';' :: rest).takeWhile (· ≠ ';') = token.takeWhile (· ≠ ';') := by
  rw [List.takeWhile_append]
  split_ifs with hall
  · have hwhole : token.takeWhile (· ≠ ';') = token :=
      (List.takeWhile_prefix _).eq_of_length hall
    rw [List.takeWhile_cons_of_neg (by simp), List.append_nil, hwhole]
  · rfl

/-- A value that is written behind its name as it is. -/
theorem store_append (hne : name ≠ []) (hsemicolon : ';' ∉ name) (hequals : '=' ∉ name)
    (htrim : trimEnds isBlank name = name) :
    ∃ cookie, store (name ++ '=' :: (token ++ ';' :: rest)) =
        some (cookie, attributes ((token ++ ';' :: rest).dropWhile (· ≠ ';'))) ∧
      cookie.name = name ∧ cookie.value = trimEnds isBlank (token.takeWhile (· ≠ ';')) := by
  have hpair : (name ++ '=' :: (token ++ ';' :: rest)).takeWhile (· ≠ ';') =
      name ++ '=' :: token.takeWhile (· ≠ ';') := by
    rw [List.takeWhile_append_of_pos (ne_of_notMem hsemicolon), List.takeWhile_cons_of_pos (by decide),
      takeWhile_token]
  have hrest : (name ++ '=' :: (token ++ ';' :: rest)).dropWhile (· ≠ ';') =
      (token ++ ';' :: rest).dropWhile (· ≠ ';') := by
    rw [List.dropWhile_append_of_pos (ne_of_notMem hsemicolon), List.dropWhile_cons_of_pos (by decide)]
  have hvalue : nameValue (name ++ '=' :: token.takeWhile (· ≠ ';')) =
      (name, trimEnds isBlank (token.takeWhile (· ≠ ';'))) := by
    rw [nameValue_append hequals, htrim]
  rw [← hpair] at hvalue
  have hname : (nameValue ((name ++ '=' :: (token ++ ';' :: rest)).takeWhile (· ≠ ';'))).1 ≠ [] := by
    rw [hvalue]
    exact hne
  have hequal : ¬ '=' ∉ (name ++ '=' :: (token ++ ';' :: rest)).takeWhile (· ≠ ';') := by
    rw [hpair, not_not]
    exact List.mem_append_right _ List.mem_cons_self
  refine ⟨.ofPair _ notMem_takeWhile_ne hname, ?_, congrArg Prod.fst hvalue,
    congrArg Prod.snd hvalue⟩
  rw [store, if_neg hequal, dif_neg hname, hrest]

end Store

section Header

variable {c : Cookie} {cookies : List Cookie}

theorem Cookie.notMem_text (c : Cookie) : ';' ∉ c.text := by
  rw [text, List.mem_append, List.mem_cons, not_or, not_or]
  exact ⟨c.name_free.1, by decide, c.value_free⟩

/-- A cookie's text neither starts nor ends with a blank. -/
theorem Cookie.ends_text (c : Cookie) : (∀ d ∈ c.text.head?, isBlank d = false) ∧
    ∀ d ∈ c.text.getLast?, isBlank d = false := by
  obtain ⟨hname, -⟩ := trimEnds_eq_self_iff.mp c.name_trim
  obtain ⟨-, hvalue⟩ := trimEnds_eq_self_iff.mp c.value_trim
  constructor
  · rw [text, List.head?_append_of_ne_nil _ c.name_ne]
    exact hname
  · rw [text, List.getLast?_append_of_ne_nil _ (List.cons_ne_nil _ _)]
    intro d hd
    cases hv : c.value with
    | nil =>
      rw [hv] at hd
      obtain rfl := Option.some.inj hd
      rfl
    | cons e v =>
      rw [hv, List.getLast?_cons_cons, ← hv] at hd
      exact hvalue d hd

theorem cookieString_singleton : cookieString [c] = c.text := List.intercalate_singleton

theorem cookieString_cons (c d : Cookie) (cookies : List Cookie) :
    cookieString (c :: d :: cookies) = c.text ++ ';' :: ' ' :: cookieString (d :: cookies) := by
  rw [cookieString, List.map_cons, List.map_cons, List.intercalate_cons_cons, List.append_assoc]
  rfl

/-- The header, taken apart at its semicolons. -/
theorem splitOn_cookieString : (cookieString (c :: cookies)).splitOn ';' =
    c.text :: cookies.map fun c ↦ ' ' :: c.text := by
  induction cookies generalizing c with
  | nil =>
    rw [cookieString_singleton]
    exact List.splitOn_eq_singleton c.notMem_text
  | cons d cookies ih =>
    rw [cookieString_cons, List.splitOn_append_cons_self_of_not_mem c.notMem_text,
      List.splitOn_cons_eq_if_modifyHead, if_neg (by decide), ih]
    rfl

theorem forall_mem_cookieString {p : Char → Prop} (hsep : p ';' ∧ p ' ') :
    (∀ d ∈ cookieString (c :: cookies), p d) ↔ ∀ c' ∈ c :: cookies, ∀ d ∈ c'.text, p d := by
  induction cookies generalizing c with
  | nil => simp only [cookieString_singleton, List.mem_singleton, forall_eq]
  | cons d cookies ih =>
    rw [cookieString_cons, List.forall_mem_append, List.forall_mem_cons, List.forall_mem_cons, ih]
    simp only [hsep, true_and, List.mem_cons, forall_eq_or_imp]

end Header

end Postbud.Lib.Cookies
