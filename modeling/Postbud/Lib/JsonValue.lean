import Postbud.Lib.Json

namespace Postbud.Lib.Json

open Text

/-- A document. A number is kept as it is written. -/
inductive Value
  | null
  | bool (b : Bool)
  | number (literal : Text)
  | string (t : Text)
  | array (items : List Value)
  | object (fields : List (Text × Value))

mutual

/-- The document without a space in it. -/
def Value.text : Value → Text
  | .null => "null".toList
  | .bool true => "true".toList
  | .bool false => "false".toList
  | .number literal => literal
  | .string t => quote t
  | .array items => '[' :: itemsText items
  | .object fields => '\x7b' :: fieldsText fields

def itemsText : List Value → Text
  | [] => [']']
  | [v] => v.text ++ [']']
  | v :: w :: items => v.text ++ ',' :: itemsText (w :: items)

def fieldsText : List (Text × Value) → Text
  | [] => ['\x7d']
  | [(key, v)] => quote key ++ ':' :: (v.text ++ ['\x7d'])
  | (key, v) :: f :: fields => quote key ++ ':' :: (v.text ++ ',' :: fieldsText (f :: fields))

end

/-- Texts, and arrays and objects of them, whose keys are in order. -/
inductive Value.OfTexts : Value → Prop
  | string (t : Text) : OfTexts (.string t)
  | array {items : List Value} (h : ∀ v ∈ items, OfTexts v) : OfTexts (.array items)
  | object {fields : List (Text × Value)} (keys : fields.Pairwise fun f g ↦ f.1 < g.1)
      (h : ∀ f ∈ fields, OfTexts f.2) : OfTexts (.object fields)

def readKey (t : Text) : Option (Text × Text) := do
  let (key, t) ← readString (← stripPrefix ['"'] t)
  some (key, ← stripPrefix [':'] t)

mutual

/-- A document of texts that is written without a space, and what follows it. -/
def readValue : ℕ → Text → Option (Value × Text)
  | 0, _ => none
  | _ + 1, '"' :: t => (readString t).map fun p ↦ (.string p.1, p.2)
  | _ + 1, '[' :: ']' :: t => some (.array [], t)
  | n + 1, '[' :: t => (readItems n t).map fun p ↦ (.array p.1, p.2)
  | _ + 1, '\x7b' :: '\x7d' :: t => some (.object [], t)
  | n + 1, '\x7b' :: t => (readFields n t).map fun p ↦ (.object p.1, p.2)
  | _ + 1, _ => none

def readItems : ℕ → Text → Option (List Value × Text)
  | 0, _ => none
  | n + 1, t => do
    let (v, t) ← readValue n t
    match t with
    | ']' :: t => some ([v], t)
    | ',' :: t => (readItems n t).map fun p ↦ (v :: p.1, p.2)
    | _ => none

def readFields : ℕ → Text → Option (List (Text × Value) × Text)
  | 0, _ => none
  | n + 1, t => do
    let (key, t) ← readKey t
    let (v, t) ← readValue n t
    match t with
    | '\x7d' :: t => some ([(key, v)], t)
    | ',' :: t => (readFields n t).map fun p ↦ ((key, v) :: p.1, p.2)
    | _ => none

end

section RoundTrip

variable {v : Value} {n : ℕ}

theorem readKey_quote (key rest : Text) : readKey (quote key ++ ':' :: rest) = some (key, rest) := by
  have hq : quote key ++ ':' :: rest = ['"'] ++ (key.flatMap escape ++ '"' :: ([':'] ++ rest)) := by
    simp [quote]
  rw [hq, readKey, stripPrefix_append]
  simp only [Option.bind_eq_bind, Option.bind_some, readString_flatMap, stripPrefix_append]

/-- What is asked of the reader for one document. -/
def Reads (v : Value) : Prop :=
  ∀ n rest, v.text.length < n → readValue n (v.text ++ rest) = some (v, rest)

theorem itemsText_ne {items : List Value} (h : v.OfTexts) (rest more : Text) :
    itemsText (v :: items) ++ rest ≠ ']' :: more := by
  have hhead : v.text.head? ≠ some ']' ∧ v.text ≠ [] := by
    cases h <;> simp [Value.text, quote]
  obtain ⟨c, t, ht⟩ := List.exists_cons_of_ne_nil hhead.2
  rw [ht] at hhead
  intro he
  have hc : c = ']' := by
    cases items <;> rw [itemsText, ht] at he <;> exact (List.cons.inj he).1
  exact hhead.1 (congrArg some hc)

theorem fieldsText_ne {f : Text × Value} {fields : List (Text × Value)} (rest more : Text) :
    fieldsText (f :: fields) ++ rest ≠ '\x7d' :: more := by
  intro he
  cases fields <;> rw [fieldsText] at he <;> exact absurd (List.cons.inj he).1 (by decide)

theorem readItems_itemsText {items : List Value} (hne : items ≠ []) (hreads : ∀ v ∈ items, Reads v)
    (hn : (itemsText items).length < n) (rest : Text) :
    readItems n (itemsText items ++ rest) = some (items, rest) := by
  induction items generalizing n with
  | nil => exact absurd rfl hne
  | cons v items ih =>
    obtain ⟨n, rfl⟩ : ∃ k, n = k + 1 := Nat.exists_eq_succ_of_ne_zero (by omega)
    have hv := hreads v List.mem_cons_self
    cases items with
    | nil =>
      rw [itemsText, List.length_append, List.length_singleton] at hn
      rw [itemsText, readItems, List.append_assoc, hv _ _ (by omega)]
      rfl
    | cons w items =>
      rw [itemsText, List.length_append, List.length_cons] at hn
      have hrest := ih (List.cons_ne_nil w items) (fun x hx ↦ hreads x (List.mem_cons_of_mem _ hx))
        (n := n) (by omega)
      rw [itemsText, readItems, List.append_assoc, hv _ _ (by omega)]
      change (readItems n (itemsText (w :: items) ++ rest)).map _ = _
      rw [hrest]
      rfl

theorem readFields_fieldsText {fields : List (Text × Value)} (hne : fields ≠ [])
    (hreads : ∀ f ∈ fields, Reads f.2) (hn : (fieldsText fields).length < n) (rest : Text) :
    readFields n (fieldsText fields ++ rest) = some (fields, rest) := by
  induction fields generalizing n with
  | nil => exact absurd rfl hne
  | cons f fields ih =>
    obtain ⟨key, v⟩ := f
    obtain ⟨n, rfl⟩ : ∃ k, n = k + 1 := Nat.exists_eq_succ_of_ne_zero (by omega)
    have hv : Reads v := hreads _ List.mem_cons_self
    cases fields with
    | nil =>
      simp only [fieldsText, List.length_append, List.length_cons] at hn
      rw [fieldsText, readFields, List.append_assoc, List.cons_append, List.append_assoc,
        readKey_quote, Option.bind_eq_bind, Option.bind_some]
      dsimp only
      rw [hv _ _ (by omega)]
      rfl
    | cons g fields =>
      simp only [fieldsText, List.length_append, List.length_cons] at hn
      have hrest := ih (List.cons_ne_nil g fields) (fun x hx ↦ hreads x (List.mem_cons_of_mem _ hx))
        (n := n) (by omega)
      rw [fieldsText, readFields, List.append_assoc, List.cons_append, List.append_assoc,
        readKey_quote, Option.bind_eq_bind, Option.bind_some]
      dsimp only
      rw [hv _ _ (by omega)]
      change (readFields n (fieldsText (g :: fields) ++ rest)).map _ = _
      rw [hrest]
      rfl

/-- A document of texts is read back, whatever follows it. -/
theorem reads_of_ofTexts (h : v.OfTexts) : Reads v := by
  induction h with
  | string t =>
    intro n rest hn
    obtain ⟨n, rfl⟩ : ∃ k, n = k + 1 := Nat.exists_eq_succ_of_ne_zero (by omega)
    have hq : quote t ++ rest = '"' :: (t.flatMap escape ++ '"' :: rest) := by simp [quote]
    rw [Value.text, hq, readValue, readString_flatMap]
    rfl
  | @array items h ih =>
    intro n rest hn
    rw [Value.text, List.length_cons] at hn
    obtain ⟨n, rfl⟩ : ∃ k, n = k + 1 := Nat.exists_eq_succ_of_ne_zero (by omega)
    cases items with
    | nil => rfl
    | cons v items =>
      have hread := readItems_itemsText (List.cons_ne_nil v items) ih (n := n) (by omega) rest
      rw [Value.text, List.cons_append, readValue, hread]
      · rfl
      · exact fun t ht ↦ itemsText_ne (h v List.mem_cons_self) rest t ht
  | @object fields keys h ih =>
    intro n rest hn
    rw [Value.text, List.length_cons] at hn
    obtain ⟨n, rfl⟩ : ∃ k, n = k + 1 := Nat.exists_eq_succ_of_ne_zero (by omega)
    cases fields with
    | nil => rfl
    | cons f fields =>
      have hread := readFields_fieldsText (List.cons_ne_nil f fields) ih (n := n) (by omega) rest
      rw [Value.text, List.cons_append, readValue, hread]
      · rfl
      · exact fun t ht ↦ fieldsText_ne rest t ht

/-- The document that a text is, as a whole. -/
def readDocument (t : Text) : Option Value :=
  match readValue (t.length + 1) t with
  | some (v, []) => some v
  | _ => none

theorem readDocument_text (h : v.OfTexts) : readDocument v.text = some v := by
  have hread := reads_of_ofTexts h (v.text.length + 1) [] (Nat.lt_succ_self _)
  rw [List.append_nil] at hread
  rw [readDocument, hread]

theorem newline_not_mem_itemsText {items : List Value} (h : ∀ v ∈ items, '\n' ∉ v.text) :
    '\n' ∉ itemsText items := by
  induction items with
  | nil => decide
  | cons v items ih =>
    obtain ⟨hv, hitems⟩ := List.forall_mem_cons.mp h
    cases items with
    | nil => simp [itemsText, hv]
    | cons w items => simp [itemsText, hv, ih hitems]

theorem newline_not_mem_fieldsText {fields : List (Text × Value)}
    (h : ∀ f ∈ fields, '\n' ∉ f.2.text) : '\n' ∉ fieldsText fields := by
  induction fields with
  | nil => decide
  | cons f fields ih =>
    obtain ⟨hv, hfields⟩ := List.forall_mem_cons.mp h
    cases fields with
    | nil => simp [fieldsText, hv, newline_not_mem_quote]
    | cons g fields => simp [fieldsText, hv, newline_not_mem_quote, ih hfields]

theorem newline_not_mem_text (h : v.OfTexts) : '\n' ∉ v.text := by
  induction h with
  | string t => exact newline_not_mem_quote t
  | array h ih => simp [Value.text, newline_not_mem_itemsText ih]
  | object keys h ih => simp [Value.text, newline_not_mem_fieldsText ih]

theorem fieldsText_ends (fields : List (Text × Value)) : ∃ t, fieldsText fields = t ++ ['\x7d'] := by
  induction fields with
  | nil => exact ⟨[], rfl⟩
  | cons f fields ih =>
    obtain ⟨t, ht⟩ := ih
    cases fields with
    | nil => exact ⟨quote f.1 ++ ':' :: f.2.text, by simp [fieldsText]⟩
    | cons g fields => exact ⟨quote f.1 ++ ':' :: (f.2.text ++ ',' :: t), by simp [fieldsText, ht]⟩

end RoundTrip

end Postbud.Lib.Json
