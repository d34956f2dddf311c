import Postbud.Lib.Text

namespace Postbud.Lib.Json

open Text

def escape (c : Char) : Text :=
  if c = '"' then ['\\', '"']
  else if c = '\\' then ['\\', '\\']
  else if c = '\x08' then ['\\', 'b']
  else if c = '\t' then ['\\', 't']
  else if c = '\n' then ['\\', 'n']
  else if c = '\x0c' then ['\\', 'f']
  else if c = '\r' then ['\\', 'r']
  else if c.toNat < 32 then
    ['\\', 'u', '0', '0', Nat.digitChar (c.toNat / 16), Nat.digitChar (c.toNat % 16)]
  else [c]

def quote (t : Text) : Text := '"' :: t.flatMap escape ++ ['"']

def unescape : Char → Option Char
  | '"' => some '"'
  | '\\' => some '\\'
  | '/' => some '/'
  | 'b' => some '\x08'
  | 't' => some '\t'
  | 'n' => some '\n'
  | 'f' => some '\x0c'
  | 'r' => some '\r'
  | _ => none

def hexDigit (c : Char) : Option ℕ :=
  if '0' ≤ c ∧ c ≤ '9' then some (c.toNat - 48)
  else if 'a' ≤ c ∧ c ≤ 'f' then some (c.toNat - 87)
  else if 'A' ≤ c ∧ c ≤ 'F' then some (c.toNat - 55)
  else none

/-- The character of a `\u` escape. A half of a surrogate pair is none. -/
def codeUnit (a b c d : Char) : Option Char := do
  let n := ((← hexDigit a) * 16 + (← hexDigit b)) * 256 + (← hexDigit c) * 16 + (← hexDigit d)
  if n.isValidChar then some (Char.ofNat n) else none

/-- The rest of a string literal after its opening quote, and what follows it. -/
def readString : Text → Option (Text × Text)
  | [] => none
  | '"' :: rest => some ([], rest)
  | '\\' :: 'u' :: a :: b :: c :: d :: rest => do
    let x ← codeUnit a b c d
    let (t, rest) ← readString rest
    some (x :: t, rest)
  | '\\' :: c :: rest => do
    let x ← unescape c
    let (t, rest) ← readString rest
    some (x :: t, rest)
  | c :: rest =>
    if 32 ≤ c.toNat ∧ c ≠ '\\' then (readString rest).map fun p ↦ (c :: p.1, p.2) else none

theorem codeUnit_control : ∀ n < 32,
    codeUnit '0' '0' (Nat.digitChar (n / 16)) (Nat.digitChar (n % 16)) = some (Char.ofNat n) ∧
      Nat.digitChar (n / 16) ≠ '\n' ∧ Nat.digitChar (n % 16) ≠ '\n' := by decide

theorem escape_cases (c : Char) :
    (∃ x, escape c = ['\\', x] ∧ unescape x = some c ∧ x ≠ 'u' ∧ x ≠ '\n') ∨
    (∃ x y, escape c = ['\\', 'u', '0', '0', x, y] ∧ codeUnit '0' '0' x y = some c ∧
      x ≠ '\n' ∧ y ≠ '\n') ∨
    (escape c = [c] ∧ c ≠ '"' ∧ c ≠ '\\' ∧ 32 ≤ c.toNat) := by
  unfold escape
  split_ifs with h₁ h₂ h₃ h₄ h₅ h₆ h₇ h₈
  · exact .inl ⟨'"', rfl, by rw [h₁]; rfl, by decide, by decide⟩
  · exact .inl ⟨'\\', rfl, by rw [h₂]; rfl, by decide, by decide⟩
  · exact .inl ⟨'b', rfl, by rw [h₃]; rfl, by decide, by decide⟩
  · exact .inl ⟨'t', rfl, by rw [h₄]; rfl, by decide, by decide⟩
  · exact .inl ⟨'n', rfl, by rw [h₅]; rfl, by decide, by decide⟩
  · exact .inl ⟨'f', rfl, by rw [h₆]; rfl, by decide, by decide⟩
  · exact .inl ⟨'r', rfl, by rw [h₇]; rfl, by decide, by decide⟩
  · obtain ⟨hunit, hx, hy⟩ := codeUnit_control c.toNat h₈
    exact .inr (.inl ⟨_, _, rfl, hunit.trans (congrArg some (Char.ofNat_toNat c)), hx, hy⟩)
  · exact .inr (.inr ⟨rfl, h₁, h₂, by omega⟩)

theorem readString_escape (c : Char) (s : Text) :
    readString (escape c ++ s) = (readString s).map fun p ↦ (c :: p.1, p.2) := by
  have hmap (o : Option (Text × Text)) :
      (o.bind fun p ↦ some (c :: p.1, p.2)) = o.map fun p ↦ (c :: p.1, p.2) := by
    cases o <;> rfl
  rcases escape_cases c with ⟨x, he, hx, hu, -⟩ | ⟨x, y, he, hx, -, -⟩ | ⟨he, hq, hb, hc⟩
  · rw [he, List.cons_append, List.singleton_append, readString, hx]
    · exact hmap (readString s)
    · exact fun _ _ _ _ _ h _ ↦ absurd h hu
  · rw [he]
    show readString ('\\' :: 'u' :: '0' :: '0' :: x :: y :: s) = _
    rw [readString, hx]
    exact hmap (readString s)
  · rw [he, List.singleton_append, readString, if_pos ⟨hc, hb⟩]
    · exact hq
    · exact fun _ _ _ _ _ h ↦ absurd h hb
    · exact fun _ _ h ↦ absurd h hb

theorem readString_flatMap (t rest : Text) :
    readString (t.flatMap escape ++ '"' :: rest) = some (t, rest) := by
  induction t with
  | nil => rfl
  | cons c t ih => rw [List.flatMap_cons, List.append_assoc, readString_escape, ih, Option.map_some]

theorem newline_not_mem_quote (t : Text) : '\n' ∉ quote t := by
  have hescape (c : Char) : '\n' ∉ escape c := by
    rcases escape_cases c with ⟨x, he, -, -, hn⟩ | ⟨x, y, he, -, hx, hy⟩ | ⟨he, -, -, hc⟩
    · rw [he]
      exact List.not_mem_cons_of_ne_of_not_mem (by decide) (mt List.mem_singleton.mp (Ne.symm hn))
    · rw [he]
      simp only [List.mem_cons, Ne.symm hx, Ne.symm hy, List.not_mem_nil, or_false]
      decide
    · rw [he, List.mem_singleton]
      intro he
      subst he
      exact absurd hc (by decide)
  simp [quote, hescape]

end Postbud.Lib.Json
