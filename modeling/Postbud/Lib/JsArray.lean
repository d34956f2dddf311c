import Postbud.Lib.BigEndian
import Postbud.Lib.JsNumber
import Postbud.Lib.Result

namespace Postbud.Lib.JsArray

open BigEndian JsNumber Result

/-! Typed arrays. Those that share one buffer are the list of its bytes. -/

inductive Throw
  | rangeError
  deriving DecidableEq

abbrev Uint8Array := List Byte

abbrev Uint32Array := List (BitVec 32)

/-- The index an argument is taken for. `NaN` is `0`. -/
def toIndex (x : Number) : Except Throw ℕ :=
  let z := x.unpack.toInt (-1) (-1)
  if 0 ≤ z ∧ z < 2 ^ 53 then .ok z.toNat else .error .rangeError

/-- The element a key stands for, which is none for a fraction and out of bounds. The key of
`-0` is that of `0`. -/
def element (length : ℕ) (x : Number) : Option ℕ :=
  let z := x.unpack.toInt (-1) (-1)
  if (x = num z ∨ x = -num 0) ∧ 0 ≤ z ∧ z < length then some z.toNat else none

namespace Uint32Array

/-- `undefined` counts as `NaN`. -/
def get (a : Uint32Array) (i : Number) : Number :=
  match element a.length i with
  | some n => ofUint32 (a.getD n 0)
  | none => .pack .notANumber

def set (a : Uint32Array) (i v : Number) : Uint32Array :=
  match element a.length i with
  | some n => List.set a n (bits v)
  | none => a

/-- A view of a buffer, which has to consist of whole words. -/
def ofBuffer (buffer : Uint8Array) : Except Throw Unit :=
  if buffer.length % 4 = 0 then .ok () else .error .rangeError

end Uint32Array

namespace Uint8Array

def new (length : Number) : Except Throw Uint8Array := do
  let n ← toIndex length
  return List.replicate n 0

def set (a : Uint8Array) (i v : Number) : Uint8Array :=
  match element a.length i with
  | some n => List.set a n ((bits v).setWidth 8)
  | none => a

/-- The method `set`, which copies an array to the front. -/
def copy (a source : Uint8Array) : Except Throw Uint8Array :=
  if source.length ≤ a.length then .ok (source ++ a.drop source.length) else .error .rangeError

end Uint8Array

namespace DataView

def getUint32 (buffer : Uint8Array) (offset : Number) : Except Throw Number := do
  let i ← toIndex offset
  if i + 4 ≤ buffer.length then .ok (ofUint32 (wordAt buffer i)) else .error .rangeError

def setUint32 (buffer : Uint8Array) (offset v : Number) : Except Throw Uint8Array := do
  let i ← toIndex offset
  if i + 4 ≤ buffer.length then
    .ok (buffer.take i ++ wordBytes (bits v) ++ buffer.drop (i + 4))
  else
    .error .rangeError

end DataView

/-- The first `n` turns of a loop that counts from `start` in steps of `step`. -/
def turns {σ : Type} (start step : ℕ) (body : Number → σ → Except Throw σ) :
    ℕ → σ → Except Throw σ
  | 0, s => .ok s
  | n + 1, s => do body (num (start + n * step : ℕ)) (← turns start step body n s)

/-- `for (let i = start; i < stop; i += step)`. Below `2^53` a double counts exactly. -/
def forLoop {σ : Type} (start stop step : ℕ) (body : Number → σ → Except Throw σ) (s : σ) :
    Except Throw σ :=
  turns start step body ((stop - start + step - 1) / step) s

section Lists

variable {α : Type} {l : List α} {n j : ℕ}

theorem take_succ_set (h : n < l.length) (v : α) :
    (l.set n v).take (n + 1) = l.take n ++ [v] := by
  rw [List.take_succ_eq_append_getElem (by rwa [List.length_set]), List.getElem_set_self,
    List.take_set_of_le le_rfl]

theorem getD_take (h : j < n) (d : α) : (l.take n).getD j d = l.getD j d := by
  rw [List.getD_eq_getElem?_getD, List.getD_eq_getElem?_getD, List.getElem?_take_of_lt h]

end Lists

section Exact

variable {n : ℕ} {v : Number}

theorem toInt_num {z : ℤ} (hz : z.natAbs < 2 ^ 53) (i j : ℤ) : (num z).unpack.toInt i j = z :=
  Binary64.toInt_ofInt hz i j

theorem toIndex_num (hn : n < 2 ^ 53) : toIndex (num n) = .ok n := by
  rw [toIndex, toInt_num (by omega)]
  exact if_pos ⟨by omega, by omega⟩

theorem element_num {length : ℕ} (hn : n < length) (hlt : n < 2 ^ 53) :
    element length (num n) = some n := by
  rw [element, toInt_num (by omega)]
  exact if_pos ⟨.inl rfl, by omega, by omega⟩

theorem get_num {a : Uint32Array} (hn : n < a.length) (hlt : n < 2 ^ 53) :
    a.get (num n) = ofUint32 (a.getD n 0) := by
  rw [Uint32Array.get, element_num hn hlt]

theorem set_num {a : Uint32Array} (hn : n < a.length) (hlt : n < 2 ^ 53) :
    Uint32Array.set a (num n) v = List.set a n (bits v) := by
  rw [Uint32Array.set, element_num hn hlt]

theorem set_byte_num {a : Uint8Array} (hn : n < a.length) (hlt : n < 2 ^ 53) :
    Uint8Array.set a (num n) v = List.set a n ((bits v).setWidth 8) := by
  rw [Uint8Array.set, element_num hn hlt]

theorem getUint32_num {buffer : Uint8Array} (hn : n + 4 ≤ buffer.length) (hlt : n < 2 ^ 53) :
    DataView.getUint32 buffer (num n) = .ok (ofUint32 (wordAt buffer n)) := by
  rw [DataView.getUint32, toIndex_num hlt]
  exact if_pos hn

theorem setUint32_num {buffer : Uint8Array} (hn : n + 4 ≤ buffer.length) (hlt : n < 2 ^ 53) :
    DataView.setUint32 buffer (num n) v =
      .ok (buffer.take n ++ wordBytes (bits v) ++ buffer.drop (n + 4)) := by
  rw [DataView.setUint32, toIndex_num hlt]
  exact if_pos hn

end Exact

section Loops

variable {σ : Type} {start stop step : ℕ} {body : Number → σ → Except Throw σ} {s : σ}

/-- An invariant that every turn carries on, where none throws. -/
theorem exists_turns (I : ℕ → σ → Prop) (count : ℕ) (h0 : I 0 s)
    (hbody : ∀ n s, n < count → I n s →
      ∃ t, body (num (start + n * step : ℕ)) s = .ok t ∧ I (n + 1) t) :
    ∃ t, turns start step body count s = .ok t ∧ I count t := by
  induction count with
  | zero => exact ⟨s, rfl, h0⟩
  | succ n ih =>
      obtain ⟨t, hrun, ht⟩ := ih fun i s hi ↦ hbody i s (by omega)
      obtain ⟨u, hlast, hu⟩ := hbody n t (Nat.lt_succ_self n) ht
      refine ⟨u, ?_, hu⟩
      rw [turns, hrun, ok_bind, hlast]

theorem exists_forLoop (I : ℕ → σ → Prop) (count : ℕ)
    (hcount : (stop - start + step - 1) / step = count) (h0 : I 0 s)
    (hbody : ∀ n s, n < count → I n s →
      ∃ t, body (num (start + n * step : ℕ)) s = .ok t ∧ I (n + 1) t) :
    ∃ t, forLoop start stop step body s = .ok t ∧ I count t := by
  rw [forLoop, hcount]
  exact exists_turns I count h0 hbody

end Loops

end Postbud.Lib.JsArray
