import Mathlib.Data.Nat.NthRoot.Defs
import Postbud.Lib.BigEndian

namespace Postbud.Lib.Sha256

open BigEndian

/-! SHA-256 as FIPS 180-4 has it, for messages of whole bytes. -/

abbrev Word := BitVec 32

section Functions

variable (x y z : Word)

def Ch : Word := (x &&& y) ^^^ (~~~x &&& z)

def Maj : Word := (x &&& y) ^^^ (x &&& z) ^^^ (y &&& z)

def Sigma0 : Word := x.rotateRight 2 ^^^ x.rotateRight 13 ^^^ x.rotateRight 22

def Sigma1 : Word := x.rotateRight 6 ^^^ x.rotateRight 11 ^^^ x.rotateRight 25

def sigma0 : Word := x.rotateRight 7 ^^^ x.rotateRight 18 ^^^ x >>> 3

def sigma1 : Word := x.rotateRight 17 ^^^ x.rotateRight 19 ^^^ x >>> 10

end Functions

/-- The first 32 bits of the fractional part of the `n`-th root. -/
def fractional (n a : ℕ) : Word := BitVec.ofNat 32 (Nat.nthRoot n (a * 2 ^ (32 * n)))

/-- The first sixty-four primes. -/
def primes : List ℕ :=
  (List.range' 2 310).filter fun p ↦ (List.range' 2 (p - 2)).all fun d ↦ p % d ≠ 0

def K : List Word := primes.map (fractional 3)

structure Registers where
  (a b c d e f g h : Word)
  deriving DecidableEq

def Registers.ofWord (f : ℕ → Word) : Registers := ⟨f 0, f 1, f 2, f 3, f 4, f 5, f 6, f 7⟩

def Registers.words (r : Registers) : List Word := [r.a, r.b, r.c, r.d, r.e, r.f, r.g, r.h]

def Registers.add (r s : Registers) : Registers :=
  ⟨r.a + s.a, r.b + s.b, r.c + s.c, r.d + s.d, r.e + s.e, r.f + s.f, r.g + s.g, r.h + s.h⟩

def H0 : Registers := .ofWord fun i ↦ fractional 2 (primes.getD i 0)

/-- Zeros up to eight bytes short of a whole block, and the length in bits. -/
def pad (message : List Byte) : List Byte :=
  message ++ 0x80 :: List.replicate ((119 - message.length % 64) % 64) 0 ++
    toBytes 8 (8 * message.length)

def block (padded : List Byte) (i : ℕ) : List Word :=
  (List.range 16).map fun t ↦ wordAt padded (64 * i + 4 * t)

/-- The first `16 + n` words of the message schedule. -/
def schedule (block : List Word) : ℕ → List Word
  | 0 => block
  | n + 1 =>
      let w := schedule block n
      w ++ [sigma1 (w.getD (n + 14) 0) + w.getD (n + 9) 0 + sigma0 (w.getD (n + 1) 0) + w.getD n 0]

def round (r : Registers) (k w : Word) : Registers :=
  let t1 := r.h + Sigma1 r.e + Ch r.e r.f r.g + k + w
  let t2 := Sigma0 r.a + Maj r.a r.b r.c
  ⟨t1 + t2, r.a, r.b, r.c, r.d + t1, r.e, r.f, r.g⟩

/-- The first `n` rounds. -/
def rounds (w : List Word) (r : Registers) (n : ℕ) : Registers :=
  (List.range n).foldl (fun r t ↦ round r (K.getD t 0) (w.getD t 0)) r

def compress (r : Registers) (block : List Word) : Registers :=
  r.add (rounds (schedule block 48) r 64)

/-- The hash value after the first `n` blocks. -/
def hash (padded : List Byte) (n : ℕ) : Registers :=
  (List.range n).foldl (fun r i ↦ compress r (block padded i)) H0

def digest (message : List Byte) : List Byte :=
  let padded := pad message
  (hash padded (padded.length / 64)).words.flatMap wordBytes

theorem length_pad (message : List Byte) :
    (pad message).length = 64 * ((message.length + 8) / 64) + 64 := by
  simp only [pad, List.length_append, List.length_cons, List.length_replicate, length_toBytes]
  omega

theorem length_schedule (block : List Word) (n : ℕ) :
    (schedule block n).length = block.length + n := by
  induction n with
  | zero => rfl
  | succ n ih => rw [schedule, List.length_append, ih, List.length_singleton, add_assoc]

theorem rounds_succ (w : List Word) (r : Registers) (n : ℕ) :
    rounds w r (n + 1) = round (rounds w r n) (K.getD n 0) (w.getD n 0) := by
  rw [rounds, List.range_succ, List.foldl_append]
  rfl

theorem hash_succ (padded : List Byte) (n : ℕ) :
    hash padded (n + 1) = compress (hash padded n) (block padded n) := by
  rw [hash, List.range_succ, List.foldl_append]
  rfl

example : digest [0x61, 0x62, 0x63] = toBytes 32
    0xba7816bf8f01cfea414140de5dae2223b00361a396177a9cb410ff61f20015ad := by decide +kernel

end Postbud.Lib.Sha256
