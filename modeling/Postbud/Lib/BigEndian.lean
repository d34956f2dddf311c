import Mathlib.Tactic.Ring

namespace Postbud.Lib.BigEndian

abbrev Byte := BitVec 8

/-- The last `k` bytes of a number, the highest one first. -/
def toBytes : ℕ → ℕ → List Byte
  | 0, _ => []
  | k + 1, n => toBytes k (n / 256) ++ [BitVec.ofNat 8 n]

def ofBytes (l : List Byte) : ℕ := l.foldl (fun n b ↦ 256 * n + b.toNat) 0

def wordAt (l : List Byte) (i : ℕ) : BitVec 32 := BitVec.ofNat 32 (ofBytes ((l.drop i).take 4))

def wordBytes (w : BitVec 32) : List Byte := toBytes 4 w.toNat

@[simp]
theorem length_toBytes (k n : ℕ) : (toBytes k n).length = k := by
  induction k generalizing n with
  | zero => rfl
  | succ k ih => rw [toBytes, List.length_append, ih, List.length_singleton]

@[simp]
theorem length_wordBytes (w : BitVec 32) : (wordBytes w).length = 4 := length_toBytes 4 w.toNat

theorem toBytes_add (j k n : ℕ) :
    toBytes (j + k) n = toBytes j (n / 256 ^ k) ++ toBytes k n := by
  induction k generalizing n with
  | zero => simp [toBytes]
  | succ k ih =>
      have hdiv : n / 256 ^ (k + 1) = n / 256 / 256 ^ k := by
        rw [pow_succ', Nat.div_div_eq_div_mul]
      rw [← add_assoc, toBytes, ih, hdiv, toBytes, List.append_assoc]

theorem toBytes_mod (k n : ℕ) : toBytes k (n % 256 ^ k) = toBytes k n := by
  induction k generalizing n with
  | zero => rfl
  | succ k ih =>
      have hdiv : n % 256 ^ (k + 1) / 256 = n / 256 % 256 ^ k := by
        rw [pow_succ, Nat.mod_mul_left_div_self]
      have hlast : BitVec.ofNat 8 (n % 256 ^ (k + 1)) = BitVec.ofNat 8 n := by
        refine BitVec.eq_of_toNat_eq ?_
        rw [BitVec.toNat_ofNat, BitVec.toNat_ofNat]
        exact Nat.mod_mod_of_dvd n (Dvd.intro_left (256 ^ k) (pow_succ 256 k).symm)
      rw [toBytes, toBytes, hdiv, ih, hlast]

theorem wordBytes_ofNat (n : ℕ) : wordBytes (BitVec.ofNat 32 n) = toBytes 4 n :=
  toBytes_mod 4 n

end Postbud.Lib.BigEndian
