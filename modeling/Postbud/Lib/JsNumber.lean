import Postbud.Lib.Binary64

namespace Postbud.Lib.JsNumber

open Binary64

/-! JavaScript's Number: a double, which the bitwise operators read modulo `2^32`. -/

abbrev Number := Float.Model

def num (z : ℤ) : Number := Float.Model.ofInt z

instance (n : ℕ) : OfNat Number n := ⟨num n⟩

/-- What `ToInt32` and `ToUint32` have in common: `NaN` and the infinities are `0`, the rest
its integer part modulo `2^32`. -/
def bits (x : Number) : BitVec 32 := BitVec.ofInt 32 (x.unpack.toInt 0 0)

def ofInt32 (b : BitVec 32) : Number := num b.toInt

def ofUint32 (b : BitVec 32) : Number := num b.toNat

def shiftCount (x : Number) : ℕ := (bits x).toNat % 32

instance : ShiftLeft Number := ⟨fun x y ↦ ofInt32 (bits x <<< shiftCount y)⟩

/-- The operator `>>>`, on the unsigned reading. -/
instance : ShiftRight Number := ⟨fun x y ↦ ofUint32 (bits x >>> shiftCount y)⟩

/-- The operator `>>`, which keeps the sign. -/
def signedShiftRight (x y : Number) : Number := ofInt32 ((bits x).sshiftRight (shiftCount y))

instance : AndOp Number := ⟨fun x y ↦ ofInt32 (bits x &&& bits y)⟩

instance : OrOp Number := ⟨fun x y ↦ ofInt32 (bits x ||| bits y)⟩

instance : XorOp Number := ⟨fun x y ↦ ofInt32 (bits x ^^^ bits y)⟩

instance : Complement Number := ⟨fun x ↦ ofInt32 (~~~bits x)⟩

/-- `Math.floor`. A double whose exponent is not negative is an integer. -/
def floor (x : Number) : Number :=
  match x.unpack with
  | .finite s m e _ => if 0 ≤ e then x else num (s.apply m / 2 ^ (-e).toNat)
  | _ => x

theorem literal (n : ℕ) : (OfNat.ofNat n : Number) = num n := rfl

section Integers

variable {a b z : ℤ}

theorem num_add (ha : a.natAbs < 2 ^ 53) (hb : b.natAbs < 2 ^ 53) (hab : (a + b).natAbs < 2 ^ 53) :
    num a + num b = num (a + b) := ofInt_add ha hb hab

theorem num_sub (ha : a.natAbs < 2 ^ 53) (hb : b.natAbs < 2 ^ 53) (hab : (a - b).natAbs < 2 ^ 53) :
    num a - num b = num (a - b) := ofInt_sub ha hb hab

theorem num_mul (ha : 0 ≤ a) (hb : 0 ≤ b) (ha' : a.natAbs < 2 ^ 53) (hb' : b.natAbs < 2 ^ 53)
    (hab : (a * b).natAbs < 2 ^ 53) : num a * num b = num (a * b) := ofInt_mul ha hb ha' hb' hab

theorem bits_num (hz : z.natAbs < 2 ^ 53) : bits (num z) = BitVec.ofInt 32 z := by
  rw [bits, num, toInt_ofInt hz]

theorem shiftCount_num {n : ℕ} (hn : n < 32) : shiftCount (num n) = n := by
  rw [shiftCount, bits_num (by omega), BitVec.ofInt_natCast, BitVec.toNat_ofNat]
  omega

theorem floor_num_div {j : ℕ} (hz : z.natAbs < 2 ^ 53) (h0 : 0 < j) (hj : j ≤ 52) :
    floor (num z / num (2 ^ j)) = num (z / 2 ^ j) := by
  have hdiv : num z / num (2 ^ j) = .pack (dyadic z (-j)) := ofInt_div_two_pow hz hj
  rw [hdiv, floor, unpack_pack_dyadic hz (by omega) (by omega)]
  rcases eq_or_ne z 0 with rfl | h
  · rw [Int.zero_ediv, num, ofInt_eq (by decide)]
    rfl
  have hneg : ¬ 0 ≤ -(j : ℤ) - (52 - z.natAbs.log2 : ℕ) := by omega
  have hexp : (-(-(j : ℤ) - (52 - z.natAbs.log2 : ℕ))).toNat = 52 - z.natAbs.log2 + j := by omega
  rw [dyadic_of_ne_zero h, normal]
  simp only [if_neg hneg, sign_apply_natAbs_mul, hexp, pow_add]
  push_cast
  rw [mul_comm z, Int.mul_ediv_mul_of_pos _ _ (by positivity)]

variable {m n : ℕ}

theorem num_natCast_add (h : m + n < 2 ^ 53) : num m + num n = num (m + n : ℕ) := by
  rw [num_add (by omega) (by omega) (by omega), Int.natCast_add]

theorem num_natCast_sub (h : n ≤ m) (hm : m < 2 ^ 53) : num m - num n = num (m - n : ℕ) := by
  rw [num_sub (by omega) (by omega) (by omega), Int.natCast_sub h]

theorem num_natCast_mul (hm : m < 2 ^ 53) (hn : n < 2 ^ 53) (h : m * n < 2 ^ 53) :
    num m * num n = num (m * n : ℕ) := by
  have habs : ((m : ℤ) * n).natAbs = m * n := by
    rw [Int.natAbs_mul, Int.natAbs_natCast, Int.natAbs_natCast]
  rw [num_mul (Int.natCast_nonneg m) (Int.natCast_nonneg n) (by omega) (by omega) (by omega),
    Int.natCast_mul]

end Integers

/-- An integer that is `b` modulo `2^32`, and not beyond `k · 2^32`. A sum of few of them is
exact. -/
def Carries (k : ℕ) (b : BitVec 32) (x : Number) : Prop :=
  k ≤ 2 ^ 20 ∧ ∃ z : ℤ, x = num z ∧ z.natAbs ≤ k * 2 ^ 32 ∧ BitVec.ofInt 32 z = b

namespace Carries

variable {j k : ℕ} {a b : BitVec 32} {x y : Number}

theorem bits_eq (h : Carries k b x) : bits x = b := by
  obtain ⟨hk, z, rfl, hz, rfl⟩ := h
  exact bits_num (by omega)

theorem ofInt32 (b : BitVec 32) : Carries 1 b (ofInt32 b) := by
  have hle := b.toInt_lt
  have hge := b.le_toInt
  exact ⟨by decide, b.toInt, rfl, by omega, BitVec.ofInt_toInt⟩

theorem ofUint32 (b : BitVec 32) : Carries 1 b (ofUint32 b) := by
  refine ⟨by decide, b.toNat, rfl, by omega, ?_⟩
  rw [BitVec.ofInt_natCast, BitVec.ofNat_toNat, BitVec.setWidth_eq]

theorem add (hx : Carries j a x) (hy : Carries k b y) (h : j + k ≤ 2 ^ 20) :
    Carries (j + k) (a + b) (x + y) := by
  obtain ⟨hj, w, rfl, hw, rfl⟩ := hx
  obtain ⟨hk, z, rfl, hz, rfl⟩ := hy
  have hsum : (w + z).natAbs ≤ (j + k) * 2 ^ 32 := by
    have habs := Int.natAbs_add_le w z
    omega
  exact ⟨h, w + z, num_add (by omega) (by omega) (by omega), hsum, BitVec.ofInt_add w z⟩

theorem xor (hx : Carries j a x) (hy : Carries k b y) : Carries 1 (a ^^^ b) (x ^^^ y) := by
  rw [← hx.bits_eq, ← hy.bits_eq]
  exact ofInt32 _

theorem and (hx : Carries j a x) (hy : Carries k b y) : Carries 1 (a &&& b) (x &&& y) := by
  rw [← hx.bits_eq, ← hy.bits_eq]
  exact ofInt32 _

theorem or (hx : Carries j a x) (hy : Carries k b y) : Carries 1 (a ||| b) (x ||| y) := by
  rw [← hx.bits_eq, ← hy.bits_eq]
  exact ofInt32 _

theorem not (hx : Carries k a x) : Carries 1 (~~~a) (~~~x) := by
  rw [← hx.bits_eq]
  exact ofInt32 _

theorem shiftLeft {n : ℕ} (hx : Carries k a x) (hn : n < 32) :
    Carries 1 (a <<< n) (x <<< num n) := by
  rw [← hx.bits_eq]
  nth_rewrite 1 [← shiftCount_num hn]
  exact ofInt32 _

theorem shiftRight_eq {n : ℕ} (hx : Carries k a x) (hn : n < 32) :
    x >>> num n = JsNumber.ofUint32 (a >>> n) := by
  rw [← hx.bits_eq]
  nth_rewrite 2 [← shiftCount_num hn]
  rfl

theorem shiftRight {n : ℕ} (hx : Carries k a x) (hn : n < 32) :
    Carries 1 (a >>> n) (x >>> num n) := by
  rw [hx.shiftRight_eq hn]
  exact ofUint32 _

/-- What `>>> 0` makes of a sum. -/
theorem shiftRight_zero (hx : Carries k a x) : x >>> (0 : Number) = JsNumber.ofUint32 a := by
  have h := hx.shiftRight_eq (show 0 < 32 by decide)
  rwa [BitVec.ushiftRight_zero] at h

end Carries

end Postbud.Lib.JsNumber
