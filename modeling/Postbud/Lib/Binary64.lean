import Mathlib

namespace Postbud.Lib.Binary64

open Float.Model Float.Model.UnpackedFloat

/-! Arithmetic of IEEE doubles where the result needs no rounding. The operations are
those of Lean's own model of `Float`. -/

/-- `±m · 2^e` with all 53 bits of its mantissa. -/
def normal (s : Sign) (m : ℕ) (e : ℤ) (h : 0 < m) : UnpackedFloat :=
  .finite s (m * 2 ^ (52 - m.log2)) (e - (52 - m.log2 : ℕ)) (by positivity)

section Rounding

variable {m k : ℕ} {e : ℤ}

theorem log2_mul_two_pow (hm : 0 < m) (k : ℕ) : (m * 2 ^ k).log2 = m.log2 + k := by
  induction k with
  | zero => simp
  | succ k ih =>
      have hk : m * 2 ^ k ≠ 0 := by positivity
      rw [pow_succ, ← mul_assoc, mul_comm, Nat.log2_two_mul hk, ih, add_assoc]

theorem log2_lt (hm : 0 < m) (hlt : m < 2 ^ 53) : m.log2 < 53 :=
  (Nat.log2_lt hm.ne').mpr hlt

/-- The bits shifted out of a multiple leave nothing to round. -/
theorem shiftRight_mul_two_pow (m k : ℕ) :
    (⟨m * 2 ^ k, false, false⟩ : ExtendedMantissa) >>> k = ⟨m, false, false⟩ := by
  change k.repeat ExtendedMantissa.shiftRightOne _ = _
  induction k generalizing m with
  | zero => simp [Nat.repeat]
  | succ k ih =>
      have hm : m * 2 ^ (k + 1) = m * 2 * 2 ^ k := by ring
      rw [Nat.repeat, hm, ih]
      simp [ExtendedMantissa.shiftRightOne]

theorem targetExponent_mul_two_pow (hm : 0 < m) (hlt : m < 2 ^ 53) (he : -1022 ≤ e) :
    Format.binary64.targetExponent (totalExponent (m * 2 ^ k) (e - k)) =
      e - (52 - m.log2 : ℕ) := by
  have hlog := log2_lt hm hlt
  rw [Format.targetExponent, totalExponent, log2_mul_two_pow hm]
  simp only [Format.mantissaBits, Format.minExponent]
  omega

theorem shiftToTargetExponent_exact (hm : 0 < m) (hlt : m < 2 ^ 53) (he : -1022 ≤ e)
    (hk : 52 - m.log2 ≤ k) :
    shiftToTargetExponent .binary64 (m * 2 ^ k) (e - k) .exact =
      (⟨m * 2 ^ (52 - m.log2), false, false⟩, e - (52 - m.log2 : ℕ)) := by
  have hsplit : m * 2 ^ k = m * 2 ^ (52 - m.log2) * 2 ^ (k - (52 - m.log2)) := by
    rw [mul_assoc, ← pow_add, Nat.add_sub_cancel' hk]
  have hamount : (e - (52 - m.log2 : ℕ) - (e - k)).toNat = k - (52 - m.log2) := by omega
  rw [shiftToTargetExponent, targetExponent_mul_two_pow hm hlt he, shiftToExponent, hamount]
  simp only [ExtendedMantissa.ofMantissaAndAccuracy]
  rw [hsplit, shiftRight_mul_two_pow]
  congr 1
  omega

theorem roundWithAccuracy_exact (s : Sign) (hm : 0 < m) (hlt : m < 2 ^ 53) (he : -1022 ≤ e)
    (hk : 52 - m.log2 ≤ k) :
    roundWithAccuracy .binary64 s (m * 2 ^ k) (e - k) .exact = normal s m e hm := by
  have hpos : m * 2 ^ (52 - m.log2) ≠ 0 := by positivity
  rw [roundWithAccuracy, shiftToTargetExponent_exact hm hlt he hk]
  simp only [ExtendedMantissa.roundedMantissa, ExtendedMantissa.accuracy,
    Accuracy.roundToNearestEven, shiftToTargetExponent_exact hm hlt he le_rfl, hpos,
    ↓reduceDIte, normal]

theorem round_exact (s : Sign) (k : ℕ) (hm : 0 < m) (hlt : m < 2 ^ 53) (he : -1022 ≤ e) :
    UnpackedFloat.round .binary64 s (m * 2 ^ k) (e - k) = normal s m e hm := by
  have hdecrease : decreaseExponent (m * 2 ^ k) (e - k) (e - (52 - m.log2 : ℕ)) =
      (m * 2 ^ max k (52 - m.log2), e - (max k (52 - m.log2) : ℕ)) := by
    have hamount : (e - k - (e - (52 - m.log2 : ℕ))).toNat = 52 - m.log2 - k := by omega
    have hmax : k + (52 - m.log2 - k) = max k (52 - m.log2) := by omega
    rw [decreaseExponent, hamount, Nat.shiftLeft_eq, mul_assoc, ← pow_add, hmax]
    exact Prod.ext rfl (by simp only; omega)
  rw [UnpackedFloat.round, targetExponent_mul_two_pow hm hlt he, hdecrease]
  exact roundWithAccuracy_exact s hm hlt he (le_max_right _ _)

end Rounding

section Packing

theorem toNat_one_append {m : ℕ} (h : m.log2 = 52) :
    (1#1 ++ BitVec.ofNat 52 m).toNat = m := by
  have hm : m ≠ 0 := by rintro rfl; simp at h
  have hle : 2 ^ 52 ≤ m := h ▸ Nat.log2_self_le hm
  have hlt : m < 2 ^ 53 := by simpa [h] using @Nat.lt_log2_self m
  rw [BitVec.toNat_append, ← Nat.shiftLeft_add_eq_or_of_lt (BitVec.isLt _), BitVec.toNat_ofNat]
  simp
  omega

theorem unpack_pack_finite {s : Sign} {m : ℕ} {e : ℤ} (hm : 0 < m) (hlog : m.log2 = 52)
    (hlow : -1074 ≤ e) (hhigh : e ≤ 971) :
    (Float.Model.pack (.finite s m e hm)).unpack = .finite s m e hm := by
  have hbias : Format.binary64.exponentBias = 1023 := rfl
  obtain ⟨b, hb⟩ : ∃ b : ℕ, e = b - 1075 := ⟨(e + 1075).toNat, by omega⟩
  have hexp : (e + Format.binary64.exponentBias + (52 : ℕ)).toNat = b := by omega
  have hones : BitVec.ofNat 11 b ≠ -1#11 := by
    intro h
    have h := congrArg BitVec.toNat h
    simp at h
    omega
  have hzero : BitVec.ofNat 11 b ≠ 0#11 := by
    intro h
    have h := congrArg BitVec.toNat h
    simp at h
    omega
  have hpack : UnpackedFloat.pack .binary64 (.finite s m e hm) =
      packComponents .binary64 s (BitVec.ofNat 11 b) (BitVec.ofNat 52 m) := by
    simp only [UnpackedFloat.pack, hexp]
    rw [if_neg (by omega), if_pos (by rw [hlog]; rfl)]
  simp only [Float.Model.unpack, Float.Model.pack, hpack]
  simp only [UnpackedFloat.unpack, unpackExponent_packComponents, unpackMantissa_packComponents,
    unpackSign_packComponents, hones, hzero, ↓reduceIte, Sign.ofBitVec_toBitVec, toNat_one_append hlog]
  congr 1
  simp [hbias]
  omega

end Packing

def sign (z : ℤ) : Sign := if z < 0 then .negative else .positive

/-- The double that is `z · 2^e`, for a `z` of at most 53 bits. -/
def dyadic (z e : ℤ) : UnpackedFloat :=
  if h : z = 0 then .zero .positive else normal (sign z) z.natAbs e (Int.natAbs_pos.mpr h)

section Dyadic

variable {a b z d e : ℤ}

theorem dyadic_zero (e : ℤ) : dyadic 0 e = .zero .positive := rfl

theorem dyadic_of_ne_zero (h : z ≠ 0) (e : ℤ) :
    dyadic z e = normal (sign z) z.natAbs e (Int.natAbs_pos.mpr h) := dif_neg h

theorem sign_of_nonneg (h : 0 ≤ z) : sign z = .positive := if_neg h.not_gt

theorem sign_of_neg (h : z < 0) : sign z = .negative := if_pos h

theorem sign_neg (h : z ≠ 0) : sign (-z) = -sign z := by
  rcases lt_or_gt_of_ne h with h | h
  · rw [sign_of_neg h, sign_of_nonneg (by omega)]
    rfl
  · rw [sign_of_neg (by omega), sign_of_nonneg h.le]
    rfl

theorem sign_apply_natAbs_mul (z : ℤ) (n : ℕ) :
    (sign z).apply ((z.natAbs * n : ℕ) : ℤ) = z * n := by
  rcases lt_or_ge z 0 with h | h
  · rw [sign_of_neg h, Sign.apply]
    push_cast
    rw [abs_of_neg h]
    ring
  · rw [sign_of_nonneg h, Sign.apply]
    push_cast
    rw [abs_of_nonneg h]

theorem unpack_pack_dyadic (hz : z.natAbs < 2 ^ 53) (hlow : -1022 ≤ e) (hhigh : e ≤ 971) :
    (Float.Model.pack (dyadic z e)).unpack = dyadic z e := by
  rcases eq_or_ne z 0 with rfl | h
  · exact unpack_packedZero
  · have hpos : 0 < z.natAbs := Int.natAbs_pos.mpr h
    have hlog := log2_lt hpos hz
    rw [dyadic_of_ne_zero h]
    exact unpack_pack_finite _ (by rw [log2_mul_two_pow hpos]; omega) (by omega) (by omega)

theorem normalize_exact (k : ℕ) (hz : z.natAbs < 2 ^ 53) (he : -1022 ≤ e) :
    UnpackedFloat.normalize .binary64 (z * 2 ^ k) (e - k) .positive = dyadic z e := by
  have hk : (0 : ℤ) < 2 ^ k := by positivity
  rcases lt_trichotomy z 0 with h | rfl | h
  · have hneg : z * 2 ^ k < 0 := mul_neg_of_neg_of_pos h hk
    have habs : (-(z * 2 ^ k)).toNat = z.natAbs * 2 ^ k := by
      zify
      rw [Int.toNat_of_nonneg (by omega), abs_of_neg h, neg_mul]
    rw [UnpackedFloat.normalize, Int.compare_eq_lt.mpr hneg, dyadic_of_ne_zero h.ne,
      sign_of_neg h]
    simp only [habs]
    exact round_exact _ _ _ hz he
  · simp [UnpackedFloat.normalize, dyadic_zero]
  · have hpos : 0 < z * 2 ^ k := mul_pos h hk
    have habs : (z * 2 ^ k).toNat = z.natAbs * 2 ^ k := by
      zify
      rw [Int.toNat_of_nonneg hpos.le, abs_of_pos h]
    rw [UnpackedFloat.normalize, Int.compare_eq_gt.mpr hpos, dyadic_of_ne_zero h.ne',
      sign_of_nonneg h.le]
    simp only [habs]
    exact round_exact _ _ _ hz he

theorem decreaseExponent_normal {m k : ℕ} (hk : 52 - m.log2 ≤ k) :
    (decreaseExponent (m * 2 ^ (52 - m.log2)) (e - (52 - m.log2 : ℕ)) (e - k)).1 = m * 2 ^ k := by
  have hamount : (e - (52 - m.log2 : ℕ) - (e - k)).toNat = k - (52 - m.log2) := by omega
  rw [decreaseExponent, hamount, Nat.shiftLeft_eq, mul_assoc, ← pow_add, Nat.add_sub_cancel' hk]

/-- Two mantissas brought to the smaller of their exponents. -/
theorem exists_aligned (a b e : ℤ) :
    ∃ k : ℕ,
      min (e - (52 - a.natAbs.log2 : ℕ)) (e - (52 - b.natAbs.log2 : ℕ)) = e - k ∧
      (sign a).apply (decreaseExponent (a.natAbs * 2 ^ (52 - a.natAbs.log2))
        (e - (52 - a.natAbs.log2 : ℕ)) (e - k)).1 = a * 2 ^ k ∧
      (sign b).apply (decreaseExponent (b.natAbs * 2 ^ (52 - b.natAbs.log2))
        (e - (52 - b.natAbs.log2 : ℕ)) (e - k)).1 = b * 2 ^ k := by
  refine ⟨max (52 - a.natAbs.log2) (52 - b.natAbs.log2), by omega, ?_, ?_⟩
  · rw [decreaseExponent_normal (le_max_left _ _), sign_apply_natAbs_mul]
    push_cast
    rfl
  · rw [decreaseExponent_normal (le_max_right _ _), sign_apply_natAbs_mul]
    push_cast
    rfl

theorem add_dyadic (hab : (a + b).natAbs < 2 ^ 53) (he : -1022 ≤ e) :
    UnpackedFloat.add .binary64 (dyadic a e) (dyadic b e) = dyadic (a + b) e := by
  rcases eq_or_ne a 0 with rfl | ha
  · rcases eq_or_ne b 0 with rfl | hb
    · rfl
    · rw [zero_add, dyadic_of_ne_zero hb]
      rfl
  rcases eq_or_ne b 0 with rfl | hb
  · rw [add_zero, dyadic_of_ne_zero ha]
    rfl
  obtain ⟨k, hmin, hsa, hsb⟩ := exists_aligned a b e
  rw [dyadic_of_ne_zero ha, dyadic_of_ne_zero hb, normal, normal, UnpackedFloat.add]
  simp only [hmin, hsa, hsb, ← add_mul]
  exact normalize_exact k hab he

theorem sub_dyadic (hab : (a - b).natAbs < 2 ^ 53) (he : -1022 ≤ e) :
    UnpackedFloat.sub .binary64 (dyadic a e) (dyadic b e) = dyadic (a - b) e := by
  rcases eq_or_ne b 0 with rfl | hb
  · rcases eq_or_ne a 0 with rfl | ha
    · rfl
    · rw [sub_zero, dyadic_of_ne_zero ha]
      rfl
  rcases eq_or_ne a 0 with rfl | ha
  · rw [zero_sub, dyadic_of_ne_zero hb, dyadic_of_ne_zero (neg_ne_zero.mpr hb), sign_neg hb]
    simp only [Int.natAbs_neg]
    rfl
  obtain ⟨k, hmin, hsa, hsb⟩ := exists_aligned a b e
  rw [dyadic_of_ne_zero ha, dyadic_of_ne_zero hb, normal, normal, UnpackedFloat.sub]
  simp only [hmin, hsa, hsb, ← sub_mul]
  exact normalize_exact k hab he

theorem mul_dyadic (ha : 0 ≤ a) (hb : 0 ≤ b) (hab : (a * b).natAbs < 2 ^ 53)
    (he : -1022 ≤ d + e) :
    UnpackedFloat.mul .binary64 (dyadic a d) (dyadic b e) = dyadic (a * b) (d + e) := by
  rcases eq_or_ne a 0 with rfl | ha'
  · rcases eq_or_ne b 0 with rfl | hb'
    · rfl
    · rw [zero_mul, dyadic_of_ne_zero hb', sign_of_nonneg hb]
      rfl
  rcases eq_or_ne b 0 with rfl | hb'
  · rw [mul_zero, dyadic_of_ne_zero ha', sign_of_nonneg ha]
    rfl
  have hlog : 52 - (a.natAbs * b.natAbs).log2 ≤ 52 - a.natAbs.log2 + (52 - b.natAbs.log2) := by
    have hle : a.natAbs.log2 + b.natAbs.log2 ≤ (a.natAbs * b.natAbs).log2 := by
      rw [Nat.le_log2 (by positivity), pow_add]
      exact Nat.mul_le_mul (Nat.log2_self_le (by omega)) (Nat.log2_self_le (by omega))
    omega
  have hmantissa : a.natAbs * 2 ^ (52 - a.natAbs.log2) * (b.natAbs * 2 ^ (52 - b.natAbs.log2)) =
      a.natAbs * b.natAbs * 2 ^ (52 - a.natAbs.log2 + (52 - b.natAbs.log2)) := by
    ring
  have hexponent : d - (52 - a.natAbs.log2 : ℕ) + (e - (52 - b.natAbs.log2 : ℕ)) =
      d + e - (52 - a.natAbs.log2 + (52 - b.natAbs.log2) : ℕ) := by
    push_cast
    ring
  rw [Int.natAbs_mul] at hab
  rw [dyadic_of_ne_zero ha', dyadic_of_ne_zero hb', dyadic_of_ne_zero (mul_ne_zero ha' hb'),
    sign_of_nonneg ha, sign_of_nonneg hb, sign_of_nonneg (mul_nonneg ha hb), normal, normal,
    UnpackedFloat.mul, hmantissa, hexponent]
  simp only [Int.natAbs_mul]
  exact roundWithAccuracy_exact _ (by positivity) hab he hlog

theorem dyadic_two_pow {j : ℕ} (hj : j ≤ 52) :
    dyadic (2 ^ j) 0 = .finite .positive (2 ^ 52) (j - 52) (by positivity) := by
  have habs : ((2 : ℤ) ^ j).natAbs = 2 ^ j := by simp [Int.natAbs_pow]
  rw [dyadic_of_ne_zero (by positivity), sign_of_nonneg (by positivity), normal]
  simp only [habs, Nat.log2_two_pow, ← pow_add, Nat.add_sub_cancel' hj]
  congr 1
  omega

theorem div_dyadic {j : ℕ} (ha : a.natAbs < 2 ^ 53) (hj : j ≤ 52) (he : -1000 + j ≤ e) :
    UnpackedFloat.div .binary64 (dyadic a e) (dyadic (2 ^ j) 0) = dyadic a (e - j) := by
  rw [dyadic_two_pow hj]
  rcases eq_or_ne a 0 with rfl | ha'
  · rfl
  have hpos : 0 < a.natAbs := Int.natAbs_pos.mpr ha'
  have hlog := log2_lt hpos ha
  -- The mantissa of a power of two divides the other, which is widened by 53 bits.
  have hcore : divCore .binary64 (a.natAbs * 2 ^ (52 - a.natAbs.log2))
      (e - (52 - a.natAbs.log2 : ℕ)) (2 ^ 52) (j - 52) =
        (a.natAbs * 2 ^ (52 - a.natAbs.log2 + 1), e - j - (52 - a.natAbs.log2 + 1 : ℕ), .exact) := by
    have htotal : totalExponent (a.natAbs * 2 ^ (52 - a.natAbs.log2))
        (e - (52 - a.natAbs.log2 : ℕ)) - totalExponent (2 ^ 52) (j - 52) =
          a.natAbs.log2 + e - j := by
      rw [totalExponent, totalExponent, log2_mul_two_pow hpos, Nat.log2_two_pow]
      omega
    have htarget : min (e - (52 - a.natAbs.log2 : ℕ) - (j - 52))
        (Format.binary64.targetExponent (a.natAbs.log2 + e - j)) =
          e - j - (52 - a.natAbs.log2 + 1 : ℕ) := by
      simp only [Format.targetExponent, Format.mantissaBits, Format.minExponent]
      omega
    have hamount : (e - (52 - a.natAbs.log2 : ℕ) - (j - 52) -
        (e - j - (52 - a.natAbs.log2 + 1 : ℕ))).toNat = 53 := by
      omega
    have hmantissa : a.natAbs * 2 ^ (52 - a.natAbs.log2) * 2 ^ 53 =
        a.natAbs * 2 ^ (52 - a.natAbs.log2 + 1) * 2 ^ 52 := by
      ring
    simp only [divCore, htotal, htarget, hamount, Nat.shiftLeft_eq]
    rw [hmantissa, Nat.mul_div_cancel _ (by positivity), Nat.mul_mod_left]
    rfl
  have hsign : ∀ s : Sign, s / .positive = s := fun s ↦ by cases s <;> rfl
  rw [dyadic_of_ne_zero ha', dyadic_of_ne_zero ha', normal, UnpackedFloat.div, hcore, hsign]
  exact roundWithAccuracy_exact _ hpos ha (by omega) (by omega)

/-- Towards zero, as the conversions to integers go. -/
theorem toInt_dyadic (z i j : ℤ) : (dyadic z 0).toInt i j = z := by
  rcases eq_or_ne z 0 with rfl | h
  · rfl
  have hup : (0 - ((52 - z.natAbs.log2 : ℕ) : ℤ) - 0).toNat = 0 := by omega
  have hdown : (0 - (0 - ((52 - z.natAbs.log2 : ℕ) : ℤ) - (0 : ℕ))).toNat =
      52 - z.natAbs.log2 := by
    omega
  rw [dyadic_of_ne_zero h, normal, UnpackedFloat.toInt, roundToInt, decreaseExponent, hup]
  simp only [shiftToExponent, hdown, Nat.shiftLeft_zero, ExtendedMantissa.ofMantissaAndAccuracy,
    shiftRight_mul_two_pow]
  simpa using sign_apply_natAbs_mul z 1

end Dyadic

section Integers

variable {a b z : ℤ}

theorem ofInt_eq (hz : z.natAbs < 2 ^ 53) : Float.Model.ofInt z = .pack (dyadic z 0) := by
  have h := normalize_exact 0 hz (e := 0) (by omega)
  rw [pow_zero, mul_one, Nat.cast_zero, sub_zero] at h
  rw [Float.Model.ofInt, UnpackedFloat.ofInt, h]

theorem unpack_ofInt (hz : z.natAbs < 2 ^ 53) : (Float.Model.ofInt z).unpack = dyadic z 0 := by
  rw [ofInt_eq hz, unpack_pack_dyadic hz (by omega) (by omega)]

theorem toInt_ofInt (hz : z.natAbs < 2 ^ 53) (i j : ℤ) :
    (Float.Model.ofInt z).unpack.toInt i j = z := by
  rw [unpack_ofInt hz, toInt_dyadic]

theorem ofInt_add (ha : a.natAbs < 2 ^ 53) (hb : b.natAbs < 2 ^ 53)
    (hab : (a + b).natAbs < 2 ^ 53) :
    Float.Model.ofInt a + Float.Model.ofInt b = Float.Model.ofInt (a + b) := by
  change Float.Model.pack (.add .binary64 _ _) = _
  rw [unpack_ofInt ha, unpack_ofInt hb, add_dyadic hab (by omega), ofInt_eq hab]

theorem ofInt_sub (ha : a.natAbs < 2 ^ 53) (hb : b.natAbs < 2 ^ 53)
    (hab : (a - b).natAbs < 2 ^ 53) :
    Float.Model.ofInt a - Float.Model.ofInt b = Float.Model.ofInt (a - b) := by
  change Float.Model.pack (.sub .binary64 _ _) = _
  rw [unpack_ofInt ha, unpack_ofInt hb, sub_dyadic hab (by omega), ofInt_eq hab]

theorem ofInt_mul (ha : 0 ≤ a) (hb : 0 ≤ b) (ha' : a.natAbs < 2 ^ 53) (hb' : b.natAbs < 2 ^ 53)
    (hab : (a * b).natAbs < 2 ^ 53) :
    Float.Model.ofInt a * Float.Model.ofInt b = Float.Model.ofInt (a * b) := by
  change Float.Model.pack (.mul .binary64 _ _) = _
  rw [unpack_ofInt ha', unpack_ofInt hb', mul_dyadic ha hb hab (by omega), ofInt_eq hab, add_zero]

theorem ofInt_div_two_pow {j : ℕ} (hz : z.natAbs < 2 ^ 53) (hj : j ≤ 52) :
    Float.Model.ofInt z / Float.Model.ofInt (2 ^ j) = .pack (dyadic z (-j)) := by
  have htwo : ((2 : ℤ) ^ j).natAbs < 2 ^ 53 := by
    rw [Int.natAbs_pow]
    exact Nat.pow_lt_pow_right (by decide) (by omega)
  change Float.Model.pack (.div .binary64 _ _) = _
  rw [unpack_ofInt hz, unpack_ofInt htwo, div_dyadic hz hj (by omega), zero_sub]

end Integers

end Postbud.Lib.Binary64
