import StepGraph.Proofs.Binary64.Rounding

/-!
# Decimals that are read

A decimal is read by rounding its digits, rounding a power of ten and
rounding their product or quotient. Three roundings may lead astray, but not
to infinity: a decimal of no more than eighteen digits that is no larger than
the largest finite number is read as a finite number
(`exists_ofDecimal_nonneg`), and with a negative power of ten every one is
(`exists_ofDecimal_neg`).
-/

namespace StepGraph.Binary64

variable {x y x' y' : Binary64}

/-! ## Finite numbers -/

/-- The largest finite number. -/
def largest : Nat :=
  (2 ^ 53 - 1) * 2 ^ 971

/-- It lies between two powers of ten. -/
theorem largest_bounds : 10 ^ 308 ≤ largest ∧ largest < 10 ^ 309 := by decide +kernel

theorem isFinite_ofNat_largest : (ofNat largest).isFinite = true := by decide +kernel

theorem significand_lt (x : Binary64) : x.significand < 2 ^ 53 := by
  have hfraction : x.fraction < leadingBit := Nat.mod_lt _ (by decide)
  have hleading : leadingBit = 2 ^ 52 := rfl
  rw [significand]
  split <;> omega

theorem exponent_le (hx : x.isFinite = true) : x.exponent ≤ 971 := by
  have hbiased : x.biasedExponent < 2048 := Nat.mod_lt _ (by decide)
  rw [isFinite, bne_iff_ne] at hx
  rw [exponent]
  omega

/-- **No finite number is larger than the largest.** -/
theorem magnitude_le_largest (hx : x.isFinite = true) : x.magnitude ≤ largest := by
  have hsignificand := significand_lt x
  have hle : x.significand ≤ 2 ^ 53 - 1 := by omega
  calc x.magnitude ≤ ((2 ^ 53 - 1 : Nat) : ℚ) * 2 ^ (971 : ℤ) := by
        rw [magnitude]
        gcongr
        · exact one_le_two
        · exact exponent_le hx
    _ = largest := by
        rw [largest, Nat.cast_mul, Nat.cast_pow, ← zpow_natCast]
        rfl

/-- What is no larger than the largest number is rounded to a finite one. -/
theorem isFinite_ofRatio_of_le_largest {num den : Nat} (hden : 0 < den)
    (h : (num : ℚ) / den ≤ largest) : (ofRatio num den).isFinite = true := by
  have hone : (num : ℚ) / den ≤ largest / (1 : Nat) := by rwa [Nat.cast_one, div_one]
  exact isFinite_ofRatio_of_le hden one_pos hone isFinite_ofNat_largest

/-- The sign does not make a number infinite. -/
@[simp] theorem isFinite_neg (x : Binary64) : x.neg.isFinite = x.isFinite := by
  have hbits : (x.bits ^^^ 0x8000000000000000).toNat / leadingBit % 2048 =
      x.bits.toNat / leadingBit % 2048 := by
    have hleading : leadingBit = 2 ^ 52 := rfl
    have hlimit : 2048 = 2 ^ 11 := rfl
    rw [UInt64.toNat_xor, hleading, hlimit, Nat.xor_div_two_pow, Nat.xor_mod_two_pow]
    exact Nat.xor_zero _
  rw [isFinite, isFinite, biasedExponent, biasedExponent, neg, hbits]

/-! ## Products and quotients -/

/-- A product of smaller factors is finite where one of larger ones is. -/
theorem isFinite_mul_of_le (hx : x.magnitude ≤ x'.magnitude) (hy : y.magnitude ≤ y'.magnitude)
    (hfinite : (x'.mul y').isFinite = true) : (x.mul y).isFinite = true := by
  have hratio : ∀ x y : Binary64, ((x.ratio.1 * y.ratio.1 : Nat) : ℚ) / (x.ratio.2 * y.ratio.2 : Nat) =
      x.magnitude * y.magnitude := fun x y => by
    rw [Nat.cast_mul, Nat.cast_mul, mul_div_mul_comm, ratio_div, ratio_div]
  refine isFinite_ofRatio_of_le (Nat.mul_pos x.ratio_pos y.ratio_pos)
    (Nat.mul_pos x'.ratio_pos y'.ratio_pos) ?_ hfinite
  rw [hratio, hratio]
  exact mul_le_mul hx hy y.magnitude_nonneg x'.magnitude_nonneg

/-- A quotient by one or more is finite. -/
theorem isFinite_div (hx : x.isFinite = true) (hy : 1 ≤ y.magnitude) :
    (x.div y).isFinite = true := by
  have hpos : 0 < y.ratio.1 := by
    rw [← ratio_div] at hy
    rcases Nat.eq_zero_or_pos y.ratio.1 with hzero | hpos
    · rw [hzero, Nat.cast_zero, zero_div] at hy
      exact absurd hy (by norm_num)
    · exact hpos
  refine isFinite_ofRatio_of_le_largest (Nat.mul_pos x.ratio_pos hpos) ?_
  have hratio : ((x.ratio.1 * y.ratio.2 : Nat) : ℚ) / (x.ratio.2 * y.ratio.1 : Nat) =
      x.magnitude / y.magnitude := by
    rw [← ratio_div x, ← ratio_div y, div_div_div_eq, Nat.cast_mul, Nat.cast_mul]
  rw [hratio]
  exact (div_le_self x.magnitude_nonneg hy).trans (magnitude_le_largest hx)

/-! ## Natural numbers and powers of ten -/

theorem isFinite_ofNat {n : Nat} (h : n ≤ largest) : (ofNat n).isFinite = true :=
  isFinite_ofRatio_of_le_largest one_pos (by rwa [Nat.cast_one, div_one, Nat.cast_le])

/-- Natural numbers are rounded in order. -/
theorem magnitude_ofNat_mono {m n : Nat} (h : m ≤ n) (hn : n ≤ largest) :
    (ofNat m).magnitude ≤ (ofNat n).magnitude :=
  magnitude_ofRatio_mono one_pos one_pos (by simpa using h) (isFinite_ofNat hn)

theorem pow_ten_le_largest {k : Nat} (hk : k ≤ 308) : 10 ^ k ≤ largest :=
  (pow_le_pow_right₀ (by decide) hk).trans largest_bounds.1

/-- Divided by a power of ten, the largest number is still as large as another. -/
theorem pow_ten_le_div {j k : Nat} (h : j + k ≤ 308) : 10 ^ j ≤ largest / Nat.pow 10 k := by
  refine (Nat.le_div_iff_mul_le (Nat.pow_pos (by decide))).mpr ?_
  exact (pow_add 10 j k).symm.le.trans (pow_ten_le_largest h)

/-- What 64 bits hold is no larger than the largest number. -/
theorem size_le_largest : UInt64.size ≤ largest :=
  (by decide : UInt64.size ≤ 10 ^ 20).trans (pow_ten_le_largest (by decide))

/-- The powers of ten that are numbers are one or more. -/
theorem one_le_magnitude_powerOfTen {k : Nat} (hk : k ≤ 308) : 1 ≤ (powerOfTen k).magnitude := by
  have hone : (ofNat 1).magnitude = 1 := by
    have hparts : (ofNat 1).significand = 2 ^ 52 ∧ (ofNat 1).exponent = -52 := by decide
    rw [magnitude, hparts.1, hparts.2]
    norm_num
  rw [← hone]
  exact magnitude_ofNat_mono (Nat.one_le_pow _ _ (by decide)) (pow_ten_le_largest hk)

/-! ## Decimals -/

/-- A finite number times a negative power of ten is finite, in however many
steps. -/
theorem exists_scale_neg (steps : Nat) {exponent : Int} (he : exponent < 0)
    (hx : x.isFinite = true) : ∃ y, scale steps x exponent = some y ∧ y.isFinite = true := by
  induction steps generalizing x exponent with
  | zero => exact ⟨x, rfl, hx⟩
  | succ steps ih =>
    rw [scale]
    split
    · rename_i hsmall
      rw [if_neg (by omega)]
      exact ⟨_, rfl, isFinite_div hx (one_le_magnitude_powerOfTen hsmall)⟩
    · split
      · exact ⟨x, rfl, hx⟩
      · rw [if_neg (by omega)]
        exact ih (by omega) (isFinite_div hx (one_le_magnitude_powerOfTen le_rfl))

/-- **A decimal with a negative power of ten** is read. -/
theorem exists_ofDecimal_neg {significand : Nat} {exponent : Int} (hs : significand ≤ largest)
    (he : exponent < 0) : ∃ x, ofDecimal significand exponent = some x ∧ x.isFinite = true :=
  exists_scale_neg _ he (isFinite_ofNat hs)

/-- With the powers of ten that bring eighteen digits near to the limit, the
largest decimal that is no larger than the largest number is read. -/
theorem isFinite_mul_powerOfTen : ∀ k < 19,
    ((ofNat (min (10 ^ 18) (largest / Nat.pow 10 (290 + k)))).mul
      (powerOfTen (290 + k))).isFinite = true := by
  decide +kernel

/-- **A decimal of eighteen digits** that is no larger than the largest number
is read. -/
theorem exists_ofDecimal_nonneg {significand e : Nat} (hpos : 0 < significand)
    (hs : significand ≤ 10 ^ 18) (h : significand * 10 ^ e ≤ largest) :
    ∃ x, ofDecimal significand e = some x ∧ x.isFinite = true := by
  have he : e < 309 := by
    refine (pow_lt_pow_iff_right₀ (by decide : 1 < 10)).mp ?_
    exact ((Nat.le_mul_of_pos_left _ hpos).trans h).trans_lt largest_bounds.2
  -- below `10 ^ 290` eighteen digits are far from the limit
  obtain ⟨k, hk, hle, hmin⟩ : ∃ k < 19, e ≤ 290 + k ∧
      significand ≤ min (10 ^ 18) (largest / Nat.pow 10 (290 + k)) := by
    refine ⟨e - 290, by omega, by omega, le_min hs ?_⟩
    rcases le_or_gt e 290 with hsmall | hlarge
    · exact hs.trans (pow_ten_le_div (by omega))
    · rw [Nat.add_sub_of_le hlarge.le]
      exact (Nat.le_div_iff_mul_le (Nat.pow_pos (by decide))).mpr h
  have hsignificand : (ofNat significand).magnitude ≤
      (ofNat (min (10 ^ 18) (largest / Nat.pow 10 (290 + k)))).magnitude :=
    magnitude_ofNat_mono hmin ((min_le_right _ _).trans (Nat.div_le_self _ _))
  have hpower : (powerOfTen e).magnitude ≤ (powerOfTen (290 + k)).magnitude :=
    magnitude_ofNat_mono (Nat.pow_le_pow_right (by decide) hle) (pow_ten_le_largest (by omega))
  have hfinite := isFinite_mul_of_le hsignificand hpower (isFinite_mul_powerOfTen k hk)
  refine ⟨_, ?_, hfinite⟩
  rw [ofDecimal, scale, Int.natAbs_natCast, if_pos (by omega), if_pos (Int.natCast_nonneg e),
    Int.toNat_natCast, if_pos hfinite]

end StepGraph.Binary64
