import StepGraph.Binary64.Basic
import Mathlib.Tactic.Linarith
import Mathlib.Tactic.Ring
import Mathlib.Tactic.FieldSimp
import Mathlib.Tactic.Positivity
import Mathlib.Tactic.NormNum
import Mathlib.Data.Rat.Cast.Order
import Mathlib.Algebra.Order.Field.Power

/-!
# Rounding keeps the order

A quotient of natural numbers is rounded to a whole number of units, the unit
being a power of two that depends on how large the quotient is (`rounded`).
A larger quotient is never rounded to less (`rounded_mono`), and rounding
ends at a finite number exactly where fewer than `2 ^ 1024` come out
(`isFinite_ofRatio_iff`); the magnitude of that number is what came out
(`magnitude_ofRatio`). So a quotient that is no larger than one with a finite
result has a finite result (`isFinite_ofRatio_of_le`).
-/

namespace StepGraph.Binary64

variable {num den num' den' : Nat} {x y : Binary64}

/-! ## Powers of a base -/

/-- An integral power as a quotient of natural ones. -/
theorem zpow_eq_div {b : Nat} (hb : b ≠ 0) (k : Int) :
    (b : ℚ) ^ k = (b ^ k.toNat : Nat) / (b ^ (-k).toNat : Nat) := by
  have hb' : (b : ℚ) ≠ 0 := Nat.cast_ne_zero.mpr hb
  rw [Nat.cast_pow, Nat.cast_pow, ← zpow_natCast, ← zpow_natCast, ← zpow_sub₀ hb']
  congr 1
  omega

/-- A quotient is below an integral power when the products that have no
denominators are. -/
theorem mul_pow_lt_iff {b : Nat} (hb : 0 < b) (hden : 0 < den) (k : Int) :
    num * Nat.pow b (-k).toNat < den * Nat.pow b k.toNat ↔ (num : ℚ) / den < (b : ℚ) ^ k := by
  have hden' : (0 : ℚ) < den := Nat.cast_pos.mpr hden
  have hpow : (0 : ℚ) < (b ^ (-k).toNat : Nat) := Nat.cast_pos.mpr (Nat.pow_pos hb)
  rw [zpow_eq_div hb.ne', div_lt_div_iff₀ hden' hpow, mul_comm (_ : ℚ) (den : ℚ)]
  exact_mod_cast Iff.rfl

/-- An integral power is below a quotient when the products that have no
denominators are. -/
theorem lt_mul_pow_iff {b : Nat} (hb : 0 < b) (hden : 0 < den) (k : Int) :
    den * Nat.pow b k.toNat < num * Nat.pow b (-k).toNat ↔ (b : ℚ) ^ k < (num : ℚ) / den := by
  have hden' : (0 : ℚ) < den := Nat.cast_pos.mpr hden
  have hpow : (0 : ℚ) < (b ^ (-k).toNat : Nat) := Nat.cast_pos.mpr (Nat.pow_pos hb)
  rw [zpow_eq_div hb.ne', div_lt_div_iff₀ hpow hden', mul_comm _ (den : ℚ)]
  exact_mod_cast Iff.rfl

/-- The quotient in units of an integral power. -/
theorem scaled_div {b : Nat} (hb : b ≠ 0) (num den : Nat) (k : Int) :
    ((num * Nat.pow b (-k).toNat : Nat) : ℚ) / (den * Nat.pow b k.toNat : Nat) =
      num / den / (b : ℚ) ^ k := by
  have hup : ((b ^ k.toNat : Nat) : ℚ) ≠ 0 := Nat.cast_ne_zero.mpr (pow_ne_zero _ hb)
  have hdown : ((b ^ (-k).toNat : Nat) : ℚ) ≠ 0 := Nat.cast_ne_zero.mpr (pow_ne_zero _ hb)
  rw [zpow_eq_div hb, Nat.cast_mul, Nat.cast_mul, div_div_eq_mul_div, div_mul_eq_mul_div, div_div]
  rfl

/-- **The exponent of a quotient**, guessed from those of its parts: the
guess is right or one too large. -/
theorem exponent_spec {b m d : Nat} (hb : 1 < b) (hden : 0 < den) (hnum : b ^ m ≤ num)
    (hnum' : num < b ^ (m + 1)) (hden' : b ^ d ≤ den) (hden'' : den < b ^ (d + 1)) :
    let guess : Int := m - d
    let exponent := if num * Nat.pow b (-guess).toNat < den * Nat.pow b guess.toNat then guess - 1
      else guess
    (b : ℚ) ^ exponent ≤ (num : ℚ) / den ∧ (num : ℚ) / den < (b : ℚ) ^ (exponent + 1) := by
  intro guess exponent
  have hb0 : (0 : ℚ) < b := by exact_mod_cast Nat.zero_lt_of_lt hb
  have hq : (0 : ℚ) < den := Nat.cast_pos.mpr hden
  have hlow : (b : ℚ) ^ (guess - 1) ≤ (num : ℚ) / den := by
    have hsplit : (b : ℚ) ^ (guess - 1) * (b : ℚ) ^ (d + 1) = (b : ℚ) ^ m := by
      rw [← zpow_natCast, ← zpow_natCast, ← zpow_add₀ hb0.ne']
      congr 1
      push_cast
      omega
    rw [le_div_iff₀ hq]
    calc (b : ℚ) ^ (guess - 1) * den ≤ (b : ℚ) ^ (guess - 1) * (b : ℚ) ^ (d + 1) := by
          gcongr
          exact_mod_cast hden''.le
      _ = (b : ℚ) ^ m := hsplit
      _ ≤ num := by exact_mod_cast hnum
  have hhigh : (num : ℚ) / den < (b : ℚ) ^ (guess + 1) := by
    have hsplit : (b : ℚ) ^ (guess + 1) * (b : ℚ) ^ d = (b : ℚ) ^ (m + 1) := by
      rw [← zpow_natCast, ← zpow_natCast, ← zpow_add₀ hb0.ne']
      congr 1
      push_cast
      omega
    rw [div_lt_iff₀ hq]
    calc (num : ℚ) < (b : ℚ) ^ (m + 1) := by exact_mod_cast hnum'
      _ = (b : ℚ) ^ (guess + 1) * (b : ℚ) ^ d := hsplit.symm
      _ ≤ (b : ℚ) ^ (guess + 1) * den := by
          gcongr
          exact_mod_cast hden'
  by_cases hguess : num * Nat.pow b (-guess).toNat < den * Nat.pow b guess.toNat
  · have hexp : exponent = guess - 1 := if_pos hguess
    rw [hexp, sub_add_cancel]
    exact ⟨hlow, (mul_pow_lt_iff (Nat.zero_lt_of_lt hb) hden guess).mp hguess⟩
  · have hexp : exponent = guess := if_neg hguess
    rw [hexp]
    rw [mul_pow_lt_iff (Nat.zero_lt_of_lt hb) hden] at hguess
    exact ⟨not_lt.mp hguess, hhigh⟩

/-- The power of two just below a positive quotient. -/
theorem quotientLog2_spec (hnum : 0 < num) (hden : 0 < den) :
    (2 : ℚ) ^ quotientLog2 num den ≤ (num : ℚ) / den ∧
      (num : ℚ) / den < (2 : ℚ) ^ (quotientLog2 num den + 1) := by
  have h := exponent_spec (b := 2) one_lt_two hden (Nat.log2_self_le hnum.ne') Nat.lt_log2_self
    (Nat.log2_self_le hden.ne') Nat.lt_log2_self
  rw [Nat.cast_ofNat] at h
  exact h

/-! ## Rounding to whole numbers -/

/-- A quotient is rounded to the whole number below it or to the next. -/
theorem roundQuotient_mem (num den : Nat) :
    num / den ≤ roundQuotient num den ∧ roundQuotient num den ≤ num / den + 1 := by
  have heven := Nat.mod_lt (num / den) (by decide : 0 < 2)
  rw [roundQuotient]
  split <;> [skip; split] <;> omega

/-- **Rounding to a whole number keeps the order.** -/
theorem roundQuotient_mono (hden : 0 < den) (hden' : 0 < den')
    (h : (num : ℚ) / den ≤ num' / den') : roundQuotient num den ≤ roundQuotient num' den' := by
  have h : num * den' ≤ num' * den := by
    rw [div_le_div_iff₀ (Nat.cast_pos.mpr hden) (Nat.cast_pos.mpr hden')] at h
    exact_mod_cast h
  have hle : num / den ≤ num' / den' := by
    rw [Nat.le_div_iff_mul_le hden']
    refine Nat.le_of_mul_le_mul_right ?_ hden
    calc num / den * den' * den = num / den * den * den' := by ring
      _ ≤ num * den' := Nat.mul_le_mul_right _ (Nat.div_mul_le_self num den)
      _ ≤ num' * den := h
  rcases hle.lt_or_eq with hlt | heq
  · exact (roundQuotient_mem num den).2.trans (hlt.trans_le (roundQuotient_mem num' den').1)
  -- between the same two whole numbers the rests decide
  · have hrest : num % den * den' ≤ num' % den' * den := by
      have hn := Nat.div_add_mod num den
      have hn' := Nat.div_add_mod num' den'
      rw [← heq] at hn'
      rw [← hn, ← hn'] at h
      nlinarith
    have heven := Nat.mod_lt (num / den) (by decide : 0 < 2)
    by_cases hbelow : 2 * (num % den) < den
    · refine le_trans ?_ (roundQuotient_mem num' den').1
      rw [roundQuotient, if_pos hbelow, heq]
    · have hhalf : den' ≤ 2 * (num' % den') := by
        refine Nat.le_of_mul_le_mul_right ?_ hden
        nlinarith
      by_cases habove : den < 2 * (num % den)
      · have habove' : den' < 2 * (num' % den') := by
          refine Nat.lt_of_mul_lt_mul_right (a := den) ?_
          nlinarith
        rw [roundQuotient, roundQuotient, if_neg hbelow, if_pos habove,
          if_neg (not_lt.mpr hhalf), if_pos habove', heq]
      · rw [roundQuotient, roundQuotient, if_neg hbelow, if_neg habove,
          if_neg (not_lt.mpr hhalf), ← heq]
        split <;> omega

/-- A whole number is rounded to itself. -/
theorem roundQuotient_one (n : Nat) : roundQuotient n 1 = n := by
  simp [roundQuotient, Nat.mod_one]

theorem roundQuotient_le {n : Nat} (hden : 0 < den) (h : (num : ℚ) / den ≤ n) :
    roundQuotient num den ≤ n := by
  have hone : (num : ℚ) / den ≤ n / (1 : Nat) := by simpa using h
  have hmono := roundQuotient_mono hden one_pos hone
  rwa [roundQuotient_one] at hmono

theorem le_roundQuotient {n : Nat} (hden : 0 < den) (h : (n : ℚ) ≤ num / den) :
    n ≤ roundQuotient num den := by
  have hone : (n : ℚ) / (1 : Nat) ≤ num / den := by simpa using h
  have hmono := roundQuotient_mono one_pos hden hone
  rwa [roundQuotient_one] at hmono

/-! ## Rounding to units -/

/-- The unit that a quotient is rounded to, as a power of two. -/
def unitExponent (num den : Nat) : Int :=
  max (quotientLog2 num den - 52) (-1074)

/-- The whole number of units that come out. -/
def unitCount (num den : Nat) : Nat :=
  roundQuotient (num * Nat.pow 2 (-unitExponent num den).toNat)
    (den * Nat.pow 2 (unitExponent num den).toNat)

/-- **What a quotient is rounded to**, where exponents have no limit. -/
def rounded (num den : Nat) : ℚ :=
  unitCount num den * 2 ^ unitExponent num den

/-- A power of two, split at the place of a unit. -/
theorem two_pow_split (m : Nat) (n : Int) : (2 : ℚ) ^ (m + n) = ((2 ^ m : Nat) : ℚ) * 2 ^ n := by
  rw [zpow_add₀ two_ne_zero, zpow_natCast]
  push_cast
  rfl

theorem scaled_pos (hden : 0 < den) (k : Int) : 0 < den * Nat.pow 2 k.toNat :=
  Nat.mul_pos hden (Nat.pow_pos two_pos)

/-- No more than `2 ^ 53` units come out. -/
theorem unitCount_le (hnum : 0 < num) (hden : 0 < den) : unitCount num den ≤ 2 ^ 53 := by
  refine roundQuotient_le (scaled_pos hden _) ?_
  rw [scaled_div two_ne_zero, Nat.cast_ofNat, div_le_iff₀ (by positivity)]
  have hunit : quotientLog2 num den - 52 ≤ unitExponent num den := le_max_left _ _
  calc (num : ℚ) / den ≤ 2 ^ (quotientLog2 num den + 1) := (quotientLog2_spec hnum hden).2.le
    _ ≤ 2 ^ (53 + unitExponent num den) := zpow_le_zpow_right₀ one_le_two (by omega)
    _ = ((2 ^ 53 : Nat) : ℚ) * 2 ^ unitExponent num den := two_pow_split 53 _

/-- Unless the unit is the least one, `2 ^ 52` units come out at least. -/
theorem le_unitCount (hnum : 0 < num) (hden : 0 < den) (hunit : -1074 < unitExponent num den) :
    2 ^ 52 ≤ unitCount num den := by
  refine le_roundQuotient (scaled_pos hden _) ?_
  rw [scaled_div two_ne_zero, Nat.cast_ofNat, le_div_iff₀ (by positivity)]
  have hunit : unitExponent num den = quotientLog2 num den - 52 := by
    rw [unitExponent] at hunit ⊢
    omega
  calc ((2 ^ 52 : Nat) : ℚ) * 2 ^ unitExponent num den
      = 2 ^ (52 + unitExponent num den) := (two_pow_split 52 _).symm
    _ ≤ 2 ^ quotientLog2 num den := zpow_le_zpow_right₀ one_le_two (by omega)
    _ ≤ num / den := (quotientLog2_spec hnum hden).1

theorem neg_le_unitExponent (num den : Nat) : -1074 ≤ unitExponent num den :=
  le_max_right _ _

/-- The least unit has exponent bits zero, and of every other `2 ^ 52` come
out at least. -/
theorem exponentBits_eq_zero_or (hnum : 0 < num) (hden : 0 < den) :
    (unitExponent num den + 1074).toNat = 0 ∨ 2 ^ 52 ≤ unitCount num den := by
  rcases (neg_le_unitExponent num den).lt_or_eq with hlt | heq
  · exact .inr (le_unitCount hnum hden hlt)
  · exact .inl (by omega)

@[simp] theorem rounded_zero (den : Nat) : rounded 0 den = 0 := by
  simp [rounded, unitCount, roundQuotient]

theorem rounded_nonneg (num den : Nat) : 0 ≤ rounded num den := by
  rw [rounded]
  positivity

/-- **Rounding keeps the order.** -/
theorem rounded_mono (hden : 0 < den) (hden' : 0 < den') (h : (num : ℚ) / den ≤ num' / den') :
    rounded num den ≤ rounded num' den' := by
  rcases Nat.eq_zero_or_pos num with rfl | hnum
  · rw [rounded_zero]
    exact rounded_nonneg _ _
  have hnum' : 0 < num' := by
    have hpos : (0 : ℚ) < num' / den' := lt_of_lt_of_le (by positivity) h
    rcases Nat.eq_zero_or_pos num' with rfl | hnum'
    · simp at hpos
    · exact hnum'
  have hlog : quotientLog2 num den < quotientLog2 num' den' + 1 := by
    rw [← zpow_lt_zpow_iff_right₀ (one_lt_two (α := ℚ))]
    exact (quotientLog2_spec hnum hden).1.trans_lt
      (h.trans_lt (quotientLog2_spec hnum' hden').2)
  have hunit : unitExponent num den ≤ unitExponent num' den' := by
    rw [unitExponent, unitExponent]
    omega
  rcases hunit.lt_or_eq with hlt | heq
  -- a larger unit comes with so many units that what was rounded to the smaller one is less
  · have hcount := unitCount_le hnum hden
    have hcount' := le_unitCount hnum' hden' (lt_of_le_of_lt (neg_le_unitExponent _ _) hlt)
    calc rounded num den ≤ ((2 ^ 53 : Nat) : ℚ) * 2 ^ unitExponent num den := by
          rw [rounded]
          gcongr
      _ = ((2 ^ 52 : Nat) : ℚ) * 2 ^ (unitExponent num den + 1) := by
          rw [zpow_add_one₀ two_ne_zero]
          push_cast
          ring
      _ ≤ ((2 ^ 52 : Nat) : ℚ) * 2 ^ unitExponent num' den' := by
          gcongr
          · exact one_le_two
          · omega
      _ ≤ rounded num' den' := by
          rw [rounded]
          gcongr
  · rw [rounded, rounded, unitCount, unitCount, ← heq]
    gcongr
    refine roundQuotient_mono (scaled_pos hden _) (scaled_pos hden' _) ?_
    rw [scaled_div two_ne_zero, scaled_div two_ne_zero]
    gcongr

/-! ## The number that comes out -/

/-- The magnitude of a finite number. -/
def magnitude (x : Binary64) : ℚ :=
  x.significand * 2 ^ x.exponent

theorem magnitude_nonneg (x : Binary64) : 0 ≤ x.magnitude := by
  rw [magnitude]
  positivity

theorem ratio_pos (x : Binary64) : 0 < x.ratio.2 :=
  Nat.pow_pos two_pos

/-- The quotient of a finite number is its magnitude. -/
theorem ratio_div (x : Binary64) : (x.ratio.1 : ℚ) / x.ratio.2 = x.magnitude := by
  have hpow : (2 : ℚ) ^ x.exponent = _ := zpow_eq_div two_ne_zero x.exponent
  rw [magnitude, hpow, ratio, Nat.cast_mul, mul_div_assoc]
  rfl

theorem toNat_bits {n : Nat} (h : n < 2047 * leadingBit) :
    (Binary64.mk n.toUInt64).bits.toNat = n :=
  UInt64.toNat_ofNat_of_lt (lt_trans h (by decide))

/-- **Bits that spell units.** A number of units goes into the fraction bits,
and what does not fit there counts in the exponent bits. -/
theorem finite_of_bits {k units : Nat} (hle : units ≤ 2 ^ 53) (hk : k = 0 ∨ 2 ^ 52 ≤ units)
    (hbits : k * leadingBit + units < 2047 * leadingBit) :
    (Binary64.mk (k * leadingBit + units).toUInt64).isFinite = true ∧
      (Binary64.mk (k * leadingBit + units).toUInt64).magnitude =
        units * 2 ^ ((k : ℤ) - 1074) := by
  have hnat := toNat_bits hbits
  generalize Binary64.mk (k * leadingBit + units).toUInt64 = x at hnat
  rw [isFinite, magnitude, significand, exponent, biasedExponent, fraction, hnat, bne_iff_ne]
  simp only [leadingBit] at hbits ⊢
  rcases lt_or_ge units (2 ^ 52) with hsmall | hlarge
  -- the least unit
  · obtain rfl := hk.resolve_right (not_le.mpr hsmall)
    have hexp : (0 * 0x10000000000000 + units) / 0x10000000000000 % 2048 = 0 := by omega
    have hfraction : (0 * 0x10000000000000 + units) % 0x10000000000000 = units := by omega
    rw [hexp, hfraction, if_pos rfl]
    exact ⟨by decide, rfl⟩
  · rcases hle.lt_or_eq with hlt | rfl
    · have hexp : (k * 0x10000000000000 + units) / 0x10000000000000 % 2048 = k + 1 := by omega
      have hsum : 0x10000000000000 + (k * 0x10000000000000 + units) % 0x10000000000000 = units := by
        omega
      rw [hexp, if_neg (Nat.succ_ne_zero k), hsum]
      refine ⟨by omega, ?_⟩
      congr 2
      push_cast
      omega
    -- one unit more than fits makes the next exponent
    · have hexp : (k * 0x10000000000000 + 2 ^ 53) / 0x10000000000000 % 2048 = k + 2 := by omega
      have hsum : 0x10000000000000 + (k * 0x10000000000000 + 2 ^ 53) % 0x10000000000000 = 2 ^ 52 := by
        omega
      rw [hexp, if_neg (Nat.succ_ne_zero (k + 1)), hsum]
      refine ⟨by omega, ?_⟩
      have hpow : ((max (k + 2) 1 : Nat) : ℤ) - 1075 = ((k : ℤ) - 1074) + 1 := by
        push_cast
        omega
      rw [hpow, zpow_add_one₀ two_ne_zero]
      push_cast
      ring

/-- How many units come out, with the exponent bits of the unit. -/
theorem ofRatio_eq (hnum : 0 < num) (den : Nat) :
    ofRatio num den =
      if (unitExponent num den + 1074).toNat * leadingBit + unitCount num den < 2047 * leadingBit
      then ⟨((unitExponent num den + 1074).toNat * leadingBit + unitCount num den).toUInt64⟩
      else infinity := by
  rw [ofRatio, if_neg hnum.ne']
  rfl

theorem unitExponent_eq (num den : Nat) :
    unitExponent num den = ((unitExponent num den + 1074).toNat : ℤ) - 1074 := by
  have hunit := neg_le_unitExponent num den
  omega

/-- The units fit into the bits where fewer than `2 ^ 1024` come out. -/
theorem bits_lt_iff (hnum : 0 < num) (hden : 0 < den) :
    (unitExponent num den + 1074).toNat * leadingBit + unitCount num den < 2047 * leadingBit ↔
      rounded num den < 2 ^ 1024 := by
  have hle := unitCount_le hnum hden
  have hge := exponentBits_eq_zero_or hnum hden
  rw [rounded, unitExponent_eq]
  generalize (unitExponent num den + 1074).toNat = k at hge ⊢
  generalize unitCount num den = units at hle hge ⊢
  simp only [leadingBit]
  rcases lt_trichotomy k 2045 with hk | rfl | hk
  · refine iff_of_true (by omega) ?_
    calc (units : ℚ) * 2 ^ ((k : ℤ) - 1074) ≤ ((2 ^ 53 : Nat) : ℚ) * 2 ^ (970 : ℤ) := by
          gcongr
          · exact one_le_two
          · omega
      _ = 2 ^ (1023 : ℤ) := (two_pow_split 53 970).symm
      _ < 2 ^ 1024 := zpow_lt_zpow_right₀ (n := 1024) one_lt_two (by decide)
  · have hpow : (2 : ℚ) ^ 1024 = ((2 ^ 53 : Nat) : ℚ) * 2 ^ (((2045 : Nat) : ℤ) - 1074) :=
      two_pow_split 53 971
    rw [hpow, mul_lt_mul_iff_left₀ (by positivity), Nat.cast_lt]
    omega
  · have hlarge := hge.resolve_left (by omega)
    refine iff_of_false (by omega) (not_lt.mpr ?_)
    calc (2 : ℚ) ^ 1024 = ((2 ^ 52 : Nat) : ℚ) * 2 ^ (972 : ℤ) := two_pow_split 52 972
      _ ≤ (units : ℚ) * 2 ^ ((k : ℤ) - 1074) := by
          gcongr
          · exact one_le_two
          · omega

/-- **Rounding ends at a finite number** where fewer than `2 ^ 1024` come
out, and then at the number of that magnitude. -/
theorem isFinite_ofRatio_iff (hden : 0 < den) :
    ((ofRatio num den).isFinite = true ↔ rounded num den < 2 ^ 1024) ∧
      ((ofRatio num den).isFinite = true → (ofRatio num den).magnitude = rounded num den) := by
  rcases Nat.eq_zero_or_pos num with rfl | hnum
  · have hzero : ofRatio 0 den = zero := rfl
    rw [hzero, rounded_zero]
    refine ⟨iff_of_true (by decide) (by positivity), fun _ => ?_⟩
    simp [magnitude, zero, significand, biasedExponent, fraction]
  have hge := exponentBits_eq_zero_or hnum hden
  rw [← bits_lt_iff hnum hden, ofRatio_eq hnum]
  split
  · rename_i hbits
    obtain ⟨hfinite, hmagnitude⟩ := finite_of_bits (unitCount_le hnum hden) hge hbits
    refine ⟨iff_of_true hfinite hbits, fun _ => ?_⟩
    rw [hmagnitude, ← unitExponent_eq, rounded]
  · rename_i hbits
    exact ⟨iff_of_false (by decide) hbits, fun h => absurd h (by decide)⟩

theorem magnitude_ofRatio (hden : 0 < den) (h : (ofRatio num den).isFinite = true) :
    (ofRatio num den).magnitude = rounded num den :=
  (isFinite_ofRatio_iff hden).2 h

/-- **A quotient that is no larger** than one with a finite result has a
finite result. -/
theorem isFinite_ofRatio_of_le (hden : 0 < den) (hden' : 0 < den')
    (h : (num : ℚ) / den ≤ num' / den') (hfinite : (ofRatio num' den').isFinite = true) :
    (ofRatio num den).isFinite = true := by
  rw [(isFinite_ofRatio_iff hden).1]
  exact (rounded_mono hden hden' h).trans_lt ((isFinite_ofRatio_iff hden').1.mp hfinite)

/-- Results keep the order of the quotients. -/
theorem magnitude_ofRatio_mono (hden : 0 < den) (hden' : 0 < den')
    (h : (num : ℚ) / den ≤ num' / den') (hfinite : (ofRatio num' den').isFinite = true) :
    (ofRatio num den).magnitude ≤ (ofRatio num' den').magnitude := by
  rw [magnitude_ofRatio hden (isFinite_ofRatio_of_le hden hden' h hfinite),
    magnitude_ofRatio hden' hfinite]
  exact rounded_mono hden hden' h

end StepGraph.Binary64
