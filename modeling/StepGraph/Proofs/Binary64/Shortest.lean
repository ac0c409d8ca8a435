import StepGraph.Binary64.Shortest
import StepGraph.Proofs.Binary64.Decimal
import StepGraph.Proofs.Text.Digits

/-!
# The digits that are written

The search for the shortest decimal goes from grid to grid and ends at the
latest on the eighteenth, which is finer than the interval is wide. So the
decimal that is written has digits, no more than eighteen of them, and lies
in the rounding interval of its number (`shortest_spec`). No such decimal is
larger than the largest number (`shortest_le_largest`).
-/

namespace StepGraph.Binary64

/-! ## Grids -/

namespace RoundingInterval

variable {i : RoundingInterval} {tie : Tie} {d : Nat} {k : Int}

/-- An interval around its value that reaches above it by more than the
`2 ^ 54`th part of the value. -/
structure Proper (i : RoundingInterval) : Prop where
  den_pos : 0 < i.den
  low_pos : 0 < i.low
  low_lt : i.low < i.value
  lt_high : i.value < i.high
  wide : i.value ≤ 2 ^ 54 * (i.high - i.value)

theorem inUnits_den_pos (h : i.Proper) (k : Int) : 0 < (i.inUnits k).den :=
  Nat.mul_pos h.den_pos (Nat.pow_pos (by decide))

/-- A point of the interval is not outside its ends. -/
theorem le_of_contains {point : Nat} (h : i.contains point = true) :
    i.low ≤ point ∧ point ≤ i.high := by
  rw [contains] at h
  split at h <;> simp only [Bool.and_eq_true, decide_eq_true_eq] at h <;> omega

theorem contains_of_lt {point : Nat} (hlow : i.low < point) (hhigh : point < i.high) :
    i.contains point = true := by
  rw [contains]
  split <;> simp only [Bool.and_eq_true, decide_eq_true_eq] <;> omega

/-- **What is found on a grid** lies in the interval and is one of the two
neighbours of the value. -/
theorem of_gridPoint? (h : i.gridPoint? tie = some d) :
    i.contains (d * i.den) = true ∧ d ≤ i.value / i.den + 1 := by
  unfold gridPoint? at h
  dsimp only at h
  split at h
  · rename_i hbelow habove
    obtain rfl := Option.some.inj h
    -- both neighbours are inside, and the nearer one is one of them
    have heven := Nat.mod_lt (i.value / i.den) (by decide : 0 < 2)
    have hnearer : ∀ n, n = i.value / i.den ∨ n = i.value / i.den + 1 →
        i.contains (n * i.den) = true ∧ n ≤ i.value / i.den + 1 := by
      rintro n (rfl | rfl)
      · exact ⟨hbelow, Nat.le_succ _⟩
      · exact ⟨habove, le_rfl⟩
    refine hnearer _ ?_
    split <;> [skip; split <;> [skip; split]] <;> omega
  · rename_i hbelow _
    obtain rfl := Option.some.inj h
    exact ⟨hbelow, Nat.le_succ _⟩
  · rename_i _ habove
    obtain rfl := Option.some.inj h
    exact ⟨habove, le_rfl⟩
  · cases h

/-- Something is found where the next point above the value is inside. -/
theorem exists_gridPoint? (tie : Tie)
    (h : i.contains ((i.value / i.den + 1) * i.den) = true) : ∃ d, i.gridPoint? tie = some d := by
  unfold gridPoint?
  dsimp only
  rw [h]
  split
  · exact ⟨_, rfl⟩
  · exact ⟨_, rfl⟩
  · exact ⟨_, rfl⟩
  · rename_i habove
    cases habove

/-- A grid finer than the interval is wide has a point in it. -/
theorem exists_gridPoint?_of_lt (h : i.Proper) (tie : Tie)
    (hk : (10 : ℚ) ^ k < (i.high - i.value : Nat) / i.den) :
    ∃ d, (i.inUnits k).gridPoint? tie = some d := by
  refine exists_gridPoint? tie (contains_of_lt ?_ ?_)
  · have hlow : (i.inUnits k).low < (i.inUnits k).value :=
      Nat.mul_lt_mul_of_pos_right h.low_lt (Nat.pow_pos (by decide))
    rw [Nat.mul_comm]
    exact hlow.trans (Nat.lt_mul_div_succ _ (inUnits_den_pos h k))
  · have hfine : i.den * Nat.pow 10 k.toNat < (i.high - i.value) * Nat.pow 10 (-k).toNat := by
      rw [lt_mul_pow_iff (by decide) h.den_pos]
      exact_mod_cast hk
    have habove : (i.inUnits k).value / (i.inUnits k).den * (i.inUnits k).den ≤
        (i.inUnits k).value := Nat.div_mul_le_self _ _
    rw [Nat.sub_mul] at hfine
    rw [Nat.succ_mul]
    simp only [inUnits] at habove hfine ⊢
    omega

/-- A point that is found is no larger than the upper end. -/
theorem mul_zpow_le (h : i.Proper) (hd : (i.inUnits k).gridPoint? tie = some d) :
    (d : ℚ) * 10 ^ k ≤ i.high / i.den := by
  have hle := (le_of_contains (of_gridPoint? hd).1).2
  have hden : (0 : ℚ) < (i.inUnits k).den := Nat.cast_pos.mpr (inUnits_den_pos h k)
  have hhigh := scaled_div (b := 10) (by decide) i.high i.den k
  rw [← le_div_iff₀ (by positivity)]
  calc (d : ℚ) = (d * (i.inUnits k).den : Nat) / (i.inUnits k).den := by
        rw [Nat.cast_mul, mul_div_cancel_right₀ _ hden.ne']
    _ ≤ (i.inUnits k).high / (i.inUnits k).den := by gcongr
    _ = i.high / i.den / 10 ^ k := by exact_mod_cast hhigh

/-- A point that is found is not zero. -/
theorem pos_of_gridPoint? (h : i.Proper) (hd : (i.inUnits k).gridPoint? tie = some d) :
    0 < d := by
  have hle := (le_of_contains (of_gridPoint? hd).1).1
  have hlow : 0 < (i.inUnits k).low := Nat.mul_pos h.low_pos (Nat.pow_pos (by decide))
  exact Nat.pos_of_mul_pos_right (hlow.trans_le hle)

end RoundingInterval

/-! ## The search -/

variable {i : RoundingInterval} {tie : Tie} {x y : Binary64}

/-- The power of ten of the first digit of a positive quotient. -/
theorem firstDigitExponent_spec {num den : Nat} (hnum : 0 < num) (hden : 0 < den) :
    (10 : ℚ) ^ firstDigitExponent num den ≤ (num : ℚ) / den ∧
      (num : ℚ) / den < (10 : ℚ) ^ (firstDigitExponent num den + 1) := by
  have hlength : ∀ n, 0 < n → ∃ m, (Text.toDigits 10 n).length = m + 1 ∧ 10 ^ m ≤ n ∧
      n < 10 ^ (m + 1) := fun n hn => by
    have hpos := List.length_pos_iff.mpr (Text.toDigits_ne_nil (by decide : 1 < 10) n)
    have hle := Text.pow_length_toDigits_le (by decide : 1 < 10) hn.ne'
    have hlt := Text.lt_pow_length_toDigits (by decide : 1 < 10) n
    refine ⟨(Text.toDigits 10 n).length - 1, by omega, hle, ?_⟩
    rwa [Nat.sub_add_cancel hpos]
  obtain ⟨m, hm, hle, hlt⟩ := hlength num hnum
  obtain ⟨d, hd, hle', hlt'⟩ := hlength den hden
  have h := exponent_spec (by decide : 1 < 10) hden hle hlt hle' hlt'
  have hguess : ((m + 1 : Nat) : ℤ) - ((d + 1 : Nat) : ℤ) = m - d := by omega
  rw [Nat.cast_ofNat] at h
  rw [firstDigitExponent, hm, hd, hguess]
  exact h

/-- The search ends on the first grid that has a point in the interval. -/
theorem exists_searchGrid {fuel n : Nat} (hn : n < fuel) {exponent : Int}
    (h : ∃ d, (i.inUnits (exponent - n)).gridPoint? tie = some d) :
    ∃ k ≤ n, ∃ d, (i.inUnits (exponent - k)).gridPoint? tie = some d ∧
      searchGrid i tie fuel exponent = ⟨d, exponent - k⟩ := by
  induction fuel generalizing n exponent with
  | zero => cases hn
  | succ fuel ih =>
    rw [searchGrid]
    cases hgrid : (i.inUnits exponent).gridPoint? tie with
    | some d => exact ⟨0, Nat.zero_le _, d, by simpa using hgrid, by simp⟩
    | none =>
      obtain _ | n := n
      · obtain ⟨d, hd⟩ := h
        rw [Nat.cast_zero, sub_zero, hgrid] at hd
        cases hd
      · have hnext : exponent - ((n + 1 : Nat) : ℤ) = exponent - 1 - n := by omega
        rw [hnext] at h
        obtain ⟨k, hk, d, hd, hsearch⟩ := ih (Nat.lt_of_succ_lt_succ hn) h
        have hk' : exponent - 1 - (k : ℤ) = exponent - ((k + 1 : Nat) : ℤ) := by omega
        exact ⟨k + 1, Nat.succ_le_succ hk, d, hk' ▸ hd, hk' ▸ hsearch⟩

/-- **The decimal that the search ends with** has no more than eighteen digits
and is no larger than the upper end of the interval. -/
theorem searchGrid_spec (h : i.Proper) (tie : Tie) :
    let d := searchGrid i tie 18 (firstDigitExponent i.value i.den)
    0 < d.digits ∧ d.digits ≤ 10 ^ 18 ∧ (d.digits : ℚ) * 10 ^ d.exponent ≤ i.high / i.den := by
  have hvalue : 0 < i.value := h.low_pos.trans h.low_lt
  have hden : (0 : ℚ) < i.den := Nat.cast_pos.mpr h.den_pos
  obtain ⟨hle, hlt⟩ := firstDigitExponent_spec hvalue h.den_pos
  generalize firstDigitExponent i.value i.den = first at hle hlt ⊢
  intro decimal
  -- the eighteenth grid is finer than the interval is wide
  have hfine : (10 : ℚ) ^ (first - 17) < (i.high - i.value : Nat) / i.den := by
    have hwide : (i.value : ℚ) ≤ 2 ^ 54 * (i.high - i.value : Nat) := by exact_mod_cast h.wide
    have hpos : (0 : ℚ) < 10 ^ (first - 17) := by positivity
    have hsplit : (10 : ℚ) ^ first = 10 ^ 17 * 10 ^ (first - 17) := by
      rw [← zpow_natCast, ← zpow_add₀ (by norm_num)]
      congr 1
      push_cast
      omega
    rw [le_div_iff₀ hden, hsplit] at hle
    rw [lt_div_iff₀ hden]
    nlinarith
  have hfound : ∃ d, (i.inUnits (first - (17 : Nat))).gridPoint? tie = some d :=
    RoundingInterval.exists_gridPoint?_of_lt h tie hfine
  obtain ⟨k, hk, d, hd, hsearch⟩ := exists_searchGrid (by decide : 17 < 18) hfound
  have hdecimal : decimal = ⟨d, first - k⟩ := hsearch
  rw [hdecimal]
  refine ⟨RoundingInterval.pos_of_gridPoint? h hd, ?_, RoundingInterval.mul_zpow_le h hd⟩
  -- on the grid after `k` steps the value has `k + 1` digits before the point
  have hunits : (i.inUnits (first - k)).value / (i.inUnits (first - k)).den < 10 ^ 18 := by
    have hscaled := scaled_div (b := 10) (by decide) i.value i.den (first - k)
    have hpos : (0 : ℚ) < (i.inUnits (first - k)).den :=
      Nat.cast_pos.mpr (RoundingInterval.inUnits_den_pos h _)
    rw [Nat.div_lt_iff_lt_mul (RoundingInterval.inUnits_den_pos h _)]
    have hquotient : ((i.inUnits (first - k)).value : ℚ) / (i.inUnits (first - k)).den < 10 ^ 18 :=
      calc ((i.inUnits (first - k)).value : ℚ) / (i.inUnits (first - k)).den
          = i.value / i.den / 10 ^ (first - k : ℤ) := by exact_mod_cast hscaled
        _ < 10 ^ (first + 1) / 10 ^ (first - k : ℤ) := by gcongr
        _ = 10 ^ ((k + 1 : Nat) : ℤ) := by
          rw [← zpow_sub₀ (by norm_num)]
          congr 1
          push_cast
          omega
        _ ≤ 10 ^ ((18 : Nat) : ℤ) := zpow_le_zpow_right₀ (by norm_num) (by omega)
        _ = 10 ^ 18 := zpow_natCast _ _
    rw [div_lt_iff₀ hpos] at hquotient
    exact_mod_cast hquotient
  exact (RoundingInterval.of_gridPoint? hd).2.trans hunits

/-- Zeros at the end go over into the exponent. -/
theorem stripZeros_spec (fuel : Nat) (d : Decimal) (hpos : 0 < d.digits) :
    let stripped := Decimal.stripZeros fuel d
    0 < stripped.digits ∧ stripped.digits ≤ d.digits ∧
      (stripped.digits : ℚ) * 10 ^ stripped.exponent = d.digits * 10 ^ d.exponent := by
  induction fuel generalizing d with
  | zero => exact ⟨hpos, le_rfl, rfl⟩
  | succ fuel ih =>
    intro stripped
    by_cases hzero : d.digits % 10 = 0
    · have hpos' : 0 < d.digits / 10 := by omega
      have hstripped : stripped = Decimal.stripZeros fuel ⟨d.digits / 10, d.exponent + 1⟩ := by
        rw [show stripped = Decimal.stripZeros (fuel + 1) d from rfl, Decimal.stripZeros, if_pos hzero]
      obtain ⟨hpos'', hle, hvalue⟩ := ih ⟨d.digits / 10, d.exponent + 1⟩ hpos'
      have hdigits : (d.digits : ℚ) = (d.digits / 10 : Nat) * 10 := by
        exact_mod_cast (Nat.div_mul_cancel (Nat.dvd_of_mod_eq_zero hzero)).symm
      rw [hstripped]
      refine ⟨hpos'', hle.trans (Nat.div_le_self _ _), ?_⟩
      rw [hvalue, hdigits, zpow_add_one₀ (by norm_num)]
      ring
    · have hstripped : stripped = d := by
        rw [show stripped = Decimal.stripZeros (fuel + 1) d from rfl, Decimal.stripZeros, if_neg hzero]
      rw [hstripped]
      exact ⟨hpos, le_rfl, rfl⟩

/-! ## The shortest decimal -/

theorem significand_pos (hx : x.isZero = false) : 0 < x.significand := by
  rw [isZero, Bool.and_eq_false_iff, beq_eq_false_iff_ne, beq_eq_false_iff_ne] at hx
  rw [significand]
  split
  · rename_i hbiased
    exact Nat.pos_of_ne_zero (hx.resolve_left (not_not.mpr hbiased))
  · exact Nat.add_pos_left (by decide) _

/-- The rounding interval of a number is one. -/
theorem proper_roundingInterval (hx : x.isZero = false) : x.roundingInterval.Proper := by
  have hpos := significand_pos hx
  have hlt := significand_lt x
  have hscale : 0 < Nat.pow 2 x.exponent.toNat := Nat.pow_pos (by decide)
  have hbelow : (if x.significand = leadingBit ∧ 1 < x.biasedExponent then 1 else 2) ≤ 2 ∧
      0 < (if x.significand = leadingBit ∧ 1 < x.biasedExponent then 1 else 2) := by
    split <;> omega
  rw [roundingInterval]
  generalize (if x.significand = leadingBit ∧ 1 < x.biasedExponent then 1 else 2) = below at hbelow
  refine ⟨Nat.mul_pos (by decide) (Nat.pow_pos (by decide)), Nat.mul_pos (by omega) hscale,
    Nat.mul_lt_mul_of_pos_right (by omega) hscale, Nat.mul_lt_mul_of_pos_right (by omega) hscale, ?_⟩
  dsimp only
  rw [← Nat.sub_mul, ← Nat.mul_assoc]
  exact Nat.mul_le_mul_right _ (by omega)

/-- The upper end of the interval is half a unit above the number. -/
theorem high_roundingInterval (x : Binary64) :
    (x.roundingInterval.high : ℚ) / x.roundingInterval.den =
      (x.significand + 1 / 2) * 2 ^ x.exponent := by
  have hpow : (2 : ℚ) ^ x.exponent = _ := zpow_eq_div two_ne_zero x.exponent
  have hden : ((2 ^ (-x.exponent).toNat : Nat) : ℚ) ≠ 0 := by positivity
  rw [hpow, roundingInterval]
  simp only [Nat.pow_eq, Nat.cast_mul, Nat.cast_add, Nat.cast_ofNat]
  field_simp
  ring

/-- **The shortest decimal** of a number other than zero has no more than
eighteen digits and is no larger than the upper end of the interval. -/
theorem shortest_spec (hx : x.isZero = false) (tie : Tie) :
    0 < (x.shortest tie).digits ∧ (x.shortest tie).digits ≤ 10 ^ 18 ∧
      ((x.shortest tie).digits : ℚ) * 10 ^ (x.shortest tie).exponent ≤
        (x.significand + 1 / 2) * 2 ^ x.exponent := by
  obtain ⟨hpos, hle, hhigh⟩ := searchGrid_spec (proper_roundingInterval hx) tie
  obtain ⟨hpos', hle', hvalue⟩ := stripZeros_spec 18 _ hpos
  rw [high_roundingInterval] at hhigh
  exact ⟨hpos', hle'.trans hle, hvalue.trans_le hhigh⟩

/-- The sign does not go into the shortest decimal. -/
theorem shortest_congr (hsignificand : x.significand = y.significand)
    (hbiased : x.biasedExponent = y.biasedExponent) (tie : Tie) :
    x.shortest tie = y.shortest tie := by
  rw [shortest, shortest, roundingInterval, roundingInterval, exponent, exponent, hsignificand,
    hbiased]

/-- A decimal without places behind the point, compared as a natural number. -/
theorem mul_zpow_le_iff (d e n : Nat) : (d : ℚ) * 10 ^ (e : ℤ) ≤ n ↔ d * 10 ^ e ≤ n := by
  rw [zpow_natCast]
  exact_mod_cast Iff.rfl

/-- The largest number is written with seventeen digits, cut off below it. -/
theorem shortest_largest : shortest ⟨0x7fefffffffffffff⟩ .toEven = ⟨17976931348623157, 292⟩ := by
  decide +kernel

/-- **No shortest decimal is larger than the largest number.** -/
theorem shortest_le_largest (hx : x.isFinite = true) (hzero : x.isZero = false) :
    ((x.shortest .toEven).digits : ℚ) * 10 ^ (x.shortest .toEven).exponent ≤ largest := by
  have hlt := significand_lt x
  have hexponent := exponent_le hx
  have hlargest : (largest : ℚ) = (2 ^ 53 - 1) * 2 ^ (971 : ℤ) := by
    rw [largest, Nat.cast_mul, Nat.cast_pow, ← zpow_natCast]
    norm_num
  by_cases hmax : x.significand = 2 ^ 53 - 1 ∧ x.exponent = 971
  -- the interval of the largest number reaches beyond it, but its decimal lies below
  · have hbiased : x.biasedExponent = 2046 := by
      have hexp := hmax.2
      rw [exponent] at hexp
      omega
    rw [shortest_congr (y := ⟨0x7fefffffffffffff⟩) (hmax.1.trans (by decide))
      (hbiased.trans (by decide)), shortest_largest]
    exact (mul_zpow_le_iff 17976931348623157 292 largest).mpr (by decide +kernel)
  · refine (shortest_spec hzero .toEven).2.2.trans ?_
    rw [hlargest]
    rcases hexponent.lt_or_eq with hsmall | heq
    · have hsignificand : (x.significand : ℚ) ≤ 2 ^ 53 - 1 := by
        have hle : x.significand + 1 ≤ 2 ^ 53 := hlt
        have hcast : ((x.significand + 1 : Nat) : ℚ) ≤ (2 ^ 53 : Nat) := Nat.cast_le.mpr hle
        push_cast at hcast
        linarith
      calc ((x.significand : ℚ) + 1 / 2) * 2 ^ x.exponent ≤ (2 ^ 53 - 1 + 1 / 2) * 2 ^ (970 : ℤ) := by
            gcongr
            · exact one_le_two
            · omega
        _ ≤ (2 ^ 53 - 1) * 2 * 2 ^ (970 : ℤ) := by
            gcongr
            norm_num
        _ = (2 ^ 53 - 1) * 2 ^ (971 : ℤ) := by
            rw [mul_assoc, mul_comm (2 : ℚ), ← zpow_add_one₀ two_ne_zero]
            rfl
    · have hsignificand : (x.significand : ℚ) ≤ 2 ^ 53 - 2 := by
        have hle : x.significand + 2 ≤ 2 ^ 53 := by
          have hne : x.significand ≠ 2 ^ 53 - 1 := fun h => hmax ⟨h, heq⟩
          omega
        have hcast : ((x.significand + 2 : Nat) : ℚ) ≤ (2 ^ 53 : Nat) := Nat.cast_le.mpr hle
        push_cast at hcast
        linarith
      rw [heq]
      gcongr
      linarith

end StepGraph.Binary64
