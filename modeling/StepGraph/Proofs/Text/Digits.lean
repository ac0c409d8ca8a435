import StepGraph.Text.Digits
import Mathlib.Data.Nat.Digits.Lemmas

/-!
# Characters of digits

A digit is written as a digit or a letter, so none of the characters in
front of the digits comes up in a number: no line feed and no hyphen
(`digitChar_ne`). The digits of a number spell it again
(`ofDigits_toDigits`), the first is not zero unless the number is
(`exists_toDigits_eq_cons`), and there are as many as the number is large
(`pow_length_toDigits_le`, `lt_pow_length_toDigits`).
-/

namespace StepGraph.Text

variable {c : Char} {base n : Nat}

/-- A character that is not the zero character has one code point. -/
theorem eq_toNat_of_ofNat_eq {n : Nat} (hc : 0 < c.toNat) (h : Char.ofNat n = c) :
    n = c.toNat := by
  by_cases hvalid : n.isValidChar
  · rw [Char.ofNat, dif_pos hvalid] at h
    exact congrArg Char.toNat h
  · rw [Char.ofNat, dif_neg hvalid] at h
    rw [← h] at hc
    exact absurd hc (by decide)

/-- **No digit is a character in front of the digits.** -/
theorem digitChar_ne (hc : 0 < c.toNat) (hlt : c.toNat < 48) (digit : Nat) :
    digitChar digit ≠ c := by
  intro h
  unfold digitChar at h
  split at h <;> have hcode := eq_toNat_of_ofNat_eq hc h <;> omega

/-- No such character is in a number in hexadecimal. -/
theorem not_mem_hexText (hc : 0 < c.toNat) (hlt : c.toNat < 48) (width n : Nat) :
    c ∉ (hexText width n).toList := by
  rw [hexText, String.toList_ofList, List.mem_append, List.mem_map]
  rintro (hzero | ⟨digit, -, h⟩)
  · rw [List.eq_of_mem_replicate hzero] at hlt
    exact absurd hlt (by decide)
  · exact digitChar_ne hc hlt digit h

/-! ## The digits of a number -/

theorem digitsOnto_eq (hbase : 1 < base) {fuel : Nat} (hfuel : 0 < fuel) (hn : n < 2 ^ fuel)
    (rest : List Nat) :
    digitsOnto base fuel n rest = (if n = 0 then [0] else (Nat.digits base n).reverse) ++ rest := by
  induction fuel generalizing n rest with
  | zero => cases hfuel
  | succ fuel ih =>
    rw [digitsOnto]
    by_cases hlt : n < base
    · rw [if_pos hlt]
      by_cases hzero : n = 0
      · rw [if_pos hzero, hzero, List.singleton_append]
      · rw [if_neg hzero, Nat.digits_of_lt base n hzero hlt]
        rfl
    · have hpos : 0 < n / base := Nat.div_pos (by omega) (by omega)
      have hquot : n / base < 2 ^ fuel := by
        rw [Nat.div_lt_iff_lt_mul (by omega)]
        calc n < 2 ^ fuel * 2 := by rwa [← Nat.pow_succ]
          _ ≤ 2 ^ fuel * base := Nat.mul_le_mul_left _ hbase
      have hfuel : 0 < fuel := by
        rcases Nat.eq_zero_or_pos fuel with rfl | hfuel
        · omega
        · exact hfuel
      have hn0 : n ≠ 0 := by omega
      rw [if_neg hlt, ih hfuel hquot, if_neg hpos.ne', if_neg hn0,
        Nat.digits_def' hbase (Nat.pos_of_ne_zero hn0), List.reverse_cons, List.append_assoc,
        List.singleton_append]

/-- **The digits of a number** are those of the library, the most
significant first. -/
theorem toDigits_eq (hbase : 1 < base) (n : Nat) :
    toDigits base n = if n = 0 then [0] else (Nat.digits base n).reverse := by
  rw [toDigits, digitsOnto_eq hbase (Nat.succ_pos _) Nat.lt_log2_self, List.append_nil]

theorem toDigits_ne_nil (hbase : 1 < base) (n : Nat) : toDigits base n ≠ [] := by
  rw [toDigits_eq hbase]
  split
  · exact List.cons_ne_nil _ _
  · rename_i hn
    simpa [Nat.digits_eq_nil_iff_eq_zero] using hn

theorem lt_of_mem_toDigits (hbase : 1 < base) {digit : Nat} (h : digit ∈ toDigits base n) :
    digit < base := by
  rw [toDigits_eq hbase] at h
  split at h
  · rw [List.mem_singleton.mp h]
    omega
  · exact Nat.digits_lt_base hbase (List.mem_reverse.mp h)

theorem ofDigits_eq (base : Nat) (digits : List Nat) :
    ofDigits base digits = Nat.ofDigits base digits.reverse := by
  rw [ofDigits, Nat.ofDigits_eq_foldr, List.foldr_reverse]
  congr 1
  funext n digit
  simp [Nat.add_comm]

/-- **The digits of a number spell it.** -/
theorem ofDigits_toDigits (hbase : 1 < base) (n : Nat) : ofDigits base (toDigits base n) = n := by
  rw [ofDigits_eq, toDigits_eq hbase]
  split
  · rename_i hn
    rw [hn]
    rfl
  · rw [List.reverse_reverse, Nat.ofDigits_digits]

/-- The first digit of a number other than zero is not zero. -/
theorem exists_toDigits_eq_cons (hbase : 1 < base) (hn : n ≠ 0) :
    ∃ digit rest, toDigits base n = digit :: rest ∧ digit ≠ 0 := by
  rw [toDigits_eq hbase, if_neg hn]
  have hnil : Nat.digits base n ≠ [] := by simpa [Nat.digits_eq_nil_iff_eq_zero] using hn
  refine ⟨(Nat.digits base n).getLast hnil, (Nat.digits base n).dropLast.reverse, ?_,
    Nat.getLast_digit_ne_zero base hn⟩
  rw [← List.reverse_concat, List.dropLast_append_getLast]

/-- A number is at least the power of the base with as many zeros as it has
digits behind the first. -/
theorem pow_length_toDigits_le (hbase : 1 < base) (hn : n ≠ 0) :
    base ^ ((toDigits base n).length - 1) ≤ n := by
  rw [toDigits_eq hbase, if_neg hn, List.length_reverse, Nat.length_digits base n hbase hn,
    Nat.add_sub_cancel]
  exact Nat.pow_log_le_self base hn

/-- A number is below the power of the base with as many zeros as it has
digits. -/
theorem lt_pow_length_toDigits (hbase : 1 < base) (n : Nat) :
    n < base ^ (toDigits base n).length := by
  rw [toDigits_eq hbase]
  split
  · rename_i hn
    rw [hn]
    simpa using Nat.zero_lt_of_lt hbase
  · rw [List.length_reverse]
    exact Nat.lt_base_pow_length_digits hbase

/-! ## Reading digits -/

theorem isDigit_digitChar {digit : Nat} (h : digit < 10) : (digitChar digit).isDigit = true := by
  decide +revert

theorem digitValue_digitChar {digit : Nat} (h : digit < 10) :
    digitValue (digitChar digit) = digit := by
  decide +revert

end StepGraph.Text
