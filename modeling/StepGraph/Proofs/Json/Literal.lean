import StepGraph.Json.Printer
import StepGraph.Proofs.Binary64.Shortest
import StepGraph.Proofs.Json.Number

/-!
# The literals of numbers

The literal that a number is written as (`Number.literal`) is one that JSON
allows, so it is read back, and it has a value: that of an integer is the
integer, and that of a finite binary64 number is finite again
(`Number.number?_literal`). This may be another number, since reading rounds
more than once (`Number.reread`). A literal whose digits make a number of 64
bits is read as the decimal it spells (`real?_eq`), so what has to be known of
a layout is its significand and its power of ten.
-/

namespace StepGraph.Json

open Text (digitChar)

variable {negative : Bool} {digits : List Nat} {places : Nat} {exponent first : Int}
variable {l : NumberLiteral} {x : Binary64}

/-! ## The decimal of a literal -/

theorem ofDigits_append (digits more : List Nat) :
    Text.ofDigits 10 (digits ++ more) =
      Text.ofDigits 10 digits * 10 ^ more.length + Text.ofDigits 10 more := by
  rw [Text.ofDigits_eq, Text.ofDigits_eq, Text.ofDigits_eq, List.reverse_append,
    Nat.ofDigits_append, List.length_reverse]
  ring

theorem ofDigits_zeros (k : Nat) : Text.ofDigits 10 (List.replicate k 0) = 0 := by
  rw [Text.ofDigits_eq, List.reverse_replicate, Nat.ofDigits_replicate_zero]

/-- More digits do not make a number smaller. -/
theorem le_foldl_digits (n : Nat) (digits : List Nat) :
    n ≤ digits.foldl (fun n digit => 10 * n + digit) n := by
  induction digits generalizing n with
  | nil => exact le_rfl
  | cons digit rest ih => exact (show n ≤ 10 * n + digit by omega).trans (ih _)

/-- Digits that make a number below `2 ^ 64` are all taken. -/
theorem takeDigits_eq {n : Nat} (h : digits.foldl (fun n digit => 10 * n + digit) n < UInt64.size) :
    takeDigits n digits = (digits.foldl (fun n digit => 10 * n + digit) n, 0) := by
  induction digits generalizing n with
  | nil => rfl
  | cons digit rest ih =>
    have hstep : n * 10 + digit = 10 * n + digit := by omega
    rw [List.foldl_cons] at h
    rw [takeDigits, hstep, if_pos ((le_foldl_digits _ rest).trans_lt h), ih h, List.foldl_cons]

namespace NumberLiteral

/-- The digits on both sides of the point, as one number. -/
def significand (l : NumberLiteral) : Nat :=
  Text.ofDigits 10 (l.whole ++ l.fraction.getD [])

/-- The power of ten that goes with `significand`. -/
def scale (l : NumberLiteral) : Int :=
  l.exponent.getD 0 - (l.fraction.getD []).length

/-- **A literal is read as the decimal it spells** when 64 bits hold its
significand. -/
theorem real?_eq (h : l.significand < UInt64.size) :
    l.real? = (Binary64.ofDecimal l.significand l.scale).map
      fun x => if l.negative then x.neg else x := by
  rw [significand, Text.ofDigits, List.foldl_append] at h ⊢
  rw [real?, takeDigits_eq ((le_foldl_digits _ _).trans_lt h)]
  dsimp only
  rw [takeDigits_eq h, scale]
  congr 2
  push_cast
  omega

/-- **A literal with a point or an exponent has a value** when its decimal is
read as a finite number. -/
theorem exists_number? (hreal : l.fraction.isSome = true ∨ l.exponent.isSome = true)
    (hsize : l.significand < UInt64.size)
    (hread : ∃ x, Binary64.ofDecimal l.significand l.scale = some x ∧ x.isFinite = true) :
    ∃ y hy, l.number? = some (.real y hy) := by
  obtain ⟨x, hx, hfinite⟩ := hread
  have hinteger : l.integer? = none := by
    rw [integer?, if_pos (by simpa using hreal)]
  have hsigned : (if l.negative then x.neg else x).isFinite = true := by
    split
    · rwa [Binary64.isFinite_neg]
    · exact hfinite
  refine ⟨_, hsigned, ?_⟩
  rw [number?, hinteger]
  dsimp only
  rw [real?_eq hsize, hx, Option.map_some, Option.bind_some, dif_pos hsigned]

/-! ## Layouts -/

/-- The literal of digits with a point in front of the last `places` of
them. -/
def pointed (negative : Bool) (digits : List Nat) (places : Nat) : NumberLiteral :=
  ⟨negative, digits.take (digits.length - places), some (digits.drop (digits.length - places)),
    none⟩

/-- The literal of a decimal that is laid out without an exponent. -/
def positional (negative : Bool) (digits : List Nat) (exponent : Int) : NumberLiteral :=
  if exponent < 0 then
    pointed negative (List.replicate (exponent.natAbs + 1 - digits.length) 0 ++ digits)
      exponent.natAbs
  else pointed negative (digits ++ List.replicate exponent.toNat 0 ++ [0]) 1

/-- The literal of a decimal with the exponent of its first digit. -/
def scientific (negative : Bool) (digits : List Nat) (first : Int) : NumberLiteral :=
  ⟨negative, digits.take 1, if digits.length ≤ 1 then none else some (digits.drop 1), some first⟩

/-! ### How they are spelt -/

/-- A point in front of the last digit. -/
theorem pointed_concat (negative : Bool) (digits : List Nat) (digit : Nat) :
    pointed negative (digits ++ [digit]) 1 = ⟨negative, digits, some [digit], none⟩ := by
  simp [pointed]

theorem spelling_positional (negative : Bool) (digits : List Nat) (exponent : Int) :
    (positional negative digits exponent).spelling =
      (if negative then ['-'] else []) ++
        Binary64.jsonNotation.positional (digits.map digitChar) exponent := by
  have hzeros : ∀ k, (List.replicate k 0).map digitChar = List.replicate k '0' :=
    fun k => List.map_replicate
  rw [positional, Binary64.Notation.positional]
  split
  · rw [pointed, Binary64.pointed]
    simp [spelling, fractionText, exponentText, hzeros, List.map_take, List.map_drop]
  · rw [pointed_concat]
    simp [spelling, fractionText, exponentText, hzeros, Binary64.jsonNotation, digitChar]

theorem spelling_scientific (negative : Bool) (digits : List Nat) (first : Int) :
    (scientific negative digits first).spelling =
      (if negative then ['-'] else []) ++
        Binary64.jsonNotation.scientific (digits.map digitChar) first := by
  rw [scientific, Binary64.Notation.scientific, spelling]
  congr 1
  rw [← List.map_drop, ← List.map_take]
  by_cases hlength : digits.length ≤ 1
  · have hnil : digits.drop 1 = [] := List.drop_eq_nil_of_le hlength
    simp [hlength, hnil, fractionText, exponentText, Binary64.jsonNotation]
  · obtain ⟨digit, more, hmore⟩ := List.exists_cons_of_ne_nil
      (mt List.drop_eq_nil_iff.mp hlength)
    simp [hlength, hmore, fractionText, exponentText, Binary64.jsonNotation]

/-! ### That JSON allows them -/

/-- Digits on both sides of the point make a literal that JSON allows, when
one alone or none but a zero stands before it first. -/
theorem wellSpelt_pointed (hplaces : 0 < places) (hlength : places < digits.length)
    (hlt : ∀ digit ∈ digits, digit < 10)
    (hzero : digits.length = places + 1 ∨ digits.head? ≠ some 0) :
    (pointed negative digits places).WellSpelt where
  whole_ne_nil := by
    rw [pointed, Ne, List.take_eq_nil_iff, ← List.length_eq_zero_iff]
    omega
  whole_lt digit h := hlt digit (List.mem_of_mem_take h)
  no_leading_zero digit rest h := by
    have htwo := congrArg List.length h
    rw [pointed, List.length_take, List.length_cons, List.length_cons] at htwo
    have hhead := congrArg List.head? h
    rw [pointed, List.head?_take, if_neg (by omega)] at hhead
    exact hzero.resolve_left (by omega) hhead
  places_ne_nil places' h := by
    cases h
    rw [Ne, List.drop_eq_nil_iff]
    omega
  places_lt places' h digit hdigit := by
    cases h
    exact hlt digit (List.mem_of_mem_drop hdigit)

/-- Digits that do not begin with a zero make a literal that JSON allows. -/
theorem wellSpelt_positional {digit : Nat} {more : List Nat} (hdigit : digit ≠ 0)
    (hlt : ∀ d ∈ digit :: more, d < 10) :
    (positional negative (digit :: more) exponent).WellSpelt := by
  have hzeros (k : Nat) : ∀ d ∈ List.replicate k 0, d < 10 := by
    intro d hd
    rw [List.eq_of_mem_replicate hd]
    decide
  rw [positional]
  split
  -- either a zero stands alone before the point, or no zeros are put in front
  · refine wellSpelt_pointed (by omega) ?_ (List.forall_mem_append.mpr ⟨hzeros _, hlt⟩) ?_
    · rw [List.length_append, List.length_replicate]
      omega
    · rcases Nat.le_total (exponent.natAbs + 1) (digit :: more).length with hle | hle
      · rw [Nat.sub_eq_zero_of_le hle]
        exact .inr fun h => hdigit (Option.some.inj h)
      · rw [List.length_append, List.length_replicate]
        exact .inl (by omega)
  · refine wellSpelt_pointed one_pos (by simp) ?_ (.inr fun h => hdigit (Option.some.inj h))
    exact List.forall_mem_append.mpr ⟨List.forall_mem_append.mpr ⟨hlt, hzeros _⟩, hzeros 1⟩

theorem wellSpelt_scientific {digit : Nat} {more : List Nat} (hlt : ∀ d ∈ digit :: more, d < 10) :
    (scientific negative (digit :: more) first).WellSpelt where
  whole_ne_nil := List.cons_ne_nil _ _
  whole_lt d hd := hlt d (List.mem_of_mem_take hd)
  no_leading_zero d rest h := by cases h
  places_ne_nil places h := by
    obtain ⟨hlength, rfl⟩ : ¬ (digit :: more).length ≤ 1 ∧ (digit :: more).drop 1 = places := by
      simpa [scientific] using h
    rwa [Ne, List.drop_eq_nil_iff]
  places_lt places h d hd := by
    obtain ⟨-, rfl⟩ : ¬ (digit :: more).length ≤ 1 ∧ (digit :: more).drop 1 = places := by
      simpa [scientific] using h
    exact hlt d (List.mem_of_mem_drop hd)

/-! ### Their values -/

theorem significand_pointed (negative : Bool) (digits : List Nat) (places : Nat) :
    (pointed negative digits places).significand = Text.ofDigits 10 digits := by
  rw [significand, pointed, Option.getD_some, List.take_append_drop]

theorem scale_pointed (h : places ≤ digits.length) :
    (pointed negative digits places).scale = -places := by
  rw [scale, pointed, Option.getD_some, Option.getD_none, List.length_drop]
  omega

/-- **A positional literal has a value**, where the digits of a whole number
are few. -/
theorem exists_number?_positional (hsize : Text.ofDigits 10 digits < UInt64.size)
    (hlength : Text.ofDigits 10 digits < 10 ^ digits.length)
    (hfew : 0 ≤ exponent → digits.length + exponent ≤ 16) :
    ∃ y hy, (positional negative digits exponent).number? = some (.real y hy) := by
  rw [positional]
  split
  · rename_i hneg
    have hsignificand : Text.ofDigits 10
        (List.replicate (exponent.natAbs + 1 - digits.length) 0 ++ digits) =
          Text.ofDigits 10 digits := by
      rw [ofDigits_append, ofDigits_zeros, Nat.zero_mul, Nat.zero_add]
    refine exists_number? (.inl rfl) ?_ ?_
    · rwa [significand_pointed, hsignificand]
    · rw [significand_pointed, hsignificand]
      refine Binary64.exists_ofDecimal_neg (hsize.le.trans Binary64.size_le_largest) ?_
      rw [scale_pointed (by rw [List.length_append, List.length_replicate]; omega)]
      omega
  · rename_i hnonneg
    rw [not_lt] at hnonneg
    have hsignificand : Text.ofDigits 10 (digits ++ List.replicate exponent.toNat 0 ++ [0]) =
        Text.ofDigits 10 digits * 10 ^ (exponent.toNat + 1) := by
      rw [List.append_assoc, ← List.replicate_succ', ofDigits_append, ofDigits_zeros,
        List.length_replicate, Nat.add_zero]
    have hwhole : Text.ofDigits 10 digits * 10 ^ (exponent.toNat + 1) < UInt64.size := by
      have hfew := hfew hnonneg
      calc Text.ofDigits 10 digits * 10 ^ (exponent.toNat + 1)
          < 10 ^ digits.length * 10 ^ (exponent.toNat + 1) :=
            Nat.mul_lt_mul_of_pos_right hlength (Nat.pow_pos (by decide))
        _ = 10 ^ (digits.length + exponent.toNat + 1) := by rw [← pow_add, Nat.add_assoc]
        _ ≤ 10 ^ 17 := Nat.pow_le_pow_right (by decide) (by omega)
        _ < UInt64.size := by decide
    refine exists_number? (.inl rfl) ?_ ?_
    · rwa [significand_pointed, hsignificand]
    · rw [significand_pointed, hsignificand, scale_pointed (by simp; omega)]
      exact Binary64.exists_ofDecimal_neg (hwhole.le.trans Binary64.size_le_largest) (by decide)

/-- **A literal with an exponent has a value** when its decimal is read as a
finite number. -/
theorem exists_number?_scientific (hdigits : digits ≠ [])
    (hsize : Text.ofDigits 10 digits < UInt64.size)
    (hread : ∃ x, Binary64.ofDecimal (Text.ofDigits 10 digits)
      (first - (digits.length - 1 : Nat)) = some x ∧ x.isFinite = true) :
    ∃ y hy, (scientific negative digits first).number? = some (.real y hy) := by
  obtain ⟨digit, more, rfl⟩ := List.exists_cons_of_ne_nil hdigits
  have hplaces : (scientific negative (digit :: more) first).fraction.getD [] = more := by
    cases more <;> rfl
  have hsignificand : (scientific negative (digit :: more) first).significand =
      Text.ofDigits 10 (digit :: more) := by
    rw [significand, hplaces]
    rfl
  have hscale : (scientific negative (digit :: more) first).scale = first - more.length := by
    rw [scale, hplaces]
    rfl
  refine exists_number? (.inr rfl) ?_ ?_
  · rwa [hsignificand]
  · rwa [hsignificand, hscale]

end NumberLiteral

/-! ## The literal of a number -/

/-- **The literal that a finite number is written as.** -/
def realLiteral (x : Binary64) : NumberLiteral :=
  if x.isZero then .positional x.isNegative [0] 0
  else
    let decimal := x.shortest .toEven
    let digits := Text.toDigits 10 decimal.digits
    let first := decimal.exponent + (digits.length - 1 : Nat)
    if -5 ≤ first ∧ first < 16 then .positional x.isNegative digits decimal.exponent
    else .scientific x.isNegative digits first

/-- **The literal that a number is written as.** -/
def Number.literal : Number → NumberLiteral
  | .integer value _ => ⟨decide (value < 0), Text.toDigits 10 value.natAbs, none, none⟩
  | .real value _ => realLiteral value

theorem spelling_realLiteral (hx : x.isFinite = true) :
    (realLiteral x).spelling = (Binary64.jsonNotation.render x).toList := by
  have hspecial : x.isNaN = false ∧ x.isInfinite = false := by
    rw [Binary64.isFinite, bne_iff_ne] at hx
    rw [Binary64.isNaN, Binary64.isInfinite, beq_false_of_ne hx]
    exact ⟨rfl, rfl⟩
  have hsign : (if x.isNegative then "-" else "").toList = if x.isNegative then ['-'] else [] := by
    split <;> rfl
  rw [Binary64.Notation.render, hspecial.1, hspecial.2, if_neg Bool.false_ne_true,
    if_neg Bool.false_ne_true, String.toList_append, String.toList_ofList, hsign,
    Binary64.Notation.magnitude, realLiteral]
  split
  · exact NumberLiteral.spelling_positional _ _ _
  · dsimp only [Binary64.jsonNotation]
    rw [List.length_map]
    split
    · exact NumberLiteral.spelling_positional _ _ _
    · exact NumberLiteral.spelling_scientific _ _ _

/-- **A number is written as its literal.** -/
theorem Number.spelling_literal (n : Number) : n.literal.spelling = n.text.toList := by
  cases n with
  | real value hfinite => exact spelling_realLiteral hfinite
  | integer value fits =>
    rw [literal, NumberLiteral.spelling, Number.text, Text.intText]
    by_cases hneg : value < 0
    · simp [hneg, Text.natText, NumberLiteral.fractionText, NumberLiteral.exponentText]
    · simp [hneg, Text.natText, NumberLiteral.fractionText, NumberLiteral.exponentText]

theorem wellSpelt_realLiteral (x : Binary64) : (realLiteral x).WellSpelt := by
  have hbase : 1 < 10 := by decide
  rw [realLiteral]
  split
  · exact NumberLiteral.wellSpelt_pointed one_pos (by decide) (by decide) (.inl rfl)
  · rename_i hzero
    obtain ⟨hpos, -, -⟩ := Binary64.shortest_spec (Bool.eq_false_iff.mpr hzero) .toEven
    obtain ⟨d, more, hdigits, hd⟩ := Text.exists_toDigits_eq_cons hbase hpos.ne'
    have hlt : ∀ digit ∈ d :: more, digit < 10 := fun digit hdigit =>
      Text.lt_of_mem_toDigits hbase (hdigits ▸ hdigit)
    dsimp only
    rw [hdigits]
    split
    · exact NumberLiteral.wellSpelt_positional hd hlt
    · exact NumberLiteral.wellSpelt_scientific hlt

/-- The literal of a number is one that JSON allows. -/
theorem Number.wellSpelt_literal (n : Number) : n.literal.WellSpelt := by
  have hbase : 1 < 10 := by decide
  cases n with
  | real value hfinite => exact wellSpelt_realLiteral value
  | integer value fits =>
    refine ⟨Text.toDigits_ne_nil hbase _, fun d hd => Text.lt_of_mem_toDigits hbase hd,
      fun digit rest h => ?_, nofun, nofun⟩
    change Text.toDigits 10 value.natAbs = _ at h
    by_cases hzero : value.natAbs = 0
    · rw [hzero, Text.toDigits_eq hbase, if_pos rfl] at h
      cases h
    · obtain ⟨d, more, hdigits, hd⟩ := Text.exists_toDigits_eq_cons hbase hzero
      rw [hdigits] at h
      exact hd (List.cons.inj h).1

/-! ## The value of a literal -/

/-- **The literal of a finite number has a value**, which is finite. -/
theorem exists_number?_realLiteral (hx : x.isFinite = true) :
    ∃ y hy, (realLiteral x).number? = some (.real y hy) := by
  have hbase : 1 < 10 := by decide
  rw [realLiteral]
  split
  · exact NumberLiteral.exists_number?_positional (by decide) (by decide) (fun _ => by decide)
  rename_i hzero
  rw [Bool.not_eq_true] at hzero
  obtain ⟨hpos, hle, -⟩ := Binary64.shortest_spec hzero .toEven
  have hbound := Binary64.shortest_le_largest hx hzero
  generalize x.shortest .toEven = decimal at hpos hle hbound ⊢
  obtain ⟨significand, exponent⟩ := decimal
  dsimp only at hpos hle hbound ⊢
  have hspelt := Text.ofDigits_toDigits hbase significand
  have hlength := Text.lt_pow_length_toDigits hbase significand
  have hnil := Text.toDigits_ne_nil hbase significand
  have hsmall : significand < UInt64.size := hle.trans_lt (by decide)
  have hcount := List.length_pos_iff.mpr hnil
  split
  · rename_i hfirst
    refine NumberLiteral.exists_number?_positional ?_ ?_ fun hnonneg => ?_
    · rwa [hspelt]
    · rwa [hspelt]
    · omega
  · refine NumberLiteral.exists_number?_scientific hnil ?_ ?_
    · rwa [hspelt]
    · rw [hspelt, add_sub_cancel_right]
      rcases lt_or_ge exponent 0 with hneg | hnonneg
      · exact Binary64.exists_ofDecimal_neg (hsmall.le.trans Binary64.size_le_largest) hneg
      · obtain ⟨e, rfl⟩ := Int.eq_ofNat_of_zero_le hnonneg
        exact Binary64.exists_ofDecimal_nonneg hpos hle
          ((Binary64.mul_zpow_le_iff _ _ _).mp hbound)

/-- The literal of an integer has the integer as its value. -/
theorem number?_literal_integer (value : Int) (fits : fitsInteger value = true) :
    (Number.integer value fits).literal.number? = some (.integer value fits) := by
  have hdigits := Text.ofDigits_toDigits (by decide : 1 < 10) value.natAbs
  have hvalue : (Number.integer value fits).literal.integer? = some value := by
    rw [Number.literal, NumberLiteral.integer?]
    dsimp only
    rw [hdigits, if_neg (by decide)]
    by_cases hneg : value < 0
    · have hpos : value.natAbs ≠ 0 := by omega
      rw [if_pos (by simpa using hneg), if_neg hpos]
      exact congrArg some (by omega)
    · rw [if_neg (by simpa using hneg)]
      exact congrArg some (by omega)
  rw [NumberLiteral.number?, hvalue]
  exact dif_pos fits

/-- The number that is read from the literal of a number. -/
def Number.reread (n : Number) : Number :=
  n.literal.number?.getD n

@[simp] theorem Number.reread_integer (value : Int) (fits : fitsInteger value = true) :
    (Number.integer value fits).reread = .integer value fits := by
  rw [reread, number?_literal_integer, Option.getD_some]

/-- A binary64 number comes back as one. -/
theorem Number.exists_reread_real (hx : x.isFinite = true) :
    ∃ y hy, (Number.real x hx).reread = .real y hy := by
  obtain ⟨y, hy, h⟩ := exists_number?_realLiteral hx
  exact ⟨y, hy, by rw [reread, literal, h, Option.getD_some]⟩

/-- **The literal of a number has a value.** -/
theorem Number.number?_literal (n : Number) : n.literal.number? = some n.reread := by
  cases n with
  | integer value fits => rw [reread_integer, number?_literal_integer]
  | real value hfinite =>
    obtain ⟨y, hy, h⟩ := exists_number?_realLiteral hfinite
    rw [reread, literal, h, Option.getD_some]

end StepGraph.Json
