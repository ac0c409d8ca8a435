/-!
# Binary64 numbers

A number of the IEEE format binary64, held as its 64 bits. A finite number
is a significand below `2 ^ 53` times a power of two, and every operation
here is stated on those two: the exact quotient of natural numbers is
rounded once, to the nearest number, and to the even one of two equally
near. There is no arithmetic beyond what reading and writing decimals
takes.
-/

namespace StepGraph

/-- A binary64 number, by its bits: sign, eleven bits of biased exponent,
fifty-two bits of fraction. -/
structure Binary64 where
  bits : UInt64
  deriving DecidableEq, Repr

namespace Binary64

/-! ## The parts of a number -/

/-- The bit above the fraction, `2 ^ 52`. It leads the significand of a
number that is not among the smallest. -/
abbrev leadingBit : Nat := 0x10000000000000

/-- Whether the sign bit is set. -/
def isNegative (x : Binary64) : Bool :=
  decide (0x8000000000000000 ≤ x.bits.toNat)

/-- The exponent bits. -/
def biasedExponent (x : Binary64) : Nat :=
  x.bits.toNat / leadingBit % 2048

/-- The fraction bits. -/
def fraction (x : Binary64) : Nat :=
  x.bits.toNat % leadingBit

/-- Neither infinite nor a NaN: the exponent bits are not all ones. -/
def isFinite (x : Binary64) : Bool :=
  x.biasedExponent != 2047

def isInfinite (x : Binary64) : Bool :=
  x.biasedExponent == 2047 && x.fraction == 0

def isNaN (x : Binary64) : Bool :=
  x.biasedExponent == 2047 && x.fraction != 0

/-- Zero of either sign. -/
def isZero (x : Binary64) : Bool :=
  x.biasedExponent == 0 && x.fraction == 0

/-- The significand of a finite number: its magnitude is
`significand * 2 ^ exponent`. -/
def significand (x : Binary64) : Nat :=
  if x.biasedExponent = 0 then x.fraction else leadingBit + x.fraction

/-- The power of two that goes with `significand`. -/
def exponent (x : Binary64) : Int :=
  (max x.biasedExponent 1 : Nat) - 1075

/-- The magnitude of a finite number as a quotient of natural numbers. -/
def ratio (x : Binary64) : Nat × Nat :=
  (x.significand * Nat.pow 2 x.exponent.toNat, Nat.pow 2 (-x.exponent).toNat)

/-! ## Building numbers -/

def zero : Binary64 := ⟨0⟩

def infinity : Binary64 := ⟨0x7ff0000000000000⟩

def nan : Binary64 := ⟨0x7ff8000000000000⟩

/-- The number with the opposite sign. -/
def neg (x : Binary64) : Binary64 :=
  ⟨x.bits ^^^ 0x8000000000000000⟩

/-- The quotient of two natural numbers, rounded to the nearest natural
number and to the even one of two equally near. -/
def roundQuotient (num den : Nat) : Nat :=
  let below := num / den
  let rest := num % den
  if 2 * rest < den then below
  else if den < 2 * rest then below + 1
  else below + below % 2

/-- The power of two just below a positive quotient:
`2 ^ e ≤ num / den < 2 ^ (e + 1)`. -/
def quotientLog2 (num den : Nat) : Int :=
  let guess : Int := num.log2 - den.log2
  if num * Nat.pow 2 (-guess).toNat < den * Nat.pow 2 guess.toNat then guess - 1 else guess

/-- **Rounding**: the number nearest to a quotient of natural numbers, the
even one of two equally near, and infinity from half a unit above the
largest finite number on. -/
def ofRatio (num den : Nat) : Binary64 :=
  if num = 0 then zero
  else
    let unit := max (quotientLog2 num den - 52) (-1074)
    let units :=
      roundQuotient (num * Nat.pow 2 (-unit).toNat) (den * Nat.pow 2 unit.toNat)
    let bits := (unit + 1074).toNat * leadingBit + units
    if bits < 2047 * leadingBit then ⟨bits.toUInt64⟩ else infinity

/-- The number nearest to a natural number. -/
def ofNat (n : Nat) : Binary64 :=
  ofRatio n 1

/-- The number nearest to an integer. -/
def ofInt (n : Int) : Binary64 :=
  if n < 0 then (ofNat n.natAbs).neg else ofNat n.natAbs

/-! ## Arithmetic on magnitudes -/

/-- The product of two finite magnitudes, rounded once. -/
def mul (x y : Binary64) : Binary64 :=
  ofRatio (x.ratio.1 * y.ratio.1) (x.ratio.2 * y.ratio.2)

/-- The quotient of two finite magnitudes, rounded once. -/
def div (x y : Binary64) : Binary64 :=
  ofRatio (x.ratio.1 * y.ratio.2) (x.ratio.2 * y.ratio.1)

/-- Equality as numbers: a NaN differs from itself, the two zeros are
equal. -/
def same (x y : Binary64) : Bool :=
  !x.isNaN && !y.isNaN && (x == y || (x.isZero && y.isZero))

/-- The integer that a finite number is, when it is one. -/
def toInt? (x : Binary64) : Option Int :=
  let (num, den) := x.ratio
  if x.isFinite && num % den == 0 then
    some (if x.isNegative then -(num / den : Nat) else (num / den : Nat))
  else none

/-! ## Decimals -/

/-- The number nearest to a power of ten. -/
def powerOfTen (exponent : Nat) : Binary64 :=
  ofNat (Nat.pow 10 exponent)

/-- A magnitude times a power of ten, or nothing where that is too large.
Only the powers from `-308` to `308` are numbers here, so a smaller power is
taken in steps, each of which rounds. -/
def scale : (steps : Nat) → (x : Binary64) → (exponent : Int) → Option Binary64
  | 0, x, _ => some x
  | steps + 1, x, exponent =>
    if exponent.natAbs ≤ 308 then
      if 0 ≤ exponent then
        let product := x.mul (powerOfTen exponent.toNat)
        if product.isFinite then some product else none
      else some (x.div (powerOfTen exponent.natAbs))
    else if x.isZero then some x
    else if 0 ≤ exponent then none
    else scale steps (x.div (powerOfTen 308)) (exponent + 308)

/-- A natural number times a power of ten: the natural number is rounded
first and the product after it. Nothing where the product is too large. -/
def ofDecimal (significand : Nat) (exponent : Int) : Option Binary64 :=
  scale (exponent.natAbs / 308 + 1) (ofNat significand) exponent

example : ofNat 1 = ⟨0x3ff0000000000000⟩ ∧ ofRatio 1 10 = ⟨0x3fb999999999999a⟩ ∧
    ofRatio 5 (Nat.pow 10 324) = ⟨1⟩ := by decide +kernel

example : ofDecimal 15 (-1) = some ⟨0x3ff8000000000000⟩ ∧ ofDecimal 1 400 = none ∧
    ofDecimal 0 400 = some zero ∧ ofDecimal 1 (-400) = some zero := by decide +kernel

end Binary64

end StepGraph
