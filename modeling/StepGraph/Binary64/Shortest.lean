import StepGraph.Binary64.Basic
import StepGraph.Text.Digits

/-!
# The shortest decimal of a number

Of all decimals that lie in the interval of reals rounding to a finite
number, the shortest one has the fewest digits, and of several with that
many digits it is the nearest to the number. The interval reaches half way
to the two neighbours; its ends belong to it when the significand is even.
Where two decimals are equally short and equally near, the format that asks
decides which one it is.

All is exact arithmetic on natural numbers: the number, the two ends and
the decimal grid are brought to one denominator, and the two neighbours of
the number on the grid are the only candidates.
-/

namespace StepGraph.Binary64

/-- Which of two equally near decimals is taken. -/
inductive Tie where
  | toEven
  | up
  deriving DecidableEq, Repr

/-- The decimal `digits * 10 ^ exponent`. -/
structure Decimal where
  digits : Nat
  exponent : Int
  deriving DecidableEq, Repr

/-- The interval of reals that round to a number, with the number itself:
`low`, `value` and `high` over one denominator. -/
structure RoundingInterval where
  low : Nat
  value : Nat
  high : Nat
  den : Nat
  closed : Bool

/-- The rounding interval of a finite nonzero number. The distance to the
neighbour below is halved where the significand is the least of its
binade. -/
def roundingInterval (x : Binary64) : RoundingInterval :=
  let below := if x.significand = leadingBit ∧ 1 < x.biasedExponent then 1 else 2
  let scale := Nat.pow 2 x.exponent.toNat
  { low := (4 * x.significand - below) * scale
    value := 4 * x.significand * scale
    high := (4 * x.significand + 2) * scale
    den := 4 * Nat.pow 2 (-x.exponent).toNat
    closed := x.significand % 2 == 0 }

/-- Whether a point, over the interval's denominator, rounds to the
number. -/
def RoundingInterval.contains (i : RoundingInterval) (point : Nat) : Bool :=
  if i.closed then i.low ≤ point && point ≤ i.high
  else i.low < point && point < i.high

/-- The interval in units of `10 ^ exponent`. -/
def RoundingInterval.inUnits (i : RoundingInterval) (exponent : Int) : RoundingInterval :=
  let up := Nat.pow 10 (-exponent).toNat
  { i with
    low := i.low * up
    value := i.value * up
    high := i.high * up
    den := i.den * Nat.pow 10 exponent.toNat }

/-- The point of the grid of whole units that the interval contains, when
there is one: of the value's two neighbours the nearer, and on a tie as
`tie` says. -/
def RoundingInterval.gridPoint? (i : RoundingInterval) (tie : Tie) : Option Nat :=
  let below := i.value / i.den
  let above := below + 1
  let rest := i.value - below * i.den
  let nearer :=
    if 2 * rest < i.den then below
    else if i.den < 2 * rest then above
    else match tie with
      | .toEven => below + below % 2
      | .up => above
  match i.contains (below * i.den), i.contains (above * i.den) with
  | true, true => some nearer
  | true, false => some below
  | false, true => some above
  | false, false => none

/-- The power of ten of a positive quotient's first digit. -/
def firstDigitExponent (num den : Nat) : Int :=
  let guess : Int := (Text.toDigits 10 num).length - (Text.toDigits 10 den).length
  if num * Nat.pow 10 (-guess).toNat < den * Nat.pow 10 guess.toNat then guess - 1
  else guess

/-- Try one digit more at a time, from the grid of `exponent` down. -/
def searchGrid (i : RoundingInterval) (tie : Tie) : Nat → Int → Decimal
  | 0, exponent => ⟨0, exponent⟩
  | fuel + 1, exponent =>
    match (i.inUnits exponent).gridPoint? tie with
    | some digits => ⟨digits, exponent⟩
    | none => searchGrid i tie fuel (exponent - 1)

/-- A decimal without zeros at its end. -/
def Decimal.stripZeros : Nat → Decimal → Decimal
  | 0, d => d
  | fuel + 1, d =>
    if d.digits % 10 = 0 then stripZeros fuel ⟨d.digits / 10, d.exponent + 1⟩ else d

/-- **The shortest decimal** of a finite nonzero number's magnitude.
Seventeen digits tell every number from its neighbours, so the search ends
at the latest there. -/
def shortest (x : Binary64) (tie : Tie) : Decimal :=
  let i := x.roundingInterval
  (searchGrid i tie 18 (firstDigitExponent i.value i.den)).stripZeros 18

example : shortest (ofRatio 1 10) .toEven = ⟨1, -1⟩ ∧ shortest ⟨1⟩ .up = ⟨5, -324⟩ ∧
    shortest ⟨0x3fd3333333333334⟩ .up = ⟨30000000000000004, -17⟩ := by decide +kernel

/-- Two decimals of seventeen digits are equally near to `2 ^ (-25)`. -/
example : shortest ⟨0x3e60000000000000⟩ .toEven = ⟨29802322387695312, -24⟩ ∧
    shortest ⟨0x3e60000000000000⟩ .up = ⟨29802322387695313, -24⟩ := by decide

end StepGraph.Binary64
