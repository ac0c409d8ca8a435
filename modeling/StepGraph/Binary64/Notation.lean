import StepGraph.Binary64.Shortest

/-!
# How numbers are laid out

Given the shortest decimal of a number, a notation decides how it is
written: up to which exponents positionally, whether a whole number keeps
its `.0`, whether a positive exponent has a plus sign, which way ties go,
and the texts of infinity and NaN. A format that writes numbers is one
value of `Notation`.
-/

namespace StepGraph.Binary64

/-- The decisions of a number format. The first digit's exponent runs from
`lowest` up to but not including `limit` where a number is written
positionally; without these bounds it always is. -/
structure Notation where
  bounds : Option (Int × Int)
  keepsPoint : Bool
  signsExponent : Bool
  tie : Tie
  infinityText : String
  nanText : String

/-- Digit characters with a point in front of the last `places` of them. -/
def pointed (digits : List Char) (places : Nat) : List Char :=
  let padded := List.replicate (places + 1 - digits.length) '0' ++ digits
  padded.take (padded.length - places) ++ '.' :: padded.drop (padded.length - places)

/-- The positional text of a decimal. -/
def Notation.positional (n : Notation) (digits : List Char) (exponent : Int) : List Char :=
  if exponent < 0 then pointed digits exponent.natAbs
  else digits ++ List.replicate exponent.toNat '0' ++ (if n.keepsPoint then ['.', '0'] else [])

/-- The text of a decimal with an exponent: one digit, the others behind a
point, and the exponent of the first digit. -/
def Notation.scientific (n : Notation) (digits : List Char) (first : Int) : List Char :=
  let tail := match digits.drop 1 with
    | [] => []
    | more => '.' :: more
  let sign := if 0 ≤ first ∧ n.signsExponent then ['+'] else []
  digits.take 1 ++ tail ++ 'e' :: (sign ++ (Text.intText first).toList)

/-- The text of a finite magnitude. -/
def Notation.magnitude (n : Notation) (x : Binary64) : List Char :=
  if x.isZero then n.positional ['0'] 0
  else
    let decimal := x.shortest n.tie
    let digits := (Text.toDigits 10 decimal.digits).map Text.digitChar
    let first := decimal.exponent + (digits.length - 1 : Nat)
    match n.bounds with
    | none => n.positional digits decimal.exponent
    | some (lowest, limit) =>
      if lowest ≤ first ∧ first < limit then n.positional digits decimal.exponent
      else n.scientific digits first

/-- **The text of a number** in a notation. The sign of a NaN is not
shown, the sign of a zero is. -/
def Notation.render (n : Notation) (x : Binary64) : String :=
  if x.isNaN then n.nanText
  else
    let sign := if x.isNegative then "-" else ""
    sign ++ (if x.isInfinite then n.infinityText else String.ofList (n.magnitude x))

/-! ## The notations in use -/

/-- Numbers in JSON: exponents from `-5` to `15` are positional, a whole
number keeps `.0`, a tie goes to the even digit. -/
def jsonNotation : Notation where
  bounds := some (-5, 16)
  keepsPoint := true
  signsExponent := true
  tie := .toEven
  infinityText := "null"
  nanText := "null"

/-- Numbers in a script: always positional, whole numbers without a
point, a tie goes up. -/
def scriptNotation : Notation where
  bounds := none
  keepsPoint := false
  signsExponent := false
  tie := .up
  infinityText := "Infinity"
  nanText := "NaN"

/-- Coordinates as they are shown to a person: exponents from `-4` to `15`
are positional, a whole number keeps `.0`, a tie goes up. -/
def plainNotation : Notation where
  bounds := some (-4, 16)
  keepsPoint := true
  signsExponent := false
  tie := .up
  infinityText := "inf"
  nanText := "NaN"

/-- `-20` and `1e21`, as they are shown to a person. -/
example : plainNotation.render ⟨0xc034000000000000⟩ = "-20.0" ∧
    plainNotation.render ⟨0x444b1ae4d6e2ef50⟩ = "1e21" := by decide

/-- `1.25e-7` in JSON and in a script. -/
example : jsonNotation.render ⟨0x3e80c6f7a0b5ed8d⟩ = "1.25e-7" ∧
    scriptNotation.render ⟨0x3e80c6f7a0b5ed8d⟩ = "0.000000125" := by decide

end StepGraph.Binary64
