/-!
# Digits

Numbers as digits in a base, most significant digit first. `toDigits`
writes and `ofDigits` reads; the texts of numbers are made from these two
alone.
-/

namespace StepGraph.Text

/-- The digits of a number, most significant first, in front of `rest`; at
most `fuel` of them. -/
def digitsOnto (base : Nat) : Nat → Nat → List Nat → List Nat
  | 0, _, rest => rest
  | fuel + 1, n, rest =>
    if n < base then n :: rest
    else digitsOnto base fuel (n / base) (n % base :: rest)

/-- The digits of a number in a base, most significant first. Zero has the
one digit zero. A number has no more digits than binary places, so the
search never runs short. -/
def toDigits (base n : Nat) : List Nat :=
  digitsOnto base (n.log2 + 1) n []

/-- The number that a list of digits spells. -/
def ofDigits (base : Nat) (digits : List Nat) : Nat :=
  digits.foldl (fun n digit => base * n + digit) 0

/-- The character of a digit below sixteen, with small letters. -/
def digitChar (digit : Nat) : Char :=
  if digit < 10 then Char.ofNat (48 + digit) else Char.ofNat (87 + digit)

/-- The value of a decimal digit character. -/
def digitValue (c : Char) : Nat :=
  c.toNat - 48

/-- A natural number in decimal. -/
def natText (n : Nat) : String :=
  String.ofList ((toDigits 10 n).map digitChar)

/-- An integer in decimal, with a minus sign where it is negative. -/
def intText (n : Int) : String :=
  if n < 0 then "-" ++ natText n.natAbs else natText n.natAbs

/-- A number in hexadecimal, with leading zeros up to `width` digits. -/
def hexText (width n : Nat) : String :=
  let digits := (toDigits 16 n).map digitChar
  String.ofList (List.replicate (width - digits.length) '0' ++ digits)

example : natText 0 = "0" ∧ natText 1205 = "1205" ∧ intText (-7) = "-7" := by decide

example : hexText 4 0x2f = "002f" ∧ hexText 8 0xdeadbeef = "deadbeef" := by decide

end StepGraph.Text
