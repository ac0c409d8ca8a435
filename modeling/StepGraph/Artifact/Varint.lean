/-!
# Numbers of variable length

A number is one byte where it is below 251. Otherwise a marker byte says
how many bytes follow, two, four or eight, the lowest first. Writing takes
the shortest form; reading takes every form that is no wider than the
number may be.
-/

namespace StepGraph.Varint

/-- The lowest bytes of a number, the lowest first. -/
def littleEndian : Nat → Nat → List UInt8
  | 0, _ => []
  | width + 1, n => n.toUInt8 :: littleEndian width (n / 256)

/-- The number that bytes spell, the lowest first. -/
def ofLittleEndian : List UInt8 → Nat
  | [] => 0
  | byte :: rest => byte.toNat + 256 * ofLittleEndian rest

/-- The bytes of a number below `2 ^ 64`. -/
def encode (n : Nat) : List UInt8 :=
  if n < 251 then [n.toUInt8]
  else if n < UInt16.size then 251 :: littleEndian 2 n
  else if n < UInt32.size then 252 :: littleEndian 4 n
  else 253 :: littleEndian 8 n

/-- The first bytes of a list, as many as asked for, and the ones behind
them. -/
def split? (count : Nat) (bytes : List UInt8) : Option (List UInt8 × List UInt8) :=
  if count ≤ bytes.length then some (bytes.take count, bytes.drop count) else none

/-- How many bytes follow a marker. -/
def markedWidth? (marker : UInt8) : Option Nat :=
  if marker = 251 then some 2
  else if marker = 252 then some 4
  else if marker = 253 then some 8
  else none

/-- A number of at most `widest` bytes, and what follows it. -/
def decode? (widest : Nat) : List UInt8 → Option (Nat × List UInt8)
  | [] => none
  | marker :: rest =>
    if marker < 251 then some (marker.toNat, rest)
    else match markedWidth? marker with
      | none => none
      | some width =>
        if width ≤ widest then
          (split? width rest).map fun parts => (ofLittleEndian parts.1, parts.2)
        else none

example : encode 250 = [250] ∧ encode 251 = [251, 251, 0] ∧
    decode? 4 [252, 1, 0, 0, 0, 7] = some (1, [7]) := by decide

end StepGraph.Varint
