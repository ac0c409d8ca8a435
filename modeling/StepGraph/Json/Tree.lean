import StepGraph.Json.Basic
import StepGraph.Text.Digits

/-!
# What a JSON text spells

Between a text and its value stands a tree whose literals are not
evaluated yet: a number is still its digits, and a string may hold `\u`
escapes that name half a character. Parts of a document that nobody asks
for stay trees, so a number too large or a lone half in them is no fault.
-/

namespace StepGraph.Json

/-- A number as it is spelt: sign, digits, the digits behind the point, and
the exponent. -/
structure NumberLiteral where
  negative : Bool
  whole : List Nat
  fraction : Option (List Nat)
  exponent : Option Int
  deriving DecidableEq, Repr

/-- A character of a string, or a 16-bit unit spelt by a `\u` escape. -/
inductive TextPart where
  | char (c : Char)
  | unit (value : Nat)
  deriving DecidableEq, Repr

/-- What a JSON text spells. -/
inductive Tree where
  | null
  | bool (value : Bool)
  | number (literal : NumberLiteral)
  | text (parts : List TextPart)
  | array (items : List Tree)
  | object (members : List (List TextPart × Tree))

instance : Inhabited Tree := ⟨.null⟩

/-! ## Numbers -/

/-- Take digits into a significand as long as it stays below `2 ^ 64`; the
count of digits left over comes with it. -/
def takeDigits (significand : Nat) : List Nat → Nat × Nat
  | [] => (significand, 0)
  | digit :: rest =>
    if significand * 10 + digit < UInt64.size then takeDigits (significand * 10 + digit) rest
    else (significand, rest.length + 1)

/-- The binary64 number of a literal. Its first digits, as many as 64 bits
hold, make the significand; a digit left over before the point still counts
in the exponent, and one behind the point is dropped. Nothing where the
number is too large. -/
def NumberLiteral.real? (l : NumberLiteral) : Option Binary64 :=
  let (whole, wholeLeft) := takeDigits 0 l.whole
  let places := l.fraction.getD []
  let (significand, placesLeft) := takeDigits whole places
  let exponent : Int := wholeLeft + placesLeft - places.length + l.exponent.getD 0
  (Binary64.ofDecimal significand exponent).map fun x => if l.negative then x.neg else x

/-- The integer of a literal without point and exponent; `-0` is none. -/
def NumberLiteral.integer? (l : NumberLiteral) : Option Int :=
  let n := Text.ofDigits 10 l.whole
  if l.fraction.isSome || l.exponent.isSome then none
  else if l.negative then (if n = 0 then none else some (-n))
  else some n

/-- The number of a literal: an integer where 64 bits hold it, else a
binary64 number. Nothing where it is too large. -/
def NumberLiteral.number? (l : NumberLiteral) : Option Number :=
  let real? := l.real?.bind fun x =>
    if h : x.isFinite = true then some (Number.real x h) else none
  match l.integer? with
  | some n => if h : fitsInteger n = true then some (.integer n h) else real?
  | none => real?

/-! ## Strings -/

def isHighSurrogate (unit : Nat) : Bool :=
  0xd800 ≤ unit && unit < 0xdc00

def isLowSurrogate (unit : Nat) : Bool :=
  0xdc00 ≤ unit && unit < 0xe000

/-- The characters of a string, its units joined in pairs where a pair
spells one character. Nothing where half a pair stands alone. -/
def characters? : List TextPart → Option (List Char)
  | [] => some []
  | .char c :: rest => (characters? rest).map (c :: ·)
  | .unit high :: .unit low :: rest =>
    if isHighSurrogate high then
      if isLowSurrogate low then
        (characters? rest).map
          (Char.ofNat (0x10000 + (high - 0xd800) * 0x400 + (low - 0xdc00)) :: ·)
      else none
    else if isLowSurrogate high then none
    else (characters? (.unit low :: rest)).map (Char.ofNat high :: ·)
  | .unit unit :: rest =>
    if isHighSurrogate unit || isLowSurrogate unit then none
    else (characters? rest).map (Char.ofNat unit :: ·)

/-- The text of a string. -/
def textOf? (parts : List TextPart) : Option String :=
  (characters? parts).map String.ofList

/-! ## Values -/

/-- **The value of a tree**, where every literal in it has one and no more
than `levels` arrays and objects are nested. Members are sorted by name, and
the last of several with one name stays. -/
def Tree.json? (levels : Nat) : Tree → Option Json
  | .null => some .null
  | .bool value => some (.bool value)
  | .number literal => literal.number?.map .number
  | .text parts => (textOf? parts).map .string
  | .array items =>
    if levels = 0 then none else (itemsJson? (levels - 1) items).map .array
  | .object members =>
    if levels = 0 then none else (membersJson? (levels - 1) members).map ofMembers
where
  itemsJson? (levels : Nat) : List Tree → Option (List Json)
    | [] => some []
    | item :: rest => do
      let value ← item.json? levels
      let values ← itemsJson? levels rest
      return value :: values
  membersJson? (levels : Nat) : List (List TextPart × Tree) → Option (List (String × Json))
    | [] => some []
    | (name, item) :: rest => do
      let name ← textOf? name
      let value ← item.json? levels
      let values ← membersJson? levels rest
      return (name, value) :: values

/-! ## Fields of a record -/

/-- The field of a name among named trees: absent, present, or a fault
where it stands there twice. -/
def field? (named : List (String × Tree)) (name : String) : Option (Option Tree) :=
  match named.filter (·.1 == name) with
  | [] => some none
  | [member] => some (some member.2)
  | _ => none

/-- The fields of a record in declared order, each absent or present. A
record is spelt as an object, whose other members are left aside, or as an
array of its fields in declared order, from which fields may be missing at
the end. -/
def Tree.fields? (names : List String) : Tree → Option (List (Option Tree))
  | .object members => do
    let named ← members.mapM fun member => (textOf? member.1).map (·, member.2)
    names.mapM (field? named)
  | .array items => itemFields names.length items
  | _ => none

def Tree.string? : Tree → Option String
  | .text parts => textOf? parts
  | _ => none

def Tree.list? (read : Tree → Option α) : Tree → Option (List α)
  | .array items => items.mapM read
  | _ => none

/-- A tree's value, when it is a leaf. -/
def Tree.leaf? (tree : Tree) : Option Json :=
  tree.json? 0

example : characters? [.unit 0xd83d, .unit 0xde00, .char 'a'] = some ['😀', 'a'] ∧
    characters? [.unit 0xd83d, .char 'a'] = none := by decide

end StepGraph.Json
