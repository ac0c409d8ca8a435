import StepGraph.Binary64.Basic
import StepGraph.Keyed

/-!
# JSON values

The values that configurations are made of. A number is either an integer
of at most 64 bits or a finite binary64 number; the two are never equal. An
object keeps its members in a list: the ones read from a text are sorted by
name, one member a name, and the ones the library writes stand in the order
of their fields.
-/

namespace StepGraph

/-- Whether an integer is one that JSON keeps exactly: from `-2 ^ 63` up to
but not including `2 ^ 64`. -/
def Json.fitsInteger (n : Int) : Bool :=
  decide (-0x8000000000000000 ≤ n ∧ n < 0x10000000000000000)

/-- A natural number is kept where 64 bits hold it. -/
theorem Json.fitsInteger_natCast_iff {n : Nat} :
    Json.fitsInteger n = true ↔ n < UInt64.size := by
  rw [Json.fitsInteger, decide_eq_true_iff, UInt64.size]
  omega

/-- A JSON number. -/
inductive Json.Number where
  | integer (value : Int) (fits : Json.fitsInteger value = true)
  | real (value : Binary64) (finite : value.isFinite = true)
  deriving DecidableEq

/-- A JSON value. -/
inductive Json where
  | null
  | bool (value : Bool)
  | number (value : Json.Number)
  | string (value : String)
  | array (items : List Json)
  | object (members : List (String × Json))

namespace Json

instance : Inhabited Json := ⟨null⟩

/-! ## Building values -/

/-- A binary64 number as a value; there is none for NaN and the
infinities, so these become `null`. -/
def ofBinary64 (x : Binary64) : Json :=
  if h : x.isFinite = true then number (.real x h) else null

/-- An integer as a value; one of more than 64 bits becomes the nearest
binary64 number. -/
def ofInt (n : Int) : Json :=
  if h : fitsInteger n = true then number (.integer n h) else ofBinary64 (.ofInt n)

/-- A natural number as a value. -/
def ofNat (n : Nat) : Json :=
  ofInt n

/-- An object with its members sorted by name; of several members with one
name the last stays. -/
def ofMembers (members : List (String × Json)) : Json :=
  object (Keyed.ofList members)

/-! ## Looking into values -/

/-- The member of a name; nothing where the value is no object. -/
def get? (name : String) : Json → Option Json
  | object members => members.lookup name
  | _ => none

def isNull : Json → Bool
  | null => true
  | _ => false

/-- Whether a value holds nothing: `null`, or an object without members. -/
def isVacant : Json → Bool
  | null => true
  | object [] => true
  | _ => false

/-- The items of an array that spells a record of so many fields in declared
order, each absent or present; fields may be missing at the end. -/
def itemFields (count : Nat) (items : List α) : Option (List (Option α)) :=
  if items.length ≤ count then
    some (items.map some ++ List.replicate (count - items.length) none)
  else none

def string? : Json → Option String
  | string value => some value
  | _ => none

/-- The natural number below `2 ^ 64` that an integer is. -/
def natural? : Json → Option Nat
  | number (.integer value _) => if 0 ≤ value then some value.toNat else none
  | _ => none

/-- A number as binary64; an integer is rounded to the nearest. -/
def binary64? : Json → Option Binary64
  | number (.integer value _) => some (.ofInt value)
  | number (.real value _) => some value
  | _ => none

/-! ## Equality of values

Two values are the same when they have the same shape and their parts are
the same; numbers are compared as numbers. -/

def Number.same : Number → Number → Bool
  | .integer m _, .integer n _ => m == n
  | .real x _, .real y _ => x.same y
  | _, _ => false

/-- Whether two values are the same. -/
def same : Json → Json → Bool
  | null, null => true
  | bool a, bool b => a == b
  | number m, number n => m.same n
  | string a, string b => a == b
  | array xs, array ys => sameItems xs ys
  | object xs, object ys => sameMembers xs ys
  | _, _ => false
where
  sameItems : List Json → List Json → Bool
    | [], [] => true
    | x :: xs, y :: ys => x.same y && sameItems xs ys
    | _, _ => false
  sameMembers : List (String × Json) → List (String × Json) → Bool
    | [], [] => true
    | (a, x) :: xs, (b, y) :: ys => a == b && x.same y && sameMembers xs ys
    | _, _ => false

example : (array [null]).same (array [null]) = true := rfl

end Json

end StepGraph
