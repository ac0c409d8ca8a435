import StepGraph.Json.Printer
import StepGraph.Text.Shown

/-!
# Reading records out of values

A configuration is a value that has to have a certain shape. Reading goes
through the fields of a record in their order, first the ones that are
there and then the missing ones, and stops at the first problem; the
problem is a `DecodeError`, whose wording is `DecodeError.message`.
-/

namespace StepGraph.Json

/-- Why a value does not have the wanted shape. -/
inductive DecodeError where
  | missingField (name : String)
  | wrongType (found : Json) (wanted : String)
  | unknownVariant (name : String) (known : List String)
  | wrongLength (length : Nat) (wanted : String)
  | manyKeys

/-- What kind of value was found. -/
def found : Json → String
  | null => "null"
  | bool value => "boolean `" ++ (if value then "true" else "false") ++ "`"
  | number (.integer value _) => "integer `" ++ Text.intText value ++ "`"
  | number (.real value _) => "floating point `" ++ Binary64.jsonNotation.render value ++ "`"
  | string value => "string " ++ Text.shown value
  | array _ => "sequence"
  | object _ => "map"

/-- The known names of an enumeration, in a phrase. -/
def oneOf : List String → String
  | [a] => "`" ++ a ++ "`"
  | [a, b] => "`" ++ a ++ "` or `" ++ b ++ "`"
  | names => "one of " ++ ", ".intercalate (names.map fun name => "`" ++ name ++ "`")

def DecodeError.message : DecodeError → String
  | missingField name => "missing field `" ++ name ++ "`"
  | wrongType value wanted => "invalid type: " ++ value.found ++ ", expected " ++ wanted
  | unknownVariant name known => "unknown variant `" ++ name ++ "`, expected " ++ oneOf known
  | wrongLength length wanted =>
    "invalid length " ++ Text.natText length ++ ", expected " ++ wanted
  | manyKeys => "invalid value: map, expected map with a single key"

/-! ## Leaves -/

def decodeString : Json → Except DecodeError String
  | string value => .ok value
  | other => .error (.wrongType other "a string")

def decodeBinary64 (value : Json) : Except DecodeError Binary64 :=
  match value.binary64? with
  | some x => .ok x
  | none => .error (.wrongType value "f64")

def decodeList (decode : Json → Except DecodeError α) : Json → Except DecodeError (List α)
  | array items => items.mapM decode
  | other => .error (.wrongType other "a sequence")

/-- A value that may be `null`. -/
def decodeOption (decode : Json → Except DecodeError α) : Json → Except DecodeError (Option α)
  | null => .ok none
  | other => some <$> decode other

/-! ## Enumerations -/

/-- The member of an enumeration that a name stands for. -/
def variant (variants : List (String × α)) (name : String) : Except DecodeError α :=
  match variants.lookup name with
  | some value => .ok value
  | none => .error (.unknownVariant name (variants.map (·.1)))

/-- A member of an enumeration without data: its name, or an object whose
one key is the name and whose value counts as no data. -/
def decodeVariant (isUnit : Json → Bool) (variants : List (String × α)) :
    Json → Except DecodeError α
  | string name => variant variants name
  | object [(name, value)] => do
    let member ← variant variants name
    if isUnit value then return member
    throw (.wrongType value "unit")
  | object _ => .error .manyKeys
  | other => .error (.wrongType other "string or map")

/-- A member of an enumeration at the head of an array: its name. -/
def decodeIdentifier (variants : List (String × α)) : Json → Except DecodeError α
  | string name => variant variants name
  | other => .error (.wrongType other "variant identifier")

/-- A member of an enumeration at the head of an array, where its place
among the members, counted from zero, also is a name for it. -/
def decodePlace (variants : List (String × α)) (value : Json) : Except DecodeError α :=
  match value.natural?.bind fun place => variants[place]? with
  | some (_, member) => .ok member
  | none => decodeIdentifier variants value

/-! ## Records -/

/-- The field of an object, decoded where it is there. -/
def present (members : List (String × Json)) (name : String)
    (decode : Json → Except DecodeError α) : Except DecodeError (Option α) :=
  match members.lookup name with
  | some value => some <$> decode value
  | none => .ok none

/-- A field that has to be there. -/
def required (name : String) : Option α → Except DecodeError α
  | some value => .ok value
  | none => .error (.missingField name)

/-- The item of a record spelt as an array that has to be there. -/
def item (items : List Json) (index : Nat) (wanted : String)
    (decode : Json → Except DecodeError α) : Except DecodeError α :=
  match items[index]? with
  | some value => decode value
  | none => .error (.wrongLength index wanted)

/-- A record spelt as an array has no more items than fields. -/
def noMoreThan (count : Nat) (items : List Json) : Except DecodeError Unit :=
  if items.length ≤ count then .ok ()
  else .error (.wrongLength items.length "fewer elements in array")

end StepGraph.Json
