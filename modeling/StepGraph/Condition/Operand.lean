import StepGraph.Binary64.Notation
import StepGraph.Json.Decode
import StepGraph.Text.Quoted

/-!
# Operands

An operand is one side of a comparison, or the value that a switch looks
at: a variable or a raw expression, which stand in the script as they are,
a text, which is quoted, or a number.
-/

namespace StepGraph

/-- One side of a comparison. -/
inductive Operand where
  | reference (name : String)
  | text (value : String)
  | number (value : Binary64)
  | raw (expression : String)
  deriving DecidableEq, Repr

namespace Operand

/-- The variable that an operand refers to. -/
def reference? : Operand → Option String
  | reference name => some name
  | _ => none

/-- The bound `2 ^ 53`, below which every integer is a binary64 number. -/
def exactLimit : Nat := 0x20000000000000

/-- A number in a script: a whole number below the limit as an integer,
which has no negative zero, every other by its shortest decimal. -/
def numberText (x : Binary64) : String :=
  match x.toInt? with
  | some n => if n.natAbs < exactLimit then Text.intText n else Binary64.scriptNotation.render x
  | none => Binary64.scriptNotation.render x

/-- The expression that stands for an operand in a script. -/
def render : Operand → String
  | reference name => name
  | text value => Text.quote value
  | number value => numberText value
  | raw expression => expression

/-! ## As a value -/

def toJson : Operand → Json
  | reference name => tagged "variable" (.string name)
  | text value => tagged "text" (.string value)
  | number value => tagged "number" (.ofBinary64 value)
  | raw expression => tagged "raw" (.string expression)
where
  tagged (type : String) (value : Json) : Json :=
    .object [("type", .string type), ("value", value)]

/-- How a value is read as an operand of one type. -/
abbrev Reader := Json → Except Json.DecodeError Operand

/-- How the value of each type of operand is read. -/
def types : List (String × Reader) :=
  [("variable", fun value => reference <$> value.decodeString),
    ("text", fun value => text <$> value.decodeString),
    ("number", fun value => number <$> value.decodeBinary64),
    ("raw", fun value => raw <$> value.decodeString)]

/-- An operand is an object with a type and a value, or an array of the
two. The type is a member of an enumeration: `type` says how it is spelt as
a member of the object, `head` how at the head of the array. -/
def decodeWith (type head : Json → Except Json.DecodeError Reader) : Reader
  | .object members => do
    let read ← Json.required "type" (← Json.present members "type" type)
    match members.lookup "value" with
    | some value => read value
    | none => .error (.missingField "value")
  | .array items => do
    let read ← Json.item items 0 wanted head
    let operand ← Json.item items 1 wanted read
    Json.noMoreThan 2 items
    return operand
  | other => .error (.wrongType other wanted)
where
  wanted : String := "adjacently tagged enum Operand"

/-- An operand in the configuration of a control node. -/
def decode : Reader :=
  decodeWith (Json.decodeVariant Json.isNull types) (Json.decodeIdentifier types)

/-- An operand inside a step. An empty object counts as no data there, and
at the head of an array the place of the type is as good as its name. -/
def decodeInStep : Reader :=
  decodeWith (Json.decodeVariant Json.isVacant types) (Json.decodePlace types)

end Operand

end StepGraph
