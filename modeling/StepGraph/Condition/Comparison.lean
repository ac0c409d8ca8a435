import StepGraph.Condition.Operand

/-!
# Comparisons and conditions

A comparison applies an operator to one or two operands. A condition is a
list of comparisons with a logical connector between each two; it is
written from left to right without parentheses, so the script's own
precedence of `&&` over `||` holds.
-/

namespace StepGraph

/-- What a comparison asks. -/
inductive ComparisonOperator where
  | equals
  | notEquals
  | greaterThan
  | greaterOrEqual
  | lessThan
  | lessOrEqual
  | contains
  | startsWith
  | isPresent
  | isAbsent
  deriving DecidableEq, Repr

namespace ComparisonOperator

/-- The operators with their names in configurations. -/
def named : List (String × ComparisonOperator) :=
  [("equals", equals), ("notEquals", notEquals), ("greaterThan", greaterThan),
    ("greaterOrEqual", greaterOrEqual), ("lessThan", lessThan), ("lessOrEqual", lessOrEqual),
    ("contains", contains), ("startsWith", startsWith), ("exists", isPresent),
    ("notExists", isAbsent)]

def name : ComparisonOperator → String
  | equals => "equals"
  | notEquals => "notEquals"
  | greaterThan => "greaterThan"
  | greaterOrEqual => "greaterOrEqual"
  | lessThan => "lessThan"
  | lessOrEqual => "lessOrEqual"
  | contains => "contains"
  | startsWith => "startsWith"
  | isPresent => "exists"
  | isAbsent => "notExists"

/-- Whether the operator looks at the left operand alone. -/
def isUnary : ComparisonOperator → Bool
  | isPresent => true
  | isAbsent => true
  | _ => false

def decode : Json → Except Json.DecodeError ComparisonOperator :=
  Json.decodeVariant Json.isNull named

end ComparisonOperator

/-- How two comparisons are joined. -/
inductive Connector where
  | and
  | or
  deriving DecidableEq, Repr

namespace Connector

def named : List (String × Connector) :=
  [("and", .and), ("or", .or)]

def name : Connector → String
  | .and => "and"
  | .or => "or"

/-- The script's operator. -/
def symbol : Connector → String
  | .and => "&&"
  | .or => "||"

def decode : Json → Except Json.DecodeError Connector :=
  Json.decodeVariant Json.isNull named

end Connector

/-- An operator with its operands. -/
structure Comparison where
  left : Operand
  operator : ComparisonOperator
  right : Option Operand
  deriving DecidableEq, Repr

namespace Comparison

/-- An operand behind an exclamation mark; a raw expression is put into
parentheses there. -/
def negated : Operand → String
  | .raw expression => "(" ++ expression ++ ")"
  | other => other.render

/-- The right operand's text. A binary operator without one compares with
`null`; validation refuses that before anything is written. -/
def rightText (c : Comparison) : String :=
  match c.right with
  | some operand => operand.render
  | none => "null"

/-- A comparison as a script expression. -/
def render (c : Comparison) : String :=
  let left := c.left.render
  let right := c.rightText
  match c.operator with
  | .equals => left ++ " == " ++ right
  | .notEquals => left ++ " != " ++ right
  | .greaterThan => left ++ " > " ++ right
  | .greaterOrEqual => left ++ " >= " ++ right
  | .lessThan => left ++ " < " ++ right
  | .lessOrEqual => left ++ " <= " ++ right
  | .contains => "String(" ++ left ++ ").includes(" ++ right ++ ")"
  | .startsWith => "String(" ++ left ++ ").startsWith(" ++ right ++ ")"
  | .isPresent => "!!" ++ negated c.left
  | .isAbsent => "!" ++ negated c.left

/-! ## As a value -/

/-- A right operand that is absent is left out. -/
def toJson (c : Comparison) : Json :=
  .object ([("left", c.left.toJson), ("operator", .string c.operator.name)]
    ++ (c.right.map fun operand => ("right", operand.toJson)).toList)

/-- A comparison is an object with its three fields, or an array of them. -/
def decode : Json → Except Json.DecodeError Comparison
  | .object members => do
    let left ← Json.present members "left" Operand.decode
    let operator ← Json.present members "operator" ComparisonOperator.decode
    let right ← Json.present members "right" (Json.decodeOption Operand.decode)
    let left ← Json.required "left" left
    let operator ← Json.required "operator" operator
    return ⟨left, operator, right.join⟩
  | .array items => do
    let left ← Json.item items 0 wantedItems Operand.decode
    let operator ← Json.item items 1 wantedItems ComparisonOperator.decode
    let right ← items[2]?.mapM (Json.decodeOption Operand.decode)
    Json.noMoreThan 3 items
    return ⟨left, operator, right.join⟩
  | other => .error (.wrongType other "struct Comparison")
where
  wantedItems : String := "struct Comparison with 3 elements"

end Comparison

/-! ## Conditions -/

/-- What follows the first comparison of a condition. A missing connector
counts as `and`. -/
def renderFurther : List Comparison → List Connector → String
  | [], _ => ""
  | c :: comparisons, [] => " && " ++ c.render ++ renderFurther comparisons []
  | c :: comparisons, connector :: connectors =>
    " " ++ connector.symbol ++ " " ++ c.render ++ renderFurther comparisons connectors

/-- **A condition**: the comparisons from left to right, connector `i`
between the comparisons `i` and `i + 1`. -/
def renderCondition : List Comparison → List Connector → String
  | [], _ => ""
  | c :: comparisons, connectors => c.render ++ renderFurther comparisons connectors

end StepGraph
