import WebLint.Diagnostic

/-!
# Comparisons

Two rules look at the operands of a comparison: values are compared strictly
unless one of them is written `null`, and nothing is compared to `NaN`.
-/

namespace WebLint
namespace Comparison

/-! ## Equality -/

/-- The operator that should stand in the place of another. -/
def betterOperator (againstNull : Bool) (operator : String) : Option String :=
  if againstNull then
    if operator = "===" then some "==" else if operator = "!==" then some "!=" else none
  else if operator = "==" then some "==="
  else if operator = "!=" then some "!=="
  else none

/-- Whether an operand is written `null`. -/
def isNull (n : Node) (operand : String) : Bool :=
  match n.childByField operand with
  | some o => o.kind == "null"
  | none => false

/-- A comparison with another operator than it should have. -/
def equality (n : Node) : Option Violation :=
  (n.childByField "operator").bind fun operator =>
    (betterOperator (isNull n "left" || isNull n "right") operator.kind).map fun better =>
      { rule := .eqeqeq
        message := "Expected '" ++ better ++ "' and instead saw '" ++ operator.kind ++ "'."
        span := operator.span }

/-! ## NaN -/

/-- The operators that compare. -/
def operators : List String := ["==", "!=", "===", "!==", "<", ">", "<=", ">="]

/-- The text of the part of a node that fills a field. -/
def fieldText (t : Text) (children : List Node) (field : String) : Option Text :=
  (children.find? (·.field == some field)).map fun n => n.text t

mutual

/-- Whether an expression is written `NaN` or `Number.NaN`, perhaps in
parentheses. -/
def isNaN (t : Text) : Node → Bool
  | .mk l cs =>
    if l.kind = "identifier" then t.at l.span == "NaN".toList
    else if l.kind = "member_expression" then
      fieldText t cs "object" == some "Number".toList &&
        fieldText t cs "property" == some "NaN".toList
    else if l.kind = "parenthesized_expression" then firstIsNaN t cs
    else false

/-- Whether the first named node of a list is written so. -/
def firstIsNaN (t : Text) : List Node → Bool
  | [] => false
  | n :: ns => if n.isNamed then isNaN t n else firstIsNaN t ns

end

/-- Whether an operand is written so. -/
def operandIsNaN (t : Text) (n : Node) (operand : String) : Bool :=
  match n.childByField operand with
  | some o => isNaN t o
  | none => false

/-- A comparison to `NaN`. -/
def toNaN (t : Text) (n : Node) : Option Violation :=
  (n.childByField "operator").bind fun operator =>
    if operators.contains operator.kind && (operandIsNaN t n "left" || operandIsNaN t n "right")
    then
      some
        { rule := .useIsnan
          message := "Use the isNaN function to compare with NaN."
          span := n.span }
    else none

end Comparison
end WebLint
