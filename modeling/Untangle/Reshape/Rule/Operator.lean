import Untangle.Reshape.Engine
import Untangle.Tree.Walk

/-!
# Rules for operators

A comparison is turned round so that the constant stands on the right, and the packed spellings of
`true`, `false` and `undefined` are unfolded.

Rows of the rule catalog, section 4.4 of the specification: `BinaryExpression` and
`UnaryExpression`.
-/

namespace Untangle.Reshape.Rule

/-- Comparison operators with the operator that compares the other way round. -/
def comparisonTable : List (String × String) := [
  ("==", "=="), ("===", "==="), ("!=", "!="), ("!==", "!=="),
  (">", "<"), ("<", ">"), (">=", "<="), ("<=", ">=")]

/-- The comparison operator that says the same with its operands exchanged. -/
def flipped? (operator : Value) : Except Fault (Option String) :=
  return (← operator.key?).bind fun s => comparisonTable.lookup s

/-- Unary operators that leave open what their operand refers to. -/
def plainUnary : List String := ["-", "+", "!", "~", "typeof"]

/-- Whether an expression is a literal, perhaps under plain unary operators. -/
def isConstant (n : Value) : Except Fault Bool := do
  let inner ← n.descend fun tag fields =>
    if tag.isText "UnaryExpression" then
      match fields.lookup "operator" with
      | some operator => do
        if (← operator.key?).any plainUnary.contains then return some "argument" else return none
      | none => .error (.noField tag.plainText "operator")
    else .ok none
  return inner.hasTag "Literal"

/-- Whether the operands of a comparison are to be exchanged. -/
def isReversed (left right : Value) : Except Fault Bool := do
  if ← left.isIdentifier (.str "undefined") then return true
  else
    let leftIsName ← left.isIdentifier .null
    let rightIsName ← if leftIsName then pure false else right.isIdentifier .null
    if rightIsName then return true
    else if ← isConstant left then return !(← isConstant right)
    else return false

/-- `5 > x` becomes `x < 5`, and `undefined == x` becomes `x == undefined`. -/
def turnComparison (n : Value) : Except Fault Value := do
  match ← flipped? (← n.field "operator") with
  | none => return n
  | some operator =>
    let left ← n.field "left"
    let right ← n.field "right"
    if ← isReversed left right then
      let turned := n.withField "operator" (.str operator)
      return (turned.withField "left" right).withField "right" left
    else return n

/-- The truth value that `!` gives for a number that is zero or one. -/
def negatedNumber? : Value → Option Bool
  | .int 0 => some true
  | .int 1 => some false
  | .float x => if x.sameInt 0 then some true else if x.sameInt 1 then some false else none
  | _ => none

/-- `!0` becomes `true`, `!1` becomes `false` and `void` of a literal becomes `undefined`. -/
def evaluateUnary (n : Value) : Except Fault Value := do
  let argument ← n.field "argument"
  if !(← argument.isTagged "Literal") then return n
  else
    let operator ← n.field "operator"
    if operator.isText "!" then
      match (← argument.optional "value").bind negatedNumber? with
      | some b => return Value.booleanLiteral (.bool b)
      | none => return n
    else if operator.isText "void" then return Value.identifier (.str "undefined")
    else return n

def binaryExpression (_ : Engine) (n : Value) : ReshapeM (List Value) :=
  return [← turnComparison n]

def unaryExpression (_ : Engine) (n : Value) : ReshapeM (List Value) :=
  return [← evaluateUnary n]

end Untangle.Reshape.Rule
