import Untangle.Reshape.Engine
import Untangle.Tree.Equality

/-!
# Rules for packed expressions

An expression that stands as a statement is unfolded into plain control flow: a comma sequence into
statements, a conditional into a branch with an else, a short circuit into a branch without one.

The rows of the rule catalog, section 4.4 of the specification, that are marked as loose.
-/

namespace Untangle.Reshape.Rule

def hasElse (n : Value) : Except Fault Bool := do
  if ← n.isTagged "IfStatement" then return (← n.optional "alternate").isSome else return false

/-- Unpacks an expression into one statement. -/
def unpackOne (e : Engine) (n : Value) : ReshapeM Value := do
  e.asOne (← e.unpack n)

/-- Puts a statement in a block, unless the test holds of it. -/
def blockUnless (e : Engine) (keep : Bool) (n : Value) : ReshapeM Value :=
  if keep then return n else e.enclose [n]

/-- `a, b, c;` becomes `a; b; c;`. -/
def unpackSequence (e : Engine) (n : Value) : ReshapeM (List Value) := do
  let expressions ← n.field "expressions"
  e.unpackAll (← expressions.items)

/-- `t ? a : b;` becomes `if (t) a; else b;`. A branch in the consequent would capture the else, so
it is put in a block; the alternate is put in a block unless it goes on as an else-if. -/
def unpackConditional (e : Engine) (n : Value) : ReshapeM (List Value) := do
  let consequent ← unpackOne e (← n.field "consequent")
  let alternate ← unpackOne e (← n.field "alternate")
  let consequent ← blockUnless e (!(← consequent.isTagged "IfStatement")) consequent
  let alternate ← blockUnless e (← hasElse alternate) alternate
  e.settle (Value.ifStatement (← n.field "test") consequent alternate)

/-- `a && b;` becomes `if (a) b;` and `a || b;` becomes `if (!a) b;`. -/
def unpackLogical (e : Engine) (n : Value) : ReshapeM (List Value) := do
  let operator ← n.field "operator"
  if operator.isText "&&" || operator.isText "||" then
    let consequent ← unpackOne e (← n.field "right")
    let left ← n.field "left"
    let test ←
      if operator.isText "||" then do
        e.asOne (← e.settle (Value.unaryExpression (.str "!") left))
      else pure left
    e.settle (Value.ifStatement test consequent .null)
  else return [Value.expressionStatement n]

/-- An assignment or a call stays as it is, as a statement. -/
def unpackPlain (_ : Engine) (n : Value) : ReshapeM (List Value) :=
  return [Value.expressionStatement n]

def unpackRules : RuleMap := [
  ("SequenceExpression", { name := "sequence", run := unpackSequence }),
  ("ConditionalExpression", { name := "conditional", run := unpackConditional }),
  ("LogicalExpression", { name := "logical", run := unpackLogical }),
  ("AssignmentExpression", { name := "plain", run := unpackPlain }),
  ("CallExpression", { name := "plain", run := unpackPlain })]

end Untangle.Reshape.Rule
