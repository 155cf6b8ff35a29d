import Untangle.Reshape.Rule.Unpack

/-!
# Rules for statements, branches and returns

Expression statements and statement lists are unpacked. A comma in the test of a branch, in the
discriminant of a switch or in the argument of a return moves out in front of the statement, and a
conditional that is returned becomes a branch.

Rows of the rule catalog, section 4.4 of the specification: `ExpressionStatement`, `IfStatement`,
`SwitchStatement`, `Program`, `BlockStatement` and `ReturnStatement`.
-/

namespace Untangle.Reshape.Rule

/-- Unpacks the expression of a statement if its kind has a rule. -/
def expressionStatement (e : Engine) (n : Value) : ReshapeM (List Value) := do
  let expression ← n.field "expression"
  if ← e.unpacks (← expression.tag) then e.unpack expression else return [n]

/-- Unpacks the members of a program or a block. -/
def statementList (e : Engine) (n : Value) : ReshapeM (List Value) := do
  let body ← e.unpackAll (← (← n.field "body").items)
  return [n.withField "body" (.seq body)]

/-- The statements that come before the last member of a sequence expression, and that member. -/
def splitSequence (n : Value) : Except Fault (List Value × Value) := do
  (← n.field "expressions").leadingAndLast

/-- Whether a chain of branches ends in one without an else. -/
def endsWithoutElse (n : Value) : Except Fault Bool := do
  let last ← n.descend fun tag fields =>
    if tag.isText "IfStatement" then
      match fields.lookup "alternate" with
      | none | some .null => .ok none
      | some _ => .ok (some "alternate")
    else .ok none
  return last.hasTag "IfStatement"

/-- Unpacks a branch of an if into one statement; a missing branch stays missing. -/
def unpackBranch (e : Engine) (branch : Option Value) : ReshapeM (Option Value) := do
  match branch with
  | none => return none
  | some branch => return some (← unpackOne e branch)

/-- Unpacks the two branches of an if; a consequent that would capture the else is put in a
block. -/
def unpackBranches (e : Engine) (n : Value) : ReshapeM (List Value) := do
  let consequent ← unpackBranch e (← n.optional "consequent")
  let alternate ← unpackBranch e (← n.optional "alternate")
  match consequent with
  | none => throw (.noEntry "consequent")
  | some consequent =>
    match alternate with
    | none => return [n.withField "consequent" consequent]
    | some alternate =>
      let consequent ← blockUnless e (!(← endsWithoutElse consequent)) consequent
      return [(n.withField "consequent" consequent).withField "alternate" alternate]

/-- `if (a(), b) x;` becomes `a(); if (b) x;`; otherwise the branches are unpacked. -/
def ifStatement (e : Engine) (n : Value) : ReshapeM (List Value) := do
  let test ← n.field "test"
  if ← test.isTagged "SequenceExpression" then
    let (leading, last) ← splitSequence test
    let before ← e.unpackAll leading
    return before ++ (← e.settle (n.withField "test" last))
  else unpackBranches e n

/-- `switch (a, b) ...` becomes `a; switch (b) ...`. -/
def switchStatement (e : Engine) (n : Value) : ReshapeM (List Value) := do
  let discriminant ← n.field "discriminant"
  if ← discriminant.isTagged "SequenceExpression" then
    let (leading, last) ← splitSequence discriminant
    let before ← e.unpackAll leading
    return before ++ [n.withField "discriminant" last]
  else return [n]

/-- A return of one of the branches of a conditional, as one statement. -/
def returnOne (e : Engine) (argument : Value) : ReshapeM Value := do
  e.asOne (← e.settle (Value.returnStatement argument))

/-- `return t ? a : b;` becomes a branch with a return on each side. -/
def returnConditional (e : Engine) (argument : Value) : ReshapeM (List Value) := do
  let consequent ← returnOne e (← argument.field "consequent")
  let alternate ← returnOne e (← argument.field "alternate")
  let consequent ← e.enclose [consequent]
  let alternate ← blockUnless e (← hasElse alternate) alternate
  e.settle (Value.ifStatement (← argument.field "test") consequent alternate)

/-- `return a, b;` becomes `a; return b;`, and a conditional becomes a branch. -/
def returnStatement (e : Engine) (n : Value) : ReshapeM (List Value) := do
  match ← n.optional "argument" with
  | none => return [n]
  | some argument =>
    if ← argument.isTagged "SequenceExpression" then
      let (leading, last) ← splitSequence argument
      let before ← e.unpackAll leading
      return before ++ (← e.settle (n.withField "argument" last))
    else if argument.hasTag "ConditionalExpression" then returnConditional e argument
    else return [n]

end Untangle.Reshape.Rule
