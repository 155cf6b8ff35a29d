import Untangle.Reshape.Rule.Branch
import Untangle.Tree.Walk

/-!
# Rules for loops and labels

The head of a loop keeps only what the loop needs: declarators that neither its test nor its update
refers to move out in front, and so do all but the last of comma expressions. A label follows its
loop when statements were moved out in front of it.

Rows of the rule catalog, section 4.4 of the specification: `ForStatement` and `LabeledStatement`.
-/

namespace Untangle.Reshape.Rule

/-- A name must be one that can be looked up among others. -/
def requireKey (name : Value) : Except Fault Unit :=
  if name.isKey then .ok () else .error .wrongKind

/-- The name of an identifier, to be looked up among others. -/
def nameKey (n : Value) : Except Fault Value := do
  let name ← n.field "name"
  requireKey name
  return name

def identifierNames (values : List Value) : Except Fault (List Value) :=
  ((Value.walkItems values).filter (·.hasTag "Identifier")).mapM nameKey

/-- Whether a declaration target binds one of the names. -/
def bindsOneOf (names : List Value) (target : Value) : Except Fault Bool := do
  let bound ← target.boundNamesWith requireKey
  return bound.any fun name => names.any fun other => other.same name

/-- Splits declarators into those that stay in the loop head and those that move out. A declarator
stays if it binds a referenced name, or if one with an initializer stays before it, so that no
initializer overtakes another. -/
def partitionDeclarators (names : List Value) :
    (initialized : Bool) → List Value → Except Fault (List Value × List Value)
  | _, [] => return ([], [])
  | true, declarator :: rest => do
    let (kept, hoisted) ← partitionDeclarators names true rest
    return (declarator :: kept, hoisted)
  | false, declarator :: rest => do
    if ← bindsOneOf names (← declarator.field "id") then
      let initialized := (← declarator.optional "init").isSome
      let (kept, hoisted) ← partitionDeclarators names initialized rest
      return (declarator :: kept, hoisted)
    else
      let (kept, hoisted) ← partitionDeclarators names false rest
      return (kept, declarator :: hoisted)

/-- `for (var i, j; i < 9;)` becomes `var j; for (var i; i < 9;)`. -/
def hoistDeclarators (n init : Value) : Except Fault (List Value) := do
  let names ← identifierNames [← n.field "test", ← n.field "update"]
  let declarators ← (← init.field "declarations").items
  let (kept, hoisted) ← partitionDeclarators names false declarators
  if hoisted.isEmpty then return [n]
  else
    let init := if kept.isEmpty then .null else init.withField "declarations" (.seq kept)
    return [Value.variableDeclaration hoisted (.str "var"), n.withField "init" init]

def isVarDeclaration (init : Value) : Except Fault Bool := do
  if ← init.isTagged "VariableDeclaration" then return (← init.field "kind").isText "var"
  else return false

/-- Moves what the loop does not need out of its initializer. -/
def forStatement (e : Engine) (n : Value) : ReshapeM (List Value) := do
  match ← n.field "init" with
  | .null => return [n]
  | init =>
    if ← isVarDeclaration init then
      let result ← hoistDeclarators n init
      return result
    else if init.hasTag "SequenceExpression" then
      let (leading, last) ← splitSequence init
      let before ← e.unpackAll leading
      return before ++ [n.withField "init" last]
    else return [n]

def loopTags : List String :=
  ["ForStatement", "ForInStatement", "ForOfStatement", "WhileStatement", "DoWhileStatement"]

/-- Whether a statement is a loop, perhaps under labels. -/
def isLoop (n : Value) : Except Fault Bool := do
  let inner ← n.descend fun tag _ =>
    if tag.isText "LabeledStatement" then .ok (some "body") else .ok none
  return (← (← inner.tag).key?).any loopTags.contains

def jumpsTo (label n : Value) : Except Fault Bool := do
  if (← n.isTagged "BreakStatement") || n.hasTag "ContinueStatement" then
    Value.isIdentifier ((← n.optional "label").getD .null) label
  else return false

def anyJumpsTo (label : Value) : List Value → Except Fault Bool
  | [] => return false
  | n :: rest => do if ← jumpsTo label n then return true else anyJumpsTo label rest

/-- Whether a statement can move out from under the label: a `var` declaration or an expression that
does not jump to it. -/
def canLeave (label n : Value) : Except Fault Bool := do
  let plain ←
    if ← n.isTagged "VariableDeclaration" then pure ((← n.field "kind").isText "var")
    else pure (n.hasTag "ExpressionStatement")
  if plain then return !(← anyJumpsTo label n.walk) else return false

/-- Whether all the statements can move out from under the label of the node. -/
def allCanLeave (n : Value) : List Value → Except Fault Bool
  | [] => return true
  | statement :: rest => do
    let label ← (← n.field "label").field "name"
    if ← canLeave label statement then allCanLeave n rest else return false

/-- The statements in front of the loop that ends a labelled block, and that loop, if the statements
can move out from under the label. -/
def leavingBefore (n body : Value) : Except Fault (Option (List Value × Value)) := do
  if !(← body.isTagged "BlockStatement") then return none
  else
    let statements ← body.field "body"
    if (← statements.length) < 2 then return none
    else
      let (leading, last) ← statements.leadingAndLast
      if !(← isLoop last) then return none
      else if ← allCanLeave n leading then return some (leading, last)
      else return none

/-- A label on a block that ends in a loop moves to the loop: `var j; l: for (;;) ...`. -/
def labeledStatement (_ : Engine) (n : Value) : ReshapeM (List Value) := do
  match ← leavingBefore n (← n.field "body") with
  | some (leading, last) => return leading ++ [n.withField "body" last]
  | none => return [n]

end Untangle.Reshape.Rule
