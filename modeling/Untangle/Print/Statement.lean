import Untangle.Print.Expression
import Untangle.Print.StatementStart

/-!
# Statements

The text of each kind of statement. A statement starts without indentation, which its caller places,
and indents its own further lines.
-/

namespace Untangle.Print

/-- The tags of statements that end with their body. -/
def bodyLastTags : List String :=
  ["ForStatement", "ForInStatement", "ForOfStatement", "WhileStatement", "WithStatement",
    "LabeledStatement"]

/-- The field of a node that holds the statement with which it ends, if it ends with one. -/
def lastField (tag : Value) (fields : Fields) : Except Fault (Option String) :=
  if tag.isText "IfStatement" then
    match fields.lookup "alternate" with
    | none | some .null => .ok none
    | some _ => .ok (some "alternate")
  else if bodyLastTags.any tag.isText then .ok (some "body")
  else .ok none

/-- Whether an `else` placed after the statement would bind to an `if` inside it. -/
def capturesElse (v : Value) : Except Fault Bool := do
  return (← v.descend lastField).hasTag "IfStatement"

/-- The body of a compound statement, placed after its head. -/
def bodyText (p : Printer) (level : Int) (v : Value) : Except Fault Doc := do
  if ← v.isTagged "BlockStatement" then return Doc.text " " ++ (← p.statement level v)
  else if v.hasTag "EmptyStatement" then return Doc.text ";"
  else return (← p.line (level + 1)) ++ (← p.statement (level + 1) v)

def blockText (p : Printer) (level : Int) (n : Value) : Except Fault Doc := do
  let body ← n.field "body"
  if !body.truthy then return Doc.text "\x7b\x7d"
  else
    let lines ← p.statementLines (level + 1) body
    return Doc.text "\x7b" ++ [.newline] ++ lines ++ (← p.line level) ++ Doc.text "\x7d"

/-- An expression as a statement, in parentheses when it would be read as something else. -/
def expressionStatementText (p : Printer) (level : Int) (n : Value) : Except Fault Doc := do
  let text ← p.glued (.plain level) Precedence.sequence (← n.field "expression")
  let text := if isAmbiguousStart (text.chars p.width) then text.parenthesized else text
  return text ++ Doc.text ";"

def bracedText (p : Printer) (level : Int) (v : Value) : Except Fault Doc := do
  let line ← p.line (level + 1)
  let text ← p.statement (level + 1) v
  return Doc.text " \x7b" ++ line ++ text ++ (← p.line level) ++ Doc.text "\x7d"

/-- The consequent of a branch with an `else`. One that would capture the `else` is put in braces. -/
def consequentText (p : Printer) (level : Int) (consequent : Value) : Except Fault Doc := do
  let captures ←
    if ← consequent.isTagged "BlockStatement" then pure false else capturesElse consequent
  if captures then bracedText p level consequent else bodyText p level consequent

/-- The `else` of a branch after the text before it, on that line if a brace ends there. -/
def elseKeyword (p : Printer) (level : Int) (isBlock : Bool) (text : Doc) : Except Fault Doc := do
  if isBlock || text.endsWith p.width '\x7d' then return text ++ Doc.text " else"
  else return text ++ (← p.line level) ++ Doc.text "else"

def alternateText (p : Printer) (level : Int) (alternate : Value) : Except Fault Doc := do
  if ← alternate.isTagged "IfStatement" then
    return Doc.text " " ++ (← p.statement level alternate)
  else bodyText p level alternate

def ifText (p : Printer) (level : Int) (n : Value) : Except Fault Doc := do
  let test ← p.shown (.plain level) Precedence.sequence (← n.field "test")
  let head := Doc.text "if (" ++ test ++ Doc.text ")"
  let consequent ← n.field "consequent"
  match ← n.optional "alternate" with
  | none => return head ++ (← bodyText p level consequent)
  | some alternate =>
    let isBlock ← consequent.isTagged "BlockStatement"
    let body ← consequentText p level consequent
    let text ← elseKeyword p level isBlock (head ++ body)
    return text ++ (← alternateText p level alternate)

/-- A jump with its label, if it has one. -/
def jumpText (keyword : String) (n : Value) : Except Fault Doc := do
  match (← n.optional "label").filter Value.truthy with
  | some label =>
    return Doc.text (keyword ++ " ") ++ shownValue (← label.field "name") ++ Doc.text ";"
  | none => return Doc.text (keyword ++ ";")

/-- A statement that is a keyword, an expression in parentheses and a body. -/
def guardedText (p : Printer) (level : Int) (keyword name : String) (n : Value) :
    Except Fault Doc := do
  let guard ← p.shown (.plain level) Precedence.sequence (← n.field name)
  let body ← bodyText p level (← n.field "body")
  return Doc.text (keyword ++ " (") ++ guard ++ Doc.text ")" ++ body

def switchText (p : Printer) (level : Int) (n : Value) : Except Fault Doc := do
  let discriminant ← p.shown (.plain level) Precedence.sequence (← n.field "discriminant")
  let cases ← (← (← n.field "cases").items).mapM fun case =>
    return (← p.line (level + 1)) ++ (← p.statement (level + 1) case)
  return Doc.text "switch (" ++ discriminant ++ Doc.text ") \x7b" ++ cases.flatten ++
    (← p.line level) ++ Doc.text "\x7d"

/-- A case of a switch; the one without a test is the default. -/
def caseText (p : Printer) (level : Int) (n : Value) : Except Fault Doc := do
  let head ← match ← n.optional "test" with
    | some test =>
      pure (Doc.text "case " ++ (← p.shown (.plain level) Precedence.sequence test) ++ Doc.text ":")
    | none => pure (Doc.text "default:")
  let consequent ← n.field "consequent"
  if consequent.truthy then
    return head ++ [.newline] ++ (← p.statementLines (level + 1) consequent)
  else return head

/-- A return, with its argument if it has one. -/
def returnText (p : Printer) (level : Int) (n : Value) : Except Fault Doc := do
  match ← n.optional "argument" with
  | none => return Doc.text "return;"
  | some argument =>
    let text ← p.shown (.plain level) Precedence.sequence argument
    return Doc.text "return " ++ text ++ Doc.text ";"

/-- A clause of a `try` after its keyword, if there is one. -/
def clauseText (p : Printer) (level : Int) (keyword : String) (clause : Option Value) :
    Except Fault Doc := do
  match clause with
  | some v => return Doc.text keyword ++ (← p.statement level v)
  | none => return []

def tryText (p : Printer) (level : Int) (n : Value) : Except Fault Doc := do
  let block ← p.statement level (← n.field "block")
  let handler ← clauseText p level " " (← n.optional "handler")
  let finalizer ← clauseText p level " finally " (← n.optional "finalizer")
  return Doc.text "try " ++ block ++ handler ++ finalizer

/-- A handler of a `try`, with or without a parameter. -/
def catchText (p : Printer) (level : Int) (n : Value) : Except Fault Doc := do
  match ← n.optional "param" with
  | none => return Doc.text "catch " ++ (← p.statement level (← n.field "body"))
  | some param =>
    let param ← p.shown (.plain level) Precedence.assignment param
    let body ← p.statement level (← n.field "body")
    return Doc.text "catch (" ++ param ++ Doc.text ") " ++ body

/-- A loop with its test at the end. -/
def doWhileText (p : Printer) (level : Int) (n : Value) : Except Fault Doc := do
  let bodyNode ← n.field "body"
  let body ← bodyText p level bodyNode
  let gap ← if bodyNode.hasTag "BlockStatement" then pure (Doc.text " ") else p.line level
  let test ← p.shown (.plain level) Precedence.sequence (← n.field "test")
  return Doc.text "do" ++ body ++ gap ++ Doc.text "while (" ++ test ++ Doc.text ");"

/-- A declared target with its initializer, if it has one. -/
def declaratorText (p : Printer) (place : Place) (n : Value) : Except Fault Phrase := do
  let target ← p.expression place Precedence.assignment (← n.field "id")
  match ← n.optional "init" with
  | none => return target
  | some init =>
    let init ← p.shown place Precedence.assignment init
    return .doc (target.shown ++ Doc.text " = " ++ init)

/-- The declarators of a declaration after its keyword. -/
def declarationText (p : Printer) (place : Place) (n : Value) : Except Fault Doc := do
  let phrases ← (← (← n.field "declarations").items).mapM (declaratorText p place)
  let declarators ← Phrase.joined ", " phrases
  let kind ← n.field "kind"
  return shownValue kind ++ Doc.text " " ++ declarators

/-- What stands first in the head of a loop: a declaration or an expression. -/
def loopHead (p : Printer) (level : Int) (v : Value) : Except Fault Phrase := do
  let place : Place := { level, noIn := true }
  if ← v.isTagged "VariableDeclaration" then return .doc (← declarationText p place v)
  else p.expression place Precedence.sequence v

/-- An optional expression of a loop head, after a blank. -/
def headPart (p : Printer) (level : Int) (part : Option Value) : Except Fault Doc := do
  match part with
  | some v => return Doc.text " " ++ (← p.glued (.plain level) Precedence.sequence v)
  | none => return []

def initText (p : Printer) (level : Int) (init : Option Value) : Except Fault Doc := do
  match init with
  | some v => (← loopHead p level v).glue
  | none => return []

/-- A loop with initializer, test and update, each of which may be missing. -/
def forText (p : Printer) (level : Int) (n : Value) : Except Fault Doc := do
  let init ← n.optional "init"
  let test ← n.optional "test"
  let update ← n.optional "update"
  let init ← initText p level init
  let test ← headPart p level test
  let update ← headPart p level update
  let body ← bodyText p level (← n.field "body")
  return Doc.text "for (" ++ init ++ Doc.text ";" ++ test ++ Doc.text ";" ++ update ++
    Doc.text ")" ++ body

/-- A loop over the keys or the members of a value. -/
def forEachText (p : Printer) (level : Int) (keyword : String) (n : Value) : Except Fault Doc := do
  let left ← loopHead p level (← n.field "left")
  let right ← p.shown (.plain level) Precedence.assignment (← n.field "right")
  let body ← bodyText p level (← n.field "body")
  return Doc.text "for (" ++ left.shown ++ Doc.text (" " ++ keyword ++ " ") ++ right ++
    Doc.text ")" ++ body

def labeledText (p : Printer) (level : Int) (n : Value) : Except Fault Doc := do
  let name ← (← n.field "label").field "name"
  let body ← p.statement level (← n.field "body")
  return shownValue name ++ Doc.text ": " ++ body

/-- The text of a statement by the tag of the node. -/
def statementText (p : Printer) (level : Int) (n : Value) : Except Fault Doc := do
  match ← chosenBy n with
  | "Program" => p.statementLines level (← n.field "body")
  | "BlockStatement" => blockText p level n
  | "EmptyStatement" => return Doc.text ";"
  | "ExpressionStatement" => expressionStatementText p level n
  | "IfStatement" => ifText p level n
  | "LabeledStatement" => labeledText p level n
  | "BreakStatement" => jumpText "break" n
  | "ContinueStatement" => jumpText "continue" n
  | "WithStatement" => guardedText p level "with" "object" n
  | "SwitchStatement" => switchText p level n
  | "SwitchCase" => caseText p level n
  | "ReturnStatement" => returnText p level n
  | "ThrowStatement" =>
    let argument ← p.shown (.plain level) Precedence.sequence (← n.field "argument")
    return Doc.text "throw " ++ argument ++ Doc.text ";"
  | "TryStatement" => tryText p level n
  | "CatchClause" => catchText p level n
  | "WhileStatement" => guardedText p level "while" "test" n
  | "DoWhileStatement" => doWhileText p level n
  | "ForStatement" => forText p level n
  | "ForInStatement" => forEachText p level "in" n
  | "ForOfStatement" => forEachText p level "of" n
  | "DebuggerStatement" => return Doc.text "debugger;"
  | "VariableDeclaration" => return (← declarationText p (.plain level) n) ++ Doc.text ";"
  | "FunctionDeclaration" => functionText p (.plain level) n
  | "ClassDeclaration" => classText p (.plain level) n
  | tag => throw (.noText tag)

end Untangle.Print
