import Untangle.Print.Function
import Untangle.Print.Literal

/-!
# Expressions

The text of each kind of expression with its precedence. Operands ask for the precedence that their
place needs, so parentheses follow from the tree alone.
-/

namespace Untangle.Print

/-- The elements of an array; a hole prints nothing, and a hole at the end takes one more comma. -/
def arrayText (p : Printer) (place : Place) (n : Value) : Except Fault Doc := do
  let elements ← (← n.field "elements").items
  let phrases ← elements.mapM fun element =>
    if element.isNull then pure (Phrase.doc [])
    else p.expression place Precedence.assignment element
  let endsInHole := elements.getLast?.any Value.isNull
  let inner ← Phrase.joined ", " (if endsInHole then phrases ++ [.doc []] else phrases)
  return Doc.text "[" ++ inner ++ Doc.text "]"

/-- An object with each member on a line of its own. -/
def objectText (p : Printer) (place : Place) (n : Value) : Except Fault Doc := do
  let properties ← n.field "properties"
  if !properties.truthy then return Doc.text "\x7b\x7d"
  else
    let inner := place.deeper
    let line ← p.line inner.level
    let phrases ← (← properties.items).mapM (property p inner)
    let docs ← phrases.mapM Phrase.glue
    return Doc.text "\x7b" ++ line ++ Doc.joined (Doc.text "," ++ line) docs ++
      (← p.line place.level) ++ Doc.text "\x7d"

/-- An object pattern on one line. -/
def objectPatternText (p : Printer) (place : Place) (n : Value) : Except Fault Doc := do
  let phrases ← (← (← n.field "properties").items).mapM (property p place)
  let inner ← Phrase.joined ", " phrases
  return Doc.text "\x7b" ++ inner ++ Doc.text "\x7d"

/-- An arrow function; a body that would be read as a block is put in parentheses. -/
def arrowText (p : Printer) (place : Place) (n : Value) : Except Fault Doc := do
  let asyncMark := Doc.text (if ← flag n "async" then "async " else "")
  let params ← p.commaList place (← n.field "params")
  let body ← n.field "body"
  let bodyText ←
    if ← body.isTagged "BlockStatement" then p.statement place.level body
    else
      let text ← (← p.expression place Precedence.assignment body).inspect
      pure (if text.startsWith p.width '\x7b' then text.parenthesized else text)
  return asyncMark ++ Doc.text "(" ++ params ++ Doc.text ") => " ++ bodyText

/-- The member of a sequence at a position, if the sequence is that long. -/
def memberAt (v : Value) (index : Nat) : Except Fault (Option Value) :=
  match v with
  | .object entries =>
    if index < entries.length then .error (.noEntry (toString index)) else .ok none
  | _ => return (← v.items)[index]?

/-- The chunks of a template from position `index` on, each followed by its expression. -/
def templateParts (p : Printer) (place : Place) (expressions : Value) :
    Nat → List Value → Except Fault (List Phrase)
  | _, [] => return []
  | index, chunk :: rest => do
    let raw ← entry (← chunk.field "value") "raw"
    let inserted ← match ← memberAt expressions index with
      | some expression =>
        let text ← p.glued place Precedence.sequence expression
        pure [Phrase.doc (Doc.text "$\x7b" ++ text ++ Doc.text "\x7d")]
      | none => pure []
    return Phrase.ofValue raw :: inserted ++ (← templateParts p place expressions (index + 1) rest)

/-- A template with its chunks as they are spelled. -/
def templateText (p : Printer) (place : Place) (n : Value) : Except Fault Doc := do
  let expressions ← n.field "expressions"
  let parts ← templateParts p place expressions 0 (← (← n.field "quasis").items)
  return Doc.text "`" ++ (← Phrase.joined "" parts) ++ Doc.text "`"

def taggedTemplateText (p : Printer) (place : Place) (n : Value) : Except Fault Doc := do
  let callee ← p.expression place Precedence.call (← n.field "tag")
  let template ← templateText p place (← n.field "quasi")
  return (← callee.glue) ++ template

/-- A unary operator with its operand. A word is followed by a blank, and so is a sign before an
operand that starts with the same sign. -/
def unaryText (p : Printer) (place : Place) (n : Value) : Except Fault Phrase := do
  let operator ← n.field "operator"
  let argument ← p.expression place Precedence.unary (← n.field "argument")
  match ← operator.key? with
  | some word =>
    if Precedence.wordOperators.contains word then
      return .doc (Doc.text (word ++ " ") ++ argument.shown)
    else if word = "+" ∨ word = "-" then
      let text ← argument.inspect
      if word.toList.isPrefixOf (text.chars p.width) then
        return .doc (Doc.text (word ++ " ") ++ text)
      else return .doc (Doc.text word ++ text)
    else (Phrase.ofValue operator).plus argument
  | none => (Phrase.ofValue operator).plus argument

def updateText (p : Printer) (place : Place) (n : Value) : Except Fault (Phrase × Precedence) := do
  if (← n.field "prefix").truthy then
    let operator ← n.field "operator"
    let argument ← p.expression place Precedence.unary (← n.field "argument")
    return (← (Phrase.ofValue operator).plus argument, Precedence.unary)
  else
    let argument ← p.expression place Precedence.update (← n.field "argument")
    let operator ← n.field "operator"
    return (← argument.plus (Phrase.ofValue operator), Precedence.update)

def binaryPrecedence (operator : Value) : Except Fault Precedence :=
  match operator.key? with
  | .error fault => .error fault
  | .ok word =>
    match word.bind Precedence.ofBinary? with
    | some precedence => .ok precedence
    | none => .error (.noEntry operator.plainText)

/-- Two operands with an operator between them. Operators group to the left, except that a power
groups to the right and takes no unary expression as its base. -/
def binaryText (p : Printer) (place : Place) (n : Value) : Except Fault (Doc × Precedence) := do
  let operator ← n.field "operator"
  let precedence ← binaryPrecedence operator
  let isPower := operator.isText "**"
  let left ← p.shown place (if isPower then Precedence.update else precedence) (← n.field "left")
  let right ← p.shown place (if isPower then precedence else precedence + 1) (← n.field "right")
  return (left ++ Doc.text " " ++ shownValue operator ++ Doc.text " " ++ right, precedence)

def assignmentText (p : Printer) (place : Place) (n : Value) : Except Fault Doc := do
  let left ← p.shown place Precedence.call (← n.field "left")
  let right ← p.shown place Precedence.assignment (← n.field "right")
  let operator ← n.field "operator"
  return left ++ Doc.text " " ++ shownValue operator ++ Doc.text " " ++ right

def assignmentPatternText (p : Printer) (place : Place) (n : Value) : Except Fault Doc := do
  let left ← p.shown place Precedence.call (← n.field "left")
  let right ← p.shown place Precedence.assignment (← n.field "right")
  return left ++ Doc.text " = " ++ right

def conditionalText (p : Printer) (place : Place) (n : Value) : Except Fault Doc := do
  let test ← p.shown place Precedence.logicalOr (← n.field "test")
  let consequent ← p.shown place Precedence.assignment (← n.field "consequent")
  let alternate ← p.shown place Precedence.assignment (← n.field "alternate")
  return test ++ Doc.text " ? " ++ consequent ++ Doc.text " : " ++ alternate

def argumentsText (p : Printer) (place : Place) (n : Value) : Except Fault Doc := do
  return Doc.text "(" ++ (← p.commaList place (← n.field "arguments")) ++ Doc.text ")"

def callText (p : Printer) (place : Place) (n : Value) : Except Fault Doc := do
  let callee ← p.expression place Precedence.call (← n.field "callee")
  let arguments ← argumentsText p place n
  return (← callee.glue) ++ arguments

/-- The field of a member or a template that holds what it is a member or a template of. -/
def chainField (tag : Value) (_ : Fields) : Except Fault (Option String) :=
  if tag.isText "MemberExpression" then .ok (some "object")
  else if tag.isText "TaggedTemplateExpression" then .ok (some "tag")
  else .ok none

/-- Whether an expression is a call, or a chain of members or templates of one. -/
def isChainOfCall (v : Value) : Except Fault Bool := do
  return (← v.descend chainField).hasTag "CallExpression"

/-- The construction of an object; a callee that holds a call is put in parentheses, since its
argument list would be taken for that of `new`. -/
def newText (p : Printer) (place : Place) (n : Value) : Except Fault Doc := do
  let calleeNode ← n.field "callee"
  let callee ← p.expression place Precedence.construction calleeNode
  let callee ←
    if ← isChainOfCall calleeNode then
      let text ← callee.inspect
      pure (if text.startsWith p.width '(' then text else text.parenthesized)
    else callee.glue
  let arguments ← argumentsText p place n
  return Doc.text "new " ++ callee ++ arguments

def memberText (p : Printer) (place : Place) (n : Value) : Except Fault Doc := do
  let objectNode ← n.field "object"
  let object ← p.expression place Precedence.call objectNode
  let bare ←
    if ← isAllDigits p.width objectNode object then pure (!(← n.field "computed").truthy)
    else pure false
  let object := if bare then object.shown.parenthesized else object.shown
  if (← n.field "computed").truthy then
    let key ← p.shown place Precedence.sequence (← n.field "property")
    return object ++ Doc.text "[" ++ key ++ Doc.text "]"
  else
    let name ← (← n.field "property").field "name"
    return object ++ Doc.text "." ++ shownValue name

/-- A `yield`, with a star when it hands over to another generator. -/
def yieldText (p : Printer) (place : Place) (n : Value) : Except Fault Doc := do
  let keyword := Doc.text (if ← flag n "delegate" then "yield*" else "yield")
  match ← n.optional "argument" with
  | none => return keyword
  | some argument =>
    return keyword ++ Doc.text " " ++ (← p.shown place Precedence.assignment argument)

/-- A property of the language itself, such as `new.target`. -/
def metaPropertyText (n : Value) : Except Fault Doc := do
  let owner ← (← n.field "meta").field "name"
  let name ← (← n.field "property").field "name"
  return shownValue owner ++ Doc.text "." ++ shownValue name

/-- The text of an expression with its precedence, by the tag of the node. -/
def expressionText (p : Printer) (place : Place) (n : Value) :
    Except Fault (Phrase × Precedence) := do
  match ← chosenBy n with
  | "Identifier" => return (.ofValue (← n.field "name"), Precedence.primary)
  | "Literal" => literalPhrase n
  | "ThisExpression" => return (.doc (Doc.text "this"), Precedence.primary)
  | "Super" => return (.doc (Doc.text "super"), Precedence.primary)
  | "ArrayExpression" => return (.doc (← arrayText p place n), Precedence.primary)
  | "ArrayPattern" => return (.doc (← arrayText p place n), Precedence.primary)
  | "ObjectExpression" => return (.doc (← objectText p place n), Precedence.primary)
  | "ObjectPattern" => return (.doc (← objectPatternText p place n), Precedence.primary)
  | "FunctionExpression" => return (.doc (← functionText p place n), Precedence.primary)
  | "ArrowFunctionExpression" => return (.doc (← arrowText p place n), Precedence.arrow)
  | "ClassExpression" => return (.doc (← classText p place n), Precedence.primary)
  | "TemplateLiteral" => return (.doc (← templateText p place n), Precedence.primary)
  | "TaggedTemplateExpression" => return (.doc (← taggedTemplateText p place n), Precedence.call)
  | "UnaryExpression" => return (← unaryText p place n, Precedence.unary)
  | "UpdateExpression" => updateText p place n
  | "BinaryExpression" =>
    let (text, own) ← binaryText p place n
    return (.doc text, own)
  | "LogicalExpression" =>
    let (text, own) ← binaryText p place n
    return (.doc text, own)
  | "AssignmentExpression" => return (.doc (← assignmentText p place n), Precedence.assignment)
  | "AssignmentPattern" =>
    return (.doc (← assignmentPatternText p place n), Precedence.assignment)
  | "ConditionalExpression" => return (.doc (← conditionalText p place n), Precedence.conditional)
  | "CallExpression" => return (.doc (← callText p place n), Precedence.call)
  | "NewExpression" => return (.doc (← newText p place n), Precedence.construction)
  | "MemberExpression" => return (.doc (← memberText p place n), Precedence.member)
  | "SequenceExpression" =>
    return (.doc (← p.commaList place (← n.field "expressions")), Precedence.sequence)
  | "YieldExpression" => return (.doc (← yieldText p place n), Precedence.yielding)
  | "AwaitExpression" =>
    let argument ← p.glued place Precedence.unary (← n.field "argument")
    return (.doc (Doc.text "await " ++ argument), Precedence.unary)
  | "SpreadElement" =>
    let argument ← p.glued place Precedence.assignment (← n.field "argument")
    return (.doc (Doc.text "..." ++ argument), Precedence.assignment)
  | "RestElement" =>
    let argument ← p.glued place Precedence.assignment (← n.field "argument")
    return (.doc (Doc.text "..." ++ argument), Precedence.assignment)
  | "MetaProperty" => return (.doc (← metaPropertyText n), Precedence.primary)
  | tag => throw (.noText tag)

/-- Whether an expression is a bare `in`. -/
def isInOperation : Value → Bool
  | .tagged "BinaryExpression" fields => (fields.lookup "operator").any (·.isText "in")
  | _ => false

/-- An expression in its place, in parentheses when it is too loose for it or when it is an `in` in
the head of a loop. -/
def expressionPhrase (p : Printer) (place : Place) (precedence : Precedence) (n : Value) :
    Except Fault Phrase := do
  let (phrase, own) ← expressionText p place n
  if own < precedence || (place.noIn && isInOperation n) then
    return .doc phrase.shown.parenthesized
  else return phrase

end Untangle.Print
