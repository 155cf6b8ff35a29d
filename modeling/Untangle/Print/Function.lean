import Untangle.Print.Place
import Untangle.Tree.Build
import Untangle.Tree.Equality

/-!
# Functions, classes and properties

The texts that functions, methods and properties share: the marks before a name, the parameter list
with the body, the key of a property, and the body of a class.
-/

namespace Untangle.Print

/-- Whether a flag is set, of a node or of an untagged object. -/
def flag (n : Value) (name : String) : Except Fault Bool :=
  return (← n.getOr name .null).truthy

/-- The marks that stand before the name of a method. -/
def methodMarks (function : Value) : Except Fault Doc := do
  let asyncMark := if ← flag function "async" then "async " else ""
  let star := if ← flag function "generator" then "*" else ""
  return Doc.text (asyncMark ++ star)

def functionKeyword (function : Value) : Except Fault Doc := do
  let asyncMark := if ← flag function "async" then "async " else ""
  let star := if ← flag function "generator" then "* " else " "
  return Doc.text (asyncMark ++ "function" ++ star)

def functionTail (p : Printer) (place : Place) (function : Value) : Except Fault Doc := do
  let params ← p.commaList place (← function.field "params")
  let body ← p.statement place.level (← function.field "body")
  return Doc.text "(" ++ params ++ Doc.text ") " ++ body

/-- The name of a named part, joined to text. -/
def gluedName (named : Value) : Except Fault Doc := do
  (Phrase.ofValue (← named.field "name")).glue

def functionText (p : Printer) (place : Place) (n : Value) : Except Fault Doc := do
  let name ← n.optional "id"
  let keyword ← functionKeyword n
  let name ← match name with
    | some name => gluedName name
    | none => pure []
  return keyword ++ name ++ (← functionTail p place n)

def propertyKey (p : Printer) (place : Place) (n : Value) : Except Fault Phrase := do
  if ← flag n "computed" then
    let key ← p.shown place Precedence.assignment (← n.field "key")
    return .doc (Doc.text "[" ++ key ++ Doc.text "]")
  else
    p.expression place Precedence.primary (← n.field "key")

/-- Whether a property or a method is a getter or a setter, and which. -/
def accessorKind (n : Value) : Except Fault (Option String) := do
  match ← n.optional "kind" with
  | some (.str "get") => return some "get"
  | some (.str "set") => return some "set"
  | _ => return none

/-- A member of an object: a property, or any other expression such as a spread. -/
def property (p : Printer) (place : Place) (n : Value) : Except Fault Phrase := do
  if !(← n.isTagged "Property") then p.expression place Precedence.assignment n
  else
    let key ← propertyKey p place n
    match ← accessorKind n with
    | some kind =>
      let tail ← functionTail p place (← n.field "value")
      return .doc (Doc.text (kind ++ " ") ++ key.shown ++ tail)
    | none =>
      if ← flag n "method" then
        let marks ← methodMarks (← n.field "value")
        let key ← key.glue
        let tail ← functionTail p place (← n.field "value")
        return .doc (marks ++ key ++ tail)
      else if ← flag n "shorthand" then
        p.expression place Precedence.assignment (← n.field "value")
      else
        let value ← p.shown place Precedence.assignment (← n.field "value")
        return .doc (key.shown ++ Doc.text ": " ++ value)

def method (p : Printer) (place : Place) (n : Value) : Except Fault Doc := do
  let static := Doc.text (if ← flag n "static" then "static " else "")
  let key ← propertyKey p place n
  let marks ← match ← accessorKind n with
    | some kind => pure (Doc.text (kind ++ " "))
    | none => methodMarks (← n.field "value")
  let key ← key.glue
  let tail ← functionTail p place (← n.field "value")
  return static ++ marks ++ key ++ tail

def className (n : Value) : Except Fault Doc := do
  match ← n.optional "id" with
  | some name => return Doc.text " " ++ (← gluedName name)
  | none => return []

/-- The class that a class extends, if there is one. -/
def classParent (p : Printer) (place : Place) (n : Value) : Except Fault Doc := do
  match ← n.optional "superClass" with
  | some parent => return Doc.text " extends " ++ (← p.glued place Precedence.call parent)
  | none => return []

/-- The methods of a class in braces, each on a line of its own. -/
def classBody (p : Printer) (place : Place) (n : Value) : Except Fault Doc := do
  let methods ← (← n.field "body").field "body"
  if !methods.truthy then return Doc.text " \x7b\x7d"
  else
    let inner := place.deeper
    let lines ← (← methods.items).mapM fun m =>
      return (← p.margin inner.level) ++ (← method p inner m)
    return Doc.text " \x7b" ++ [.newline] ++ Doc.joined [.newline] lines ++
      (← p.line place.level) ++ Doc.text "\x7d"

def classText (p : Printer) (place : Place) (n : Value) : Except Fault Doc := do
  let name ← className n
  let parent ← classParent p place n
  return Doc.text "class" ++ name ++ parent ++ (← classBody p place n)

end Untangle.Print
