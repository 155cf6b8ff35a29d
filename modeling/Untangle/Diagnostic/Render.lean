import Untangle.Diagnostic.Ink
import Untangle.Diagnostic.Location
import Untangle.Text.Memory
import Untangle.Text.Split
import Untangle.Tree.Equality
import Untangle.Tree.Sum

/-!
# Rendered diagnostics

A diagnostic shows its message, its place, the source line of the place and a row of carets under
the span, with a gutter that is as wide as the line number. A help text stands in a row of its own.

Section 7 of the specification asks for this format.

* `caretStart` and `caretCount` say where the carets stand and how many there are.
* `Diagnostic.render` gives the text. It fails only where the parts of the place are no proper ones
  or where there is no memory for the blanks and carets that they ask for.
-/

namespace Untangle

structure Diagnostic where
  message : String
  location : Option Location
  code : Option String := none
  help : Option String := none
  label : Option String := none
  deriving Repr

namespace Diagnostic

def linesOf (source : String) : List (List Char) :=
  Text.splitAt '\n' source.toList

/-- The line with the given number, counted from one; empty if there is none. -/
def lineAt (lines : List (List Char)) (line : Int) : List Char :=
  if 1 ≤ line then lines.getD (line - 1).toNat [] else []

/-- The number of the line of a place among `count` lines. A fraction between the first line and the
last one points at no line and is refused; any other is a line that is not there. -/
def lineNumber (line : Value) (count : Nat) : Except Fault Int :=
  match line with
  | .float x =>
    if x.lessThanInt 1 || !x.lessThanInt (count + 1) then .ok 0 else .error .wrongKind
  | other => other.asInt?.elim (.error .wrongKind) .ok

/-- Characters at which a token ends when the end of the span is not known. -/
def isDelimiter (c : Char) : Bool :=
  [' ', '\t', ';', ',', '(', ')', '[', ']', '\x7b', '\x7d'].contains c

/-- The length of the token that starts at the given position, at least one. -/
def tokenLength (line : List Char) (start : Nat) : Nat :=
  max 1 ((line.drop start).takeWhile fun c => !isDelimiter c).length

/-- The position in its line of the first caret; a column below one counts as one. -/
def caretStart (column : Value) : Except Fault Nat :=
  match column with
  | .float x => if x.lessThanInt 1 then .ok 0 else .error .wrongKind
  | other => other.asInt?.elim (.error .wrongKind) fun c => .ok (max c 1 - 1).toNat

/-- Whether one column is greater than another; only numbers can be compared. -/
def isBeyond (endColumn column : Value) : Except Fault Bool :=
  match endColumn, column with
  | .float e, .float c => .ok ((e.add c.negate).moreThanInt 0)
  | .float e, other => other.asInt?.elim (.error .wrongKind) fun c => .ok (e.moreThanInt c)
  | other, .float c => other.asInt?.elim (.error .wrongKind) fun e => .ok (c.lessThanInt e)
  | a, b =>
    match a.asInt?, b.asInt? with
    | some e, some c => .ok (c < e)
    | _, _ => .error .wrongKind

/-- The difference of two columns. One that is no integer counts as one if it is at most that, and
is refused otherwise. -/
def columnsBetween (endColumn column : Value) : Except Fault Int :=
  match endColumn.asInt?, column.asInt? with
  | some e, some c => .ok (e - c)
  | _, _ => do
    let difference := (← endColumn.toBinary64).add (← column.toBinary64).negate
    if difference.moreThanInt 1 then throw .wrongKind else return 1

/-- The length of the span when its end is on the same line and beyond the column. -/
def spanLength (l : Location) : Except Fault (Option Int) := do
  if l.endLine.same (.int 0) || l.endLine.same l.line then
    if ← isBeyond l.endColumn l.column then return some (← columnsBetween l.endColumn l.column)
    else return none
  else return none

/-- The number of carets: the length of the span when it is known, else that of the token. -/
def caretCount (span : Option Int) (line : List Char) (start : Nat) : Nat :=
  match span with
  | some length => max 1 length.toNat
  | none => tokenLength line start

def carets (memory : Text.Memory) (l : Location) (line : List Char) : Except Fault String := do
  let span ← spanLength l
  let start ← caretStart l.column
  let count := caretCount span line start
  memory.checkRepeat 1 start
  memory.checkRepeat 1 count
  return String.ofList (List.replicate start ' ' ++ List.replicate count '^')

/-- The width of the gutter: that of the line number. -/
def gutterWidth (l : Location) : Nat :=
  max l.line.plainText.length 1

def blanks (n : Nat) : String :=
  String.ofList (List.replicate n ' ')

def nonempty (text : Option String) : Option String :=
  text.filter fun s => !s.isEmpty

/-- The first row: the code and the message. -/
def headRow (d : Diagnostic) (color : Bool) : String :=
  let code := match nonempty d.code with
    | some code => s!"[{code}]"
    | none => ""
  styled color [.bold, .red] ("error" ++ code) ++ styled color [.bold] (": " ++ d.message)

/-- The row of the place, after a gutter of the given width. -/
def placeRow (color : Bool) (width : Nat) (place : String) : String :=
  styled color [.bold, .blue] (blanks width ++ "--> ") ++ place

def helpRows (d : Diagnostic) (color : Bool) (width : Nat) : List String :=
  match nonempty d.help with
  | none => []
  | some help =>
    let pad := blanks (width + 1)
    [styled color [.bold, .blue] (pad ++ "|"),
     styled color [.bold, .cyan] (pad ++ "= ") ++ styled color [.bold] "help: " ++ help]

/-- What stands after the carets: the label, if there is one. -/
def labelText (d : Diagnostic) : String :=
  match nonempty d.label with
  | some label => " " ++ label
  | none => ""

def sourceRows (memory : Text.Memory) (d : Diagnostic) (color : Bool) (l : Location)
    (source : String) : Except Fault (List String) := do
  let width := gutterWidth l
  let lines := linesOf source
  let line := lineAt lines (← lineNumber l.line lines.length)
  return [styled color [.bold, .blue] (blanks (width + 1) ++ "|"),
    styled color [.bold, .blue] (l.line.plainText ++ " | ") ++ String.ofList line,
    styled color [.bold, .blue] (blanks (width + 1) ++ "| ") ++
      styled color [.bold, .red] ((← carets memory l line) ++ labelText d)]

/-- The rows of a diagnostic; the source line is shown when the text of the file is known. -/
def rows (memory : Text.Memory) (d : Diagnostic) (source : Option String) (color : Bool) :
    Except Fault (List String) := do
  match d.location with
  | none => return headRow d color :: placeRow color 1 "<unknown location>" :: helpRows d color 1
  | some l =>
    match source with
    | none => return headRow d color :: placeRow color 1 l.text :: helpRows d color 1
    | some source =>
      let width := gutterWidth l
      return headRow d color :: placeRow color width l.text ::
        ((← sourceRows memory d color l source) ++ helpRows d color width)

/-- The text of a diagnostic, given the text of its file if that is known. -/
def render (memory : Text.Memory) (d : Diagnostic) (source : Option String) (color : Bool) :
    Except Fault String := do
  memory.make ("\n".intercalate (← rows memory d source color))

def renderAmong (memory : Text.Memory) (d : Diagnostic) (sources : List (String × String))
    (color : Bool) : Except Fault String := do
  let source ← match d.location with
    | some l => l.sourceAmong sources
    | none => pure none
  d.render memory source color

end Diagnostic

end Untangle
