import Untangle.Tree.Access

/-!
# Locations

A place in a source text: a file name, a line and a column counted from one, and the end of the span
when it is known.

* `Location.text` is how a place is shown.
* `Location.sourceAmong` finds the text that a place is in.
-/

namespace Untangle

/-- A place in a source text. Its parts are kept as they were given; in a proper place the file is a
text and the others are integers. An end line of zero means that the end is not known. -/
structure Location where
  file : Value
  line : Value
  column : Value
  endLine : Value := .int 0
  endColumn : Value := .int 0
  deriving Repr

/-- The place as `file:line:column`. -/
def Location.text (l : Location) : String :=
  l.file.plainText ++ ":" ++ l.line.plainText ++ ":" ++ l.column.plainText

/-- The text of the file that a place is in, among the texts of several files. -/
def Location.sourceAmong (l : Location) (sources : List (String × String)) :
    Except Fault (Option String) :=
  return (← l.file.key?).bind fun file => sources.lookup file

end Untangle
