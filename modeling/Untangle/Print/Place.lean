import Untangle.Print.Phrase
import Untangle.Print.Precedence
import Untangle.Text.Memory

/-!
# Printers

A printer prints any expression and any statement. The texts of the single constructs are written
against a printer for their parts, so each of them is a plain function of one node.
-/

namespace Untangle.Print

/-- Where an expression stands: the nesting level of its line, and whether it is in the head of a
loop, where a bare `in` would end the initializer. -/
structure Place where
  level : Int
  noIn : Bool
  deriving DecidableEq, Repr

def Place.deeper (place : Place) : Place :=
  { place with level := place.level + 1 }

/-- A place outside of any loop head. -/
def Place.plain (level : Int) : Place :=
  { level, noIn := false }

/-- Indentation: how wide a level is, and whether a line can be indented to a level at all. -/
structure Ruler where
  width : Nat
  check : Int → Except Fault Unit

/-- The ruler for levels of the given width; a negative width acts as none. The blanks of one level
and those of every line must be texts that can be made. -/
def Ruler.ofWidth (memory : Text.Memory) (width : Int) : Except Fault Ruler := do
  memory.checkRepeat 1 width
  return { width := width.toNat, check := memory.checkRepeat width.toNat }

/-- The ruler for levels of a width given as any value; only an integer is a width. -/
def Ruler.ofValue (memory : Text.Memory) (width : Value) : Except Fault Ruler :=
  width.asInt?.elim (.error .wrongKind) (Ruler.ofWidth memory)

/-- A ruler to which no line can be indented, for a level that is no integer. -/
def Ruler.withoutLevels (ruler : Ruler) : Ruler :=
  { ruler with check := fun _ => .error .wrongKind }

/-- The printing of parts. -/
structure Printer where
  /-- The width of a level, which shows in the texts of parts that are looked at. -/
  width : Nat
  /-- The indentation of a line. -/
  margin : Int → Except Fault Doc
  /-- An expression, in parentheses if it is looser than the given precedence. -/
  expression : Place → Precedence → Value → Except Fault Phrase
  /-- A statement, whose first line the caller indents. -/
  statement : Int → Value → Except Fault Doc

/-- The tag by which the text of a node is chosen; only a text can choose one. -/
def chosenBy (n : Value) : Except Fault String := do
  match ← n.tag with
  | .str tag => return tag
  | _ => throw .wrongKind

namespace Printer

def shown (p : Printer) (place : Place) (precedence : Precedence) (v : Value) : Except Fault Doc :=
  return (← p.expression place precedence v).shown

def glued (p : Printer) (place : Place) (precedence : Precedence) (v : Value) :
    Except Fault Doc := do
  (← p.expression place precedence v).glue

def commaList (p : Printer) (place : Place) (v : Value) : Except Fault Doc := do
  let phrases ← (← v.items).mapM (p.expression place Precedence.assignment)
  Phrase.joined ", " phrases

/-- A line end followed by the indentation of a level. -/
def line (p : Printer) (level : Int) : Except Fault Doc :=
  return Piece.newline :: (← p.margin level)

def statementLines (p : Printer) (level : Int) (v : Value) : Except Fault Doc := do
  let lines ← (← v.items).mapM fun statement =>
    return (← p.margin level) ++ (← p.statement level statement)
  return Doc.joined [.newline] lines

end Printer

end Untangle.Print
