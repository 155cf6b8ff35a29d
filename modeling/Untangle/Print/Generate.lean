import Untangle.Print.Statement

/-!
# Printing trees

The printer of whole trees. Printers are built by depth: a printer for trees of one more level
prints a node with the printer below for its parts, so a depth that covers the tree prints all of
it.

* `Printer.ofDepth` is the printer for trees up to a depth.
* `layout` lays out a tree against a ruler, and `generate` gives its text for an indentation width.
* `statementCode` gives the text of a statement that stands at some level.
-/

namespace Untangle.Print

namespace Printer

/-- The printer for trees one level deeper. -/
def above (p : Printer) : Printer where
  width := p.width
  margin := p.margin
  expression := expressionPhrase p
  statement := statementText p

/-- The printer for trees up to a depth; below it there is nothing left to print. -/
def ofDepth (ruler : Ruler) : Nat → Printer
  | 0 =>
    { width := ruler.width
      margin := fun level => do
        ruler.check level
        return [.pad level]
      expression := fun _ _ _ => .error .tooDeep
      statement := fun _ _ => .error .tooDeep }
  | depth + 1 => (ofDepth ruler depth).above

end Printer

def printerFor (ruler : Ruler) (v : Value) : Printer :=
  Printer.ofDepth ruler v.depth

def expression (ruler : Ruler) (place : Place) (precedence : Precedence) (v : Value) :
    Except Fault Phrase :=
  (printerFor ruler v).expression place precedence v

def statement (ruler : Ruler) (level : Int) (v : Value) : Except Fault Doc :=
  (printerFor ruler v).statement level v

def statementLines (ruler : Ruler) (level : Int) (v : Value) : Except Fault Doc :=
  (printerFor ruler v).statementLines level v

/-- Lays out a tree: a program or a statement as such, anything else as an expression. -/
def layout (ruler : Ruler) (v : Value) : Except Fault Phrase := do
  if (← v.isTagged "Program") || (← v.isStatement) then return .doc (← statement ruler 0 v)
  else expression ruler (.plain 0) Precedence.sequence v

/-- The text of a layout for an indentation width, if there is memory for it; a negative width acts as
none. -/
def written (memory : Text.Memory) (indent : Int) (lay : Ruler → Except Fault Phrase) :
    Except Fault String := do
  let ruler ← Ruler.ofWidth memory indent
  memory.make ((← lay ruler).render ruler.width)

def generate (memory : Text.Memory) (v : Value) (indent : Int) : Except Fault String :=
  written memory indent fun ruler => layout ruler v

def statementCode (memory : Text.Memory) (v : Value) (level indent : Int) : Except Fault String :=
  written memory indent fun ruler => Phrase.doc <$> statement ruler level v

end Untangle.Print
