import Untangle.Diagnostic.Render
import Untangle.Fault
import Untangle.Tree.Display

/-!
# Failures

A source text may be refused, options may be refused, and an operation on a tree may fail. `Failure`
joins the three.

The kinds of failures are those of section 7 of the specification.
-/

namespace Untangle

/-- A problem in a source text that keeps it from being read. -/
structure SourceError where
  message : String
  location : Option Location := none
  code : Option String := some "E0001"
  source : Option String := none
  help : Option String := none
  label : Option String := none
  deriving Repr

/-- The text of the problem, with the source line when its place and the source are known. The file
of the place must be one by which a text can be found. -/
def SourceError.render (memory : Text.Memory) (e : SourceError) (color : Bool) :
    Except Fault String := do
  if let some l := e.location then discard l.file.key?
  let diagnostic : Diagnostic :=
    { message := e.message, location := e.location, code := e.code, help := e.help,
      label := e.label }
  diagnostic.render memory e.source color

inductive OptionError where
  | version (given : Value)
  | indent (given : Value)
  | unknown (names : List String)

def OptionError.message : OptionError → String
  | .version given => "ecma_version must be one of 3, 5, 6, 7, got " ++ given.display
  | .indent given => "indent must be a non-negative integer, got " ++ given.display
  | .unknown names => "Unknown option(s): " ++ ", ".intercalate names

inductive Failure where
  | fault (cause : Fault)
  | source (error : SourceError)
  | options (error : OptionError)

/-- A computation that fails with a fault, as one that fails with any failure. -/
def Failure.ofFault {α : Type} (result : Except Fault α) : Except Failure α :=
  result.mapError .fault

end Untangle
