/-!
# Coloured text

Terminal colours of the rendered diagnostics. Without colour a text stays as it is.
-/

namespace Untangle.Diagnostic

/-- A way to set text off on a terminal. -/
inductive Ink where
  | bold
  | red
  | blue
  | cyan
  deriving DecidableEq, Repr

def Ink.code : Ink → String
  | .bold => "\x1b[1m"
  | .red => "\x1b[31m"
  | .blue => "\x1b[34m"
  | .cyan => "\x1b[36m"

/-- The control sequence that turns all inks off. -/
def resetCode : String := "\x1b[0m"

/-- A text in the given inks, or as it is when there is no colour. -/
def styled (color : Bool) (inks : List Ink) (text : String) : String :=
  if color then String.join (inks.map Ink.code) ++ text ++ resetCode else text

end Untangle.Diagnostic
