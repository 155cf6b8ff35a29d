import Untangle.Text.Blank
import Untangle.Text.Digit

/-!
# Written integers

An integer as it is written on the command line: blanks around it, one sign, decimal digits of any
script, and single underscores between digits.
-/

namespace Untangle.CommandLine

/-- The values of digits that may have single underscores between them. -/
def digitValues? : List Char → Option (List Nat)
  | [] => none
  | [c] => (Text.decimalValue? c).map ([·])
  | c :: '_' :: rest => do return (← Text.decimalValue? c) :: (← digitValues? rest)
  | c :: rest => do return (← Text.decimalValue? c) :: (← digitValues? rest)

/-- The greatest number of digits that is read. -/
def digitLimit : Nat := 4300

def natural? (cs : List Char) : Option Nat := do
  let digits ← digitValues? cs
  if digits.length ≤ digitLimit then some (digits.foldl (fun n d => 10 * n + d) 0) else none

def trimmed (cs : List Char) : List Char :=
  ((cs.dropWhile Text.isPadding).reverse.dropWhile Text.isPadding).reverse

def integer? (s : String) : Option Int :=
  match trimmed s.toList with
  | '-' :: rest => (natural? rest).map fun n => -(n : Int)
  | '+' :: rest => (natural? rest).map fun n => (n : Int)
  | cs => (natural? cs).map fun n => (n : Int)

end Untangle.CommandLine
