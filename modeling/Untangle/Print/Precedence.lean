import Untangle.Fault
import Untangle.Number.Sum
import Untangle.Tree.Value

/-!
# Operator precedence

How tightly each kind of expression holds together, from the comma sequence to the primary
expressions. An expression is put in parentheses where its place asks for a tighter one.
-/

namespace Untangle.Print

/-- How tightly an expression holds together; a greater number is tighter. -/
abbrev Precedence := Nat

namespace Precedence

def sequence : Precedence := 0
def yielding : Precedence := 1
def assignment : Precedence := 1
def conditional : Precedence := 2
def arrow : Precedence := 2
def logicalOr : Precedence := 3
def logicalAnd : Precedence := 4
def bitwiseOr : Precedence := 5
def bitwiseXor : Precedence := 6
def bitwiseAnd : Precedence := 7
def equality : Precedence := 8
def relational : Precedence := 9
def shift : Precedence := 10
def additive : Precedence := 11
def multiplicative : Precedence := 12
def exponent : Precedence := 13
def unary : Precedence := 14
def update : Precedence := 15
def call : Precedence := 16
def construction : Precedence := 17
def member : Precedence := 18
def primary : Precedence := 19

/-- The operators that stand between two operands, with their precedence. -/
def binaryTable : List (String × Precedence) := [
  ("||", logicalOr),
  ("&&", logicalAnd),
  ("|", bitwiseOr),
  ("^", bitwiseXor),
  ("&", bitwiseAnd),
  ("==", equality), ("!=", equality), ("===", equality), ("!==", equality),
  ("<", relational), (">", relational), ("<=", relational), (">=", relational),
  ("in", relational), ("instanceof", relational),
  ("<<", shift), (">>", shift), (">>>", shift),
  ("+", additive), ("-", additive),
  ("*", multiplicative), ("/", multiplicative), ("%", multiplicative),
  ("**", exponent)]

def ofBinary? (operator : String) : Option Precedence :=
  binaryTable.lookup operator

/-- The precedence that a number asks for: as many steps as there are precedences below it. Only a
number asks for one. -/
def ofValue : Value → Except Fault Precedence
  | .float x => .ok ((List.range (primary + 1)).filter fun (p : Nat) => x.moreThanInt p).length
  | other => other.asInt?.elim (.error .wrongKind) fun i => .ok i.toNat

/-- Operators that are words and take a blank before their operand. -/
def wordOperators : List String := ["typeof", "void", "delete"]

end Precedence

end Untangle.Print
