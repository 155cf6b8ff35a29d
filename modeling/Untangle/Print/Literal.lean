import Untangle.Text.Digit
import Untangle.Text.StringLiteral
import Untangle.Tree.Build
import Untangle.Print.Phrase
import Untangle.Print.Precedence

/-!
# Literals

The text of a literal: its spelling in the program when the tree has one, else its regular
expression, else the text of its value. An integral number is written as the integer it is equal to.
-/

namespace Untangle.Print

def numberText : Binary64 → String
  | .nan => "NaN"
  | .infinite negative => if negative then "-Infinity" else "Infinity"
  | x => match x.toInt? with
    | some i => toString i
    | none => x.text

def literalSpelling (v : Value) : Except Fault String :=
  match v with
  | .null => .ok "null"
  | .bool b => .ok (if b then "true" else "false")
  | .int i => .ok (toString i)
  | .float x => .ok (numberText x)
  | .str s => .ok (Text.StringLiteral.text s)
  | other => .error (.noLiteral other.display)

/-- An entry that an object must have. -/
def entry (v : Value) (key : String) : Except Fault Value :=
  match v with
  | .object entries =>
    match entries.lookup key with
    | some value => .ok value
    | none => .error (.noEntry key)
  | _ => .error .wrongKind

/-- The text of a regular expression, given by its pattern and perhaps its flags. -/
def regexText (regex : Value) : Except Fault Doc := do
  let pattern ← entry regex "pattern"
  let flags ← regex.getOr "flags" (.str "")
  return Doc.text "/" ++ shownValue pattern ++ Doc.text "/" ++ shownValue flags

/-- A literal with its precedence: a negative number holds together like a unary expression. -/
def literalPhrase (n : Value) : Except Fault (Phrase × Precedence) := do
  match ← n.optional "raw" with
  | some raw => return (.ofValue raw, Precedence.primary)
  | none =>
    match (← n.optional "regex").filter Value.truthy with
    | some regex => return (.doc (← regexText regex), Precedence.primary)
    | none =>
      let text ← literalSpelling ((← n.optional "value").getD .null)
      let own := if text.toList.head? = some '-' then Precedence.unary else Precedence.primary
      return (.doc (Doc.text text), own)

/-- Whether a printed object of a member access is a literal of digits alone, which a dot after it
would turn into a fraction. -/
def isAllDigits (width : Nat) (object : Value) (phrase : Phrase) : Except Fault Bool := do
  if !(← object.isTagged "Literal") then return false
  else
    let digits := (← phrase.leading).chars width
    return !digits.isEmpty && digits.all Text.isDigit

end Untangle.Print
