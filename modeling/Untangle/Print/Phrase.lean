import Untangle.Print.Doc
import Untangle.Tree.Access
import Untangle.Tree.Sum

/-!
# Phrases

An expression prints as a phrase. A phrase is laid-out text, except that a name or the spelling of a
literal may be any value of the tree: such a bare value can be inserted into text but not joined to
it.

* `Phrase.shown` inserts a phrase into text.
* `Phrase.glue` joins it to text, which a bare value refuses.
* `Phrase.plus` joins two phrases, of which two bare values have a sum if their kinds allow it.
-/

namespace Untangle.Print

/-- What an expression prints as. -/
inductive Phrase where
  | doc (d : Doc)
  | bare (v : Value)
  deriving Inhabited

namespace Phrase

def ofValue : Value → Phrase
  | .str s => .doc (Doc.text s)
  | v => .bare v

/-- A phrase inserted into text. -/
def shown : Phrase → Doc
  | .doc d => d
  | .bare v => Doc.text v.plainText

/-- A phrase joined to text. -/
def glue : Phrase → Except Fault Doc
  | .doc d => .ok d
  | .bare _ => .error .wrongKind

/-- A phrase whose first characters are looked at, which only text has. -/
def inspect : Phrase → Except Fault Doc
  | .doc d => .ok d
  | .bare v => .error (v.textFault "startswith")

/-- A phrase of which a leading part is taken and looked at. A bare sequence has such a part, but no
characters in it. -/
def leading : Phrase → Except Fault Doc
  | .bare (.seq _) | .bare (.list _) => .error .notNode
  | phrase => phrase.glue

def plus : Phrase → Phrase → Except Fault Phrase
  | .doc d, .doc e => .ok (.doc (d ++ e))
  | .bare v, .bare w => .bare <$> v.plus w
  | _, _ => .error .wrongKind

def joined (separator : String) (phrases : List Phrase) : Except Fault Doc :=
  return Doc.joined (Doc.text separator) (← phrases.mapM glue)

def render (width : Nat) (phrase : Phrase) : String :=
  phrase.shown.render width

end Phrase

/-- A value of the tree inserted into text. -/
def shownValue (v : Value) : Doc :=
  Doc.text v.plainText

end Untangle.Print
