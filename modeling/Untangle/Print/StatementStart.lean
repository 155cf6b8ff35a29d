import Untangle.Text.Blank
import Untangle.Text.Word

/-!
# The start of a statement

An expression that stands as a statement must not start like a block, a declaration of a function or
a class, or a `let` binding. This module recognises such a start.
-/

namespace Untangle.Print

/-- Whether no word character follows. -/
def wordEnds (cs : List Char) : Bool :=
  !cs.head?.any Text.isWord

def startsWithWord (word : String) (cs : List Char) : Bool :=
  (word.toList.isPrefixOf? cs).any wordEnds

/-- Whether the text starts with `async` and, after blanks, `function`. -/
def startsAsyncFunction (cs : List Char) : Bool :=
  match "async".toList.isPrefixOf? cs with
  | some rest =>
    rest.head?.any Text.isBlank && startsWithWord "function" (rest.dropWhile Text.isBlank)
  | none => false

/-- Whether the text starts with `let` and, after any blanks, a bracket. -/
def startsLetBracket (cs : List Char) : Bool :=
  match "let".toList.isPrefixOf? cs with
  | some rest => (rest.dropWhile Text.isBlank).head? == some '['
  | none => false

/-- Whether a statement with this text would be read as something else than an expression. -/
def isAmbiguousStart (cs : List Char) : Bool :=
  cs.head? == some '\x7b' || startsWithWord "function" cs || startsAsyncFunction cs ||
    startsWithWord "class" cs || startsLetBracket cs

end Untangle.Print
