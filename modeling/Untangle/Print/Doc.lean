/-!
# Laid-out text

Program text is made of pieces: plain text, line ends, and indentation given as a nesting level. How
wide a level is, is said when the characters are asked for.

* `Doc.chars` gives the characters for an indentation width and `Doc.render` the text.
* `Doc.startsWith` and `Doc.endsWith` look at the characters, indentation included.
-/

namespace Untangle.Print

inductive Piece where
  | text (s : String)
  | newline
  | pad (level : Int)
  deriving DecidableEq, Repr

abbrev Doc := List Piece

/-- The characters of a piece when a level is `width` blanks wide; levels below zero take none. -/
def Piece.chars (width : Nat) : Piece → List Char
  | .text s => s.toList
  | .newline => ['\n']
  | .pad level => List.replicate (width * level.toNat) ' '

namespace Doc

def text (s : String) : Doc := [.text s]

def chars (width : Nat) (d : Doc) : List Char :=
  d.flatMap (Piece.chars width)

/-- The text of a document when a level is `width` blanks wide. -/
def render (width : Nat) (d : Doc) : String :=
  String.ofList (d.chars width)

/-- Documents one after the other with a separator between them. -/
def joined (separator : Doc) : List Doc → Doc
  | [] => []
  | [d] => d
  | d :: rest => d ++ separator ++ joined separator rest

def parenthesized (d : Doc) : Doc :=
  text "(" ++ d ++ text ")"

def startsWith (width : Nat) (d : Doc) (c : Char) : Bool :=
  (d.chars width).head? == some c

def endsWith (width : Nat) (d : Doc) (c : Char) : Bool :=
  (d.chars width).getLast? == some c

end Doc

end Untangle.Print
