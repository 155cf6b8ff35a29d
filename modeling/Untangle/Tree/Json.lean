import Untangle.Number.Shortest
import Untangle.Text.Hex
import Untangle.Tree.Data

/-!
# Reading JSON

Syntax trees are exchanged as JSON. The reader keeps the order of keys, since the order of fields is
part of a tree; of two equal keys the first fixes the place and the last the value. Numbers without
a fraction or an exponent are integers of any size, all others binary64 numbers.
-/

namespace Untangle.Data

/-- White space between the tokens of a text. -/
def isJsonBlank (c : Char) : Bool :=
  c == ' ' || c == '\n' || c == '\r' || c == '\t'

/-- The text from its first token on. -/
def skipBlanks (cs : List Char) : List Char :=
  cs.dropWhile isJsonBlank

def hexValue? (c : Char) : Option Nat :=
  if c.isDigit then some (c.toNat - '0'.toNat)
  else if 'a' ≤ c ∧ c ≤ 'f' then some (c.toNat - 'a'.toNat + 10)
  else if 'A' ≤ c ∧ c ≤ 'F' then some (c.toNat - 'A'.toNat + 10)
  else none

/-- The number that four hexadecimal digits stand for. -/
def unitOf? (digits : List Char) : Option Nat :=
  digits.foldlM (fun n c => (hexValue? c).map (16 * n + ·)) 0

/-- The character of a code point outside of the surrogate range. -/
def charOf? (n : Nat) : Option Char :=
  if n < 0xd800 ∨ (0xdfff < n ∧ n < 0x110000) then some (Char.ofNat n) else none

/-- The character of two surrogates. -/
def charOfPair? (high low : Nat) : Option Char :=
  if 0xd800 ≤ high ∧ high < 0xdc00 ∧ 0xdc00 ≤ low ∧ low < 0xe000 then
    charOf? (0x10000 + (high - 0xd800) * 0x400 + (low - 0xdc00))
  else none

/-- The character that a one-letter escape stands for. -/
def escapedChar? (c : Char) : Option Char :=
  if c == Text.doubleQuote || c == Text.backslash || c == '/' then some c
  else if c == 'n' then some '\n'
  else if c == 'r' then some '\r'
  else if c == 't' then some '\t'
  else if c == 'b' then some '\x08'
  else if c == 'f' then some '\x0c'
  else none

/-- Reads a string up to its closing quote; `done` holds the characters so far, the last first. -/
def readString (done : List Char) : List Char → Option (String × List Char)
  | [] => none
  | '\x22' :: rest => some (String.ofList done.reverse, rest)
  | '\x5c' :: 'u' :: a :: b :: c :: d :: '\x5c' :: 'u' :: e :: f :: g :: h :: rest =>
    match unitOf? [a, b, c, d] with
    | none => none
    | some unit =>
      match charOf? unit with
      | some char => readString (char :: done) ('\x5c' :: 'u' :: e :: f :: g :: h :: rest)
      | none =>
        match (unitOf? [e, f, g, h]).bind (charOfPair? unit) with
        | some char => readString (char :: done) rest
        | none => none
  | '\x5c' :: 'u' :: a :: b :: c :: d :: rest =>
    match (unitOf? [a, b, c, d]).bind charOf? with
    | some char => readString (char :: done) rest
    | none => none
  | '\x5c' :: c :: rest =>
    match escapedChar? c with
    | some char => readString (char :: done) rest
    | none => none
  | c :: rest => readString (c :: done) rest

def isNumberPart (c : Char) : Bool :=
  c.isDigit || c == '-' || c == '+' || c == '.' || c == 'e' || c == 'E'

def numberOf? (chars : List Char) : Option Data :=
  let (negative, digits) := match chars with
    | '-' :: rest => (true, rest)
    | _ => (false, chars)
  if digits.isEmpty then none
  else if digits.all Char.isDigit then
    (Binary64.natOfDigits? digits).map fun n => .int (Binary64.signed negative n)
  else (Binary64.magnitudeOf? negative digits).map .float

def readScalar (cs : List Char) : Option (Data × List Char) :=
  match cs with
  | 'n' :: 'u' :: 'l' :: 'l' :: rest => some (.null, rest)
  | 't' :: 'r' :: 'u' :: 'e' :: rest => some (.bool true, rest)
  | 'f' :: 'a' :: 'l' :: 's' :: 'e' :: rest => some (.bool false, rest)
  | _ => (numberOf? (cs.takeWhile isNumberPart)).map fun d => (d, cs.dropWhile isNumberPart)

/-- Puts an entry in the place its key already has or else at the end. -/
def setEntry (key : String) (d : Data) : List (String × Data) → List (String × Data)
  | [] => [(key, d)]
  | (k, old) :: rest => if k = key then (k, d) :: rest else (k, old) :: setEntry key d rest

mutual

/-- Reads a value; `bound` limits the number of values and must exceed it. -/
def readValue : Nat → List Char → Option (Data × List Char)
  | 0, _ => none
  | bound + 1, cs =>
    match skipBlanks cs with
    | '\x7b' :: rest =>
      match skipBlanks rest with
      | '\x7d' :: rest => some (.object [], rest)
      | rest => readEntries bound [] rest
    | '[' :: rest =>
      match skipBlanks rest with
      | ']' :: rest => some (.array [], rest)
      | rest => readItems bound [] rest
    | '\x22' :: rest => (readString [] rest).map fun (s, rest) => (.str s, rest)
    | cs => readScalar cs

/-- Reads the members of an array up to its end; `done` holds the members so far, the last first. -/
def readItems : Nat → List Data → List Char → Option (Data × List Char)
  | 0, _, _ => none
  | bound + 1, done, cs =>
    match readValue bound cs with
    | none => none
    | some (d, rest) =>
      match skipBlanks rest with
      | ',' :: rest => readItems bound (d :: done) rest
      | ']' :: rest => some (.array (d :: done).reverse, rest)
      | _ => none

/-- Reads the entries of an object up to its end. -/
def readEntries : Nat → List (String × Data) → List Char → Option (Data × List Char)
  | 0, _, _ => none
  | bound + 1, done, cs =>
    match skipBlanks cs with
    | '\x22' :: rest =>
      match readString [] rest with
      | none => none
      | some (key, rest) =>
        match skipBlanks rest with
        | ':' :: rest =>
          match readValue bound rest with
          | none => none
          | some (d, rest) =>
            match skipBlanks rest with
            | ',' :: rest => readEntries bound (setEntry key d done) rest
            | '\x7d' :: rest => some (.object (setEntry key d done), rest)
            | _ => none
        | _ => none
    | _ => none

end

def ofJson? (s : String) : Option Data :=
  let cs := s.toList
  match readValue (cs.length + 1) cs with
  | some (d, rest) => if (skipBlanks rest).isEmpty then some d else none
  | none => none

end Untangle.Data
