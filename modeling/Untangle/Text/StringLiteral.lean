import Untangle.Text.Hex

/-!
# String literals

The spelling of a string literal of a program: single quotes around printable ASCII. What lies
outside of that range is written by its UTF-16 units, so a character beyond the first plane takes
two escapes.
-/

namespace Untangle.Text.StringLiteral

/-- A UTF-16 unit as an escape. -/
def escapeUnit (unit : Nat) : List Char :=
  backslash :: 'u' :: hex 4 unit

/-- A character by its UTF-16 units. -/
def escapeUnits (c : Char) : List Char :=
  if c.toNat < 0x10000 then escapeUnit c.toNat
  else
    let offset := c.toNat - 0x10000
    escapeUnit (0xd800 + offset / 0x400) ++ escapeUnit (0xdc00 + offset % 0x400)

def encodeChar (c : Char) : List Char :=
  if c == singleQuote || c == backslash then [backslash, c]
  else if c == '\n' then [backslash, 'n']
  else if c == '\r' then [backslash, 'r']
  else if c == '\t' then [backslash, 't']
  else if c == '\x08' then [backslash, 'b']
  else if c == '\x0c' then [backslash, 'f']
  else if 0x20 ≤ c.toNat && c.toNat ≤ 0x7e then [c]
  else escapeUnits c

/-- The characters between the quotes. -/
def encode (s : List Char) : List Char :=
  s.flatMap encodeChar

def text (s : String) : String :=
  String.ofList (singleQuote :: encode s.toList ++ [singleQuote])

end Untangle.Text.StringLiteral
