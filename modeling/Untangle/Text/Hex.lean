/-!
# Hexadecimal digits and named characters

Fixed-width hexadecimal numbers for escapes, and names for the characters that quoting turns on.
-/

namespace Untangle.Text

/-- The last `width` hexadecimal digits of a number in lower case, the most significant first. -/
def hex : Nat → Nat → List Char
  | 0, _ => []
  | width + 1, n => hex width (n / 16) ++ [Nat.digitChar (n % 16)]

def singleQuote : Char := '\x27'

def doubleQuote : Char := '\x22'

/-- The backslash, which starts an escape. -/
def backslash : Char := '\x5c'

end Untangle.Text
