import Untangle.Text.CodePoint

/-!
# Blanks

White space of every script, as the patterns of the printer and the reader of widths see it. It
counts the four information separators U+001C to U+001F, which `Char.isWhitespace` leaves out.
-/

namespace Untangle.Text

def blankRanges : List (Nat × Nat) := [
  (0x9, 0xd), (0x1c, 0x20), (0x85, 0x85), (0xa0, 0xa0), (0x1680, 0x1680), (0x2000, 0x200a),
  (0x2028, 0x2029), (0x202f, 0x202f), (0x205f, 0x205f), (0x3000, 0x3000)]

/-- White space of any script. -/
def isBlank (c : Char) : Bool :=
  inRanges blankRanges c

/-- Blanks that may stand around a written integer: all but the information separators. -/
def isPadding (c : Char) : Bool :=
  isBlank c && !(0x1c ≤ c.toNat && c.toNat ≤ 0x1f)

end Untangle.Text
