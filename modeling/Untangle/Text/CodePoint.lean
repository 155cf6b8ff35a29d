/-!
# Sets of code points

A character class is a list of inclusive code point ranges in increasing order. The classes
themselves stand in their own modules, one for each property.
-/

namespace Untangle.Text

def inRanges (ranges : List (Nat × Nat)) (c : Char) : Bool :=
  ranges.any fun range => range.1 ≤ c.toNat && c.toNat ≤ range.2

end Untangle.Text
