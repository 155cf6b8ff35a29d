/-!
# Splitting text

A text cut at every occurrence of a character. There is always one part more than there are cuts.
-/

namespace Untangle.Text

/-- The parts of a text between the occurrences of a character. -/
def splitAt (separator : Char) : List Char → List (List Char)
  | [] => [[]]
  | c :: rest =>
    if c = separator then [] :: splitAt separator rest
    else match splitAt separator rest with
      | [] => [[c]]
      | part :: others => (c :: part) :: others

end Untangle.Text
