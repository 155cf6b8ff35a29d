/-!
# Faults

Why an operation on a tree, a set of rules or a grammar version fails. Each constructor is a cause;
the wording that goes with a cause is `Fault.message?`.
-/

namespace Untangle

inductive Fault where
  /-- The node has no field of that name. -/
  | noField (tag name : String)
  /-- A name that starts with an underscore is never a field. -/
  | hiddenName (name : String)
  /-- A node was to be changed in place. -/
  | fixedNode (tag : String)
  /-- Finished rules were to be changed. -/
  | finishedRules
  /-- A field was asked of a value that is no node. -/
  | notNode
  /-- The value is of a kind that the operation does not take. -/
  | wrongKind
  /-- A member of a sequence was asked that the sequence does not have. -/
  | outOfRange
  /-- A table has no entry for the key. -/
  | noEntry (key : String)
  /-- Nodes with this tag have no text in the place where one stands. -/
  | noText (tag : String)
  /-- The value, here as it is shown, cannot be written as a literal. -/
  | noLiteral (shown : String)
  /-- The grammar version, here as it is shown, is not supported. -/
  | unsupportedVersion (shown : String)
  /-- The set of rules already has one for the tag. -/
  | duplicateRule (draft tag : String)
  /-- A count is beyond what an index can hold. -/
  | tooLarge
  /-- There is no memory for a text of that length. -/
  | noMemory
  /-- The depth allowed for rules that call each other is used up. -/
  | tooDeep
  deriving DecidableEq, Repr, Inhabited

/-- The wording of a cause, for those that have one. -/
def Fault.message? : Fault → Option String
  | .noField tag name => some s!"{tag} node has no attribute '{name}'"
  | .hiddenName name => some name
  | .fixedNode tag => some s!"{tag} node is immutable; use replace()"
  | .noEntry key => some key
  | .noText tag => some s!"Cannot generate code for {tag} node"
  | .noLiteral shown => some s!"Cannot generate code for literal value {shown}"
  | .unsupportedVersion shown =>
    some s!"Unsupported ECMAScript version {shown}; expected one of 3, 5, 6, 7"
  | .duplicateRule draft tag => some s!"Duplicate {draft} rule for {tag}"
  | .finishedRules | .notNode | .wrongKind | .outOfRange | .tooLarge | .noMemory
  | .tooDeep => none

end Untangle
