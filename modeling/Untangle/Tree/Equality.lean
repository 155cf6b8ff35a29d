import Untangle.Tree.Value

/-!
# Equality of tree values

Numbers are compared as numbers, so an integer, a binary64 number and a truth value (as zero or one)
may be equal to each other. Sequences are compared member by member, and a sequence of children is
never equal to a plain list. The order of fields and of entries does not count.

Section 3 of the specification asks for structural equality; what it leaves to the values is said here.
-/

namespace Untangle.Value

def sameScalar (a b : Value) : Bool :=
  match a, b with
  | .null, .null => true
  | .str s, .str t => s == t
  | .sealed s, .sealed t => s == t
  | .float x, .float y => x.same y
  | .float x, other => other.asInt?.any x.sameInt
  | other, .float y => other.asInt?.any y.sameInt
  | a, b => match a.asInt?, b.asInt? with
    | some i, some j => i == j
    | _, _ => false

mutual

def same : Value → Value → Bool
  | .seq xs, .seq ys => sameItems xs ys
  | .list xs, .list ys => sameItems xs ys
  | .object xs, .object ys => xs.length == ys.length && sameEntries xs ys
  | .node t xs, .node u ys => same t u && (xs.length == ys.length && sameEntries xs ys)
  | a, b => sameScalar a b

/-- Equality of sequences, member by member. -/
def sameItems : List Value → List Value → Bool
  | [], [] => true
  | x :: xs, y :: ys => same x y && sameItems xs ys
  | _, _ => false

/-- Whether every entry of the first list has an equal value under its name in the second. -/
def sameEntries : Fields → Fields → Bool
  | [], _ => true
  | (name, v) :: rest, others =>
    (match others.lookup name with
      | some w => same v w
      | none => false) && sameEntries rest others

end

end Untangle.Value
