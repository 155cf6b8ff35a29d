import Untangle.Fault
import Untangle.Number.Sum
import Untangle.Tree.Value

/-!
# Sums of tree values

Numbers add up, a truth value counting as zero or one; texts and sequences are joined. No other two
values have a sum.
-/

namespace Untangle.Value

def toBinary64 (v : Value) : Except Fault Binary64 :=
  match v with
  | .float x => .ok x
  | other =>
    match other.asInt? with
    | none => .error .wrongKind
    | some i => (Binary64.ofInt? i).elim (.error .tooLarge) .ok

def plus (a b : Value) : Except Fault Value :=
  match a, b with
  | .str s, .str t => .ok (.str (s ++ t))
  | .seq xs, .seq ys => .ok (.seq (xs ++ ys))
  | .list xs, .list ys => .ok (.list (xs ++ ys))
  | .float x, other => return .float (x.add (← other.toBinary64))
  | other, .float y => return .float ((← other.toBinary64).add y)
  | a, b =>
    match a.asInt?, b.asInt? with
    | some i, some j => .ok (.int (i + j))
    | _, _ => .error .wrongKind

end Untangle.Value
