import Untangle.Number.Binary64

/-!
# Sums of binary64 numbers

The exact sum of two finite numbers, rounded once. Infinities keep their sign, two of different
signs have no sum, and a zero sum is negative only when both summands are.
-/

namespace Untangle.Binary64

def addFinite (a : Bool) (m : Nat) (p : Int) (b : Bool) (n : Nat) (q : Int) : Binary64 :=
  let (num, den) := ratio m p
  let (num', den') := ratio n q
  let sum := signed a num * (den' : Int) + signed b num' * (den : Int)
  let negative := if sum = 0 then a && b else decide (sum < 0)
  ofRatio negative sum.natAbs (den * den')

def add : Binary64 → Binary64 → Binary64
  | .nan, _ => .nan
  | _, .nan => .nan
  | .infinite a, .infinite b => if a == b then .infinite a else .nan
  | .infinite a, .finite _ _ _ => .infinite a
  | .finite _ _ _, .infinite b => .infinite b
  | .finite a m p, .finite b n q => addFinite a m p b n q

def negate : Binary64 → Binary64
  | .nan => .nan
  | .infinite negative => .infinite !negative
  | .finite negative m q => .finite (!negative) m q

/-- The number nearest to an integer, unless that is out of range. -/
def ofInt? (i : Int) : Option Binary64 :=
  match ofRatio (decide (i < 0)) i.natAbs 1 with
  | .infinite _ => none
  | x => some x

/-- Whether a number is below an integer; not-a-number is not. -/
def lessThanInt : Binary64 → Int → Bool
  | .nan, _ => false
  | .infinite negative, _ => negative
  | .finite negative m q, i =>
    let (num, den) := ratio m q
    signed negative num < i * (den : Int)

/-- Whether a number is above an integer; not-a-number is not. -/
def moreThanInt : Binary64 → Int → Bool
  | .nan, _ => false
  | .infinite negative, _ => !negative
  | .finite negative m q, i =>
    let (num, den) := ratio m q
    i * (den : Int) < signed negative num

end Untangle.Binary64
