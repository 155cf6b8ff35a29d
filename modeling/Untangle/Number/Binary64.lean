/-!
# Binary64 numbers

Exact values of the binary64 format. A finite number is a sign, a significand and a power of two, so
comparison and conversion are integer arithmetic and no machine arithmetic is involved.

* `Binary64.ofRatio` rounds a fraction to the nearest number, a half to the even significand.
* `Binary64.toInt?` gives the exact integer a number is equal to.
* `Binary64.same` is equality as numbers, the two zeros being the same number.
-/

namespace Untangle

/-- A binary64 number. `finite negative m q` stands for `m * 2 ^ q`, negated when `negative` is set;
`ofRatio` gives the form with `m < 2 ^ 53`, `-1074 ≤ q`, and `2 ^ 52 ≤ m` unless `q = -1074`. -/
inductive Binary64 where
  | nan
  | infinite (negative : Bool)
  | finite (negative : Bool) (significand : Nat) (exponent : Int)
  deriving DecidableEq, Repr, Inhabited

namespace Binary64

def minExponent : Int := -1074

def maxExponent : Int := 971

/-- The first significand that needs one bit too many. -/
def significandLimit : Nat := Nat.pow 2 53

/-- The integer nearest to `num / den`; a half goes to the even neighbour. -/
def roundDiv (num den : Nat) : Nat :=
  let floor := num / den
  let twice := 2 * (num % den)
  if twice < den ∨ (twice = den ∧ floor % 2 = 0) then floor else floor + 1

/-- The number of units `2 ^ q` nearest to `num / den`. -/
def unitsAt (num den : Nat) (q : Int) : Nat :=
  if q < 0 then roundDiv (num * Nat.pow 2 q.natAbs) den else roundDiv num (den * Nat.pow 2 q.natAbs)

/-- An exponent at which `num / den` needs at most 55 bits, and at least 52 above `minExponent`. -/
def startExponent (num den : Nat) : Int :=
  max ((num.log2 : Int) - (den.log2 : Int) - 53) minExponent

/-- The least of three exponents at which the rounded significand fits. -/
def fitExponent (num den : Nat) : Int :=
  let q := startExponent num den
  if unitsAt num den q < significandLimit then q
  else if unitsAt num den (q + 1) < significandLimit then q + 1
  else q + 2

/-- The number nearest to `num / den`, with the given sign. A half goes to the even significand, and
what would need an exponent above `maxExponent` is infinite. -/
def ofRatio (negative : Bool) (num den : Nat) : Binary64 :=
  if num = 0 then .finite negative 0 minExponent
  else
    let q := fitExponent num den
    if maxExponent < q then .infinite negative else .finite negative (unitsAt num den q) q

/-- The number nearest to `digits * 10 ^ exponent`, with the given sign. -/
def ofDecimal (negative : Bool) (digits : Nat) (exponent : Int) : Binary64 :=
  if exponent < 0 then ofRatio negative digits (Nat.pow 10 exponent.natAbs)
  else ofRatio negative (digits * Nat.pow 10 exponent.natAbs) 1

/-- The magnitude of a finite number as a fraction. -/
def ratio (significand : Nat) (exponent : Int) : Nat × Nat :=
  if exponent < 0 then (significand, Nat.pow 2 exponent.natAbs)
  else (significand * Nat.pow 2 exponent.natAbs, 1)

def signed (negative : Bool) (magnitude : Nat) : Int :=
  if negative then -(magnitude : Int) else magnitude

/-- The integer that a number is equal to, if there is one. -/
def toInt? : Binary64 → Option Int
  | .finite negative m q =>
    let (num, den) := ratio m q
    if num % den = 0 then some (signed negative (num / den)) else none
  | _ => none

def isZero : Binary64 → Bool
  | .finite _ m _ => m == 0
  | _ => false

/-- Equality as numbers: the zeros are the same number, and so is not-a-number to itself. -/
def same : Binary64 → Binary64 → Bool
  | .nan, .nan => true
  | .infinite a, .infinite b => a == b
  | .finite a m p, .finite b n q =>
    let (num, den) := ratio m p
    let (num', den') := ratio n q
    signed a num * (den' : Int) == signed b num' * (den : Int)
  | _, _ => false

def sameInt (x : Binary64) (i : Int) : Bool :=
  x.toInt? == some i

end Binary64

end Untangle
