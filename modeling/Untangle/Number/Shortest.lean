import Untangle.Number.Binary64

/-!
# Shortest decimal text

A finite binary64 number is written with the fewest digits that read back as the same number, and
with the nearest such digits. The text is positional from `0.0001` up to sixteen digits before the
point, and scientific outside of that.

* `Binary64.shortest` finds the digits.
* `Binary64.text` writes any binary64 number.
* `Binary64.ofText?` reads such a text.
-/

namespace Untangle.Binary64

/-- A positive decimal `digits * 10 ^ exponent`. -/
structure Decimal where
  digits : Nat
  exponent : Int
  deriving DecidableEq, Repr, Inhabited

/-- The number of decimal digits of a natural number, one for zero. -/
def digitCount (n : Nat) : Nat :=
  (Nat.toDigits 10 n).length

/-- The power of ten of the leading digit of a positive fraction. -/
def leadingPower (num den : Nat) : Int :=
  if den ≤ num then (digitCount (num / den) : Int) - 1
  else
    let above := (den + num - 1) / num
    0 - (digitCount (above - 1) : Int)

/-- A positive fraction rounded down to a multiple of `10 ^ power`, counted in those units. -/
def floorAt (num den : Nat) (power : Int) : Nat :=
  if power < 0 then num * Nat.pow 10 power.natAbs / den else num / (den * Nat.pow 10 power.natAbs)

/-- Whether the lower of two neighbouring multiples of `10 ^ power` is at least as near to the
fraction as the upper one; a tie goes to the even one. -/
def lowerIsNearer (num den : Nat) (power : Int) (lower : Nat) : Bool :=
  let (middle, fraction) :=
    if power < 0 then ((2 * lower + 1) * den, 2 * num * Nat.pow 10 power.natAbs)
    else ((2 * lower + 1) * den * Nat.pow 10 power.natAbs, 2 * num)
  fraction < middle || (fraction == middle && lower % 2 == 0)

/-- The nearest decimal with `count` digits that reads back as `m * 2 ^ q`, if there is one.
Rounding up may reach the next power of ten, which is written with one digit. -/
def withDigits? (m : Nat) (q : Int) (count : Nat) : Option Decimal :=
  let (num, den) := ratio m q
  let power := leadingPower num den - (count : Int) + 1
  let lower := floorAt num den power
  let readsBack := fun digits => ofDecimal false digits power == .finite false m q
  let candidates :=
    if lowerIsNearer num den power lower then [lower, lower + 1] else [lower + 1, lower]
  (candidates.find? readsBack).map fun digits =>
    if digits = Nat.pow 10 count then { digits := 1, exponent := power + count }
    else { digits, exponent := power }

/-- The shortest decimal that reads back as `m * 2 ^ q`: seventeen digits always do. -/
def shortest (m : Nat) (q : Int) : Decimal :=
  ((List.range 17).findSome? fun i => withDigits? m q (i + 1)).getD { digits := m, exponent := q }

/-- The text of a digit sequence whose point stands after `point` digits. -/
def positional (digits : List Char) (point : Int) : List Char :=
  if point ≤ 0 then
    ['0', '.'] ++ List.replicate point.natAbs '0' ++ digits
  else if (digits.length : Int) ≤ point then
    digits ++ List.replicate (point.natAbs - digits.length) '0' ++ ['.', '0']
  else
    digits.take point.natAbs ++ '.' :: digits.drop point.natAbs

/-- An exponent with its sign and at least two digits. -/
def exponentText (exponent : Int) : List Char :=
  let digits := Nat.toDigits 10 exponent.natAbs
  (if exponent < 0 then '-' else '+') ::
    (List.replicate (2 - digits.length) '0' ++ digits)

/-- The text of a digit sequence with one digit before the point and a power of ten. -/
def scientific (digits : List Char) (exponent : Int) : List Char :=
  match digits with
  | [] => []
  | [d] => d :: 'e' :: exponentText exponent
  | d :: rest => d :: '.' :: (rest ++ 'e' :: exponentText exponent)

/-- The text of a positive decimal: positional when the leading digit has a power of ten from -4
to 15. -/
def Decimal.text (d : Decimal) : List Char :=
  let digits := Nat.toDigits 10 d.digits
  let point := (digits.length : Int) + d.exponent
  if -4 < point ∧ point ≤ 16 then positional digits point else scientific digits (point - 1)

def text : Binary64 → String
  | .nan => "nan"
  | .infinite negative => if negative then "-inf" else "inf"
  | .finite negative m q =>
    let magnitude := if m = 0 then ['0', '.', '0'] else (shortest m q).text
    String.ofList (if negative then '-' :: magnitude else magnitude)

/-- The natural number a digit sequence is written for, and how many digits it has; nothing but
ASCII digits is accepted. -/
def natOfDigits? (digits : List Char) : Option Nat :=
  if digits.all Char.isDigit then
    some (digits.foldl (fun n c => 10 * n + (c.toNat - '0'.toNat)) 0)
  else none

def exponentOf? : List Char → Option Int
  | '-' :: digits => if digits.isEmpty then none else (natOfDigits? digits).map fun n => -(n : Int)
  | '+' :: digits => if digits.isEmpty then none else (natOfDigits? digits).map fun n => (n : Int)
  | digits => if digits.isEmpty then none else (natOfDigits? digits).map fun n => (n : Int)

/-- A decimal without a sign: digits, a fraction and an exponent, the last two optional. -/
def magnitudeOf? (negative : Bool) (chars : List Char) : Option Binary64 := do
  let isMark := fun c => c == 'e' || c == 'E'
  let body := chars.takeWhile fun c => !isMark c
  let exponent ← match chars.dropWhile fun c => !isMark c with
    | [] => some 0
    | _ :: rest => exponentOf? rest
  let whole := body.takeWhile (· != '.')
  let fraction := (body.dropWhile (· != '.')).drop 1
  if whole.isEmpty then none
  else
    let digits ← natOfDigits? (whole ++ fraction)
    some (ofDecimal negative digits (exponent - (fraction.length : Int)))

def ofText? (s : String) : Option Binary64 :=
  match s.toList with
  | ['n', 'a', 'n'] => some .nan
  | ['i', 'n', 'f'] => some (.infinite false)
  | ['-', 'i', 'n', 'f'] => some (.infinite true)
  | '-' :: rest => magnitudeOf? true rest
  | chars => magnitudeOf? false chars

end Untangle.Binary64
