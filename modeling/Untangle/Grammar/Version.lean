import Untangle.Tree.Equality

/-!
# Grammar versions

The versions of the ECMAScript grammar that a program can be held to.
-/

namespace Untangle

inductive Version where
  | es3
  | es5
  | es6
  | es7
  deriving DecidableEq, Repr, Inhabited

namespace Version

def number : Version → Nat
  | .es3 => 3
  | .es5 => 5
  | .es6 => 6
  | .es7 => 7

def all : List Version := [.es3, .es5, .es6, .es7]

def ofNumber? (n : Nat) : Option Version :=
  all.find? fun version => version.number == n

/-- The version that a value is equal to as a number. -/
def ofValue? (v : Value) : Option Version :=
  all.find? fun version => v.same (.int version.number)

end Version

end Untangle
