import Untangle.Number.Binary64

/-!
# Tree values

A syntax tree is a value: a scalar, a sequence, an object, or a node with a tag and named fields.
The order of fields is part of the value, since traversal, display and the choice of the first error
follow it. In a proper tree every tag is a text; a tree from outside may have anything there.

Nodes are those of section 3 of the specification, the data model.

* `Fields.set` replaces a field in its place or adds it at the end.
* `Value.isKey` tells what can be looked up in a table.
-/

namespace Untangle

/-- A value of a tree. `seq` holds children in order; `list` is a plain list that is held as a
value and that no traversal enters; `sealed` is a value nothing looks into. -/
inductive Value where
  | null
  | bool (b : Bool)
  | int (i : Int)
  | float (x : Binary64)
  | str (s : String)
  | sealed (label : String)
  | seq (items : List Value)
  | list (items : List Value)
  | object (entries : List (String × Value))
  | node (tag : Value) (fields : List (String × Value))
  deriving Inhabited, Repr

abbrev Fields := List (String × Value)

namespace Fields

/-- Puts a value under a name, in the place the name already has or else at the end. -/
def set (name : String) (value : Value) : Fields → Fields
  | [] => [(name, value)]
  | (k, v) :: rest => if k = name then (k, value) :: rest else (k, v) :: set name value rest

/-- Puts several values under their names, one after the other. -/
def setAll (fields changes : Fields) : Fields :=
  changes.foldl (fun acc change => set change.1 change.2 acc) fields

/-- The fields that a list of named values describes: the first mention of a name fixes its place,
the last its value. -/
def ofPairs (pairs : Fields) : Fields :=
  setAll [] pairs

end Fields

namespace Value

/-- Whether the value is the absence of a value. -/
def isNull : Value → Bool
  | .null => true
  | _ => false

def isText (v : Value) (s : String) : Bool :=
  match v with
  | .str t => t == s
  | _ => false

/-- The integer a scalar counts as: itself, or zero and one for the truth values. -/
def asInt? : Value → Option Int
  | .int i => some i
  | .bool b => some (if b then 1 else 0)
  | _ => none

/-- A node with a text as its tag, as in every proper tree. -/
@[match_pattern] abbrev tagged (tag : String) (fields : Fields) : Value :=
  .node (.str tag) fields

/-- Whether a value counts as true: neither null, false, a zero nor empty. -/
def truthy : Value → Bool
  | .null => false
  | .bool b => b
  | .int i => i != 0
  | .float x => !x.isZero
  | .str s => !s.isEmpty
  | .sealed _ => true
  | .seq items | .list items => !items.isEmpty
  | .object entries => !entries.isEmpty
  | .node _ _ => true

/-- Whether an optional value is there and counts as true. -/
def truthy? (v : Option Value) : Bool :=
  v.any truthy

/-- Whether a value can stand as a key: scalars can, and sequences of them. -/
def isKey : Value → Bool
  | .list _ | .object _ | .node _ _ => false
  | .seq items => areKeys items
  | _ => true
where
  /-- Whether every member can stand as a key. -/
  areKeys : List Value → Bool
    | [] => true
    | v :: rest => isKey v && areKeys rest

mutual

/-- The number of values in a value, itself included. -/
def size : Value → Nat
  | .seq items | .list items => sizeItems items + 1
  | .object entries => sizeEntries entries + 1
  | .node _ fields => sizeEntries fields + 1
  | _ => 1

def sizeItems : List Value → Nat
  | [] => 0
  | v :: rest => size v + sizeItems rest

def sizeEntries : Fields → Nat
  | [] => 0
  | (_, v) :: rest => size v + sizeEntries rest

end

mutual

/-- The depth of nesting of a value, one for a scalar. -/
def depth : Value → Nat
  | .seq items | .list items => depthItems items + 1
  | .object entries => depthEntries entries + 1
  | .node _ fields => depthEntries fields + 1
  | _ => 1

def depthItems : List Value → Nat
  | [] => 0
  | v :: rest => max (depth v) (depthItems rest)

def depthEntries : Fields → Nat
  | [] => 0
  | (_, v) :: rest => max (depth v) (depthEntries rest)

end

end Value

end Untangle
