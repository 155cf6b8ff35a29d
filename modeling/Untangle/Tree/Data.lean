import Untangle.Tree.Build

/-!
# Plain data

Trees come in and go out as plain data: scalars, arrays and objects with ordered keys. An object
with a `type` key is a node with the value of that key, as it is, for its tag; an array is a
sequence.

Section 3 of the specification has both directions.

* `Value.ofData` reads a tree; keys that start with an underscore are dropped and `isAsync` is
  spelled `async`.
* `Value.toData` writes a value as plain data.
* `Value.hold` keeps plain data as it is, arrays as plain lists and objects without tags.
-/

namespace Untangle

/-- Plain data with ordered keys. -/
inductive Data where
  | null
  | bool (b : Bool)
  | int (i : Int)
  | float (x : Binary64)
  | str (s : String)
  | sealed (label : String)
  | array (items : List Data)
  | object (entries : List (String × Data))
  deriving Inhabited, Repr

namespace Data

def get? (d : Data) (key : String) : Option Data :=
  match d with
  | .object entries => entries.lookup key
  | _ => none

end Data

namespace Value

mutual

/-- Plain data kept as it is. -/
def hold : Data → Value
  | .null => .null
  | .bool b => .bool b
  | .int i => .int i
  | .float x => .float x
  | .str s => .str s
  | .sealed label => .sealed label
  | .array items => .list (holdItems items)
  | .object entries => .object (holdEntries entries)

def holdItems : List Data → List Value
  | [] => []
  | d :: rest => hold d :: holdItems rest

def holdEntries : List (String × Data) → Fields
  | [] => []
  | (key, d) :: rest => (key, hold d) :: holdEntries rest

end

/-- The name a field has in a tree. -/
def fieldName (key : String) : String :=
  if key = "isAsync" then "async" else key

def isFieldKey (key : String) : Bool :=
  key != "type" && key.toList.head? != some '_'

/-- The value an object with the given `type` entry and fields stands for. -/
def ofEntries (type : Option Data) (fields : Fields) : Except Fault Value :=
  match type with
  | none => .ok (.object fields)
  | some tag =>
    if fields.any fun field => field.1 = "self" then .error .wrongKind
    else .ok (.node (hold tag) fields)

mutual

/-- Reads a tree from plain data. -/
def ofData : Data → Except Fault Value
  | .null => .ok .null
  | .bool b => .ok (.bool b)
  | .int i => .ok (.int i)
  | .float x => .ok (.float x)
  | .str s => .ok (.str s)
  | .sealed label => .ok (.sealed label)
  | .array items => return .seq (← ofItems items)
  | .object entries => do ofEntries (entries.lookup "type") (Fields.ofPairs (← ofFields entries))

def ofItems : List Data → Except Fault (List Value)
  | [] => .ok []
  | d :: rest => return (← ofData d) :: (← ofItems rest)

def ofFields : List (String × Data) → Except Fault Fields
  | [] => .ok []
  | (key, d) :: rest =>
    if isFieldKey key then return (fieldName key, ← ofData d) :: (← ofFields rest)
    else ofFields rest

end

mutual

def toData : Value → Data
  | .null => .null
  | .bool b => .bool b
  | .int i => .int i
  | .float x => .float x
  | .str s => .str s
  | .sealed label => .sealed label
  | .seq items => .array (toItems items)
  | .list items => .array (toItems items)
  | .object entries => .object (toEntries entries)
  | .node tag fields => .object (("type", toData tag) :: toEntries fields)

def toItems : List Value → List Data
  | [] => []
  | v :: rest => toData v :: toItems rest

def toEntries : Fields → List (String × Data)
  | [] => []
  | (name, v) :: rest => (name, toData v) :: toEntries rest

end

end Value

end Untangle
