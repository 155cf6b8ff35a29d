import Untangle.Fault
import Untangle.Tree.Display

/-!
# Reading tree values

What is read of a value: the tag and the fields of a node, the members of a sequence. A value of
another kind refuses, and the refusal says what was asked of it.

* `Value.tag`, `Value.field` and `Value.optional` read a node.
* `Value.key?` is how a value is looked up in a table.
* `Value.items` and `Value.leadingAndLast` take a sequence apart.
* `Value.descend` follows fields from node to node.
-/

namespace Untangle.Value

/-- The tag of a node; any other value has none. -/
def tag (v : Value) : Except Fault Value :=
  match v with
  | .node tag _ => .ok tag
  | _ => .error .notNode

def hasTag (v : Value) (tag : String) : Bool :=
  match v with
  | .node t _ => t.isText tag
  | _ => false

/-- Whether a node has the given text as its tag; a value that is no node cannot be asked. -/
def isTagged (v : Value) (tag : String) : Except Fault Bool :=
  return (← v.tag).isText tag

/-- The text by which a value is found in a table. A value that is no text is found in none, and one
that cannot be a key cannot be looked up at all. -/
def key? (v : Value) : Except Fault (Option String) :=
  match v with
  | .str s => .ok (some s)
  | other => if other.isKey then .ok none else .error .wrongKind

/-- A field that a node must have. -/
def field (v : Value) (name : String) : Except Fault Value :=
  match v with
  | .node tag fields =>
    match fields.lookup name with
    | some value => .ok value
    | none => .error (.noField tag.plainText name)
  | _ => .error .notNode

/-- A field that a node may lack; a null field counts as lacking. -/
def optional (v : Value) (name : String) : Except Fault (Option Value) :=
  match v with
  | .node _ fields =>
    match fields.lookup name with
    | some .null => .ok none
    | found => .ok found
  | _ => .error .notNode

/-- A field of a node or an entry of an object, or else the given value. -/
def getOr (v : Value) (name : String) (default : Value) : Except Fault Value :=
  match v with
  | .node _ fields | .object fields => .ok ((fields.lookup name).getD default)
  | _ => .error .notNode

def has (v : Value) (name : String) : Except Fault Bool :=
  match v with
  | .node _ fields => .ok (fields.lookup name).isSome
  | _ => .error .notNode

def fieldList (v : Value) : Except Fault Fields :=
  match v with
  | .node _ fields => .ok fields
  | _ => .error .notNode

/-- A node with one field replaced, or added at the end. Other values stay as they are. -/
def withField (v : Value) (name : String) (value : Value) : Value :=
  match v with
  | .node tag fields => .node tag (Fields.set name value fields)
  | other => other

/-- Why a value that is no text cannot do what texts do. A node is asked for a field of that name
instead, and a field is nothing that can be done. -/
def textFault (operation : String) : Value → Fault
  | .node tag fields =>
    if (fields.lookup operation).isSome then .wrongKind else .noField tag.plainText operation
  | _ => .notNode

/-- The members of a value that can be gone through: a sequence, the characters of a text, the keys
of an object. -/
def items : Value → Except Fault (List Value)
  | .seq items | .list items => .ok items
  | .str s => .ok (s.toList.map fun c => .str (String.singleton c))
  | .object entries => .ok (entries.map fun entry => .str entry.1)
  | _ => .error .wrongKind

/-- A sequence as its leading members and its last one. -/
def leadingAndLast (v : Value) : Except Fault (List Value × Value) :=
  let split := fun (members : List Value) =>
    match members.getLast? with
    | some last => .ok (members.dropLast, last)
    | none => .error .outOfRange
  match v with
  | .seq items | .list items => split items
  | .str s => split (s.toList.map fun c => .str (String.singleton c))
  | _ => .error .wrongKind

def length (v : Value) : Except Fault Nat :=
  v.items.map List.length

/-- Whether a tag is one of a statement: those end in `Statement` or `Declaration`. -/
def isStatementTag (tag : String) : Bool :=
  "Statement".toList.isSuffixOf tag.toList || "Declaration".toList.isSuffixOf tag.toList

/-- Whether a node is a statement by its tag, which must be a text. -/
def isStatement (v : Value) : Except Fault Bool := do
  match ← v.tag with
  | .str tag => return isStatementTag tag
  | _ => throw .notNode

mutual

/-- Follows fields from node to node: as long as `next` names a field, the walk goes on to it. The
value it ends at is a node. -/
def descend (next : Value → Fields → Except Fault (Option String)) : Value → Except Fault Value
  | .node tag fields =>
    match next tag fields with
    | .error fault => .error fault
    | .ok none => .ok (.node tag fields)
    | .ok (some name) => descendInto next tag name fields
  | _ => .error .notNode

/-- Goes on to the named field of a node with the given tag. -/
def descendInto (next : Value → Fields → Except Fault (Option String)) (tag : Value)
    (name : String) : Fields → Except Fault Value
  | [] => .error (.noField tag.plainText name)
  | (k, v) :: rest => if k = name then descend next v else descendInto next tag name rest

end

end Untangle.Value
