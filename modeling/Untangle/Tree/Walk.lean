import Untangle.Tree.Access
import Untangle.Tree.Equality

/-!
# Walking a tree

The nodes of a tree, parents before their children and fields in order. A walk goes through nodes
and sequences; objects, plain lists and scalars hold nothing it looks for.

* `Value.walk` lists the nodes.
* `Value.boundNames` lists the names that a declaration target binds.
-/

namespace Untangle.Value

mutual

/-- Every node of a value, parents first. -/
def walk : Value → List Value
  | .node tag fields => .node tag fields :: walkFields fields
  | .seq items => walkItems items
  | _ => []

def walkItems : List Value → List Value
  | [] => []
  | v :: rest => walk v ++ walkItems rest

def walkFields : Fields → List Value
  | [] => []
  | (_, v) :: rest => walk v ++ walkFields rest

end

/-- Whether a value is an identifier, and one with the given name when a name is given. -/
def isIdentifier (v : Value) (name : Value) : Except Fault Bool := do
  match v with
  | .null => return false
  | _ =>
    if !(← v.isTagged "Identifier") then return false
    else if name.isNull then return true
    else return (← v.field "name").same name

/-- The members of a value other than a sequence are no patterns. -/
def boundByScalars (v : Value) : Except Fault (List Value) :=
  match v.items with
  | .ok [] => .ok []
  | .ok _ => .error .notNode
  | .error fault => .error fault

section

variable (accept : Value → Except Fault Unit)

mutual

/-- The names that a declaration target binds, in order: an identifier binds its name, a pattern
what its parts bind, anything else nothing. Each name must be accepted as soon as it is found. -/
def boundNamesWith : Value → Except Fault (List Value)
  | .null => .ok []
  | .tagged "Identifier" fields => do
    let name ← (Value.tagged "Identifier" fields).field "name"
    accept name
    return [name]
  | .tagged "ArrayPattern" fields => boundInElements fields
  | .tagged "ObjectPattern" fields => boundInProperties fields
  | .tagged "AssignmentPattern" fields => boundIn (.str "AssignmentPattern") "left" fields
  | .tagged "RestElement" fields => boundIn (.str "RestElement") "argument" fields
  | .node _ _ => .ok []
  | _ => .error .notNode

/-- The names bound by the named field of a node with the given tag. -/
def boundIn (tag : Value) (name : String) : Fields → Except Fault (List Value)
  | [] => .error (.noField tag.plainText name)
  | (k, v) :: rest => if k = name then boundNamesWith v else boundIn tag name rest

def boundInElements : Fields → Except Fault (List Value)
  | [] => .error (.noField "ArrayPattern" "elements")
  | (k, .seq items) :: rest => if k = "elements" then boundByEach items else boundInElements rest
  | (k, .list items) :: rest => if k = "elements" then boundByEach items else boundInElements rest
  | (k, v) :: rest => if k = "elements" then boundByScalars v else boundInElements rest

def boundInProperties : Fields → Except Fault (List Value)
  | [] => .error (.noField "ObjectPattern" "properties")
  | (k, .seq items) :: rest =>
    if k = "properties" then boundByProperties items else boundInProperties rest
  | (k, .list items) :: rest =>
    if k = "properties" then boundByProperties items else boundInProperties rest
  | (k, v) :: rest => if k = "properties" then boundByScalars v else boundInProperties rest

def boundByEach : List Value → Except Fault (List Value)
  | [] => .ok []
  | v :: rest => return (← boundNamesWith v) ++ (← boundByEach rest)

/-- The names bound by properties: a rest element binds by its argument, any other by its value. -/
def boundByProperties : List Value → Except Fault (List Value)
  | [] => .ok []
  | .tagged "RestElement" fields :: rest =>
    return (← boundIn (.str "RestElement") "argument" fields) ++ (← boundByProperties rest)
  | .node tag fields :: rest => return (← boundIn tag "value" fields) ++ (← boundByProperties rest)
  | _ :: _ => .error .notNode

end

end

/-- The names that a declaration target binds, whatever they are. -/
def boundNames (v : Value) : Except Fault (List Value) :=
  v.boundNamesWith fun _ => .ok ()

end Untangle.Value
