import Untangle.Tree.Access

/-!
# Building nodes

Nodes made by hand. A plain list given as a field becomes a sequence of children, and a node keeps
the names `type` and `self` for itself.

Section 3 of the specification: nodes never change, a changed node is a new one.

* `Value.make` and `Value.replace` build a node from fields that may be refused.
* `Value.read` reads a node by any name.
* The remaining functions build the nodes that rules need.
-/

namespace Untangle.Value

/-- A field as a node stores it: a plain list becomes a sequence, inner lists stay as they are. -/
def stored : Value → Value
  | .list items => .seq items
  | v => v

/-- Names that no field can have. -/
def reservedNames : List String := ["type", "self"]

def anyReserved (fields : Fields) : Bool :=
  fields.any fun field => reservedNames.contains field.1

def make (tag : Value) (fields : Fields) : Except Fault Value :=
  if anyReserved fields then .error .wrongKind
  else .ok (.node tag (Fields.ofPairs (fields.map fun field => (field.1, field.2.stored))))

/-- A node with some fields replaced; fields it did not have go last. -/
def replace (v : Value) (changes : Fields) : Except Fault Value :=
  match v with
  | .node tag fields =>
    if anyReserved changes then .error .wrongKind
    else
      let changes := changes.map fun change => (change.1, change.2.stored)
      .ok (.node tag (Fields.setAll fields changes))
  | .str _ => .error .wrongKind
  | _ => .error .notNode

/-- An attempt to change a field in place, which no node allows. -/
def assign (v : Value) : Except Fault Value :=
  match v with
  | .node tag _ => .error (.fixedNode tag.plainText)
  | _ => .error .notNode

/-- Any name read from a node: its tag under `type`, all its fields under `_fields`, else one of its
fields. -/
def read (v : Value) (name : String) : Except Fault Value :=
  match v with
  | .node tag fields =>
    if name = "type" then .ok tag
    else if name = "_fields" then .ok (.object fields)
    else if name.toList.head? = some '_' then .error (.hiddenName name)
    else v.field name
  | _ => .error .notNode

def identifier (name : Value) : Value :=
  .tagged "Identifier" [("name", name)]

/-- A literal, with its spelling in the program when there is one. -/
def literal (value raw : Value) : Value :=
  .tagged "Literal" (if raw.isNull then [("value", value)]
    else [("value", value), ("raw", raw)])

def booleanLiteral (value : Value) : Value :=
  literal value (.str (if value.truthy then "true" else "false"))

/-- An expression in the place of a statement. -/
def expressionStatement (expression : Value) : Value :=
  .tagged "ExpressionStatement" [("expression", expression)]

def blockStatement (body : List Value) : Value :=
  .tagged "BlockStatement" [("body", .seq body)]

/-- A branch; a null alternate is no else. -/
def ifStatement (test consequent alternate : Value) : Value :=
  .tagged "IfStatement"
    [("test", test), ("consequent", consequent), ("alternate", alternate)]

/-- A return, of nothing when the argument is null. -/
def returnStatement (argument : Value) : Value :=
  .tagged "ReturnStatement" [("argument", argument)]

/-- A unary operator before its argument. -/
def unaryExpression (operator argument : Value) : Value :=
  .tagged "UnaryExpression"
    [("operator", operator), ("argument", argument), ("prefix", .bool true)]

def variableDeclaration (declarations : List Value) (kind : Value) : Value :=
  .tagged "VariableDeclaration" [("declarations", .seq declarations), ("kind", kind)]

end Untangle.Value
