import Untangle.Diagnostic.SourceError
import Untangle.Grammar.Version
import Untangle.Tree.Sum
import Untangle.Tree.Walk

/-!
# Features of the grammar

Which constructs of a tree need a newer grammar. Features are listed in walk order, and a tree is
refused for the first that needs a version above the selected one.

This is the grammar gate of the specification, sections 7 and 11.

* `features` lists what a tree uses.
* `holdTo` refuses a tree that uses too new a feature.
-/

namespace Untangle.Grammar

/-- A construct that needs a grammar version. -/
structure Feature where
  node : Value
  required : Nat
  name : String

/-- The node tags that need a version, with the version and the name of the feature. -/
def tagTable : List (String × Nat × String) := [
  ("ArrowFunctionExpression", 6, "arrow functions"),
  ("ClassDeclaration", 6, "classes"),
  ("ClassExpression", 6, "classes"),
  ("TemplateLiteral", 6, "template literals"),
  ("TaggedTemplateExpression", 6, "tagged templates"),
  ("SpreadElement", 6, "spread elements"),
  ("RestElement", 6, "rest elements"),
  ("ArrayPattern", 6, "destructuring"),
  ("ObjectPattern", 6, "destructuring"),
  ("AssignmentPattern", 6, "default values"),
  ("ForOfStatement", 6, "for-of loops"),
  ("YieldExpression", 6, "generators"),
  ("MetaProperty", 6, "new.target"),
  ("Super", 6, "super"),
  ("AwaitExpression", 8, "async functions")]

def isSet (n : Value) (name : String) : Except Fault Bool :=
  return Value.truthy? (← n.optional name)

/-- The features of a declaration of variables: any kind but `var` is one. -/
def declarationFeatures (n : Value) : Except Fault (List Feature) := do
  let kind ← n.field "kind"
  if kind.isText "var" then return []
  else return [⟨n, 6, "'" ++ kind.plainText ++ "' declarations"⟩]

/-- The features of an operator: powers are one. -/
def operatorFeatures (n : Value) : Except Fault (List Feature) := do
  let operator ← n.field "operator"
  if operator.isText "**" || operator.isText "**=" then return [⟨n, 7, "exponent operators"⟩]
  else return []

/-- The features of a function: generators and async functions. -/
def functionFeatures (n : Value) : Except Fault (List Feature) := do
  let generator := if ← isSet n "generator" then [⟨n, 6, "generators"⟩] else []
  let async := if ← isSet n "async" then [⟨n, 8, "async functions"⟩] else []
  return generator ++ async

/-- The features of a property: the short and computed forms, or else accessors. -/
def propertyFeatures (n : Value) : Except Fault (List Feature) := do
  if (← isSet n "computed") || (← isSet n "shorthand") || (← isSet n "method") then
    return [⟨n, 6, "enhanced object literals"⟩]
  else
    let kind := (← n.optional "kind").getD .null
    if kind.isText "get" || kind.isText "set" then return [⟨n, 5, "property accessors"⟩]
    else return []

def featuresOf (n : Value) : Except Fault (List Feature) := do
  match (← (← n.tag).key?).bind fun tag => tagTable.lookup tag with
  | some (required, name) => return [⟨n, required, name⟩]
  | none =>
    if n.hasTag "VariableDeclaration" then declarationFeatures n
    else if n.hasTag "BinaryExpression" || n.hasTag "AssignmentExpression" then operatorFeatures n
    else if n.hasTag "FunctionDeclaration" || n.hasTag "FunctionExpression" then functionFeatures n
    else if n.hasTag "Property" then propertyFeatures n
    else return []

/-- The features that a tree uses, in walk order. -/
def features (tree : Value) : Except Fault (List Feature) :=
  return (← tree.walk.mapM featuresOf).flatten

/-- A value that an object must have under a key. -/
def position (v : Value) (key : String) : Except Fault Value :=
  match v with
  | .object entries =>
    match entries.lookup key with
    | some value => .ok value
    | none => .error (.noEntry key)
  | _ => .error .wrongKind

/-- Where a node stands in the source; columns are counted from zero in a tree. Only the columns are
added to, so the lines may be any values. -/
def locationOf (n : Value) (file : Value) : Except Fault (Option Location) := do
  match ← n.optional "loc" with
  | some (.object loc) =>
    match loc.lookup "start" with
    | none => return none
    | some start =>
      let stop := ((loc.lookup "end").filter Value.truthy).getD (.object [])
      let line ← position start "line"
      let column ← (← position start "column").plus (.int 1)
      let endLine ← stop.getOr "line" (.int 0)
      let endColumn ← (← stop.getOr "column" (.int (-1))).plus (.int 1)
      return some { file, line, column, endLine, endColumn }
  | _ => return none

def refusal (feature : Feature) (source : Option String) (file : Value) :
    Except Fault SourceError := do
  let location ← locationOf feature.node file
  let help := (Version.ofNumber? feature.required).map fun _ =>
    s!"select a newer grammar with --ecma{feature.required}"
  return {
    message := s!"ecmaVersion {feature.required} or later is required for {feature.name}"
    location, help, source
    code := some "E0002" }

/-- Refuses the first node that uses a feature above the version. -/
def checkNodes (version : Version) (source : Option String) (file : Value) :
    List Value → Except Failure Unit
  | [] => .ok ()
  | n :: rest => do
    let used ← Failure.ofFault (featuresOf n)
    match used.find? fun feature => version.number < feature.required with
    | some feature => throw (.source (← Failure.ofFault (refusal feature source file)))
    | none => checkNodes version source file rest

/-- Refuses a tree that uses a feature above the version. -/
def holdTo (version : Version) (tree : Value) (source : Option String) (file : Value) :
    Except Failure Unit :=
  checkNodes version source file tree.walk

end Untangle.Grammar
