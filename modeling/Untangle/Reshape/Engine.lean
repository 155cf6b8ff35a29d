import Untangle.Tree.Build

/-!
# Rules and the engine that runs them

A rule turns a node into a list of nodes. Rules call each other: one may unpack an expression into
statements, apply the rule of a node it has built, or fold several statements into one block. They
do so through an engine, which is what they see of the registry.

Engines are built by depth: the rules of one more level run with the engine below. A depth that
covers the tree answers everything (`Registry.engineFor`), and `Fault.tooDeep` marks one that does
not.

The specification has the two dispatches in sections 4.2 and 4.3 and the registry in section 4.5. It
leaves the depth to the machine (section 5); here it is an argument.

* `Hits` counts how often each rule was used; the count survives a failure.
* `Registry` holds the rules, those of nodes and those of packed expressions.
* `Registry.engine` is the engine of a registry at a depth.
-/

namespace Untangle.Reshape

/-- How often each rule was used, by name. -/
abbrev Hits := List (String × Nat)

namespace Hits

def count (hits : Hits) (name : String) : Nat :=
  (hits.lookup name).getD 0

def bump (name : String) : Hits → Hits
  | [] => [(name, 1)]
  | (k, n) :: rest => if k = name then (k, n + 1) :: rest else (k, n) :: bump name rest

def total (hits : Hits) : Nat :=
  hits.foldr (fun use sum => use.2 + sum) 0

end Hits

/-- A computation that counts rule uses and may fail; the counts are kept when it does. -/
abbrev ReshapeM := ExceptT Fault (StateM Hits)

def hit (name : String) : ReshapeM Unit :=
  modifyThe Hits (Hits.bump name)

/-- What a rule can ask for. -/
structure Engine where
  /-- Whether expressions with the tag have a rule for statement places. -/
  unpacks : Value → Except Fault Bool
  /-- Applies the rule of a node whose children are in final form. -/
  settle : Value → ReshapeM (List Value)
  /-- Turns an expression in the place of a statement into statements. -/
  unpack : Value → ReshapeM (List Value)
  /-- Makes one node of a result. -/
  asOne : List Value → ReshapeM Value
  /-- Wraps statements in a block; a lone block stays as it is. -/
  enclose : List Value → ReshapeM Value

def Engine.unpackAll (e : Engine) (values : List Value) : ReshapeM (List Value) :=
  return (← values.mapM e.unpack).flatten

structure Rule where
  name : String
  run : Engine → Value → ReshapeM (List Value)

/-- Rules by the tag they are for. -/
abbrev RuleMap := List (String × Rule)

/-- The rule under a key, with the key. -/
def RuleMap.rule? (rules : RuleMap) (key : Option String) : Option (String × Rule) :=
  key.bind fun tag => (rules.lookup tag).map (tag, ·)

/-- The rules of an engine: those for every node after its children, and those for expressions that
stand in the place of a statement. -/
structure Registry where
  nodeRules : RuleMap
  unpackRules : RuleMap

namespace Registry

/-- The rule for nodes with the tag, and the text of the tag. -/
def nodeRule? (r : Registry) (tag : Value) : Except Fault (Option (String × Rule)) :=
  return r.nodeRules.rule? (← tag.key?)

/-- The rule for packed expressions with the tag, and the text of the tag. -/
def unpackRule? (r : Registry) (tag : Value) : Except Fault (Option (String × Rule)) :=
  return r.unpackRules.rule? (← tag.key?)

/-- Whether packed expressions with the tag have a rule. -/
def unpacks (r : Registry) (tag : Value) : Except Fault Bool :=
  return (← r.unpackRule? tag).isSome

def without (r : Registry) (tags : List String) : Registry where
  nodeRules := r.nodeRules.filter fun entry => !tags.contains entry.1
  unpackRules := r.unpackRules.filter fun entry => !tags.contains entry.1

end Registry

namespace Engine

/-- The engine that answers nothing. -/
def exhausted (r : Registry) : Engine where
  unpacks := r.unpacks
  settle _ := throw .tooDeep
  unpack _ := throw .tooDeep
  asOne _ := throw .tooDeep
  enclose _ := throw .tooDeep

/-- Applies the rule of a node, which runs with the engine below. -/
def settleAbove (r : Registry) (below : Engine) (n : Value) : ReshapeM (List Value) := do
  match ← r.nodeRule? (← n.tag) with
  | none => return [n]
  | some (tag, rule) =>
    hit tag
    rule.run below n

/-- Unpacks an expression by its rule, which runs with the engine below. Statements stay as they are
and other expressions become expression statements. -/
def unpackAbove (r : Registry) (below : Engine) (n : Value) : ReshapeM (List Value) := do
  match ← r.unpackRule? (← n.tag) with
  | some (tag, rule) =>
    hit ("loose:" ++ tag)
    rule.run below n
  | none => if ← n.isStatement then return [n] else return [Value.expressionStatement n]

/-- Makes one node of a result: a single node is that node, anything else becomes a block. -/
def asOneAbove (below : Engine) : List Value → ReshapeM Value
  | [n] => return n
  | nodes => below.enclose nodes

/-- Wraps statements in a block and applies the rule of the block; a lone block stays as it is. -/
def encloseAbove (below : Engine) (nodes : List Value) : ReshapeM Value := do
  match nodes with
  | [n] =>
    if ← n.isTagged "BlockStatement" then return n
    else below.asOne (← below.settle (Value.blockStatement [n]))
  | nodes => below.asOne (← below.settle (Value.blockStatement nodes))

def above (r : Registry) (below : Engine) : Engine where
  unpacks := r.unpacks
  settle := settleAbove r below
  unpack := unpackAbove r below
  asOne := asOneAbove below
  enclose := encloseAbove below

end Engine

namespace Registry

def engine (r : Registry) : Nat → Engine
  | 0 => Engine.exhausted r
  | depth + 1 => Engine.above r (r.engine depth)

/-- A depth that covers trees of the given size: each step of a rule into an expression takes a few
levels, and so does what the rule builds. -/
def depthFor (size : Nat) : Nat :=
  16 * size + 64

def engineFor (r : Registry) (v : Value) : Engine :=
  r.engine (depthFor v.size)

end Registry

end Untangle.Reshape
