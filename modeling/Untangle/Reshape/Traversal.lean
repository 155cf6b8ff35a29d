import Untangle.Reshape.Engine

/-!
# Reshaping trees

A tree is reshaped from the leaves up: first the children of a node, field by field, then the node
by its rule. Several nodes in the place of one member of a sequence are spliced into the sequence;
in the place of a single field they become a block.

This is the generic traversal of the specification, section 4.1, with the dispatch of section 4.2.
-/

namespace Untangle.Reshape

mutual

/-- Reshapes a node: its children first, then the node by its rule. -/
def reshape (e : Engine) : Value → ReshapeM (List Value)
  | .node tag fields => do e.settle (.node tag (← reshapeFields e fields))
  | _ => throw .notNode

/-- Reshapes the nodes under the fields of a node, in order. -/
def reshapeFields (e : Engine) : Fields → ReshapeM Fields
  | [] => return []
  | (name, .seq items) :: rest => do
    let items ← reshapeItems e items
    return (name, .seq items) :: (← reshapeFields e rest)
  | (name, .node tag fields) :: rest => do
    let value ← e.asOne (← reshape e (.node tag fields))
    return (name, value) :: (← reshapeFields e rest)
  | field :: rest => return field :: (← reshapeFields e rest)

/-- Reshapes the nodes among the members of a sequence; other members stay in place. -/
def reshapeItems (e : Engine) : List Value → ReshapeM (List Value)
  | [] => return []
  | .node tag fields :: rest => do
    let nodes ← reshape e (.node tag fields)
    return nodes ++ (← reshapeItems e rest)
  | item :: rest => return item :: (← reshapeItems e rest)

end

/-- Reshapes a whole tree into one node. -/
def reshapeTreeWith (e : Engine) (tree : Value) : ReshapeM Value := do
  e.asOne (← reshape e tree)

def reshapeTree (r : Registry) (tree : Value) : ReshapeM Value :=
  reshapeTreeWith (r.engineFor tree) tree

/-- Reshapes a whole tree with the uses of rules counted from zero, whatever was counted before. -/
def reshapeAnew (r : Registry) (tree : Value) : ReshapeM Value := do
  modifyThe Hits fun _ => []
  reshapeTree r tree

/-- The outcome of reshaping a tree and the uses of rules on the way, counted from zero. -/
def run (r : Registry) (tree : Value) : Except Fault Value × Hits :=
  (reshapeTree r tree).run.run []

def prettify (r : Registry) (tree : Value) : Except Fault Value :=
  (run r tree).1

/-- Runs the rules of several registries over a tree, one after the other. -/
def runAll (registries : List Registry) (tree : Value) : Except Fault Value :=
  registries.foldlM (fun tree r => prettify r tree) tree

end Untangle.Reshape
