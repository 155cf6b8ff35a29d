import Untangle.Reshape.Rule.Loop
import Untangle.Reshape.Rule.Operator
import Untangle.Reshape.Traversal

/-!
# The built-in rules

The registry that unfolds packed programs.

Its entries are the rows of the catalog in section 4.4 of the specification.
-/

namespace Untangle.Reshape

def builtinNodeRules : RuleMap := [
  ("ExpressionStatement", { name := "expression statement", run := Rule.expressionStatement }),
  ("Program", { name := "statement list", run := Rule.statementList }),
  ("BlockStatement", { name := "statement list", run := Rule.statementList }),
  ("IfStatement", { name := "if", run := Rule.ifStatement }),
  ("SwitchStatement", { name := "switch", run := Rule.switchStatement }),
  ("ForStatement", { name := "for", run := Rule.forStatement }),
  ("LabeledStatement", { name := "label", run := Rule.labeledStatement }),
  ("ReturnStatement", { name := "return", run := Rule.returnStatement }),
  ("BinaryExpression", { name := "comparison", run := Rule.binaryExpression }),
  ("UnaryExpression", { name := "unary", run := Rule.unaryExpression })]

def Registry.builtin : Registry where
  nodeRules := builtinNodeRules
  unpackRules := Rule.unpackRules

end Untangle.Reshape
