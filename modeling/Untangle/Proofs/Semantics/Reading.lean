import Untangle.Proofs.Reshape.Rules
import Untangle.Proofs.Semantics.Language

/-!
# Trees as programs

Which trees stand for which expressions and statements of the language, and the conditions on
programs under which reshaping keeps their meaning. The relation looks only at the fields that have
a meaning; other fields and the order of fields are free.

* `Expr.Reads` and `Stmt.Reads` relate programs and trees.
* `readsProgram_tree` says that every program has a tree.
* `Expr.isCalm` excludes comparisons that read a name their left side assigns.
* `Stmt.targets` asks that labelled continues go to loops.
* `Stmt.isFlat` excludes labelled loops that start with packed expressions.
-/

namespace Untangle.Semantics

open Reshape

mutual

def Expr.Reads : Expr → Value → Prop
  | .name x, v => Named x v
  | .literal fields, v => v = .tagged "Literal" fields
  | .call callee arguments, v => ∃ fields target items, v = .tagged "CallExpression" fields ∧
      fields.lookup "callee" = some target ∧ Named callee target ∧
      fields.lookup "arguments" = some (.seq items) ∧ readsAll arguments items
  | .assign x value, v => ∃ fields target right, v = .tagged "AssignmentExpression" fields ∧
      fields.lookup "operator" = some (.str "=") ∧ fields.lookup "left" = some target ∧
      Named x target ∧ fields.lookup "right" = some right ∧ value.Reads right
  | .unary operator argument, v => ∃ fields inner, v = .tagged "UnaryExpression" fields ∧
      fields.lookup "operator" = some (.str operator) ∧
      fields.lookup "argument" = some inner ∧ argument.Reads inner
  | .binary operator left right, v => ∃ fields a b, v = .tagged "BinaryExpression" fields ∧
      fields.lookup "operator" = some (.str operator) ∧ fields.lookup "left" = some a ∧
      left.Reads a ∧ fields.lookup "right" = some b ∧ right.Reads b
  | .both left right, v => ∃ fields a b, v = .tagged "LogicalExpression" fields ∧
      fields.lookup "operator" = some (.str "&&") ∧ fields.lookup "left" = some a ∧
      left.Reads a ∧ fields.lookup "right" = some b ∧ right.Reads b
  | .either left right, v => ∃ fields a b, v = .tagged "LogicalExpression" fields ∧
      fields.lookup "operator" = some (.str "||") ∧ fields.lookup "left" = some a ∧
      left.Reads a ∧ fields.lookup "right" = some b ∧ right.Reads b
  | .choice test yes no, v => ∃ fields a b c, v = .tagged "ConditionalExpression" fields ∧
      fields.lookup "test" = some a ∧ test.Reads a ∧ fields.lookup "consequent" = some b ∧
      yes.Reads b ∧ fields.lookup "alternate" = some c ∧ no.Reads c
  | .comma leading last, v => ∃ fields items final, v = .tagged "SequenceExpression" fields ∧
      fields.lookup "expressions" = some (.seq (items ++ [final])) ∧ readsAll leading items ∧
      last.Reads final

/-- The trees stand for the expressions, one for one. -/
def readsAll : List Expr → List Value → Prop
  | [], items => items = []
  | e :: rest, items => ∃ v more, items = v :: more ∧ e.Reads v ∧ readsAll rest more

end

/-- The tree stands for the expression, and null for none. -/
def readsOptional : Option Expr → Value → Prop
  | none, v => v = .null
  | some e, v => e.Reads v

/-- The tree stands for a declared name and its initializer. -/
def readsDeclarator : String × Option Expr → Value → Prop
  | (x, init), v => ∃ fields target, v = .tagged "VariableDeclarator" fields ∧
      fields.lookup "id" = some target ∧ Named x target ∧
      match init with
      | none => Lacks fields "init"
      | some e => ∃ inner, fields.lookup "init" = some inner ∧ e.Reads inner

/-- The trees stand for the declarators, one for one. -/
def readsDeclarators : List (String × Option Expr) → List Value → Prop
  | [], items => items = []
  | d :: rest, items => ∃ v more, items = v :: more ∧ readsDeclarator d v ∧
      readsDeclarators rest more

/-- The tree is a declaration of variables with the declarators. -/
def readsDeclaration (declarators : List (String × Option Expr)) (v : Value) : Prop :=
  ∃ fields items, v = .tagged "VariableDeclaration" fields ∧
    fields.lookup "kind" = some (.str "var") ∧
    fields.lookup "declarations" = some (.seq items) ∧ readsDeclarators declarators items

/-- The tree stands for the start of a loop. -/
def Start.Reads : Start → Value → Prop
  | .nothing, v => v = .null
  | .declare declarators, v => readsDeclaration declarators v
  | .expression e, v => e.Reads v

/-- The node is a jump with the tag to the label, or to no label. -/
def readsJump (tag : String) : Option String → Value → Prop
  | none, v => ∃ fields, v = .tagged tag fields ∧ Lacks fields "label"
  | some label, v => ∃ fields target, v = .tagged tag fields ∧
      fields.lookup "label" = some target ∧ Named label target

mutual

def Stmt.Reads : Stmt → Value → Prop
  | .expression e, v => ∃ fields inner, v = .tagged "ExpressionStatement" fields ∧
      fields.lookup "expression" = some inner ∧ e.Reads inner
  | .block body, v => ∃ fields items, v = .tagged "BlockStatement" fields ∧
      fields.lookup "body" = some (.seq items) ∧ readsBody body items
  | .empty, v => ∃ fields, v = .tagged "EmptyStatement" fields
  | .when test yes, v => ∃ fields a b, v = .tagged "IfStatement" fields ∧
      fields.lookup "test" = some a ∧ test.Reads a ∧ fields.lookup "consequent" = some b ∧
      yes.Reads b ∧ Lacks fields "alternate"
  | .choose test yes no, v => ∃ fields a b c, v = .tagged "IfStatement" fields ∧
      fields.lookup "test" = some a ∧ test.Reads a ∧ fields.lookup "consequent" = some b ∧
      yes.Reads b ∧ fields.lookup "alternate" = some c ∧ no.Reads c
  | .leave, v => ∃ fields, v = .tagged "ReturnStatement" fields ∧ Lacks fields "argument"
  | .give e, v => ∃ fields inner, v = .tagged "ReturnStatement" fields ∧
      fields.lookup "argument" = some inner ∧ e.Reads inner
  | .declare declarators, v => readsDeclaration declarators v
  | .loop start test update body, v => ∃ fields a b c d, v = .tagged "ForStatement" fields ∧
      fields.lookup "init" = some a ∧ start.Reads a ∧ fields.lookup "test" = some b ∧
      readsOptional test b ∧ fields.lookup "update" = some c ∧ readsOptional update c ∧
      fields.lookup "body" = some d ∧ body.Reads d
  | .repeat test body, v => ∃ fields a b, v = .tagged "WhileStatement" fields ∧
      fields.lookup "test" = some a ∧ test.Reads a ∧ fields.lookup "body" = some b ∧ body.Reads b
  | .label name body, v => ∃ fields target inner, v = .tagged "LabeledStatement" fields ∧
      fields.lookup "label" = some target ∧ Named name target ∧
      fields.lookup "body" = some inner ∧ body.Reads inner
  | .break label, v => readsJump "BreakStatement" label v
  | .continue label, v => readsJump "ContinueStatement" label v

/-- The trees stand for the statements, one for one. -/
def readsBody : List Stmt → List Value → Prop
  | [], items => items = []
  | s :: rest, items => ∃ v more, items = v :: more ∧ s.Reads v ∧ readsBody rest more

end

def readsProgram (body : List Stmt) (v : Value) : Prop :=
  ∃ fields items, v = .tagged "Program" fields ∧ fields.lookup "body" = some (.seq items) ∧
    readsBody body items

/-! ## A tree for every program -/

mutual

def Expr.tree : Expr → Value
  | .name x => Value.identifier (.str x)
  | .literal fields => .tagged "Literal" fields
  | .call callee arguments => .tagged "CallExpression"
      [("callee", Value.identifier (.str callee)), ("arguments", .seq (treeAll arguments))]
  | .assign x value => .tagged "AssignmentExpression"
      [("operator", .str "="), ("left", Value.identifier (.str x)), ("right", value.tree)]
  | .unary operator argument => .tagged "UnaryExpression"
      [("operator", .str operator), ("argument", argument.tree)]
  | .binary operator left right => .tagged "BinaryExpression"
      [("operator", .str operator), ("left", left.tree), ("right", right.tree)]
  | .both left right => .tagged "LogicalExpression"
      [("operator", .str "&&"), ("left", left.tree), ("right", right.tree)]
  | .either left right => .tagged "LogicalExpression"
      [("operator", .str "||"), ("left", left.tree), ("right", right.tree)]
  | .choice test yes no => .tagged "ConditionalExpression"
      [("test", test.tree), ("consequent", yes.tree), ("alternate", no.tree)]
  | .comma leading last => .tagged "SequenceExpression"
      [("expressions", .seq (treeAll leading ++ [last.tree]))]

def treeAll : List Expr → List Value
  | [] => []
  | e :: rest => e.tree :: treeAll rest

end

def optionalTree : Option Expr → Value
  | none => .null
  | some e => e.tree

def declarationTree (declarators : List (String × Option Expr)) : Value :=
  Value.variableDeclaration (declarators.map fun d => .tagged "VariableDeclarator"
    [("id", Value.identifier (.str d.1)), ("init", optionalTree d.2)]) (.str "var")

def Start.tree : Start → Value
  | .nothing => .null
  | .declare declarators => declarationTree declarators
  | .expression e => e.tree

def jumpTree (tag : String) : Option String → Value
  | none => .tagged tag [("label", .null)]
  | some label => .tagged tag [("label", Value.identifier (.str label))]

mutual

def Stmt.tree : Stmt → Value
  | .expression e => Value.expressionStatement e.tree
  | .block body => Value.blockStatement (treeBody body)
  | .empty => .tagged "EmptyStatement" []
  | .when test yes => Value.ifStatement test.tree yes.tree .null
  | .choose test yes no => Value.ifStatement test.tree yes.tree no.tree
  | .leave => Value.returnStatement .null
  | .give e => Value.returnStatement e.tree
  | .declare declarators => declarationTree declarators
  | .loop start test update body => .tagged "ForStatement" [("init", start.tree),
      ("test", optionalTree test), ("update", optionalTree update), ("body", body.tree)]
  | .repeat test body => .tagged "WhileStatement" [("test", test.tree), ("body", body.tree)]
  | .label name body => .tagged "LabeledStatement"
      [("label", Value.identifier (.str name)), ("body", body.tree)]
  | .break label => jumpTree "BreakStatement" label
  | .continue label => jumpTree "ContinueStatement" label

def treeBody : List Stmt → List Value
  | [] => []
  | s :: rest => s.tree :: treeBody rest

end

def programTree (body : List Stmt) : Value :=
  .tagged "Program" [("body", .seq (treeBody body))]

mutual

/-- There is a tree for every expression, so what is said about trees that stand for expressions is
about all of them. -/
theorem Expr.reads_tree : ∀ e : Expr, e.Reads e.tree
  | .name _ => ⟨_, rfl, rfl⟩
  | .literal _ => rfl
  | .call _ arguments => ⟨_, _, _, rfl, rfl, ⟨_, rfl, rfl⟩, rfl, readsAll_tree arguments⟩
  | .assign _ value => ⟨_, _, _, rfl, rfl, rfl, ⟨_, rfl, rfl⟩, rfl, value.reads_tree⟩
  | .unary _ argument => ⟨_, _, rfl, rfl, rfl, argument.reads_tree⟩
  | .binary _ left right => ⟨_, _, _, rfl, rfl, rfl, left.reads_tree, rfl, right.reads_tree⟩
  | .both left right => ⟨_, _, _, rfl, rfl, rfl, left.reads_tree, rfl, right.reads_tree⟩
  | .either left right => ⟨_, _, _, rfl, rfl, rfl, left.reads_tree, rfl, right.reads_tree⟩
  | .choice test yes no =>
    ⟨_, _, _, _, rfl, rfl, test.reads_tree, rfl, yes.reads_tree, rfl, no.reads_tree⟩
  | .comma leading last => ⟨_, _, _, rfl, rfl, readsAll_tree leading, last.reads_tree⟩

theorem readsAll_tree : ∀ es : List Expr, readsAll es (treeAll es)
  | [] => rfl
  | e :: rest => ⟨_, _, rfl, e.reads_tree, readsAll_tree rest⟩

end

theorem readsOptional_tree : ∀ e : Option Expr, readsOptional e (optionalTree e)
  | none => rfl
  | some e => e.reads_tree

theorem readsDeclaration_tree (declarators : List (String × Option Expr)) :
    readsDeclaration declarators (declarationTree declarators) := by
  refine ⟨_, _, rfl, rfl, rfl, ?_⟩
  induction declarators with
  | nil => rfl
  | cons d rest ih =>
    refine ⟨_, _, rfl, ?_, ih⟩
    obtain ⟨x, init⟩ := d
    cases init with
    | none => exact ⟨_, _, rfl, rfl, ⟨_, rfl, rfl⟩, Or.inr rfl⟩
    | some e => exact ⟨_, _, rfl, rfl, ⟨_, rfl, rfl⟩, _, rfl, e.reads_tree⟩

theorem Start.reads_tree : ∀ start : Start, start.Reads start.tree
  | .nothing => rfl
  | .declare declarators => readsDeclaration_tree declarators
  | .expression e => e.reads_tree

theorem readsJump_tree (tag : String) : ∀ label : Option String,
    readsJump tag label (jumpTree tag label)
  | none => ⟨_, rfl, Or.inr rfl⟩
  | some _ => ⟨_, _, rfl, rfl, _, rfl, rfl⟩

mutual

/-- There is a tree for every statement. -/
theorem Stmt.reads_tree : ∀ s : Stmt, s.Reads s.tree
  | .expression e => ⟨_, _, rfl, rfl, e.reads_tree⟩
  | .block body => ⟨_, _, rfl, rfl, readsBody_tree body⟩
  | .empty => ⟨_, rfl⟩
  | .when test yes => ⟨_, _, _, rfl, rfl, test.reads_tree, rfl, yes.reads_tree, Or.inr rfl⟩
  | .choose test yes no =>
    ⟨_, _, _, _, rfl, rfl, test.reads_tree, rfl, yes.reads_tree, rfl, no.reads_tree⟩
  | .leave => ⟨_, rfl, Or.inr rfl⟩
  | .give e => ⟨_, _, rfl, rfl, e.reads_tree⟩
  | .declare declarators => readsDeclaration_tree declarators
  | .loop start test update body => ⟨_, _, _, _, _, rfl, rfl, start.reads_tree, rfl,
      readsOptional_tree test, rfl, readsOptional_tree update, rfl, body.reads_tree⟩
  | .repeat test body => ⟨_, _, _, rfl, rfl, test.reads_tree, rfl, body.reads_tree⟩
  | .label _ body => ⟨_, _, _, rfl, rfl, ⟨_, rfl, rfl⟩, rfl, body.reads_tree⟩
  | .break label => readsJump_tree _ label
  | .continue label => readsJump_tree _ label

theorem readsBody_tree : ∀ body : List Stmt, readsBody body (treeBody body)
  | [] => rfl
  | s :: rest => ⟨_, _, rfl, s.reads_tree, readsBody_tree rest⟩

end

theorem readsProgram_tree (body : List Stmt) : readsProgram body (programTree body) :=
  ⟨_, _, rfl, rfl, readsBody_tree body⟩

/-! ## Conditions on programs -/

mutual

/-- The names that an expression assigns. -/
def Expr.assigned : Expr → List String
  | .name _ | .literal _ => []
  | .call _ arguments => assignedAll arguments
  | .assign x value => x :: value.assigned
  | .unary _ argument => argument.assigned
  | .binary _ left right | .both left right | .either left right => left.assigned ++ right.assigned
  | .choice test yes no => test.assigned ++ yes.assigned ++ no.assigned
  | .comma leading last => assignedAll leading ++ last.assigned

def assignedAll : List Expr → List String
  | [] => []
  | e :: rest => e.assigned ++ assignedAll rest

end

/-- The operators that compare. -/
def comparisons : List String := ["==", "===", "!=", "!==", "<", ">", "<=", ">="]

/-- Whether a comparison has on its right a name that its left side assigns. -/
def clashes (operator : String) (left : Expr) : Expr → Bool
  | .name x => comparisons.contains operator && x != "undefined" && left.assigned.contains x
  | _ => false

mutual

/-- Whether no comparison in the expression clashes. -/
def Expr.isCalm : Expr → Bool
  | .name _ | .literal _ => true
  | .call _ arguments => allCalm arguments
  | .assign _ value => value.isCalm
  | .unary _ argument => argument.isCalm
  | .binary operator left right => !clashes operator left right && left.isCalm && right.isCalm
  | .both left right | .either left right => left.isCalm && right.isCalm
  | .choice test yes no => test.isCalm && yes.isCalm && no.isCalm
  | .comma leading last => allCalm leading && last.isCalm

def allCalm : List Expr → Bool
  | [] => true
  | e :: rest => e.isCalm && allCalm rest

end

def calmDeclarators (declarators : List (String × Option Expr)) : Bool :=
  declarators.all fun d => d.2.all Expr.isCalm

def Start.isCalm : Start → Bool
  | .nothing => true
  | .declare declarators => calmDeclarators declarators
  | .expression e => e.isCalm

mutual

/-- Whether no comparison in the statement clashes. -/
def Stmt.isCalm : Stmt → Bool
  | .expression e | .give e => e.isCalm
  | .block body => calmBody body
  | .when test yes => test.isCalm && yes.isCalm
  | .choose test yes no => test.isCalm && yes.isCalm && no.isCalm
  | .declare declarators => calmDeclarators declarators
  | .loop start test update body =>
    start.isCalm && test.all Expr.isCalm && update.all Expr.isCalm && body.isCalm
  | .repeat test body => test.isCalm && body.isCalm
  | .label _ body => body.isCalm
  | .empty | .leave | .break _ | .continue _ => true

def calmBody : List Stmt → Bool
  | [] => true
  | s :: rest => s.isCalm && calmBody rest

end

/-- Whether a statement is a loop, perhaps under labels. -/
def Stmt.isLoop : Stmt → Bool
  | .loop .. | .repeat .. => true
  | .label _ body => body.isLoop
  | _ => false

/-- The labels of loops inside a labelled statement: its own label is one of them if it stands on a
loop, and hides a label of the same name if it does not. -/
def loopsUnder (name : String) (body : Stmt) (loops : List String) : List String :=
  if body.isLoop then name :: loops else loops.filter (· != name)

mutual

/-- Whether every labelled continue in the statement goes to a loop, where the labels are those of
the loops around it. -/
def Stmt.targets (loops : List String) : Stmt → Bool
  | .block body => targetsBody loops body
  | .when _ yes => yes.targets loops
  | .choose _ yes no => yes.targets loops && no.targets loops
  | .loop _ _ _ body | .repeat _ body => body.targets loops
  | .label name body => body.targets (loopsUnder name body loops)
  | .continue (some label) => loops.contains label
  | .expression _ | .empty | .leave | .give _ | .declare _ | .break _ | .continue none => true

/-- Whether every labelled continue in the statements goes to a loop. -/
def targetsBody (loops : List String) : List Stmt → Bool
  | [] => true
  | s :: rest => s.targets loops && targetsBody loops rest

end

mutual

/-- Whether an expression is neither a conditional nor a short circuit, nor a comma sequence with
one in it. -/
def Expr.isFlat : Expr → Bool
  | .both .. | .either .. | .choice .. => false
  | .comma leading last => allFlat leading && last.isFlat
  | _ => true

def allFlat : List Expr → Bool
  | [] => true
  | e :: rest => e.isFlat && allFlat rest

end

/-- Whether what comes before the last expression of a comma sequence is flat. -/
def Expr.leadsFlat : Expr → Bool
  | .comma leading _ => allFlat leading
  | _ => true

/-- Whether a loop starts with nothing packed, but for a last expression. -/
def Start.isFlat : Start → Bool
  | .expression e => e.leadsFlat
  | .nothing | .declare _ => true

/-- Whether a loop, perhaps under labels, has a flat start. -/
def Stmt.headIsFlat : Stmt → Bool
  | .loop start _ _ _ => start.isFlat
  | .label _ body => body.headIsFlat
  | _ => true

mutual

/-- Whether every labelled loop in the statement has a flat head. -/
def Stmt.isFlat : Stmt → Bool
  | .block body => flatBody body
  | .when _ yes => yes.isFlat
  | .choose _ yes no => yes.isFlat && no.isFlat
  | .loop _ _ _ body | .repeat _ body => body.isFlat
  | .label _ body => body.headIsFlat && body.isFlat
  | .expression _ | .empty | .leave | .give _ | .declare _ | .break _ | .continue _ => true

/-- Whether every labelled loop in the statements has a flat head. -/
def flatBody : List Stmt → Bool
  | [] => true
  | s :: rest => s.isFlat && flatBody rest

end

end Untangle.Semantics
