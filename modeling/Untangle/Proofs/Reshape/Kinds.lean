import Untangle.Proofs.Reshape.Declarators
import Untangle.Proofs.Reshape.Unfolding
import Untangle.Proofs.Tree.Everywhere

/-!
# Rules keep the kinds of nodes

On a well-formed node with finished children every rule answers with well-formed nodes: one
expression for an expression, one or more statements for a statement. What single-node slots get is
again one node, since several statements become a block there.

* `unpacked_fits`, `returned_fits` and `settled_fits` say so of each rule.
* `reshaped_fits` says so of a whole node, `reshapedFields_formed` of the traversal.
-/

namespace Untangle.Reshape

open Syntax

/-! ## The nodes that rules build -/

theorem fits_expressionStatement {v : Value} (fit : fits expression v = true) :
    fits statement (Value.expressionStatement v) = true := by
  refine fits_node.mpr ⟨by decide, rfl, rfl, ?_⟩
  show (fits expression v && true) = true
  simpa using fit

theorem fits_block {nodes : List Value} (fit : ∀ n ∈ nodes, fits statement n = true) :
    fits (.one ["BlockStatement"]) (Value.blockStatement nodes) = true := by
  refine fits_node.mpr ⟨by decide, rfl, rfl, ?_⟩
  show (fits (.many statementTags) (.seq nodes) && true) = true
  simpa using fits_many.mpr ⟨nodes, rfl, fit⟩

theorem fits_blockStatement {nodes : List Value} (fit : ∀ n ∈ nodes, fits statement n = true) :
    fits statement (Value.blockStatement nodes) = true :=
  fits_mono (fits_block fit) (by decide)

/-- The nodes that rules build are well-formed if their parts are: a branch. -/
theorem fits_ifStatement {test consequent alternate : Value} (testFits : fits expression test = true)
    (consequentFits : fits statement consequent = true)
    (alternateFits : fits (.opt statementTags) alternate = true) :
    fits statement (Value.ifStatement test consequent alternate) = true := by
  refine fits_node.mpr ⟨by decide, rfl, rfl, ?_⟩
  show (fits expression test && (fits statement consequent &&
    (fits (.opt statementTags) alternate && true))) = true
  simp [testFits, consequentFits, alternateFits]

theorem fits_returnStatement {argument : Value} (fit : fits expression argument = true) :
    fits statement (Value.returnStatement argument) = true := by
  refine fits_node.mpr ⟨by decide, rfl, rfl, ?_⟩
  show (fits (.opt expressionTags) argument && true) = true
  simpa using fits_opt.mpr (Or.inr fit)

theorem formed_unary {operator : String} {argument : Value} (fit : fits expression argument = true) :
    Formed "UnaryExpression"
      [("operator", .str operator), ("argument", argument), ("prefix", .bool true)] := by
  refine ⟨rfl, rfl, ?_⟩
  show (fits .text (.str operator) && (fits expression argument && (true && true))) = true
  simp [fit, fits_text]

theorem fits_variableDeclaration {declarators : List Value}
    (fit : ∀ d ∈ declarators, fits (.one ["VariableDeclarator"]) d = true) :
    fits statement (Value.variableDeclaration declarators (.str "var")) = true := by
  refine fits_node.mpr ⟨by decide, rfl, rfl, ?_⟩
  show (fits (.many ["VariableDeclarator"]) (.seq declarators) && (true && true)) = true
  simpa using fits_many.mpr ⟨declarators, rfl, fit⟩

/-! ## Statements in single slots -/

/-- Several statements become a block, one stays itself. -/
theorem one_fits {nodes : List Value} (fit : ∀ n ∈ nodes, fits statement n = true) :
    fits statement (one nodes) = true := by
  unfold one
  split
  · exact fit _ (by simp)
  · exact fits_blockStatement fit

/-- A body in braces is a block. -/
theorem enclosed_fits {n : Value} (fit : fits statement n = true) :
    fits (.one ["BlockStatement"]) (enclosed n) = true := by
  obtain ⟨tag, fields, rfl, admitted, formed⟩ := fits_one.mp fit
  unfold enclosed
  split
  · rename_i isBlock
    have same : tag = "BlockStatement" := by simpa [hasTag_tagged] using isBlock
    exact fits_node.mpr ⟨by simp [Slot.tags, same], formed⟩
  · exact fits_block (by simpa using fit)

theorem fits_statement_of_block {n : Value} (fit : fits (.one ["BlockStatement"]) n = true) :
    fits statement n = true :=
  fits_mono fit (by decide)

theorem guarded_fits {n : Value} (fit : fits statement n = true) :
    fits statement (guarded n) = true := by
  unfold guarded
  split
  · exact fits_statement_of_block (enclosed_fits fit)
  · exact fit

theorem elseForm_fits {n : Value} (fit : fits statement n = true) :
    fits statement (elseForm n) = true := by
  unfold elseForm
  split
  · exact fit
  · exact fits_statement_of_block (enclosed_fits fit)

/-! ## Packed expressions -/

/-- The parts of a well-formed packed expression are expressions. -/
theorem packing_fits {slot : Slot} {v : Value} (fit : fits slot v = true) :
    ∀ part ∈ (packing v).parts, fits expression part = true := by
  generalize packs : packing v = p
  have shape := packs ▸ packed v
  intro part member
  cases shape with
  | comma fields items found =>
    obtain ⟨_, same, each⟩ := fits_many.mp ((fits_node.mp fit).2.fits_lookup found)
    cases same
    exact each part member
  | choice fields test yes no testIs yesIs noIs =>
    have formed := (fits_node.mp fit).2
    simp only [Packing.parts, List.mem_cons, List.not_mem_nil, or_false] at member
    rcases member with rfl | rfl | rfl
    · exact formed.fits_lookup testIs
    · exact formed.fits_lookup yesIs
    · exact formed.fits_lookup noIs
  | guard fields test body operatorIs testIs bodyIs
  | fallback fields test body operatorIs testIs bodyIs =>
    have formed := (fits_node.mp fit).2
    simp only [Packing.parts, List.mem_cons, List.not_mem_nil, or_false] at member
    rcases member with rfl | rfl
    · exact formed.fits_lookup testIs
    · exact formed.fits_lookup bodyIs
  | plain => simp [Packing.parts] at member

/-- A well-formed comma sequence is not empty. -/
theorem packing_comma_ne_nil {v : Value} {items : List Value} (fit : fits expression v = true)
    (packs : packing v = .comma items) : items ≠ [] := by
  obtain ⟨tag, fields, same, admitted, formed⟩ := fits_one.mp fit
  have shape := packs ▸ packed v
  cases shape with
  | comma fields items found =>
    cases same
    have shaped := formed.shaped
    simp only [isShaped, found] at shaped
    simpa using shaped

/-- The parts of a packing are expressions. -/
theorem unpacking_fits {off : List String} {v : Value} {p : Packing}
    (fit : fits expression v = true) (packs : unpacking off v = p) :
    ∀ part ∈ p.parts, fits expression part = true := by
  by_cases plain : p = .plain
  · subst plain
    simp [Packing.parts]
  · rw [← packing_of_unpacking packs plain]
    exact packing_fits fit

/-- Taking a comma sequence apart leaves expressions. -/
theorem commaSplit_fits {v : Value} (fit : fits expression v = true) :
    (∀ part ∈ (commaSplit v).1, fits expression part = true) ∧
      fits expression (commaSplit v).2 = true := by
  fun_induction commaSplit v with
  | case1 v items packs final last ih =>
    have each := packs ▸ packing_fits fit
    have rest := ih (each final (List.mem_of_getLast? last))
    refine ⟨fun part member => ?_, rest.2⟩
    rcases List.mem_append.mp member with member | member
    · exact each part (List.dropLast_subset _ member)
    · exact rest.1 part member
  | case2 v items packs last => simpa using fit
  | case3 v packs => simpa using fit

/-- What is moved before a test is an expression, and so is what is left. -/
theorem hoisted_fits (off : List String) {test : Value} (fit : fits expression test = true) :
    (∀ part ∈ (hoisted off test).1, fits expression part = true) ∧
      fits expression (hoisted off test).2 = true := by
  unfold hoisted
  split
  · simpa using fit
  · exact commaSplit_fits fit

/-! ## Unpacked expressions -/

/-- A folded constant is a literal, an identifier, or the operation that it was. -/
theorem folds_fits {fields : Fields} {n : Value} (folds : Folds fields n)
    (formed : Formed "UnaryExpression" fields) :
    fits (.one ["UnaryExpression", "Literal", "Identifier"]) n = true := by
  cases folds with
  | keep => exact fits_node.mpr ⟨by decide, formed⟩
  | truth literal value b => cases b <;> decide
  | absent => decide

/-- The negation of an expression is a node with `!`, folded or not. -/
theorem negated_folds (off : List String) {v : Value} (fit : fits expression v = true) :
    Folds [("operator", .str "!"), ("argument", v), ("prefix", .bool true)] (negated off v) := by
  obtain ⟨n, answer, folds⟩ := evaluateUnary_folds (formed_unary fit)
  simp only [negated, Value.unaryExpression]
  split
  · exact .keep
  · rw [answer]
    exact folds

/-- A negation is an expression, folded or not. -/
theorem negated_fits (off : List String) {v : Value} (fit : fits expression v = true) :
    fits expression (negated off v) = true :=
  fits_mono (folds_fits (negated_folds off fit) (formed_unary fit)) (by decide)

/-- No expression has the tag of a statement, so an expression becomes a statement by being wrapped.
-/
theorem expression_not_statement : ∀ tag ∈ expressionTags, Value.isStatementTag tag = false := by
  decide

theorem asStatement_expression {v : Value} (fit : fits expression v = true) :
    asStatement v = Value.expressionStatement v := by
  obtain ⟨tag, fields, rfl, admitted, -⟩ := fits_one.mp fit
  simp [asStatement, expression_not_statement tag admitted]

theorem unpacking_comma_ne_nil {off : List String} {v : Value} {items : List Value}
    (fit : fits expression v = true) (packs : unpacking off v = .comma items) : items ≠ [] :=
  packing_comma_ne_nil fit (packing_of_unpacking packs (by simp))

/-- Statements, at least one. -/
structure Statements (nodes : List Value) : Prop where
  nonempty : nodes ≠ []
  each : ∀ n ∈ nodes, fits statement n = true

/-- Parts that become statements each become statements together. -/
theorem Statements.flatMap {f : Value → List Value} {parts : List Value} (nonempty : parts ≠ [])
    (each : ∀ part ∈ parts, Statements (f part)) : Statements (parts.flatMap f) := by
  constructor
  · intro empty
    obtain ⟨part, member⟩ := List.exists_mem_of_ne_nil parts nonempty
    exact (each part member).nonempty (List.flatMap_eq_nil_iff.mp empty part member)
  · intro n member
    obtain ⟨part, partMember, within⟩ := List.mem_flatMap.mp member
    exact (each part partMember).each n within

/-- More statements after any number of others. -/
theorem Statements.flatMap_append {f : Value → List Value} {parts rest : List Value}
    (each : ∀ part ∈ parts, Statements (f part)) (tail : Statements rest) :
    Statements (parts.flatMap f ++ rest) := by
  refine ⟨by simp [tail.nonempty], fun n member => ?_⟩
  rcases List.mem_append.mp member with member | member
  · obtain ⟨part, partMember, within⟩ := List.mem_flatMap.mp member
    exact (each part partMember).each n within
  · exact tail.each n member

theorem Statements.single {n : Value} (fit : fits statement n = true) : Statements [n] :=
  ⟨by simp, by simpa using fit⟩

/-- An expression in the place of a statement becomes statements. -/
theorem unpacked_fits (off : List String) {v : Value} (fit : fits expression v = true) :
    Statements (unpacked off v) := by
  induction v using unpacked_induction off with
  | comma v items packs ih =>
    rw [unpacked_comma packs]
    have each := unpacking_fits fit packs
    exact Statements.flatMap (unpacking_comma_ne_nil fit packs) fun item member =>
      ih item member (each item member)
  | choice v test yes no packs ihParts ihYes ihNo =>
    rw [unpacked_choice packs]
    have each := unpacking_fits fit packs
    have head := hoisted_fits off (each test (by simp [Packing.parts]))
    have yesFits := one_fits (ihYes (each yes (by simp [Packing.parts]))).each
    have noFits := one_fits (ihNo (each no (by simp [Packing.parts]))).each
    refine .flatMap_append (fun part member => ihParts part member (head.1 part member)) (.single ?_)
    exact fits_ifStatement head.2 (guarded_fits yesFits) (fits_opt.mpr (Or.inr (elseForm_fits noFits)))
  | guard v test body packs ihParts ihBody =>
    rw [unpacked_guard packs]
    have each := unpacking_fits fit packs
    have head := hoisted_fits off (each test (by simp [Packing.parts]))
    have bodyFits := one_fits (ihBody (each body (by simp [Packing.parts]))).each
    refine .flatMap_append (fun part member => ihParts part member (head.1 part member)) (.single ?_)
    exact fits_ifStatement head.2 bodyFits (fits_opt.mpr (Or.inl rfl))
  | fallback v test body packs ihBody =>
    rw [unpacked_fallback packs]
    have each := unpacking_fits fit packs
    have bodyFits := one_fits (ihBody (each body (by simp [Packing.parts]))).each
    exact .single (fits_ifStatement (negated_fits off (each test (by simp [Packing.parts]))) bodyFits
      (fits_opt.mpr (Or.inl rfl)))
  | plain v packs =>
    rw [unpacked_plain packs, asStatement_expression fit]
    exact .single (fits_expressionStatement fit)

/-- Statements moved out of expressions, then some more. -/
theorem Statements.unpacked_append (off : List String) {parts rest : List Value}
    (each : ∀ part ∈ parts, fits expression part = true) (tail : Statements rest) :
    Statements (parts.flatMap (unpacked off) ++ rest) :=
  .flatMap_append (fun part member => unpacked_fits off (each part member)) tail

/-- A return becomes statements. -/
theorem returned_fits (off : List String) {argument : Value} (fit : fits expression argument = true)
    (rebuild : Value → Value)
    (rebuilds : ∀ v, fits expression v = true → fits statement (rebuild v) = true) :
    Statements (returned off rebuild argument) := by
  induction argument using returned_induction generalizing rebuild with
  | choice v test yes no packs ihYes ihNo =>
    rw [returned_choice rebuild packs]
    have split := commaSplit_fits fit
    have each := packs ▸ packing_fits split.2
    have head := hoisted_fits off (each test (by simp [Packing.parts]))
    have yesFits := one_fits (ihYes (each yes (by simp [Packing.parts])) _
      fun _ => fits_returnStatement).each
    have noFits := one_fits (ihNo (each no (by simp [Packing.parts])) _
      fun _ => fits_returnStatement).each
    refine .unpacked_append off split.1 (.unpacked_append off head.1 (.single ?_))
    exact fits_ifStatement head.2 (fits_statement_of_block (enclosed_fits yesFits))
      (fits_opt.mpr (Or.inr (elseForm_fits noFits)))
  | plain v packs =>
    rw [returned_plain rebuild packs]
    have split := commaSplit_fits fit
    exact .unpacked_append off split.1 (.single (rebuilds _ split.2))

/-! ## Settled nodes -/

/-- The tags of statements that may become several. -/
def splitTags : List String :=
  ["ExpressionStatement", "IfStatement", "SwitchStatement", "ForStatement", "LabeledStatement",
    "ReturnStatement"]

/-- The tags that may stand in the place of a node with the given one. -/
def outcomes (tag : String) : List String :=
  if splitTags.contains tag then statementTags
  else if tag = "UnaryExpression" then ["UnaryExpression", "Literal", "Identifier"]
  else [tag]

/-- Nodes that may stand in the place of one with the tag. -/
structure Outcome (tag : String) (nodes : List Value) : Prop where
  nonempty : nodes ≠ []
  each : ∀ n ∈ nodes, fits (.one (outcomes tag)) n = true
  single : tag ∉ splitTags → ∃ n, nodes = [n]

theorem Statements.outcome {tag : String} {nodes : List Value} (h : Statements nodes)
    (splits : tag ∈ splitTags) : Outcome tag nodes := by
  refine ⟨h.nonempty, ?_, fun not => absurd splits not⟩
  rw [outcomes, if_pos (List.contains_iff_mem.mpr splits)]
  exact h.each

theorem Outcome.one {tag : String} {n : Value} (fit : fits (.one (outcomes tag)) n = true) :
    Outcome tag [n] :=
  ⟨by simp, by simpa using fit, fun _ => ⟨n, rfl⟩⟩

/-- A node that stays is an outcome of itself. -/
theorem Outcome.same {tag : String} {fields : Fields} (formed : Formed tag fields)
    (admitted : tag ∈ outcomes tag) : Outcome tag [.tagged tag fields] :=
  .one (fits_node.mpr ⟨admitted, formed⟩)

/-- A node may stay what it is. -/
theorem mem_outcomes (tag : String) : tag ∈ outcomes tag := by
  unfold outcomes
  split
  · rename_i splits
    have within : ∀ t ∈ splitTags, t ∈ statementTags := by decide
    exact within tag (List.contains_iff_mem.mp splits)
  · split
    · rename_i same
      simp [same]
    · simp

/-- Moving a comma sequence out of a statement gives statements. -/
theorem commaHoisted_fits (off : List String) {n v : Value} {name : String}
    (nFits : fits statement n = true) (vFits : fits expression v = true)
    (replaced : ∀ w, fits expression w = true → fits statement (n.withField name w) = true) :
    Statements (commaHoisted off n name v) := by
  unfold commaHoisted
  split
  · rename_i items packs
    have each := packs ▸ packing_fits vFits
    split
    · rename_i last ends
      refine .unpacked_append off (fun part member => each part (List.dropLast_subset _ member)) ?_
      exact .single (replaced last (each last (List.mem_of_getLast? ends)))
    · exact .single nFits
  · exact .single nFits

section

variable {off : List String} {fields : Fields}

/-- What each rule answers is well-formed: an expression statement. -/
theorem settledExpression_fits (formed : Formed "ExpressionStatement" fields) :
    Statements (settledExpression off (.tagged "ExpressionStatement" fields) fields) := by
  obtain ⟨v, vIs, vFits⟩ := formed.required
    (show (fieldsOf "ExpressionStatement").lookup "expression" = some expression from rfl) rfl
  simp only [settledExpression, vIs]
  split
  · exact unpacked_fits off vFits
  · exact .single (fits_node.mpr ⟨by decide, formed⟩)

/-- A branch whose consequent got braces is one still. -/
theorem braced_fits {n : Value} {tag : String} {inner : Fields} (same : n = .tagged tag inner)
    (isIf : tag = "IfStatement") (formed : Formed tag inner)
    (original : Formed "IfStatement" fields) : fits statement (braced n fields) = true := by
  subst same isIf
  have kept : fits statement (.tagged "IfStatement" inner) = true :=
    fits_node.mpr ⟨by decide, formed⟩
  unfold braced
  split
  · exact kept
  · exact kept
  · rename_i consequent _ _ consequentIs _
    split
    · refine fits_node.mpr ⟨by decide, formed.set (fits_statement_of_block ?_) rfl⟩
      exact enclosed_fits (original.fits_lookup consequentIs)
    · exact kept
  · exact kept

/-- A branch becomes statements, the last of which is a branch. -/
theorem settledIf_fits (formed : Formed "IfStatement" fields) :
    Statements (settledIf off (.tagged "IfStatement" fields) fields) := by
  obtain ⟨test, testIs, testFits⟩ := formed.required
    (show (fieldsOf "IfStatement").lookup "test" = some expression from rfl) rfl
  simp only [settledIf, testIs]
  have split := commaSplit_fits testFits
  exact .unpacked_append off split.1 (.single (braced_fits rfl rfl (formed.set split.2 rfl) formed))

theorem settledSwitch_fits (formed : Formed "SwitchStatement" fields) :
    Statements (settledSwitch off (.tagged "SwitchStatement" fields) fields) := by
  obtain ⟨v, vIs, vFits⟩ := formed.required
    (show (fieldsOf "SwitchStatement").lookup "discriminant" = some expression from rfl) rfl
  simp only [settledSwitch, vIs]
  exact commaHoisted_fits off (fits_node.mpr ⟨by decide, formed⟩) vFits
    fun w wFits => fits_node.mpr ⟨by decide, formed.set wFits rfl⟩

/-- A loop may start with nothing, a declaration or an expression. -/
theorem formed_withInit (formed : Formed "ForStatement" fields) {v : Value}
    (fit : fits (.maybe ("VariableDeclaration" :: expressionTags)) v = true) :
    fits statement ((Value.tagged "ForStatement" fields).withField "init" v) = true :=
  fits_node.mpr ⟨by decide, formed.set fit rfl⟩

/-- The declarations before a loop are statements, and the loop is well-formed with what is left of
its head. -/
theorem hoistedFrom_fits {initFields : Fields} {declarators kept moved : List Value}
    (formed : Formed "ForStatement" fields) (initFormed : Formed "VariableDeclaration" initFields)
    (each : ∀ d ∈ declarators, fits (.one ["VariableDeclarator"]) d = true)
    (splits : Splits declarators kept moved) :
    Statements (hoistedFrom (.tagged "ForStatement" fields)
      (.tagged "VariableDeclaration" initFields) kept moved) := by
  unfold hoistedFrom
  split
  · exact .single (fits_node.mpr ⟨by decide, formed⟩)
  · refine ⟨by simp, fun n member => ?_⟩
    simp only [List.mem_cons, List.not_mem_nil, or_false] at member
    rcases member with rfl | rfl
    · exact fits_variableDeclaration fun d member => each d (splits.mem_moved member)
    · apply formed_withInit formed
      split
      · rfl
      · refine fits_maybe.mpr (Or.inr (fits_node.mpr ⟨by decide, initFormed.set ?_ rfl⟩))
        exact fits_many.mpr ⟨kept, rfl, fun d member => each d (splits.mem_kept member)⟩

theorem declaration_of_isVar {v : Value} (declares : isVar v = true) :
    ∃ inner, v = .tagged "VariableDeclaration" inner := by
  unfold isVar at declares
  split at declares
  · exact ⟨_, rfl⟩
  · cases declares

/-- An expression is no declaration. -/
theorem isVar_expression {v : Value} (fit : fits expression v = true) : isVar v = false := by
  obtain ⟨tag, fields, rfl, admitted, -⟩ := fits_one.mp fit
  unfold isVar
  split
  · rename_i same
    cases same
    exact absurd admitted (by decide)
  · rfl

/-- A loop stays a loop, after what moves out of its head. -/
theorem settledFor_fits (formed : Formed "ForStatement" fields) :
    Statements (settledFor off (.tagged "ForStatement" fields) fields) := by
  have stays : fits statement (.tagged "ForStatement" fields) = true :=
    fits_node.mpr ⟨by decide, formed⟩
  obtain ⟨init, initIs, initFits⟩ := formed.required (show (fieldsOf "ForStatement").lookup "init" =
    some (.maybe ("VariableDeclaration" :: expressionTags)) from rfl) rfl
  simp only [settledFor, initIs]
  rcases fits_maybe.mp initFits with rfl | initFits
  · exact .single stays
  · obtain ⟨tag, inner, rfl, admitted, initFormed⟩ := fits_one.mp initFits
    rcases List.mem_cons.mp admitted with rfl | admitted
    · obtain ⟨declarators, kept, moved, -, each, splits, hoists⟩ :=
        hoistDeclarators_spec formed initFormed
      split
      · rw [hoists]
        exact hoistedFrom_fits formed initFormed each splits
      · exact .single stays
    · have isExpression : fits expression (.tagged tag inner) = true :=
        fits_node.mpr ⟨admitted, initFormed⟩
      rw [isVar_expression isExpression, if_neg (by simp)]
      exact commaHoisted_fits off stays isExpression fun w wFits =>
        formed_withInit formed (fits_maybe.mpr (Or.inr (fits_mono wFits fun _ =>
          List.mem_cons_of_mem _)))

/-- A label goes to a statement inside, or stays where it is. -/
theorem settledLabel_fits (formed : Formed "LabeledStatement" fields) :
    Statements (settledLabel (.tagged "LabeledStatement" fields) fields) := by
  obtain ⟨label, target, body, targetIs, named, bodyIs, bodyFits⟩ := label_fields formed
  obtain ⟨found, answer, spec⟩ := leavingBefore_spec targetIs named bodyFits
  simp only [settledLabel, bodyIs, answer]
  cases found with
  | none => exact .single (fits_node.mpr ⟨by decide, formed⟩)
  | some parts =>
    obtain ⟨leading, last⟩ := parts
    obtain ⟨inner, rfl, itemsAre⟩ := ((spec leading last).mp rfl).block
    obtain ⟨items, itemsAre', each⟩ := (fits_node.mp bodyFits).2.many
      (show (fieldsOf "BlockStatement").lookup "body" = some (.many statementTags) from rfl)
    obtain rfl : leading ++ [last] = items := by simpa [itemsAre] using itemsAre'
    refine ⟨by simp, fun n member => ?_⟩
    rcases List.mem_append.mp member with member | member
    · exact each n (List.mem_append_left _ member)
    · rw [List.mem_singleton.mp member]
      exact fits_node.mpr ⟨by decide, formed.set (each last (by simp)) rfl⟩

/-- A return becomes statements that end with returns. -/
theorem settledReturn_fits (formed : Formed "ReturnStatement" fields) :
    Statements (settledReturn off (.tagged "ReturnStatement" fields) fields) := by
  have stays : fits statement (.tagged "ReturnStatement" fields) = true :=
    fits_node.mpr ⟨by decide, formed⟩
  cases found : fields.lookup "argument" with
  | none => simpa only [settledReturn, found] using .single stays
  | some argument =>
    rcases fits_opt.mp (formed.fits_lookup found) with rfl | argumentFits
    · simpa only [settledReturn, found] using .single stays
    · have returns := returned_fits off argumentFits
        ((Value.tagged "ReturnStatement" fields).withField "argument") fun v vFits =>
          fits_node.mpr ⟨by decide, formed.set (fits_opt.mpr (Or.inr vFits)) rfl⟩
      obtain ⟨_, _, rfl, -⟩ := fits_one.mp argumentFits
      simpa only [settledReturn, found] using returns

/-- A mirrored comparison is an operator again. -/
theorem mirrored_isOperator : ∀ entry ∈ Rule.comparisonTable,
    (Print.Precedence.ofBinary? entry.2).isSome = true := by
  decide

/-- A comparison that is turned round has an operator, and its operands are expressions. -/
theorem turns_formed {n : Value} (turns : Turns fields n) (formed : Formed "BinaryExpression" fields) :
    fits (.one ["BinaryExpression"]) n = true := by
  cases turns with
  | keep => exact fits_node.mpr ⟨by decide, formed⟩
  | turn operator mirrored left right operatorIs mirrors leftIs rightIs reverses =>
    have isOperator := mirrored_isOperator _ (Fields.mem_of_lookup mirrors)
    have leftFits : fits expression left = true := formed.fits_lookup leftIs
    have rightFits : fits expression right = true := formed.fits_lookup rightIs
    have withOperator : Formed "BinaryExpression"
        (Fields.set "operator" (.str mirrored) fields) := by
      refine formed.set rfl ?_
      simpa [isShaped, hasBinaryOperator, Fields.lookup_set_self] using isOperator
    have withLeft : Formed "BinaryExpression" (Fields.set "left" right
        (Fields.set "operator" (.str mirrored) fields)) := by
      refine withOperator.set rightFits ?_
      simpa [isShaped, hasBinaryOperator, Fields.lookup_set_self, Fields.lookup_set_of_ne]
        using isOperator
    refine fits_node.mpr ⟨by decide, withLeft.set leftFits ?_⟩
    simpa [isShaped, hasBinaryOperator, Fields.lookup_set_self, Fields.lookup_set_of_ne]
      using isOperator

/-- A node with finished children becomes what may stand in its place. -/
theorem settled_fits (off : List String) {tag : String} {fields : Fields}
    (formed : Formed tag fields) : Outcome tag (settled off (.tagged tag fields)) := by
  have stays := Outcome.same formed (mem_outcomes tag)
  simp only [settled]
  split
  · exact stays
  · unfold settledBy
    split
    · exact (settledExpression_fits formed).outcome (by decide)
    · exact (settledIf_fits formed).outcome (by decide)
    · exact (settledSwitch_fits formed).outcome (by decide)
    · exact (settledFor_fits formed).outcome (by decide)
    · exact (settledLabel_fits formed).outcome (by decide)
    · exact (settledReturn_fits formed).outcome (by decide)
    · obtain ⟨n, answer, turns⟩ := turnComparison_turns formed
      rw [answer]
      exact .one (turns_formed turns formed)
    · obtain ⟨n, answer, folds⟩ := evaluateUnary_folds formed
      rw [answer]
      exact .one (folds_fits folds formed)
    · exact stays

end

/-! ## Whole trees -/

/-- The tags of the nodes in a slot. -/
def slotTags : Slot → List String
  | .one tags | .maybe tags | .opt tags | .many tags | .holes tags => tags
  | .bare | .text => []

/-- Whether what takes the place of a node in the slot may stand there too. -/
def isClosed (slot : Slot) : Bool :=
  (slotTags slot).all fun tag => (outcomes tag).all fun other => (slotTags slot).contains other

/-- Every slot of the syntax is closed. -/
theorem schema_closed : (schema.all fun entry => entry.2.all fun field => isClosed field.2) = true := by
  decide +kernel

/-- Whatever the rules make of a node fits where the node stood. -/
theorem slotOf_closed (tag name : String) : isClosed (slotOf tag name) = true := by
  unfold slotOf fieldsOf
  cases found : schema.lookup tag with
  | none => rfl
  | some fields =>
    cases slotIs : fields.lookup name with
    | none => simp [slotIs, isClosed, slotTags]
    | some slot =>
      have entryClosed := List.all_eq_true.mp schema_closed _ (Fields.mem_of_lookup found)
      have slotClosed := List.all_eq_true.mp entryClosed _ (Fields.mem_of_lookup slotIs)
      simpa [slotIs] using slotClosed

theorem mem_of_closed {slot : Slot} (closed : isClosed slot = true) {tag other : String}
    (admitted : tag ∈ slotTags slot) (outcome : other ∈ outcomes tag) : other ∈ slotTags slot := by
  have within := List.all_eq_true.mp (List.all_eq_true.mp closed tag admitted) other outcome
  exact List.contains_iff_mem.mp within

/-- What takes the place of a node in a single slot is one node again: several become a block. -/
theorem Outcome.one_fits {tag : String} {nodes : List Value} (h : Outcome tag nodes) :
    fits (.one (outcomes tag)) (Reshape.one nodes) = true := by
  unfold Reshape.one
  split
  · exact h.each _ (by simp)
  · rename_i several
    have splits : tag ∈ splitTags := by
      apply Classical.byContradiction
      intro not
      obtain ⟨n, rfl⟩ := h.single not
      exact several n rfl
    have each := h.each
    rw [outcomes, if_pos (List.contains_iff_mem.mpr splits)] at each ⊢
    exact fits_blockStatement each

theorem reshapedItems_bare (off : List String) {items : List Value}
    (none : Value.walkItems items = []) : reshapedItems off items = items := by
  induction items with
  | nil => rfl
  | cons v rest ih =>
    simp only [Value.walkItems, List.append_eq_nil_iff] at none
    cases v with
    | node => simp [Value.walk] at none
    | _ => simp [reshapedItems, ih none.2]

/-- What holds no node stays as it is. -/
theorem reshapedField_bare (off : List String) {v : Value} (fit : fits .bare v = true) :
    reshapedField off v = v := by
  cases v with
  | node tag fields => cases tag <;> simp [fits, Slot.tags] at fit
  | seq items =>
    simp only [fits, Slot.member?, Bool.and_eq_true, List.isEmpty_iff] at fit
    simp [reshapedField, reshapedItems_bare off fit.2]
  | _ => rfl

/-- A value that is reshaped fits where it stood, if the nodes in it do. -/
theorem reshapedField_fits {off : List String} {slot : Slot} {v : Value}
    (closed : isClosed slot = true) (fit : fits slot v = true)
    (below : ∀ tag fields, heldBy v tag fields → Formed tag fields →
      Outcome tag (reshaped off (.tagged tag fields))) :
    fits slot (reshapedField off v) = true := by
  cases v with
  | node tag fields =>
    cases tag with
    | str tag =>
      obtain ⟨admitted, formed⟩ := fits_node.mp fit
      have outcome := below tag fields (Or.inl rfl) formed
      obtain ⟨other, inner, same, within, innerFormed⟩ := fits_one.mp outcome.one_fits
      have stands : other ∈ slot.tags := by
        cases slot with
        | one tags | maybe tags | opt tags => exact mem_of_closed closed admitted within
        | _ => simp [Slot.tags] at admitted
      show fits slot (one (reshaped off (.tagged tag fields))) = true
      rw [same]
      exact fits_node.mpr ⟨stands, innerFormed⟩
    | _ => simp [fits] at fit
  | seq items =>
    -- Each node of a sequence gives way to nodes that may stand there; holes stay.
    have members : ∀ {member : Slot}, slot.member? = some member → fitItems member items = true →
        fitItems member (reshapedItems off items) = true := by
      intro member memberIs itemsFit
      refine fitItems_iff.mpr fun n nMember => ?_
      rw [reshapedItems_eq] at nMember
      obtain ⟨item, itemMember, within⟩ := List.mem_flatMap.mp nMember
      have itemFits := fitItems_iff.mp itemsFit item itemMember
      cases item with
      | node tag fields =>
        cases tag with
        | str tag =>
          obtain ⟨admitted, formed⟩ := fits_node.mp itemFits
          have outcome := below tag fields (Or.inr ⟨items, rfl, itemMember⟩) formed
          obtain ⟨other, inner, rfl, among, innerFormed⟩ := fits_one.mp (outcome.each n within)
          refine fits_node.mpr ⟨?_, innerFormed⟩
          cases slot with
          | many tags | holes tags =>
            cases memberIs
            exact mem_of_closed closed admitted among
          | _ => cases memberIs
        | _ => simp [fits] at itemFits
      | _ =>
        rw [List.mem_singleton.mp within]
        exact itemFits
    cases memberIs : slot.member? with
    | none =>
      simp only [fits, memberIs, Bool.and_eq_true, List.isEmpty_iff] at fit
      simp [reshapedField, reshapedItems_bare off fit.2, fits, memberIs, fit]
    | some member =>
      simp only [fits, memberIs] at fit
      simp only [reshapedField, fits, memberIs, members memberIs fit]
  | _ => exact fit

/-- A field without nodes is the same after reshaping. -/
theorem lookup_reshaped_bare {off : List String} {tag name : String} {fields : Fields}
    (formed : Formed tag fields) (bare : slotOf tag name = .bare ∨ slotOf tag name = .text) :
    (reshapedFields off fields).lookup name = fields.lookup name := by
  rw [lookup_reshapedFields]
  cases found : fields.lookup name with
  | none => rfl
  | some v =>
    have fit := formed.fits_lookup found
    rcases bare with bare | text
    · rw [bare] at fit
      rw [Option.map_some, reshapedField_bare off fit]
    · rw [text] at fit
      obtain ⟨s, rfl⟩ := fits_text.mp fit
      rfl

/-- A field that holds a node with a tag of a single outcome holds such a node after reshaping. -/
theorem holdsTag_reshaped {off : List String} {fields : Fields} {name tag : String}
    (below : ∀ tag fields', fields.lookup name = some (.tagged tag fields') →
      Formed tag fields' → Outcome tag (reshaped off (.tagged tag fields')))
    (formed : ∀ v, fields.lookup name = some v → ∃ tags, fits (.one tags) v = true)
    (only : outcomes tag = [tag]) (holds : holdsTag fields name tag = true) :
    holdsTag (reshapedFields off fields) name tag = true := by
  unfold holdsTag at holds ⊢
  cases found : fields.lookup name with
  | none => simp [found] at holds
  | some v =>
    obtain ⟨tags, fit⟩ := formed v found
    obtain ⟨own, inner, rfl, -, innerFormed⟩ := fits_one.mp fit
    obtain rfl : own = tag := by simpa [found] using holds
    have outcome := (below own inner found innerFormed).one_fits
    rw [only] at outcome
    obtain ⟨other, inner', same, among, -⟩ := fits_one.mp outcome
    rw [lookup_reshapedFields, found]
    show (one (reshaped off (.tagged own inner))).hasTag own = true
    rw [same, hasTag_tagged, List.mem_singleton.mp among]
    simp

/-- Reshaping the fields of a node keeps what its tag asks for. -/
theorem isShaped_reshaped {off : List String} {tag : String} {fields : Fields}
    (formed : Formed tag fields)
    (below : ∀ name v, fields.lookup name = some v → ∀ tag' fields', heldBy v tag' fields' →
      Formed tag' fields' → Outcome tag' (reshaped off (.tagged tag' fields'))) :
    isShaped tag (reshapedFields off fields) = true := by
  have shaped := formed.shaped
  have held : ∀ name tag' fields', fields.lookup name = some (.tagged tag' fields') →
      Formed tag' fields' → Outcome tag' (reshaped off (.tagged tag' fields')) :=
    fun name tag' fields' found => below name _ found tag' fields' (Or.inl rfl)
  have bare : ∀ name, slotOf tag name = .bare ∨ slotOf tag name = .text →
      (reshapedFields off fields).lookup name = fields.lookup name :=
    fun _ => lookup_reshaped_bare formed
  unfold isShaped
  split
  · simpa only [isShaped, isLiteral, bare "regex" (Or.inl rfl), bare "raw" (Or.inl rfl),
      bare "value" (Or.inl rfl)] using shaped
  · simpa only [isShaped, hasBinaryOperator, bare "operator" (Or.inr rfl)] using shaped
  · simpa only [isShaped, hasBinaryOperator, bare "operator" (Or.inr rfl)] using shaped
  · obtain ⟨items, itemsAre, each⟩ := formed.many
      (show (fieldsOf "SequenceExpression").lookup "expressions" = some (.many expressionTags) from rfl)
    simp only [isShaped, itemsAre] at shaped
    simp only [lookup_reshapedFields, itemsAre, Option.map_some, reshapedField, reshapedItems_eq]
    cases items with
    | nil => simp at shaped
    | cons item rest =>
      obtain ⟨tag', fields', rfl, -, innerFormed⟩ := fits_one.mp (each item (by simp))
      have outcome := below _ _ itemsAre tag' fields' (Or.inr ⟨_, rfl, by simp⟩) innerFormed
      simp [outcome.nonempty]
  · change (_ || _) = true at shaped
    rw [Bool.or_eq_true] at shaped ⊢
    rw [bare "computed" (Or.inl rfl)]
    refine shaped.imp_right (holdsTag_reshaped (held "property") (fun v found => ?_) rfl)
    exact ⟨expressionTags, formed.fits_lookup found⟩
  · change (_ || _) = true at shaped
    simp only [isMethod, bare "kind" (Or.inl rfl), bare "method" (Or.inl rfl)]
    rw [Bool.or_eq_true] at shaped ⊢
    refine shaped.imp_right (holdsTag_reshaped (held "value") (fun v found => ?_) rfl)
    exact ⟨expressionTags, formed.fits_lookup found⟩
  · simpa only [isShaped, bare "value" (Or.inl rfl)] using shaped
  · rfl

/-- The node before its own rule is applied is well-formed. -/
theorem reshapedFields_formed (off : List String) {tag : String} (fields : Fields)
    (formed : Formed tag fields) : Formed tag (reshapedFields off fields) := by
  induction formed using formed_induction with
  | step tag fields formed inner =>
    have below : ∀ name v, (name, v) ∈ fields → ∀ tag' fields', heldBy v tag' fields' →
        Formed tag' fields' → Outcome tag' (reshaped off (.tagged tag' fields')) :=
      fun name v member tag' fields' held innerFormed =>
        settled_fits off (inner name v member tag' fields' held innerFormed)
    refine ⟨Bool.and_eq_true _ _ ▸ ⟨?_, ?_⟩, ?_, ?_⟩
    · have names : (reshapedFields off fields).map Prod.fst = fields.map Prod.fst := by
        simp [reshapedFields_eq, Function.comp_def]
      rw [isDistinct, names]
      exact decide_eq_true formed.distinct
    · refine List.all_eq_true.mpr fun field member => ?_
      have present := formed.present member
      simpa only [lookup_reshapedFields, Option.isSome_map] using present
    · exact isShaped_reshaped formed fun name v found => below name v (Fields.mem_of_lookup found)
    · refine fitFields_iff.mpr fun field member => ?_
      rw [reshapedFields_eq] at member
      obtain ⟨⟨name, v⟩, original, rfl⟩ := List.mem_map.mp member
      exact reshapedField_fits (slotOf_closed tag name) (fitFields_iff.mp formed.fitted _ original)
        (below name v original)

/-- Reshaping a node gives nodes that may stand in its place. -/
theorem reshaped_fits (off : List String) {tag : String} {fields : Fields}
    (formed : Formed tag fields) : Outcome tag (reshaped off (.tagged tag fields)) :=
  settled_fits off (reshapedFields_formed off fields formed)

/-! ## What the fields of a reshaped node hold -/

section

variable {off : List String}

/-- A field that is there is there after reshaping. -/
theorem lookup_reshaped {fields : Fields} {name : String} {v : Value}
    (found : fields.lookup name = some v) :
    (reshapedFields off fields).lookup name = some (reshapedField off v) := by
  rw [lookup_reshapedFields, found, Option.map_some]

/-- A field that is missing is missing after reshaping. -/
theorem lacks_reshaped {fields : Fields} {name : String} (lacks : Lacks fields name) :
    Lacks (reshapedFields off fields) name := by
  rcases lacks with missing | isNull
  · exact Or.inl (by rw [lookup_reshapedFields, missing]; rfl)
  · exact Or.inr (by rw [lookup_reshapedFields, isNull]; rfl)

theorem reshapedField_folds {fields : Fields} (formed : Formed "UnaryExpression" fields) :
    Folds (reshapedFields off fields) (reshapedField off (.tagged "UnaryExpression" fields)) := by
  obtain ⟨n, answer, folds⟩ := evaluateUnary_folds (reshapedFields_formed off fields formed)
  simp only [reshapedField, settled]
  split
  · exact .keep
  · simp only [settledBy, answer]
    exact folds

theorem reshapedField_turns {fields : Fields} (formed : Formed "BinaryExpression" fields) :
    Turns (reshapedFields off fields) (reshapedField off (.tagged "BinaryExpression" fields)) := by
  obtain ⟨n, answer, turns⟩ := turnComparison_turns (reshapedFields_formed off fields formed)
  simp only [reshapedField, settled]
  split
  · exact .keep
  · simp only [settledBy, answer]
    exact turns

end

end Untangle.Reshape
