import Untangle.Proofs.Reshape.Made
import Untangle.Proofs.Tree.Tally

/-!
# What reshaping neither makes nor loses

Rules build statements around expressions and take such statements apart, and they move what they find
from place to place. Whatever else a tree consists of is there afterwards, as often as before and in
the same order. This is said of weights that count none of the nodes that rules build: the tally of
what takes the place of a node is the tally of the node. A statement with a head may be counted by what
is left in its head, if that weight is foreseen.

* `Indifferent` are the weights that count nothing of the kind, `Foresees` are those that may count
  statements with a head, `settled_tally` is the step and `foreseen_tally` the whole traversal.
-/

namespace Untangle.Reshape

open Syntax

variable {M : Type} [AddMonoid M] {own w : Value → M} {off : List String}

/-- The tags of nodes that rules build, take apart or fold. -/
def wrapperTags : List String :=
  ["ExpressionStatement", "BlockStatement", "IfStatement", "SwitchStatement", "ForStatement",
    "LabeledStatement", "ReturnStatement", "SequenceExpression", "ConditionalExpression",
    "LogicalExpression", "UnaryExpression", "Literal", "Identifier"]

/-- Weights that do not see what rules do to a node: they count no wrapper and no declaration with
`var`, and they do not tell a comparison from the one that is turned round. -/
structure Indifferent (off : List String) (w : Value → M) : Prop where
  wrapper : ∀ tag ∈ wrapperTags, ∀ fields, w (.tagged tag fields) = 0
  declaration : ∀ fields, isVar (.tagged "VariableDeclaration" fields) = true →
    w (.tagged "VariableDeclaration" fields) = 0
  turned : ¬ off.contains "BinaryExpression" = true → ∀ fields n,
    Formed "BinaryExpression" fields → Turns fields n →
    tally w n = tally w (.tagged "BinaryExpression" fields)

/-- The tags of statements with a head that expressions move out of. -/
def headTags : List String :=
  ["SwitchStatement", "ForStatement"]

/-- Weights that do not see what rules do to a node, except for a statement with a head: what is left
of it weighs what `own` foresees, and that may be added before or after anything else. -/
structure Foresees (off : List String) (own w : Value → M) : Prop where
  wrapper : ∀ tag, tag ∈ wrapperTags ∧ tag ∉ headTags → ∀ fields, w (.tagged tag fields) = 0
  declaration : ∀ fields, isVar (.tagged "VariableDeclaration" fields) = true →
    w (.tagged "VariableDeclaration" fields) = 0
  turned : ¬ off.contains "BinaryExpression" = true → ∀ fields n,
    Formed "BinaryExpression" fields → Turns fields n →
    tally w n = tally w (.tagged "BinaryExpression" fields)
  left : ∀ tag ∈ headTags, ∀ fields n, Remade off tag fields n → w n = own (.tagged tag fields)
  apart : ∀ tag ∈ headTags, ∀ fields m, own (.tagged tag fields) + m = m + own (.tagged tag fields)
  other : ∀ tag ∉ headTags, ∀ fields, own (.tagged tag fields) = w (.tagged tag fields)

/-- A weight that wrappers do not have is foreseen by itself. -/
theorem Indifferent.foresees (h : Indifferent off w) : Foresees off w w where
  wrapper tag wraps := h.wrapper tag wraps.1
  declaration := h.declaration
  turned := h.turned
  left tag isHead fields n remade := by
    have wraps : ∀ tag ∈ headTags, tag ∈ wrapperTags := by decide
    obtain ⟨changed, rfl, -⟩ := remade.names
    rw [h.wrapper tag (wraps tag isHead), h.wrapper tag (wraps tag isHead)]
  apart tag isHead fields m := by
    have wraps : ∀ tag ∈ headTags, tag ∈ wrapperTags := by decide
    rw [h.wrapper tag (wraps tag isHead), zero_add, add_zero]
  other _ _ _ := rfl

/-- Where sums do not depend on order, a comparison that is turned round has the same tally if it has
the same weight. -/
theorem turns_tally {N : Type} [AddCommMonoid N] {w : Value → N} {fields : Fields} {n : Value}
    (turns : Turns fields n) (same : w n = w (.tagged "BinaryExpression" fields)) :
    tally w n = tally w (.tagged "BinaryExpression" fields) := by
  cases turns with
  | keep => rfl
  | turn operator mirrored left right operatorIs mirrors leftIs rightIs =>
    rw [tally_node, tally_node, same, show partsOf "BinaryExpression" = ["left", "right"] from rfl]
    simp only [List.map_cons, List.map_nil, List.sum_cons, List.sum_nil, add_zero,
      Fields.lookup_set_self, Fields.lookup_set_of_ne _ _ (show "left" ≠ "right" by decide), leftIs,
      rightIs, tallyOf_some]
    rw [add_comm (tally w right)]

section

variable (h : Foresees off own w)

include h

/-! ## Wrappers -/

/-- A wrapper weighs nothing by itself, so its parts weigh as much as it does. -/
theorem tally_wrapper {tag : String} {parts : List String} (wraps : tag ∈ wrapperTags ∧ tag ∉ headTags)
    (listed : partsOf tag = parts) (fields : Fields) :
    tally w (.tagged tag fields) = (parts.map fun name => tallyOf w (fields.lookup name)).sum := by
  rw [tally_node, h.wrapper tag wraps, zero_add, listed]

theorem tally_one {tag name : String} (wraps : tag ∈ wrapperTags ∧ tag ∉ headTags)
    (listed : partsOf tag = [name]) (fields : Fields) :
    tally w (.tagged tag fields) = tallyOf w (fields.lookup name) := by
  rw [tally_wrapper h wraps listed, List.map_singleton, List.sum_singleton]

theorem tally_two {tag first second : String} (wraps : tag ∈ wrapperTags ∧ tag ∉ headTags)
    (listed : partsOf tag = [first, second]) (fields : Fields) :
    tally w (.tagged tag fields) =
      tallyOf w (fields.lookup first) + tallyOf w (fields.lookup second) := by
  rw [tally_wrapper h wraps listed, List.map_cons, List.sum_cons, List.map_singleton,
    List.sum_singleton]

theorem tally_three {tag first second third : String} (wraps : tag ∈ wrapperTags ∧ tag ∉ headTags)
    (listed : partsOf tag = [first, second, third]) (fields : Fields) :
    tally w (.tagged tag fields) = tallyOf w (fields.lookup first) +
      (tallyOf w (fields.lookup second) + tallyOf w (fields.lookup third)) := by
  rw [tally_wrapper h wraps listed, List.map_cons, List.sum_cons, List.map_cons, List.sum_cons,
    List.map_singleton, List.sum_singleton]

theorem tally_unary (fields : Fields) :
    tally w (.tagged "UnaryExpression" fields) = tallyOf w (fields.lookup "argument") :=
  tally_one h (by decide) rfl fields

theorem tally_branch (fields : Fields) :
    tally w (.tagged "IfStatement" fields) = tallyOf w (fields.lookup "test") +
      (tallyOf w (fields.lookup "consequent") + tallyOf w (fields.lookup "alternate")) :=
  tally_three h (by decide) rfl fields

theorem tally_label (fields : Fields) :
    tally w (.tagged "LabeledStatement" fields) =
      tallyOf w (fields.lookup "label") + tallyOf w (fields.lookup "body") :=
  tally_two h (by decide) rfl fields

theorem tally_literal (fields : Fields) : tally w (.tagged "Literal" fields) = 0 := by
  rw [tally_wrapper h (by decide) (show _ = [] from rfl), List.map_nil, List.sum_nil]

theorem tally_identifier (fields : Fields) : tally w (.tagged "Identifier" fields) = 0 := by
  rw [tally_wrapper h (by decide) (show _ = [] from rfl), List.map_nil, List.sum_nil]

/-- A declaration that the rules may split weighs as much as its declarators. -/
theorem tally_declaration {fields : Fields} {declarators : List Value}
    (declares : isVar (.tagged "VariableDeclaration" fields) = true)
    (found : fields.lookup "declarations" = some (.seq declarators)) :
    tally w (.tagged "VariableDeclaration" fields) = tallyItems w declarators := by
  rw [tally_node, h.declaration fields declares, zero_add,
    show partsOf "VariableDeclaration" = ["declarations"] from rfl, List.map_singleton,
    List.sum_singleton, found, tallyOf_some, tally_seq]

/-- Braces weigh nothing. -/
theorem tally_block {fields : Fields} {nodes : List Value}
    (found : fields.lookup "body" = some (.seq nodes)) :
    tally w (.tagged "BlockStatement" fields) = tallyItems w nodes := by
  rw [tally_one h (by decide) (show _ = ["body"] from rfl), found, tallyOf_some, tally_seq]

theorem expressionStatement_tally (v : Value) :
    tally w (Value.expressionStatement v) = tally w v := by
  rw [Value.expressionStatement, tally_one h (by decide) (show _ = ["expression"] from rfl)]
  rfl

theorem returnStatement_tally (v : Value) : tally w (Value.returnStatement v) = tally w v := by
  rw [Value.returnStatement, tally_one h (by decide) (show _ = ["argument"] from rfl)]
  rfl

theorem ifStatement_tally (test yes no : Value) :
    tally w (Value.ifStatement test yes no) = tally w test + (tally w yes + tally w no) :=
  tally_branch h _

/-- Putting statements into one changes nothing. -/
theorem one_tally (nodes : List Value) : tally w (one nodes) = tallyItems w nodes := by
  unfold one
  split
  · simp
  · exact tally_block h rfl

/-- Braces around a statement change nothing. -/
theorem enclosed_tally (n : Value) : tally w (enclosed n) = tally w n := by
  unfold enclosed
  split
  · rfl
  · rw [Value.blockStatement, tally_block h rfl, tallyItems_cons, tallyItems_nil, add_zero]

/-- Nor do those around a branch that would capture an `else`. -/
theorem guarded_tally (n : Value) : tally w (guarded n) = tally w n := by
  unfold guarded
  split
  · exact enclosed_tally h n
  · rfl

/-- Nor do those around an alternate. -/
theorem elseForm_tally (n : Value) : tally w (elseForm n) = tally w n := by
  unfold elseForm
  split
  · rfl
  · exact enclosed_tally h n

/-- A constant weighs as much as the operation that it is folded from. -/
theorem folds_tally {fields : Fields} {n : Value} (folds : Folds fields n) :
    tally w n = tally w (.tagged "UnaryExpression" fields) := by
  cases folds with
  | keep => rfl
  | truth literal value b operatorIs argumentIs =>
    rw [tally_unary h, argumentIs, tallyOf_some, tally_literal h]
    exact tally_literal h _
  | absent literal operatorIs argumentIs =>
    rw [tally_unary h, argumentIs, tallyOf_some, tally_literal h]
    exact tally_identifier h _

/-- A negation weighs as much as what it negates, also if it is carried out. -/
theorem negated_tally {v : Value} (fit : fits expression v = true) :
    tally w (negated off v) = tally w v :=
  (folds_tally h (negated_folds off fit)).trans (tally_unary h _)

/-! ## Packed expressions -/

theorem comma_tally {v : Value} {items : List Value} (packs : packing v = .comma items) :
    tally w v = tallyItems w items := by
  have shape := packs ▸ packed v
  cases shape with
  | comma fields items found =>
    rw [tally_one h (by decide) (show _ = ["expressions"] from rfl), found, tallyOf_some, tally_seq]

theorem choice_tally {v test yes no : Value} (packs : packing v = .choice test yes no) :
    tally w v = tally w test + (tally w yes + tally w no) := by
  have shape := packs ▸ packed v
  cases shape with
  | choice fields test yes no testIs yesIs noIs =>
    rw [tally_three h (by decide) (show _ = ["test", "consequent", "alternate"] from rfl), testIs,
      yesIs, noIs]
    rfl

theorem tally_logical {fields : Fields} {left right : Value}
    (leftIs : fields.lookup "left" = some left) (rightIs : fields.lookup "right" = some right) :
    tally w (.tagged "LogicalExpression" fields) = tally w left + tally w right := by
  rw [tally_two h (by decide) (show _ = ["left", "right"] from rfl), leftIs, rightIs]
  rfl

theorem guard_tally {v test body : Value} (packs : packing v = .guard test body) :
    tally w v = tally w test + tally w body := by
  have shape := packs ▸ packed v
  cases shape with
  | guard fields test body operatorIs testIs bodyIs => exact tally_logical h testIs bodyIs

theorem fallback_tally {v test body : Value} (packs : packing v = .fallback test body) :
    tally w v = tally w test + tally w body := by
  have shape := packs ▸ packed v
  cases shape with
  | fallback fields test body operatorIs testIs bodyIs => exact tally_logical h testIs bodyIs

/-- The operands of a comma sequence weigh as much as the sequence. -/
theorem commaSplit_tally (v : Value) :
    tallyItems w (commaSplit v).1 + tally w (commaSplit v).2 = tally w v := by
  fun_induction commaSplit v with
  | case1 v items packs final last ih =>
    have whole : items = items.dropLast ++ [final] := by
      rw [List.dropLast_append_getLast? final last]
    rw [tallyItems_append, add_assoc, ih, comma_tally h packs]
    conv_rhs => rw [whole]
    simp
  | case2 v items packs last => simp
  | case3 v packs => simp

/-- What is moved before a test weighs as much as it did inside. -/
theorem hoisted_tally (test : Value) :
    tallyItems w (hoisted off test).1 + tally w (hoisted off test).2 = tally w test := by
  unfold hoisted
  split
  · simp
  · exact commaSplit_tally h test

/-- The statements that an expression becomes weigh as much as it did: by induction on how it is
unpacked. -/
theorem unpacked_tally {v : Value} (fit : fits expression v = true) :
    tallyItems w (unpacked off v) = tally w v := by
  induction v using unpacked_induction off with
  | comma v items packs ih =>
    have each := unpacking_fits fit packs
    rw [unpacked_comma packs, tallyItems_flatMap fun item member => ih item member (each item member),
      comma_tally h (packing_of_unpacking packs (by simp))]
  | choice v test yes no packs ihParts ihYes ihNo =>
    have each := unpacking_fits fit packs
    have head := hoisted_fits off (each test (by simp [Packing.parts]))
    rw [unpacked_choice packs, tallyItems_append, tallyItems_cons, tallyItems_nil, add_zero,
      tallyItems_flatMap fun part member => ihParts part member (head.1 part member),
      ifStatement_tally h, guarded_tally h, one_tally h, elseForm_tally h, one_tally h,
      ihYes (each yes (by simp [Packing.parts])), ihNo (each no (by simp [Packing.parts])),
      ← add_assoc, hoisted_tally h, choice_tally h (packing_of_unpacking packs (by simp))]
  | guard v test body packs ihParts ihBody =>
    have each := unpacking_fits fit packs
    have head := hoisted_fits off (each test (by simp [Packing.parts]))
    rw [unpacked_guard packs, tallyItems_append, tallyItems_cons, tallyItems_nil, add_zero,
      tallyItems_flatMap fun part member => ihParts part member (head.1 part member),
      ifStatement_tally h, one_tally h, ihBody (each body (by simp [Packing.parts])), tally_null,
      add_zero, ← add_assoc, hoisted_tally h, guard_tally h (packing_of_unpacking packs (by simp))]
  | fallback v test body packs ihBody =>
    have each := unpacking_fits fit packs
    rw [unpacked_fallback packs, tallyItems_cons, tallyItems_nil, add_zero, ifStatement_tally h,
      negated_tally h (each test (by simp [Packing.parts])), one_tally h,
      ihBody (each body (by simp [Packing.parts])), tally_null, add_zero,
      fallback_tally h (packing_of_unpacking packs (by simp))]
  | plain v packs =>
    rw [unpacked_plain packs, asStatement_expression fit, tallyItems_cons, tallyItems_nil, add_zero,
      expressionStatement_tally h]

theorem unpackedAll_tally {parts : List Value} (each : ∀ part ∈ parts, fits expression part = true) :
    tallyItems w (parts.flatMap (unpacked off)) = tallyItems w parts :=
  tallyItems_flatMap fun part member => unpacked_tally h (each part member)

/-- So do the statements that a return becomes, however the return is put together again. -/
theorem returned_tally {argument : Value} (fit : fits expression argument = true)
    (rebuild : Value → Value) (rebuilds : ∀ v, tally w (rebuild v) = tally w v) :
    tallyItems w (returned off rebuild argument) = tally w argument := by
  induction argument using returned_induction generalizing rebuild with
  | choice argument test yes no packs ihYes ihNo =>
    obtain ⟨leadingFit, lastFits⟩ := commaSplit_fits fit
    have each := packs ▸ packing_fits lastFits
    have head := hoisted_fits off (each test (by simp [Packing.parts]))
    rw [returned_choice rebuild packs, tallyItems_append, tallyItems_append, tallyItems_cons,
      tallyItems_nil, add_zero, unpackedAll_tally h leadingFit, unpackedAll_tally h head.1,
      ifStatement_tally h, enclosed_tally h, one_tally h, elseForm_tally h, one_tally h,
      ihYes (each yes (by simp [Packing.parts])) _ (returnStatement_tally h),
      ihNo (each no (by simp [Packing.parts])) _ (returnStatement_tally h),
      ← add_assoc (tallyItems w _) (tally w _), hoisted_tally h, ← choice_tally h packs,
      commaSplit_tally h]
  | plain argument packs =>
    rw [returned_plain rebuild packs, tallyItems_append, unpackedAll_tally h (commaSplit_fits fit).1,
      tallyItems_cons, tallyItems_nil, add_zero, rebuilds, commaSplit_tally h]

/-! ## Rules -/

variable {fields : Fields}

/-- An expression statement weighs as much as what it becomes. -/
theorem settledExpression_tally (formed : Formed "ExpressionStatement" fields) :
    tallyItems w (settledExpression off (.tagged "ExpressionStatement" fields) fields) =
      tally w (.tagged "ExpressionStatement" fields) := by
  obtain ⟨v, vIs, vFits⟩ := formed.required
    (show (fieldsOf "ExpressionStatement").lookup "expression" = some expression from rfl) rfl
  simp only [settledExpression, vIs]
  split
  · rw [unpacked_tally h vFits, tally_one h (by decide) (show _ = ["expression"] from rfl), vIs,
      tallyOf_some]
  · simp

/-- A block around the consequent changes nothing. -/
theorem braced_tally {changed : Fields}
    (same : changed.lookup "consequent" = fields.lookup "consequent") :
    tally w (braced (.tagged "IfStatement" changed) fields) =
      tally w (.tagged "IfStatement" changed) := by
  unfold braced
  split
  · rfl
  · rfl
  · rename_i consequent alternate _ consequentIs _
    split
    · show tally w (.tagged "IfStatement" (Fields.set "consequent" _ changed)) = _
      rw [tally_branch h, tally_branch h, Fields.lookup_set_self, tallyOf_some, enclosed_tally h,
        Fields.lookup_set_of_ne _ _ (by decide), Fields.lookup_set_of_ne _ _ (by decide), same,
        consequentIs, tallyOf_some]
    · rfl
  · rfl

/-- For a branch, the statements before its test, its branches and the braces are counted together.
-/
theorem settledIf_tally (formed : Formed "IfStatement" fields) :
    tallyItems w (settledIf off (.tagged "IfStatement" fields) fields) =
      tally w (.tagged "IfStatement" fields) := by
  obtain ⟨test, testIs, testFits⟩ := formed.required
    (show (fieldsOf "IfStatement").lookup "test" = some expression from rfl) rfl
  have changed : tally w ((Value.tagged "IfStatement" fields).withField "test" (commaSplit test).2) =
      tally w (commaSplit test).2 + (tallyOf w (fields.lookup "consequent") +
        tallyOf w (fields.lookup "alternate")) := by
    show tally w (.tagged "IfStatement" (Fields.set "test" _ fields)) = _
    rw [tally_branch h, Fields.lookup_set_self, tallyOf_some,
      Fields.lookup_set_of_ne _ _ (by decide), Fields.lookup_set_of_ne _ _ (by decide)]
  simp only [settledIf, testIs]
  rw [tallyItems_append, unpackedAll_tally h (commaSplit_fits testFits).1, tallyItems_cons,
    tallyItems_nil, add_zero, Value.withField,
    braced_tally h (Fields.lookup_set_of_ne _ _ (by decide))]
  exact (congrArg _ changed).trans (by
    rw [← add_assoc, commaSplit_tally h, tally_branch h, testIs, tallyOf_some])

omit h in
/-- The first of the parts and the others. -/
theorem parts_tally {tag name : String} {others : List String} {v : Value}
    (listed : partsOf tag = name :: others) (found : fields.lookup name = some v) :
    ((partsOf tag).map fun name => tallyOf w (fields.lookup name)).sum =
      tally w v + (others.map fun other => tallyOf w (fields.lookup other)).sum := by
  rw [listed, List.map_cons, List.sum_cons, found, tallyOf_some]

omit h in
/-- Exchanging the first part exchanges its weight. The node itself is weighed again, for it has
changed. -/
theorem tally_withHead {tag name : String} {others : List String}
    (listed : partsOf tag = name :: others) (apart : name ∉ others) (v : Value) :
    tally w ((Value.tagged tag fields).withField name v) =
      w ((Value.tagged tag fields).withField name v) +
        (tally w v + (others.map fun other => tallyOf w (fields.lookup other)).sum) := by
  rw [Value.withField, tally_node, listed, List.map_cons, List.sum_cons, Fields.lookup_set_self,
    tallyOf_some]
  refine congrArg (fun rest => w _ + (tally w v + List.sum rest))
    (List.map_congr_left fun other among => ?_)
  rw [Fields.lookup_set_of_ne]
  rintro rfl
  exact apart among

/-- The operands before the last one, and the last one. -/
theorem leadingOf_tally (v : Value) :
    tallyItems w (leadingOf v) + tally w (commaLast v) = tally w v := by
  cases packs : packing v with
  | comma items =>
    cases ends : items.getLast? with
    | none =>
      obtain rfl := List.getLast?_eq_none_iff.mp ends
      simp [leadingOf, commaLast, packs]
    | some last =>
      have whole : items = items.dropLast ++ [last] := by
        rw [List.dropLast_append_getLast? last ends]
      simp only [leadingOf, commaLast, packs, ends, Option.getD_some, comma_tally h packs]
      conv_rhs => rw [whole]
      simp
  | _ => simp [leadingOf, commaLast, packs]

/-- Moving leading expressions out of the head adds nothing to what is foreseen. -/
theorem commaHoisted_tally {tag name : String} {others : List String} {v : Value} {slot : Slot}
    (isHead : tag ∈ headTags) (listed : partsOf tag = name :: others) (apart : name ∉ others)
    (found : fields.lookup name = some v) (fit : fits slot v = true)
    (remade : Remade off tag fields ((Value.tagged tag fields).withField name (commaLast v))) :
    tallyItems w (commaHoisted off (.tagged tag fields) name v) = own (.tagged tag fields) +
      ((partsOf tag).map fun name => tallyOf w (fields.lookup name)).sum := by
  rw [commaHoisted_eq found, tallyItems_append, unpackedAll_tally h (leadingOf_fits fit),
    tallyItems_cons, tallyItems_nil, add_zero, tally_withHead listed apart,
    h.left tag isHead fields _ remade, ← add_assoc, ← h.apart tag isHead, add_assoc, ← add_assoc
    (tallyItems w _), leadingOf_tally h, parts_tally listed found]

/-- A switch weighs what it foresees for itself and for its parts. -/
theorem settledSwitch_tally (formed : Formed "SwitchStatement" fields) :
    tallyItems w (settledSwitch off (.tagged "SwitchStatement" fields) fields) =
      own (.tagged "SwitchStatement" fields) +
        ((partsOf "SwitchStatement").map fun name => tallyOf w (fields.lookup name)).sum := by
  obtain ⟨v, vIs, vFits⟩ := formed.required
    (show (fieldsOf "SwitchStatement").lookup "discriminant" = some expression from rfl) rfl
  simp only [settledSwitch, vIs]
  exact commaHoisted_tally h (by decide) (show _ = "discriminant" :: ["cases"] from rfl) (by decide)
    vIs vFits (.choose fields v vIs)

omit h in
/-- Declarators may leave a head if those that they overtake commute with the rest. -/
theorem splits_tally {declarators kept moved : List Value} (splits : Splits declarators kept moved)
    (calm : ∀ d ∈ declarators, d.optional "init" = .ok none → ∀ m, tally w d + m = m + tally w d) :
    tallyItems w moved + tallyItems w kept = tallyItems w declarators := by
  induction splits with
  | nil => simp
  | rest => simp
  | bare d rest kept moved noInit after ih =>
    have later := ih fun other among => calm other (by simp [among])
    have overtakes := calm d (by simp) noInit
    rw [tallyItems_cons, tallyItems_cons, ← add_assoc, ← overtakes, add_assoc, later]
  | move d rest kept moved after ih =>
    have later := ih fun other among => calm other (by simp [among])
    rw [tallyItems_cons, tallyItems_cons, add_assoc, later]

/-- The declarators without an initializer in the head of a loop commute with everything. -/
def CalmHead (w : Value → M) (fields : Fields) : Prop :=
  ∀ initFields declarators, fields.lookup "init" = some (.tagged "VariableDeclaration" initFields) →
    initFields.lookup "declarations" = some (.seq declarators) →
    ∀ d ∈ declarators, d.optional "init" = .ok none → ∀ m, tally w d + m = m + tally w d

omit h in
theorem partsOf_loop : partsOf "ForStatement" = "init" :: ["test", "update", "body"] :=
  rfl

/-- A head without declarators is none, and weighs nothing as well. -/
theorem keptHead_tally {initFields : Fields} {kept : List Value}
    (declares : isVar (.tagged "VariableDeclaration" initFields) = true) :
    tally w (if kept.isEmpty then .null else
        (Value.tagged "VariableDeclaration" initFields).withField "declarations" (.seq kept)) =
      tallyItems w kept := by
  split
  · rename_i empty
    rw [List.isEmpty_iff.mp empty, tally_null, tallyItems_nil]
  · refine tally_declaration h ?_ (Fields.lookup_set_self ..)
    rwa [isVar, Fields.lookup_set_of_ne _ _ (by decide)]

/-- The declarations before a loop and its head weigh as much as the head did. -/
theorem hoistedFrom_tally {initFields : Fields} {declarators kept moved : List Value}
    (initIs : fields.lookup "init" = some (.tagged "VariableDeclaration" initFields))
    (declares : isVar (.tagged "VariableDeclaration" initFields) = true)
    (split : HeadSplit fields initFields declarators kept moved) (calm : CalmHead w fields) :
    tallyItems w (hoistedFrom (.tagged "ForStatement" fields)
        (.tagged "VariableDeclaration" initFields) kept moved) =
      own (.tagged "ForStatement" fields) +
        ((partsOf "ForStatement").map fun name => tallyOf w (fields.lookup name)).sum := by
  have declared := splits_tally split.splits (calm initFields declarators initIs split.declared)
  have left := h.left "ForStatement" (by decide) fields _
    (.declare fields initFields declarators kept moved initIs declares split)
  unfold hoistedFrom
  unfold keptHead at left
  split
  · rename_i none
    rw [if_pos none] at left
    rw [tallyItems_cons, tallyItems_nil, add_zero, tally_node, left]
  · rename_i some
    rw [if_neg some] at left
    have front : tally w (Value.variableDeclaration moved (.str "var")) = tallyItems w moved :=
      tally_declaration h rfl rfl
    rw [tallyItems_cons, tallyItems_cons, tallyItems_nil, add_zero, front,
      tally_withHead partsOf_loop (by decide), left, keptHead_tally h declares, ← add_assoc,
      ← h.apart "ForStatement" (by decide), add_assoc, ← add_assoc (tallyItems w moved), declared,
      parts_tally partsOf_loop initIs, tally_declaration h declares split.declared]

/-- A loop has the head that it is left with and the statements before it. Here the tally has to be
calm about the declarators that are moved. -/
theorem settledFor_tally (formed : Formed "ForStatement" fields) (calm : CalmHead w fields) :
    tallyItems w (settledFor off (.tagged "ForStatement" fields) fields) =
      own (.tagged "ForStatement" fields) +
        ((partsOf "ForStatement").map fun name => tallyOf w (fields.lookup name)).sum := by
  obtain ⟨init, initIs, initFits⟩ := formed.required (show (fieldsOf "ForStatement").lookup "init" =
    some (.maybe ("VariableDeclaration" :: expressionTags)) from rfl) rfl
  simp only [settledFor, initIs]
  split
  · rename_i declares
    rcases fits_maybe.mp initFits with rfl | initFits
    · cases declares
    · obtain ⟨tag, inner, rfl, admitted, initFormed⟩ := fits_one.mp initFits
      rcases List.mem_cons.mp admitted with rfl | admitted
      · obtain ⟨declarators, kept, moved, split⟩ := headSplit_exists formed initFormed
        rw [split.hoists]
        exact hoistedFrom_tally h initIs declares split calm
      · rw [isVar_expression (fits_node.mpr ⟨admitted, initFormed⟩)] at declares
        cases declares
  · rename_i plain
    exact commaHoisted_tally h (by decide) partsOf_loop (by decide) initIs initFits
      (.loop fields init initIs (by simpa using plain))

/-- A label that goes further in weighs as much where it goes. -/
theorem settledLabel_tally (formed : Formed "LabeledStatement" fields) :
    tallyItems w (settledLabel (.tagged "LabeledStatement" fields) fields) =
      tally w (.tagged "LabeledStatement" fields) := by
  obtain ⟨label, target, body, targetIs, named, bodyIs, bodyFits⟩ := label_fields formed
  obtain ⟨found, answer, spec⟩ := leavingBefore_spec targetIs named bodyFits
  cases found with
  | none => simp only [settledLabel, bodyIs, answer, tallyItems_cons, tallyItems_nil, add_zero]
  | some parts =>
    obtain ⟨leading, last⟩ := parts
    have leaving := (spec leading last).mp rfl
    obtain ⟨inner, rfl, itemsAre⟩ := leaving.block
    have silent : tally w target = 0 := by
      obtain ⟨_, rfl, -⟩ := named
      exact tally_identifier h _
    have moved : tally w ((Value.tagged "LabeledStatement" fields).withField "body" last) =
        tally w last := by
      rw [Value.withField, tally_label h, Fields.lookup_set_of_ne _ _ (by decide), targetIs,
        tallyOf_some, silent, zero_add, Fields.lookup_set_self, tallyOf_some]
    rw [settledLabel_moves targetIs named bodyIs bodyFits leaving, tally_label h, targetIs, bodyIs,
      tallyOf_some, tallyOf_some, silent, zero_add, tally_block h itemsAre, tallyItems_append,
      tallyItems_append, tallyItems_cons, tallyItems_cons, moved]

/-- A return without an argument stays, one with an argument becomes statements. -/
theorem settledReturn_tally (formed : Formed "ReturnStatement" fields) :
    tallyItems w (settledReturn off (.tagged "ReturnStatement" fields) fields) =
      tally w (.tagged "ReturnStatement" fields) := by
  have unchanged : tallyItems w [Value.tagged "ReturnStatement" fields] =
      tally w (.tagged "ReturnStatement" fields) := by
    rw [tallyItems_cons, tallyItems_nil, add_zero]
  have holding (given : Fields) : tally w (.tagged "ReturnStatement" given) =
      tallyOf w (given.lookup "argument") := tally_one h (by decide) rfl given
  cases found : fields.lookup "argument" with
  | none => simpa only [settledReturn, found] using unchanged
  | some argument =>
    rcases fits_opt.mp (formed.fits_lookup found) with rfl | argumentFits
    · simpa only [settledReturn, found] using unchanged
    · have returns := returned_tally h argumentFits
        ((Value.tagged "ReturnStatement" fields).withField "argument") fun v => by
          rw [Value.withField, holding, Fields.lookup_set_self, tallyOf_some]
      rw [holding, found, tallyOf_some]
      obtain ⟨_, _, rfl, -⟩ := fits_one.mp argumentFits
      simpa only [settledReturn, found] using returns

/-- What takes the place of a node with finished children has the tally that is foreseen. -/
theorem settled_tally {tag : String} (formed : Formed tag fields)
    (calm : tag = "ForStatement" → CalmHead w fields) :
    tallyItems w (settled off (.tagged tag fields)) = own (.tagged tag fields) +
      ((partsOf tag).map fun name => tallyOf w (fields.lookup name)).sum := by
  by_cases isHead : tag ∈ headTags
  · simp only [settled]
    split
    · rename_i absent
      rw [tallyItems_cons, tallyItems_nil, add_zero, tally_node,
        h.left tag isHead fields _ (.same tag fields (.inl absent))]
    · simp only [headTags, List.mem_cons, List.not_mem_nil, or_false] at isHead
      rcases isHead with rfl | rfl
      · exact settledSwitch_tally h formed
      · exact settledFor_tally h formed (calm rfl)
  rw [h.other tag isHead, ← tally_node]
  have unchanged : tallyItems w [Value.tagged tag fields] = tally w (.tagged tag fields) := by
    rw [tallyItems_cons, tallyItems_nil, add_zero]
  by_cases settles : tag ∈ settledTags
  · simp only [settled]
    split
    · exact unchanged
    · rename_i present
      simp only [settledTags, List.mem_cons, List.not_mem_nil, or_false] at settles
      rcases settles with rfl | rfl | rfl | rfl | rfl | rfl | rfl | rfl
      · exact settledExpression_tally h formed
      · exact settledIf_tally h formed
      · exact absurd (by decide) isHead
      · exact absurd (by decide) isHead
      · exact settledLabel_tally h formed
      · exact settledReturn_tally h formed
      · obtain ⟨n, answer, turns⟩ := turnComparison_turns formed
        simp only [settledBy, answer]
        rw [← h.turned present fields n formed turns]
        exact add_zero _
      · obtain ⟨n, answer, folds⟩ := evaluateUnary_folds formed
        simp only [settledBy, answer]
        rw [← folds_tally h folds]
        exact add_zero _
  · rw [settled_other off fields settles]
    exact unchanged

end

/-! ## Whole trees -/

/-- The declaration in the head of a reshaped loop is a reshaped declaration. -/
theorem declaration_of_reshaped {v : Value} {initFields : Fields}
    (fit : fits (.maybe ("VariableDeclaration" :: expressionTags)) v = true)
    (same : reshapedField off v = .tagged "VariableDeclaration" initFields) :
    ∃ inner, v = .tagged "VariableDeclaration" inner ∧ initFields = reshapedFields off inner := by
  rcases fits_maybe.mp fit with rfl | fit
  · cases same
  · obtain ⟨tag, inner, rfl, admitted, formed⟩ := fits_one.mp fit
    rcases List.mem_cons.mp admitted with rfl | admitted
    · rw [reshapedField_other off inner (by decide)] at same
      cases same
      exact ⟨inner, rfl, rfl⟩
    · have stays : fits expression (reshapedField off (.tagged tag inner)) = true :=
        reshapedField_fits (by decide) (fits_node.mpr ⟨admitted, formed⟩)
          fun tag fields _ innerFormed => reshaped_fits off innerFormed
      rw [same] at stays
      exact absurd (fits_node.mp stays).1 (by decide)

variable {before after : Value → M} {Q : Value → Prop}

/-- A declarator without an initializer commutes with everything once it is reshaped. -/
def CalmDeclarators (off : List String) (after : Value → M) (Q : Value → Prop) : Prop :=
  ∀ fields, Formed "VariableDeclarator" fields → Everywhere Q (.tagged "VariableDeclarator" fields) →
    (Value.tagged "VariableDeclarator" (reshapedFields off fields)).optional "init" = .ok none →
    ∀ m, tally after (.tagged "VariableDeclarator" (reshapedFields off fields)) + m =
      m + tally after (.tagged "VariableDeclarator" (reshapedFields off fields))

/-- Reshaping keeps the heads of loops calm. -/
theorem CalmDeclarators.head {fields : Fields} (calm : CalmDeclarators off after Q)
    (formed : Formed "ForStatement" fields) (each : Throughout Q fields) :
    CalmHead after (reshapedFields off fields) := by
  intro initFields declarators initIs declared d member noInit
  obtain ⟨init, sourceIs, initFits⟩ := formed.required (show (fieldsOf "ForStatement").lookup "init" =
    some (.maybe ("VariableDeclaration" :: expressionTags)) from rfl) rfl
  rw [lookup_reshaped sourceIs] at initIs
  obtain ⟨inner, rfl, rfl⟩ := declaration_of_reshaped initFits (Option.some.inj initIs)
  obtain ⟨items, itemsAre, itemsFit⟩ := (fits_node.mp initFits).2.many (show (fieldsOf
    "VariableDeclaration").lookup "declarations" = some (.many ["VariableDeclarator"]) from rfl)
  rw [lookup_reshaped itemsAre] at declared
  cases declared
  rw [reshapedItems_eq] at member
  obtain ⟨item, among, within⟩ := List.mem_flatMap.mp member
  obtain ⟨tag, dFields, rfl, isDeclarator, dFormed⟩ := fits_one.mp (itemsFit item among)
  obtain rfl := List.mem_singleton.mp isDeclarator
  rw [reshaped_other off dFields (by decide)] at within
  obtain rfl := List.mem_singleton.mp within
  exact calm dFields dFormed ((each.lookup sourceIs).below.member itemsAre among) noInit

/-- The tally of what becomes of a tree is the tally of the tree. The two may weigh nodes differently
as long as reshaping its fields turns the one weight of a node into the one that is foreseen. -/
theorem foreseen_tally (h : Foresees off own after)
    (weighs : ∀ tag fields, Formed tag fields →
      own (.tagged tag (reshapedFields off fields)) = before (.tagged tag fields))
    (calm : CalmDeclarators off after Q) {tag : String} {fields : Fields}
    (formed : Formed tag fields) (each : Everywhere Q (.tagged tag fields)) :
    tallyItems after (reshaped off (.tagged tag fields)) = tally before (.tagged tag fields) := by
  induction formed using formed_induction with
  | step tag fields formed inner =>
    have below : Formed tag (reshapedFields off fields) := reshapedFields_formed off fields formed
    have head : tag = "ForStatement" → CalmHead after (reshapedFields off fields) := by
      rintro rfl
      exact calm.head formed each.below
    show tallyItems after (settled off (.tagged tag (reshapedFields off fields))) = _
    rw [settled_tally h below head, tally_node, weighs tag fields formed]
    refine congrArg (before _ + List.sum ·) (List.map_congr_left fun name _ => ?_)
    rw [lookup_reshapedFields]
    cases found : fields.lookup name with
    | none => rfl
    | some v =>
      have member := Fields.mem_of_lookup found
      have fit := formed.fits_lookup found
      have same {tag' : String} {inside : Fields} (held : heldBy v tag' inside)
          (insideFormed : Formed tag' inside) :
          tallyItems after (reshaped off (.tagged tag' inside)) = tally before (.tagged tag' inside) :=
        inner name v member tag' inside held insideFormed ((each.below _ member).held held)
      show tally after (reshapedField off v) = tally before v
      cases v with
      | node tag' inside =>
        obtain ⟨text, rfl, insideFormed⟩ := formed_of_fits fit
        exact (one_tally h _).trans (same (Or.inl rfl) insideFormed)
      | seq items =>
        rw [reshapedField, reshapedItems_eq, tally_seq, tally_seq]
        refine tallyItems_flatMap fun item among => ?_
        rcases member_of_fits fit among with ⟨text, inside, rfl, insideFormed⟩ | empty
        · exact same (Or.inr ⟨items, rfl, among⟩) insideFormed
        · cases item with
          | node => simp [Value.walk] at empty
          | _ =>
            rw [reshaped, tallyItems_cons, tallyItems_nil, tally_of_walk_nil _ empty,
              tally_of_walk_nil _ empty, add_zero]
            simp
      | _ => rw [reshapedField, tally_of_walk_nil _ rfl, tally_of_walk_nil _ rfl] <;> simp

/-- Weights that count no statement with a head foresee themselves. -/
theorem reshaped_tally (h : Indifferent off after)
    (weighs : ∀ tag fields, Formed tag fields →
      after (.tagged tag (reshapedFields off fields)) = before (.tagged tag fields))
    (calm : CalmDeclarators off after Q) {tag : String} {fields : Fields}
    (formed : Formed tag fields) (each : Everywhere Q (.tagged tag fields)) :
    tallyItems after (reshaped off (.tagged tag fields)) = tally before (.tagged tag fields) :=
  foreseen_tally h.foresees weighs calm formed each

end Untangle.Reshape
