import Untangle.Proofs.Outcome
import Untangle.Proofs.Tree.WellFormed
import Untangle.Reshape.Builtin

/-!
# What the rules find in a well-formed tree

The rules for operators, loops and labels ask questions of their node that any other tree may
refuse to answer. On a well-formed node each question has an answer, and the statements here say
which.

* `evaluateUnary_folds` and `turnComparison_turns` for operators,
* `leavingBefore_spec` for a label on a block.
-/

namespace Untangle.Reshape

open Syntax

@[simp] theorem tag_tagged (tag : String) (fields : Fields) :
    (Value.tagged tag fields).tag = .ok (.str tag) := rfl

@[simp] theorem isTagged_tagged (tag other : String) (fields : Fields) :
    (Value.tagged tag fields).isTagged other = .ok (tag == other) := rfl

@[simp] theorem hasTag_tagged (tag other : String) (fields : Fields) :
    (Value.tagged tag fields).hasTag other = (tag == other) := rfl

@[simp] theorem isText_str (s t : String) : (Value.str s).isText t = (s == t) := rfl

@[simp] theorem same_str (s t : String) : (Value.str s).same (.str t) = (s == t) := by
  simp [Value.same, Value.sameScalar]

/-! ## Operators -/

/-- The fields of a well-formed unary operator. -/
theorem unary_fields {fields : Fields} (formed : Formed "UnaryExpression" fields) :
    ∃ operator argument, fields.lookup "operator" = some (.str operator) ∧
      fields.lookup "argument" = some argument ∧ fits expression argument = true := by
  obtain ⟨argument, argumentIs, argumentFits⟩ := formed.required
    (show (fieldsOf "UnaryExpression").lookup "argument" = some expression from rfl) rfl
  obtain ⟨operator, operatorIs⟩ := formed.text
    (show (fieldsOf "UnaryExpression").lookup "operator" = some .text from rfl)
  exact ⟨operator, argument, operatorIs, argumentIs, argumentFits⟩

/-- What the rule for unary operators makes of a node: it folds `!` of a number and `void` of a
literal, and keeps the rest. -/
inductive Folds (fields : Fields) : Value → Prop where
  | keep : Folds fields (.tagged "UnaryExpression" fields)
  | truth (literal : Fields) (value : Value) (b : Bool)
      (operatorIs : fields.lookup "operator" = some (.str "!"))
      (argumentIs : fields.lookup "argument" = some (.tagged "Literal" literal))
      (valueIs : literal.lookup "value" = some value)
      (negates : Rule.negatedNumber? value = some b) :
      Folds fields (Value.booleanLiteral (.bool b))
  | absent (literal : Fields) (operatorIs : fields.lookup "operator" = some (.str "void"))
      (argumentIs : fields.lookup "argument" = some (.tagged "Literal" literal)) :
      Folds fields (Value.identifier (.str "undefined"))

theorem evaluateUnary_negates {fields literal : Fields} {value : Value} {b : Bool}
    (operatorIs : fields.lookup "operator" = some (.str "!"))
    (argumentIs : fields.lookup "argument" = some (.tagged "Literal" literal))
    (valueIs : literal.lookup "value" = some value)
    (negates : Rule.negatedNumber? value = some b) :
    Rule.evaluateUnary (.tagged "UnaryExpression" fields) =
      .ok (Value.booleanLiteral (.bool b)) := by
  have present : value ≠ .null := by
    rintro rfl
    cases negates
  simp [Rule.evaluateUnary, Value.field_of_lookup argumentIs, Value.field_of_lookup operatorIs,
    Value.optional_of_lookup valueIs present, negates]

theorem evaluateUnary_voids {fields literal : Fields}
    (operatorIs : fields.lookup "operator" = some (.str "void"))
    (argumentIs : fields.lookup "argument" = some (.tagged "Literal" literal)) :
    Rule.evaluateUnary (.tagged "UnaryExpression" fields) =
      .ok (Value.identifier (.str "undefined")) := by
  simp [Rule.evaluateUnary, Value.field_of_lookup argumentIs, Value.field_of_lookup operatorIs]

theorem evaluateUnary_folds {fields : Fields} (formed : Formed "UnaryExpression" fields) :
    ∃ n, Rule.evaluateUnary (.tagged "UnaryExpression" fields) = .ok n ∧ Folds fields n := by
  obtain ⟨operator, argument, operatorIs, argumentIs, argumentFits⟩ := unary_fields formed
  obtain ⟨tag, literal, rfl, -⟩ := fits_one.mp argumentFits
  simp only [Rule.evaluateUnary, Value.field_of_lookup argumentIs, Value.field_of_lookup operatorIs,
    ok_bind, isTagged_tagged, isText_str]
  by_cases isLiteral : tag = "Literal"
  · subst isLiteral
    by_cases negation : operator = "!"
    · subst negation
      cases found : literal.lookup "value" with
      | none => exact ⟨_, by simp [Value.optional_of_none found], .keep⟩
      | some value =>
        by_cases missing : value = .null
        · subst missing
          exact ⟨_, by simp [Value.optional_of_null found], .keep⟩
        · cases negates : Rule.negatedNumber? value with
          | none => exact ⟨_, by simp [Value.optional_of_lookup found missing, negates], .keep⟩
          | some b =>
            exact ⟨_, by simp [Value.optional_of_lookup found missing, negates],
              .truth literal value b operatorIs argumentIs found negates⟩
    · by_cases voided : operator = "void"
      · subst voided
        exact ⟨_, by simp, .absent literal operatorIs argumentIs⟩
      · exact ⟨_, by simp [negation, voided], .keep⟩
  · exact ⟨_, by simp [isLiteral], .keep⟩

/-- A literal, perhaps under unary operators that neither assign nor call. -/
inductive Constant : Value → Prop where
  | literal (fields : Fields) : Constant (.tagged "Literal" fields)
  | unary (fields : Fields) (operator : String) (argument : Value)
      (operatorIs : fields.lookup "operator" = some (.str operator))
      (isPlain : operator ∈ Rule.plainUnary)
      (argumentIs : fields.lookup "argument" = some argument) (inner : Constant argument) :
      Constant (.tagged "UnaryExpression" fields)

/-- A constant under a unary operator has a plain one, over a constant. -/
theorem Constant.operand {fields : Fields} {operator : String} {argument : Value}
    (constant : Constant (.tagged "UnaryExpression" fields))
    (operatorIs : fields.lookup "operator" = some (.str operator))
    (argumentIs : fields.lookup "argument" = some argument) :
    operator ∈ Rule.plainUnary ∧ Constant argument := by
  generalize same : Value.tagged "UnaryExpression" fields = v at constant
  cases constant with
  | literal => simp at same
  | unary others own inner ownIs isPlain innerIs constant =>
    cases same
    rw [operatorIs] at ownIs
    rw [argumentIs] at innerIs
    cases ownIs
    cases innerIs
    exact ⟨isPlain, constant⟩

theorem isConstant_spec (v : Value) (fit : fits expression v = true) :
    ∃ b, Rule.isConstant v = .ok b ∧ (b = true ↔ Constant v) := by
  obtain ⟨tag, fields, rfl, -, formed⟩ := fits_one.mp fit
  by_cases isUnary : tag = "UnaryExpression"
  · subst isUnary
    obtain ⟨operator, argument, operatorIs, argumentIs, argumentFits⟩ := unary_fields formed
    by_cases isPlain : operator ∈ Rule.plainUnary
    · have smaller := @Value.size_lt_of_lookup (.str "UnaryExpression") _ _ _ argumentIs
      obtain ⟨b, answer, constant⟩ := isConstant_spec argument argumentFits
      refine ⟨b, ?_, fun holds => .unary _ _ _ operatorIs isPlain argumentIs (constant.mp holds),
        fun whole => constant.mpr (whole.operand operatorIs argumentIs).2⟩
      rw [← answer]
      simp [Rule.isConstant, Value.descend, operatorIs, Value.key?, isPlain,
        Value.descendInto_eq, argumentIs]
    · refine ⟨false, ?_, by simp, fun whole => ?_⟩
      · simp [Rule.isConstant, Value.descend, operatorIs, Value.key?, isPlain]
      · exact absurd (whole.operand operatorIs argumentIs).1 isPlain
  · refine ⟨tag == "Literal", ?_, fun isLiteral => ?_, ?_⟩
    · simp [Rule.isConstant, Value.descend, isUnary]
    · rw [beq_iff_eq.mp isLiteral]
      exact .literal fields
    · rintro ⟨⟩
      · rfl
      · exact absurd rfl isUnary
termination_by v.size

def Named (name : String) (v : Value) : Prop :=
  ∃ fields, v = .tagged "Identifier" fields ∧ fields.lookup "name" = some (.str name)

/-- A well-formed identifier has a name. -/
theorem named_of_formed {fields : Fields} (formed : Formed "Identifier" fields) :
    ∃ name, fields.lookup "name" = some (.str name) :=
  formed.text rfl

theorem isIdentifier_spec {tags : List String} {v : Value} (fit : fits (.one tags) v = true) :
    ∃ b, v.isIdentifier .null = .ok b ∧ (b = true ↔ ∃ name, Named name v) := by
  obtain ⟨tag, fields, rfl, -, formed⟩ := fits_one.mp fit
  refine ⟨tag == "Identifier", ?_, ?_⟩
  · by_cases same : tag = "Identifier" <;> simp [Value.isIdentifier, same, Value.isNull]
  · constructor
    · intro same
      rw [beq_iff_eq] at same
      subst same
      obtain ⟨name, nameIs⟩ := named_of_formed formed
      exact ⟨name, fields, rfl, nameIs⟩
    · rintro ⟨name, other, same, -⟩
      cases same
      rfl

theorem isIdentifier_name_spec {tags : List String} {v : Value} (name : String)
    (fit : fits (.one tags) v = true) :
    ∃ b, v.isIdentifier (.str name) = .ok b ∧ (b = true ↔ Named name v) := by
  obtain ⟨tag, fields, rfl, -, formed⟩ := fits_one.mp fit
  by_cases same : tag = "Identifier"
  · subst same
    obtain ⟨own, ownIs⟩ := named_of_formed formed
    refine ⟨own == name, ?_, ?_⟩
    · simp [Value.isIdentifier, Value.isNull, Value.field_of_lookup ownIs]
    · constructor
      · intro equal
        rw [beq_iff_eq] at equal
        exact ⟨fields, rfl, equal ▸ ownIs⟩
      · rintro ⟨other, same, otherIs⟩
        cases same
        simp_all
  · refine ⟨false, by simp [Value.isIdentifier, same], ?_⟩
    constructor
    · simp
    · rintro ⟨other, equal, -⟩
      cases equal
      exact absurd rfl same

/-- The operands of a comparison that change places: `undefined` on the left, a name on the right of
something else, or a constant on the left alone. -/
def Reverses (left right : Value) : Prop :=
  Named "undefined" left ∨ (¬ (∃ name, Named name left) ∧ ∃ name, Named name right) ∨
    (Constant left ∧ ¬ Constant right)

theorem Constant.not_named {v : Value} (constant : Constant v) : ¬ ∃ name, Named name v := by
  rintro ⟨name, fields, rfl, -⟩
  generalize same : Value.tagged "Identifier" fields = v at constant
  cases constant <;> simp at same

/-- Operands that changed places do not change back, unless `undefined` is one of them. -/
theorem Reverses.not_again {left right : Value} (reverses : Reverses left right)
    (leftIsnt : ¬ Named "undefined" left) (rightIsnt : ¬ Named "undefined" right) :
    ¬ Reverses right left := by
  rintro (named | ⟨notRight, named⟩ | ⟨constant, notLeft⟩)
  · exact rightIsnt named
  · rcases reverses with undefined | ⟨-, rightNamed⟩ | ⟨leftConstant, -⟩
    · exact leftIsnt undefined
    · exact notRight rightNamed
    · exact leftConstant.not_named named
  · rcases reverses with undefined | ⟨-, rightNamed⟩ | ⟨leftConstant, -⟩
    · exact leftIsnt undefined
    · exact constant.not_named rightNamed
    · exact notLeft leftConstant

theorem isReversed_spec {left right : Value} (leftFits : fits expression left = true)
    (rightFits : fits expression right = true) :
    ∃ b, Rule.isReversed left right = .ok b ∧ (b = true ↔ Reverses left right) := by
  obtain ⟨undefined, undefinedIs, undefinedIff⟩ := isIdentifier_name_spec "undefined" leftFits
  obtain ⟨leftName, leftNameIs, leftNameIff⟩ := isIdentifier_spec leftFits
  obtain ⟨rightName, rightNameIs, rightNameIff⟩ := isIdentifier_spec rightFits
  obtain ⟨leftConstant, leftConstantIs, leftIff⟩ := isConstant_spec left leftFits
  obtain ⟨rightConstant, rightConstantIs, rightIff⟩ := isConstant_spec right rightFits
  simp only [Rule.isReversed, undefinedIs, leftNameIs, rightNameIs, leftConstantIs, rightConstantIs,
    ok_bind, pure_ok, Reverses, ← undefinedIff, ← leftNameIff, ← rightNameIff, ← leftIff, ← rightIff]
  cases undefined <;> cases leftName <;> cases rightName <;> cases leftConstant <;>
    exact ⟨_, rfl, by simp⟩

theorem turnComparison_stays {fields : Fields} {left right : Value}
    (formed : Formed "BinaryExpression" fields) (leftIs : fields.lookup "left" = some left)
    (rightIs : fields.lookup "right" = some right) (calm : ¬ Reverses left right) :
    Rule.turnComparison (.tagged "BinaryExpression" fields) =
      .ok (.tagged "BinaryExpression" fields) := by
  obtain ⟨operator, operatorIs⟩ := formed.text
    (show (fieldsOf "BinaryExpression").lookup "operator" = some .text from rfl)
  obtain ⟨b, answer, reverses⟩ :=
    isReversed_spec (formed.fits_lookup leftIs) (formed.fits_lookup rightIs)
  obtain rfl : b = false := by
    rw [← Bool.not_eq_true, reverses]
    exact calm
  simp only [Rule.turnComparison, Value.field_of_lookup operatorIs, Value.field_of_lookup leftIs,
    Value.field_of_lookup rightIs, Rule.flipped?, Value.key?, ok_bind, pure_ok, Option.bind_some,
    answer, Bool.false_eq_true, if_false]
  split <;> rfl

/-- What the rule for comparisons makes of a node: it exchanges the operands and mirrors the
operator, or keeps the node. -/
inductive Turns (fields : Fields) : Value → Prop where
  | keep : Turns fields (.tagged "BinaryExpression" fields)
  | turn (operator mirrored : String) (left right : Value)
      (operatorIs : fields.lookup "operator" = some (.str operator))
      (mirrors : Rule.comparisonTable.lookup operator = some mirrored)
      (leftIs : fields.lookup "left" = some left) (rightIs : fields.lookup "right" = some right)
      (reverses : Reverses left right) :
      Turns fields (.tagged "BinaryExpression" (Fields.set "right" left
        (Fields.set "left" right (Fields.set "operator" (.str mirrored) fields))))

/-- The fields of a well-formed operator between operands. -/
theorem operand_fields {tag : String} {fields : Fields} (formed : Formed tag fields)
    (declared : fieldsOf tag = operandFields) :
    ∃ operator left right, fields.lookup "operator" = some (.str operator) ∧
      fields.lookup "left" = some left ∧ fits expression left = true ∧
      fields.lookup "right" = some right ∧ fits expression right = true := by
  obtain ⟨operator, operatorIs⟩ := formed.text
    (show (fieldsOf tag).lookup "operator" = some .text by rw [declared]; rfl)
  obtain ⟨left, leftIs, leftFits⟩ := formed.required
    (show (fieldsOf tag).lookup "left" = some expression by rw [declared]; rfl) rfl
  obtain ⟨right, rightIs, rightFits⟩ := formed.required
    (show (fieldsOf tag).lookup "right" = some expression by rw [declared]; rfl) rfl
  exact ⟨operator, left, right, operatorIs, leftIs, leftFits, rightIs, rightFits⟩

theorem turnComparison_turns {fields : Fields} (formed : Formed "BinaryExpression" fields) :
    ∃ n, Rule.turnComparison (.tagged "BinaryExpression" fields) = .ok n ∧ Turns fields n := by
  obtain ⟨operator, left, right, operatorIs, leftIs, leftFits, rightIs, rightFits⟩ :=
    operand_fields formed rfl
  simp only [Rule.turnComparison, Value.field_of_lookup operatorIs, Value.field_of_lookup leftIs,
    Value.field_of_lookup rightIs, Rule.flipped?, Value.key?, ok_bind, pure_ok, Option.bind_some]
  cases mirrors : Rule.comparisonTable.lookup operator with
  | none => exact ⟨_, rfl, .keep⟩
  | some mirrored =>
    obtain ⟨b, answer, reverses⟩ := isReversed_spec leftFits rightFits
    simp only [answer, ok_bind]
    cases b with
    | false => exact ⟨_, rfl, .keep⟩
    | true =>
      exact ⟨_, rfl, .turn operator mirrored left right operatorIs mirrors leftIs rightIs
        (reverses.mp rfl)⟩

/-! ## Branches and labels -/

theorem endsWithoutElse_ok (v : Value) (fit : fits statement v = true) :
    ∃ b, Rule.endsWithoutElse v = .ok b := by
  obtain ⟨tag, fields, rfl, -, formed⟩ := fits_one.mp fit
  by_cases isIf : tag = "IfStatement"
  · subst isIf
    cases found : fields.lookup "alternate" with
    | none => exact ⟨true, by simp [Rule.endsWithoutElse, Value.descend, found]⟩
    | some no =>
      rcases fits_opt.mp (formed.fits_lookup found) with rfl | noFits
      · exact ⟨true, by simp [Rule.endsWithoutElse, Value.descend, found]⟩
      · have smaller := @Value.size_lt_of_lookup (.str "IfStatement") _ _ _ found
        obtain ⟨b, answer⟩ := endsWithoutElse_ok no noFits
        obtain ⟨_, _, rfl, -⟩ := fits_one.mp noFits
        refine ⟨b, ?_⟩
        rw [← answer]
        simp [Rule.endsWithoutElse, Value.descend, Value.descendInto_eq, found]
  · exact ⟨false, by simp [Rule.endsWithoutElse, Value.descend, isIf]⟩
termination_by v.size

/-- A loop, perhaps under labels. -/
inductive Looping : Value → Prop where
  | loop (tag : String) (fields : Fields) (isLoop : tag ∈ Rule.loopTags) :
      Looping (.tagged tag fields)
  | label (fields : Fields) (body : Value) (bodyIs : fields.lookup "body" = some body)
      (inner : Looping body) : Looping (.tagged "LabeledStatement" fields)

/-- The fields of a well-formed labelled statement. -/
theorem label_fields {fields : Fields} (formed : Formed "LabeledStatement" fields) :
    ∃ label target body, fields.lookup "label" = some target ∧ Named label target ∧
      fields.lookup "body" = some body ∧ fits statement body = true := by
  obtain ⟨target, targetIs, targetFits⟩ := formed.required
    (show (fieldsOf "LabeledStatement").lookup "label" = some (.one ["Identifier"]) from rfl) rfl
  obtain ⟨body, bodyIs, bodyFits⟩ := formed.required
    (show (fieldsOf "LabeledStatement").lookup "body" = some statement from rfl) rfl
  obtain ⟨tag, inner, rfl, isIdentifier, innerFormed⟩ := fits_one.mp targetFits
  rw [List.mem_singleton] at isIdentifier
  subst isIdentifier
  obtain ⟨label, labelIs⟩ := named_of_formed innerFormed
  exact ⟨label, _, body, targetIs, ⟨inner, rfl, labelIs⟩, bodyIs, bodyFits⟩

theorem isLoop_spec (v : Value) (fit : fits statement v = true) :
    ∃ b, Rule.isLoop v = .ok b ∧ (b = true ↔ Looping v) := by
  obtain ⟨tag, fields, rfl, -, formed⟩ := fits_one.mp fit
  by_cases isLabel : tag = "LabeledStatement"
  · subst isLabel
    obtain ⟨-, -, body, -, -, bodyIs, bodyFits⟩ := label_fields formed
    have smaller := @Value.size_lt_of_lookup (.str "LabeledStatement") _ _ _ bodyIs
    obtain ⟨b, answer, looping⟩ := isLoop_spec body bodyFits
    refine ⟨b, ?_, ?_⟩
    · rw [← answer]
      simp [Rule.isLoop, Value.descend, Value.descendInto_eq, bodyIs]
    · rw [looping]
      constructor
      · exact .label fields body bodyIs
      · intro loops
        cases loops with
        | loop _ _ isLoop => exact absurd isLoop (by decide)
        | label _ _ otherIs inner =>
          rw [bodyIs] at otherIs
          exact Option.some.inj otherIs ▸ inner
  · refine ⟨Rule.loopTags.contains tag, ?_, ?_⟩
    · simp [Rule.isLoop, Value.descend, isLabel, Value.key?]
    · rw [List.contains_iff_mem]
      constructor
      · exact .loop tag fields
      · intro loops
        cases loops with
        | loop _ _ isLoop => exact isLoop
        | label => exact absurd rfl isLabel
termination_by v.size

def JumpsTo (label : String) (n : Value) : Prop :=
  ∃ tag fields target, n = .tagged tag fields ∧
    (tag = "BreakStatement" ∨ tag = "ContinueStatement") ∧
    fields.lookup "label" = some target ∧ Named label target

/-- The label of a well-formed jump. -/
theorem jump_label {tag : String} {fields : Fields} (formed : Formed tag fields)
    (isJump : tag = "BreakStatement" ∨ tag = "ContinueStatement") :
    (Value.tagged tag fields).optional "label" = .ok none ∨
      ∃ target name, fields.lookup "label" = some target ∧ Named name target ∧
        fits (.one ["Identifier"]) target = true ∧
        (Value.tagged tag fields).optional "label" = .ok (some target) := by
  have declared : (fieldsOf tag).lookup "label" = some (.opt ["Identifier"]) := by
    rcases isJump with rfl | rfl <;> rfl
  rcases formed.optional declared with missing | ⟨target, targetIs, targetFits, found⟩
  · exact Or.inl missing
  · obtain ⟨inner, fields', rfl, isIdentifier, innerFormed⟩ := fits_one.mp targetFits
    rw [List.mem_singleton] at isIdentifier
    subst isIdentifier
    obtain ⟨name, nameIs⟩ := named_of_formed innerFormed
    exact Or.inr ⟨_, name, targetIs, ⟨fields', rfl, nameIs⟩, targetFits, found⟩

theorem jumpsTo_spec (label : String) {n : Value} (formed : IsFormed n) :
    ∃ b, Rule.jumpsTo (.str label) n = .ok b ∧ (b = true ↔ JumpsTo label n) := by
  obtain ⟨tag, fields, rfl, formed⟩ := formed
  by_cases isJump : tag = "BreakStatement" ∨ tag = "ContinueStatement"
  · have asked : Rule.jumpsTo (.str label) (.tagged tag fields) =
        ((Value.tagged tag fields).optional "label" >>= fun target =>
          (target.getD .null).isIdentifier (.str label)) := by
      rcases isJump with rfl | rfl <;> rfl
    rw [asked]
    rcases jump_label formed isJump with missing | ⟨target, name, targetIs, named, targetFits, found⟩
    · refine ⟨false, by simp [missing, Value.isIdentifier], ?_⟩
      constructor
      · simp
      · rintro ⟨_, _, target, same, -, targetIs, ⟨_, rfl, -⟩⟩
        cases same
        rw [Value.optional_of_lookup targetIs (by simp)] at missing
        cases missing
    · obtain ⟨b, answer, iff⟩ := isIdentifier_name_spec label targetFits
      refine ⟨b, by simp [found, answer], ?_⟩
      rw [iff]
      constructor
      · exact fun named => ⟨tag, fields, target, rfl, isJump, targetIs, named⟩
      · rintro ⟨_, _, other, same, -, otherIs, named⟩
        cases same
        rw [targetIs] at otherIs
        exact Option.some.inj otherIs ▸ named
  · have differs := not_or.mp isJump
    refine ⟨false, by simp [Rule.jumpsTo, differs.1, differs.2], ?_⟩
    constructor
    · simp
    · rintro ⟨_, _, _, same, jumps, -⟩
      cases same
      exact absurd jumps isJump

theorem anyJumpsTo_spec (label : String) {nodes : List Value} (formed : ∀ n ∈ nodes, IsFormed n) :
    ∃ b, Rule.anyJumpsTo (.str label) nodes = .ok b ∧ (b = true ↔ ∃ n ∈ nodes, JumpsTo label n) := by
  induction nodes with
  | nil => exact ⟨false, rfl, by simp⟩
  | cons n rest ih =>
    obtain ⟨here, hereIs, hereIff⟩ := jumpsTo_spec label (formed n (by simp))
    obtain ⟨later, laterIs, laterIff⟩ := ih fun m member => formed m (by simp [member])
    refine ⟨here || later, ?_, by simp [hereIff, laterIff]⟩
    cases here <;> simp [Rule.anyJumpsTo, hereIs, laterIs]

/-- A `var` declaration or an expression, the statements that a label can do without. -/
def Plain (v : Value) : Prop :=
  (∃ fields, v = .tagged "VariableDeclaration" fields ∧
    fields.lookup "kind" = some (.str "var")) ∨
  ∃ fields, v = .tagged "ExpressionStatement" fields

/-- A statement that can move out from under the label. -/
structure CanLeave (label : String) (v : Value) : Prop where
  plain : Plain v
  stays : ∀ n ∈ v.walk, ¬ JumpsTo label n

theorem canLeave_spec (label : String) {v : Value} (fit : fits statement v = true) :
    ∃ b, Rule.canLeave (.str label) v = .ok b ∧ (b = true ↔ CanLeave label v) := by
  obtain ⟨jumps, jumpsIs, jumpsIff⟩ := anyJumpsTo_spec label (walk_formed fit)
  have noJump : (!jumps) = true ↔ ∀ n ∈ v.walk, ¬ JumpsTo label n := by
    rw [Bool.not_eq_true', ← Bool.not_eq_true, jumpsIff]
    simp
  obtain ⟨tag, fields, rfl, -, formed⟩ := fits_one.mp fit
  -- Whether the statement is plain decides if its jumps matter.
  have decided : ∃ p : Bool, Rule.canLeave (.str label) (.tagged tag fields) =
      .ok (p && !jumps) ∧ (p = true ↔ Plain (.tagged tag fields)) := by
    by_cases isDeclaration : tag = "VariableDeclaration"
    · subst isDeclaration
      obtain ⟨kind, kindIs⟩ := formed.text
        (show (fieldsOf "VariableDeclaration").lookup "kind" = some .text from rfl)
      refine ⟨kind == "var", ?_, ?_⟩
      · cases isVar : kind == "var" <;>
          simp [Rule.canLeave, Value.field_of_lookup kindIs, isVar, jumpsIs]
      · constructor
        · intro isVar
          exact Or.inl ⟨fields, rfl, beq_iff_eq.mp isVar ▸ kindIs⟩
        · rintro (⟨_, same, varIs⟩ | ⟨_, same⟩)
          · cases same
            simpa [kindIs] using varIs
          · simp at same
    · refine ⟨tag == "ExpressionStatement", ?_, ?_⟩
      · cases isExpression : tag == "ExpressionStatement" <;>
          simp [Rule.canLeave, isDeclaration, isExpression, jumpsIs]
      · constructor
        · intro isExpression
          rw [beq_iff_eq.mp isExpression]
          exact Or.inr ⟨fields, rfl⟩
        · rintro (⟨_, same, -⟩ | ⟨_, same⟩)
          · cases same
            exact absurd rfl isDeclaration
          · cases same
            rfl
  obtain ⟨p, answer, plainIff⟩ := decided
  refine ⟨p && !jumps, answer, ?_⟩
  rw [Bool.and_eq_true, plainIff, noJump]
  exact ⟨fun h => ⟨h.1, h.2⟩, fun h => ⟨h.plain, h.stays⟩⟩

theorem allCanLeave_spec {fields : Fields} {label : String} {target : Value}
    (targetIs : fields.lookup "label" = some target) (named : Named label target)
    {statements : List Value} (fit : ∀ s ∈ statements, fits statement s = true) :
    ∃ b, Rule.allCanLeave (.tagged "LabeledStatement" fields) statements = .ok b ∧
      (b = true ↔ ∀ s ∈ statements, CanLeave label s) := by
  obtain ⟨inner, rfl, nameIs⟩ := named
  induction statements with
  | nil => exact ⟨true, rfl, by simp⟩
  | cons s rest ih =>
    obtain ⟨here, hereIs, hereIff⟩ := canLeave_spec label (fit s (by simp))
    obtain ⟨later, laterIs, laterIff⟩ := ih fun m member => fit m (by simp [member])
    refine ⟨here && later, ?_, by simp [hereIff, laterIff]⟩
    cases here <;> simp [Rule.allCanLeave, Value.field_of_lookup targetIs,
      Value.field_of_lookup nameIs, hereIs, laterIs]

/-- A block whose last statement is a loop and whose other statements can leave the label on it. -/
structure Leaving (label : String) (body : Value) (leading : List Value) (last : Value) : Prop where
  block : ∃ fields, body = .tagged "BlockStatement" fields ∧
    fields.lookup "body" = some (.seq (leading ++ [last]))
  leads : leading ≠ []
  loops : Looping last
  leave : ∀ s ∈ leading, CanLeave label s

theorem leavingBefore_spec {fields : Fields} {label : String} {target body : Value}
    (targetIs : fields.lookup "label" = some target) (named : Named label target)
    (bodyFits : fits statement body = true) :
    ∃ found, Rule.leavingBefore (.tagged "LabeledStatement" fields) body = .ok found ∧
      ∀ leading last, found = some (leading, last) ↔ Leaving label body leading last := by
  obtain ⟨tag, inner, rfl, -, formed⟩ := fits_one.mp bodyFits
  have refused : ∀ {leading last}, ¬ Leaving label (.tagged tag inner) leading last →
      ((none : Option (List Value × Value)) = some (leading, last) ↔
        Leaving label (.tagged tag inner) leading last) := fun not => by simp [not]
  by_cases isBlock : tag = "BlockStatement"
  · subst isBlock
    obtain ⟨items, itemsAre, each⟩ := formed.many
      (show (fieldsOf "BlockStatement").lookup "body" = some (.many statementTags) from rfl)
    -- The leading statements and the last one are fixed by the members of the block.
    have split : ∀ {leading last}, Leaving label (.tagged "BlockStatement" inner) leading last →
        items = leading ++ [last] := by
      rintro leading last ⟨⟨_, same, found⟩, -⟩
      cases same
      rw [itemsAre] at found
      simpa using found
    simp only [Rule.leavingBefore, isTagged_tagged, beq_self_eq_true, ok_bind, Bool.not_true,
      Value.field_of_lookup itemsAre, Value.length, Value.items, Except.map, pure_ok]
    by_cases short : items.length < 2
    · refine ⟨none, by simp [short], fun leading last => refused fun leaving => ?_⟩
      have length := congrArg List.length (split leaving)
      have leads := List.length_pos_iff.mpr leaving.leads
      simp only [List.length_append, List.length_singleton] at length
      omega
    · cases ends : items.getLast? with
      | none => simp [List.getLast?_eq_none_iff.mp ends] at short
      | some final =>
        obtain ⟨front, rfl⟩ := List.getLast?_eq_some_iff.mp ends
        obtain ⟨loops, loopsIs, loopsIff⟩ := isLoop_spec final (each final (by simp))
        obtain ⟨leave, leaveIs, leaveIff⟩ := allCanLeave_spec targetIs named
          fun s member => each s (List.mem_append_left _ member)
        simp only [if_neg short, Value.leadingAndLast, ends, List.dropLast_concat, ok_bind, loopsIs,
          leaveIs]
        refine ⟨if loops && leave then some (front, final) else none, ?_, fun leading last => ?_⟩
        · cases loops <;> cases leave <;> rfl
        · constructor
          · intro found
            split at found
            · rename_i both
              rw [Bool.and_eq_true, loopsIff, leaveIff] at both
              obtain ⟨rfl, rfl⟩ := Prod.mk.inj (Option.some.inj found)
              refine ⟨⟨inner, rfl, itemsAre⟩, ?_, both.1, both.2⟩
              rintro rfl
              simp at short
            · cases found
          · intro leaving
            obtain ⟨rfl, rfl⟩ := List.append_singleton_inj.mp (split leaving)
            rw [loopsIff.mpr leaving.loops, leaveIff.mpr leaving.leave]
            rfl
  · refine ⟨none, by simp [Rule.leavingBefore, isBlock], fun leading last => refused ?_⟩
    rintro ⟨⟨_, same, -⟩, -⟩
    cases same
    exact isBlock rfl

end Untangle.Reshape
