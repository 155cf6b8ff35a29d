import Untangle.Proofs.Reshape.Constants
import Untangle.Proofs.Reshape.Made

/-!
# The form of reshaped programs

What is left of packed code after the rules have run: no statement, test or return holds an expression
that the rules take apart, no else can be captured by the branch in front of it, and the packed
spellings of `true`, `false` and `undefined` are gone. This is said of nodes without mention of the
rules, and it holds of every node of a reshaped program.

* `Unfolded` is the form of a node.
* `prettify_unfolds` is the statement about whole programs.
-/

namespace Untangle.Reshape

open Syntax

/-- A comma sequence, a conditional or a short circuit. -/
def isPacked : Value → Bool
  | .node (.str "SequenceExpression") _ => true
  | .node (.str "ConditionalExpression") _ => true
  | .node (.str "LogicalExpression") fields =>
    (fields.lookup "operator").any fun operator => operator.isText "&&" || operator.isText "||"
  | _ => false

/-- A chain of branches, each the else of the one before, whose last one has no else. -/
inductive OpenChain : Value → Prop where
  | last (fields : Fields) (lacks : Lacks fields "alternate") :
      OpenChain (.tagged "IfStatement" fields)
  | link (fields : Fields) (next : Value) (found : fields.lookup "alternate" = some next)
      (after : OpenChain next) : OpenChain (.tagged "IfStatement" fields)

/-- A node that holds nothing the rules would take apart. -/
def Unfolded : Value → Prop
  | .node (.str "ExpressionStatement") fields =>
    ∀ v, fields.lookup "expression" = some v → isPacked v = false
  | .node (.str "IfStatement") fields =>
    (∀ v, fields.lookup "test" = some v → v.hasTag "SequenceExpression" = false) ∧
    (¬ Lacks fields "alternate" → ∀ yes, fields.lookup "consequent" = some yes → ¬ OpenChain yes)
  | .node (.str "ReturnStatement") fields =>
    ∀ v, fields.lookup "argument" = some v →
      v.hasTag "SequenceExpression" = false ∧ v.hasTag "ConditionalExpression" = false
  | .node (.str "UnaryExpression") fields =>
    ∀ literal, fields.lookup "argument" = some (.tagged "Literal" literal) →
      fields.lookup "operator" ≠ some (.str "void") ∧
      (fields.lookup "operator" = some (.str "!") →
        ∀ value, literal.lookup "value" = some value → isBit value = false)
  | _ => True

/-! ## Forms and packings -/

theorem not_sequence {v : Value} (fit : fits expression v = true) (notComma : NotComma v) :
    v.hasTag "SequenceExpression" = false := by
  obtain ⟨tag, fields, rfl, -, formed⟩ := fits_one.mp fit
  rw [hasTag_tagged, beq_eq_false_iff_ne]
  rintro rfl
  obtain ⟨items, itemsAre, -⟩ := formed.many (show (fieldsOf "SequenceExpression").lookup
    "expressions" = some (.many expressionTags) from rfl)
  exact notComma items (by simp [packing, itemsAre])

theorem not_conditional {v : Value} (fit : fits expression v = true) (notChoice : NotChoice v) :
    v.hasTag "ConditionalExpression" = false := by
  obtain ⟨tag, fields, rfl, -, formed⟩ := fits_one.mp fit
  rw [hasTag_tagged, beq_eq_false_iff_ne]
  rintro rfl
  obtain ⟨test, testIs, -⟩ := formed.required
    (show (fieldsOf "ConditionalExpression").lookup "test" = some expression from rfl) rfl
  obtain ⟨yes, yesIs, -⟩ := formed.required
    (show (fieldsOf "ConditionalExpression").lookup "consequent" = some expression from rfl) rfl
  obtain ⟨no, noIs, -⟩ := formed.required
    (show (fieldsOf "ConditionalExpression").lookup "alternate" = some expression from rfl) rfl
  exact notChoice test yes no (by simp [packing, testIs, yesIs, noIs])

/-- A short circuit is packed. -/
theorem packing_shortCircuit {fields : Fields} (formed : Formed "LogicalExpression" fields)
    (plain : packing (.tagged "LogicalExpression" fields) = .plain) :
    isPacked (.tagged "LogicalExpression" fields) = false := by
  obtain ⟨operator, left, right, operatorIs, leftIs, -, rightIs, -⟩ := operand_fields formed rfl
  simp only [packing, operatorIs, leftIs, rightIs] at plain
  simp only [isPacked, operatorIs, Option.any_some, isText_str, Bool.or_eq_false_iff,
    beq_eq_false_iff_ne]
  constructor
  · rintro rfl
    cases plain
  · rintro rfl
    cases plain

theorem not_packed {v : Value} (fit : fits expression v = true) (plain : packing v = .plain) :
    isPacked v = false := by
  have notSequence := not_sequence fit (by simp [NotComma, plain])
  have notConditional := not_conditional fit (by simp [NotChoice, plain])
  obtain ⟨tag, fields, rfl, -, formed⟩ := fits_one.mp fit
  unfold isPacked
  split
  · rename_i same
    cases same
    simp at notSequence
  · rename_i same
    cases same
    simp at notConditional
  · rename_i same
    cases same
    exact packing_shortCircuit formed plain
  · rfl

/-- What no rule takes apart in the place of a statement is not packed. -/
theorem not_packed_of_kept {off : List String} (only : OnlyComparisons off) {v : Value}
    (kept : unpacks off v = false) : isPacked v = false := by
  have present (tag : String) (other : tag ≠ "BinaryExpression") : tag ∉ off :=
    fun member => other (only tag member)
  unfold isPacked
  split
  · simp [unpacks, unpackedTags, present] at kept
  · simp [unpacks, unpackedTags, present] at kept
  · simp [unpacks, unpackedTags, present] at kept
  · rfl

/-- A chain that takes an else is not open. -/
theorem not_open {v : Value} (closed : Rule.endsWithoutElse v = .ok false) : ¬ OpenChain v := by
  intro isOpen
  induction isOpen with
  | last fields lacks =>
    rcases lacks with none | null <;> simp_all [Rule.endsWithoutElse, Value.descend]
  | link fields next found after ih =>
    apply ih
    rw [← closed]
    have present : next ≠ .null := by
      rintro rfl
      cases after
    cases next <;>
      simp_all [Rule.endsWithoutElse, Value.descend, Value.descendInto_eq]

/-- A unary operator that the rule leaves alone is unfolded. -/
theorem unfolded_of_stays {fields : Fields}
    (stays : Rule.evaluateUnary (.tagged "UnaryExpression" fields) =
      .ok (.tagged "UnaryExpression" fields)) : Unfolded (.tagged "UnaryExpression" fields) := by
  intro literal argumentIs
  constructor
  · intro isVoid
    rw [evaluateUnary_voids isVoid argumentIs] at stays
    simp [Value.identifier] at stays
  · intro isNot value valueIs
    rw [← Bool.not_eq_true, ← negatedNumber?_isSome]
    intro bit
    obtain ⟨b, negates⟩ := Option.isSome_iff_exists.mp bit
    rw [evaluateUnary_negates isNot argumentIs valueIs negates] at stays
    simp [Value.booleanLiteral, Value.literal] at stays

/-! ## What the rules make is unfolded -/

theorem unfolded_branch {fields : Fields} {test : Value} (formed : Formed "IfStatement" fields)
    (testIs : fields.lookup "test" = some test) (notComma : NotComma test)
    (closed : Lacks fields "alternate" ∨
      ∃ yes, fields.lookup "consequent" = some yes ∧ Rule.endsWithoutElse yes = .ok false) :
    Unfolded (.tagged "IfStatement" fields) := by
  constructor
  · intro v found
    rw [testIs] at found
    cases found
    exact not_sequence (formed.fits_lookup testIs) notComma
  · intro hasElse yes yesIs
    obtain ⟨other, otherIs, ends⟩ := closed.resolve_left hasElse
    rw [yesIs] at otherIs
    cases otherIs
    exact not_open ends

theorem unfolded_result {fields : Fields} {v : Value} (found : fields.lookup "argument" = some v)
    (fit : fits expression v = true) (notComma : NotComma v) (notChoice : NotChoice v) :
    Unfolded (.tagged "ReturnStatement" fields) := by
  intro w isArgument
  rw [found] at isArgument
  cases isArgument
  exact ⟨not_sequence fit notComma, not_conditional fit notChoice⟩

theorem Made.unfolded {n : Value} (made : Made n) : Unfolded n := by
  cases made with
  | statement v fit plain =>
    intro w found
    cases found
    exact not_packed fit plain
  | branch test yes no fit notComma closed =>
    refine unfolded_branch (fits_node.mp fit).2 rfl notComma (closed.imp ?_ ?_)
    · rintro rfl
      exact Or.inr rfl
    · exact fun ends => ⟨yes, rfl, ends⟩
  | result v fit notComma notChoice => exact unfolded_result rfl fit notComma notChoice
  | negation v stays => exact unfolded_of_stays stays
  | truth b => cases b <;> trivial
  | block | absent | declaration => trivial

/-- A node without a rule is unfolded, since the form asks nothing of it. -/
theorem unfolded_other {tag : String} (fields : Fields) (other : tag ∉ settledTags) :
    Unfolded (.tagged tag fields) := by
  unfold Unfolded
  split
  all_goals first | trivial | (rename_i same; cases same; exact absurd (by decide) other)

theorem Remade.unfolded {off : List String} {tag : String} {fields : Fields} {n : Value}
    (only : OnlyComparisons off) (remade : Remade off tag fields n) : Unfolded n := by
  cases remade with
  | same tag fields ruleless =>
    rcases ruleless with removed | other
    · rw [only _ (List.contains_iff_mem.mp removed)]
      trivial
    · exact unfolded_other fields other
  | statement fields v found kept =>
    intro w isExpression
    rw [found] at isExpression
    cases isExpression
    exact not_packed_of_kept only kept
  | branch fields changed test names formed testIs notComma closed =>
    exact unfolded_branch formed testIs notComma closed
  | leave fields lacks =>
    intro v found
    rcases lacks with none | null
    · simp [none] at found
    · rw [null] at found
      cases found
      exact ⟨rfl, rfl⟩
  | result fields argument v found fit notComma notChoice =>
    exact unfolded_result (Fields.lookup_set_self ..) fit notComma notChoice
  | compare fields n formed answer =>
    obtain ⟨m, same, turns⟩ := turnComparison_turns formed
    rw [answer] at same
    cases same
    cases turns <;> trivial
  | operate fields answer => exact unfolded_of_stays answer
  | declare fields initFields declarators kept moved found isVar split =>
    unfold keptHead
    split <;> trivial
  | choose | loop | stay | relabel => trivial

/-- At every depth of a reshaped program no statement holds a comma sequence, a conditional or a short
circuit, no branch tests a comma sequence, no return gives a comma sequence or a conditional, no else
follows a branch that would capture it, and no `!` of a zero or a one and no `void` of a literal is
left. -/
theorem prettify_unfolds {program : Value} (formed : WellFormed program) :
    ∃ result, prettify Registry.builtin program = .ok result ∧ WellFormed result ∧
      Everywhere Unfolded result := by
  have only : OnlyComparisons [] := by simp [OnlyComparisons]
  rw [← without_nil]
  exact prettify_everywhere only (fun n => Made.unfolded)
    (fun tag fields _ _ m remade => remade.unfolded only) formed
    (Q := fun _ => True) (fun _ _ => trivial)

/-- The program `if (f(), x) y && f(); else void 0;`. -/
def packedBranch : Value :=
  let name (text : String) : Value := .tagged "Identifier" [("name", .str text)]
  let call := Value.tagged "CallExpression" [("callee", name "f"), ("arguments", .seq [])]
  let guard := Value.tagged "LogicalExpression"
    [("operator", .str "&&"), ("left", name "y"), ("right", call)]
  let test := Value.tagged "SequenceExpression" [("expressions", .seq [call, name "x"])]
  let nothing := Value.tagged "UnaryExpression"
    [("operator", .str "void"), ("argument", .tagged "Literal" [("value", .int 0)])]
  .tagged "Program" [("body", .seq [.tagged "IfStatement" [("test", test),
    ("consequent", .tagged "ExpressionStatement" [("expression", guard)]),
    ("alternate", .tagged "ExpressionStatement" [("expression", nothing)])]])]

/-- The guard becomes a branch, which then stands in a block because an else follows. -/
theorem prettify_unfolds_packedBranch :
    WellFormed packedBranch ∧ ∃ result, prettify Registry.builtin packedBranch = .ok result ∧
      WellFormed result ∧ Everywhere Unfolded result :=
  ⟨by decide, prettify_unfolds (by decide)⟩

end Untangle.Reshape
