import Mathlib.Algebra.Ring.Nat
import Untangle.Proofs.Reshape.Conservation
import Untangle.Proofs.Reshape.Idempotence
import Untangle.Proofs.Reshape.NormalForm

/-!
# Comma sequences in heads

The leading expressions of a comma sequence move out in front of the statement whose head it is. From
the test of a branch and the argument of a return they do so until the head is no comma sequence. From
the head of a loop and of a switch one layer of them does, and what was last in it stays, be it a comma
sequence or not.

Section 11 of the specification lists this as order preservation for comma splitting.

* `hasCommaHead` and `hasLayeredHead` tell the heads that are left from those that they come from.
* `prettify_commaHeads` counts them, so no comma sequence is left in a head just if none had two layers.
-/

namespace Untangle.Reshape

open Syntax

/-- The head of a loop or of a switch. -/
def headOf : Value → Option Value
  | .node (.str "ForStatement") fields => fields.lookup "init"
  | .node (.str "SwitchStatement") fields => fields.lookup "discriminant"
  | _ => none

/-- The test of a branch or the argument of a return. -/
def resultOf : Value → Option Value
  | .node (.str "IfStatement") fields => fields.lookup "test"
  | .node (.str "ReturnStatement") fields => fields.lookup "argument"
  | _ => none

/-- A loop or a switch with a comma sequence as its head. -/
def hasCommaHead (n : Value) : Bool :=
  (headOf n).any (·.hasTag "SequenceExpression")

/-- A loop or a switch whose head is a comma sequence that ends in a comma sequence. -/
def hasLayeredHead (n : Value) : Bool :=
  (headOf n).any endsInComma

/-! ## Heads as weights -/

/-- One for a loop or a switch whose head passes the test. -/
def headWeight (test : Value → Bool) (n : Value) : ℕ :=
  if (headOf n).any test then 1 else 0

theorem sum_headWeight (test : Value → Bool) (nodes : List Value) :
    (nodes.map (headWeight test)).sum = nodes.countP fun n => (headOf n).any test := by
  induction nodes with
  | nil => rfl
  | cons n rest ih =>
    rw [List.map_cons, List.sum_cons, ih, List.countP_cons, headWeight, add_comm]

theorem headOf_other {tag : String} (fields : Fields) (other : tag ∉ headTags) :
    headOf (.tagged tag fields) = none := by
  unfold headOf
  split
  · rename_i same
    cases same
    exact absurd (by decide) other
  · rename_i same
    cases same
    exact absurd (by decide) other
  · rfl

theorem headWeight_other (test : Value → Bool) {tag : String} (fields : Fields)
    (other : tag ∉ headTags) : headWeight test (.tagged tag fields) = 0 := by
  rw [headWeight, headOf_other fields other]
  rfl

/-- The head that a loop or a switch is left with, to be a comma sequence. -/
def leavesComma (v : Value) : Bool :=
  (commaLast v).hasTag "SequenceExpression"

/-- A declaration is no comma sequence and leaves none. -/
theorem headWeight_keptHead {fields initFields : Fields} (kept moved : List Value)
    (found : fields.lookup "init" = some (.tagged "VariableDeclaration" initFields)) :
    headWeight (·.hasTag "SequenceExpression") (keptHead (.tagged "ForStatement" fields)
      (.tagged "VariableDeclaration" initFields) kept moved) = 0 := by
  unfold keptHead
  split
  · simp [headWeight, headOf, found]
  · split <;> simp [headWeight, headOf, Value.withField, Fields.lookup_set_self, Value.hasTag,
      Value.isText]

theorem Remade.headWeight_eq {tag : String} {fields : Fields} {n : Value} (isHead : tag ∈ headTags)
    (remade : Remade [] tag fields n) :
    headWeight (·.hasTag "SequenceExpression") n = headWeight leavesComma (.tagged tag fields) := by
  cases remade with
  | same tag fields ruleless =>
    have settles : ∀ tag ∈ headTags, tag ∈ settledTags := by decide
    exact absurd (settles tag isHead) (ruleless.resolve_left (by simp))
  | choose fields v found | loop fields v found =>
    simp [headWeight, headOf, Value.withField, found, Fields.lookup_set_self, leavesComma]
  | declare fields initFields declarators kept moved found =>
    rw [headWeight_keptHead kept moved found, headWeight, headOf, found]
    rfl
  | _ => exact absurd isHead (by decide)

theorem headWeight_foreseen :
    Foresees [] (headWeight leavesComma) (headWeight (·.hasTag "SequenceExpression")) where
  wrapper tag wraps fields := headWeight_other _ fields wraps.2
  declaration fields _ := headWeight_other _ fields (by decide)
  turned _ fields n _ turns := by
    apply turns_tally turns
    cases turns with
    | keep => rfl
    | turn =>
      exact (headWeight_other _ _ (by decide)).trans (headWeight_other _ _ (by decide)).symm
  left tag isHead fields n remade := remade.headWeight_eq isHead
  apart _ _ _ m := add_comm _ m
  other tag other fields := by rw [headWeight_other _ fields other, headWeight_other _ fields other]

theorem headWeight_reshaped {tag : String} {fields : Fields} (formed : Formed tag fields) :
    headWeight leavesComma (.tagged tag (reshapedFields [] fields)) =
      headWeight endsInComma (.tagged tag fields) := by
  have same (name : String) :
      ((reshapedFields [] fields).lookup name).any leavesComma =
        (fields.lookup name).any endsInComma := by
    rw [lookup_reshapedFields]
    cases found : fields.lookup name with
    | none => rfl
    | some v => exact hasTag_commaLast (formed.fits_lookup found)
  by_cases isHead : tag ∈ headTags
  · simp only [headTags, List.mem_cons, List.not_mem_nil, or_false] at isHead
    rcases isHead with rfl | rfl
    · simp only [headWeight, headOf, same]
    · simp only [headWeight, headOf, same]
  · rw [headWeight_other _ _ isHead, headWeight_other _ _ isHead]

/-! ## Whole programs -/

/-- A reshaped program has a comma sequence in the head of a loop or of a switch for each one that had
two layers. -/
theorem countP_commaHeads {fields : Fields} (formed : Formed "Program" fields) :
    (Value.tagged "Program" (reshapedFields [] fields)).walk.countP hasCommaHead =
      (Value.tagged "Program" fields).walk.countP hasLayeredHead := by
  have calm : CalmDeclarators [] (headWeight (·.hasTag "SequenceExpression")) fun _ => True :=
    fun _ _ _ _ m => add_comm _ m
  have conserved := foreseen_tally headWeight_foreseen (fun tag fields => headWeight_reshaped) calm
    formed fun _ _ => trivial
  rw [reshaped_other [] fields (by decide), tallyItems_cons, tallyItems_nil, add_zero,
    ← total_eq_tally formed fun _ _ => inTurn_of_comm _,
    ← total_eq_tally (reshapedFields_formed [] fields formed) fun _ _ => inTurn_of_comm _, total,
    total, sum_headWeight, sum_headWeight] at conserved
  exact conserved

theorem Unfolded.resultOf {n v : Value} (unfolded : Unfolded n) (found : resultOf n = some v) :
    v.hasTag "SequenceExpression" = false := by
  unfold Reshape.resultOf at found
  split at found
  · exact unfolded.1 v found
  · exact (unfolded v found).1
  · cases found

/-- A reshaped program has no comma sequence in the test of a branch or in the argument of a return. In
the heads of loops and switches it has as many as the program had comma sequences at the end of such a
head, so it has none just if there were none of these. -/
theorem prettify_commaHeads {program : Value} (formed : WellFormed program) :
    ∃ result, prettify Registry.builtin program = .ok result ∧
      (∀ n ∈ result.walk, ∀ v, resultOf n = some v → v.hasTag "SequenceExpression" = false) ∧
      result.walk.countP hasCommaHead = program.walk.countP hasLayeredHead ∧
      ((∀ n ∈ result.walk, hasCommaHead n = false) ↔
        ∀ n ∈ program.walk, hasLayeredHead n = false) := by
  have only : OnlyComparisons [] := by simp [OnlyComparisons]
  obtain ⟨fields, rfl, programFormed, -, answer, -⟩ := prettify_program [] formed
  obtain ⟨result, same, -, unfolded⟩ := prettify_everywhere only (fun n => Made.unfolded)
    (fun tag fields _ _ m remade => remade.unfolded only) formed (Q := fun _ => True)
    (fun _ _ => trivial)
  cases answer.symm.trans same
  rw [without_nil] at answer
  have counted := countP_commaHeads programFormed
  refine ⟨_, answer, fun n walked v => (unfolded n walked).resultOf, counted, ?_⟩
  simp only [← Bool.not_eq_true]
  rw [← List.countP_eq_zero, ← List.countP_eq_zero, counted]

/-- The expression with the operands separated by commas. -/
def commaOf (operands : List Value) : Value :=
  .tagged "SequenceExpression" [("expressions", .seq operands)]

/-- The expression `a, (b, c)`. -/
def layeredComma : Value :=
  commaOf [Value.identifier (.str "a"),
    commaOf [Value.identifier (.str "b"), Value.identifier (.str "c")]]

def loopFrom (init : Value) : Value :=
  .tagged "ForStatement" [("init", init), ("test", .null), ("update", .null),
    ("body", .tagged "EmptyStatement" [])]

def switchOn (discriminant : Value) : Value :=
  .tagged "SwitchStatement" [("discriminant", discriminant), ("cases", .seq [])]

def programOf (statements : List Value) : Value :=
  .tagged "Program" [("body", .seq statements)]

/-- A loop and a switch keep a comma sequence, and a branch with the same expression keeps none. -/
theorem prettify_commaHeads_layered :
    let program := programOf [loopFrom layeredComma, switchOn layeredComma,
      Value.ifStatement layeredComma (Value.blockStatement []) .null]
    WellFormed program ∧ ∃ result, prettify Registry.builtin program = .ok result ∧
      (∀ n ∈ result.walk, ∀ v, resultOf n = some v → v.hasTag "SequenceExpression" = false) ∧
      result.walk.countP hasCommaHead = 2 := by
  intro program
  have formed : WellFormed program := by decide
  obtain ⟨result, answer, results, counted, -⟩ := prettify_commaHeads formed
  exact ⟨formed, result, answer, results, counted.trans (by decide)⟩

/-- The comma sequence at the end of a head becomes the head. -/
theorem prettify_leaves_commaHead :
    let inner := commaOf [Value.identifier (.str "b"), Value.identifier (.str "c")]
    WellFormed (programOf [loopFrom layeredComma, switchOn layeredComma]) ∧
      prettify Registry.builtin (programOf [loopFrom layeredComma, switchOn layeredComma]) =
        .ok (programOf [Value.expressionStatement (Value.identifier (.str "a")), loopFrom inner,
          Value.expressionStatement (Value.identifier (.str "a")), switchOn inner]) ∧
      hasCommaHead (loopFrom inner) = true ∧ hasCommaHead (switchOn inner) = true :=
  ⟨by decide, rfl, rfl, rfl⟩

end Untangle.Reshape
