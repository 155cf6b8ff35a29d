import Untangle.Proofs.Reshape.Constants
import Untangle.Proofs.Reshape.Made

/-!
# Reshaping twice

A reshaped program is a fixed point of reshaping: each rule leaves alone what it and the other rules
leave behind. Three shapes are apart. An `undefined` in a comparison goes to the other side each time
when both sides ask for the right one, and a comma sequence at the end of another one in the head of a
loop or of a switch gives up one layer each time.

* `Stable` nodes take their own place, and a tree of stable nodes is a fixed point.
* `isTame` excludes the three shapes.
* `prettify_prettify` is the statement about whole programs.
-/

namespace Untangle.Reshape

open Syntax

/-- The node takes its own place. -/
def Stable (n : Value) : Prop :=
  settled [] n = [n]

/-! ## Trees of stable nodes -/

mutual

theorem reshapedFields_stable (fields : Fields) (each : Throughout Stable fields) :
    reshapedFields [] fields = fields := by
  match fields with
  | [] => rfl
  | (name, v) :: rest =>
    rw [reshapedFields, reshapedField_stable v (each (name, v) (by simp)),
      reshapedFields_stable rest fun field within => each field (by simp [within])]

theorem reshapedField_stable (v : Value) (each : Everywhere Stable v) :
    reshapedField [] v = v := by
  match v with
  | .seq items => rw [reshapedField, reshapedItems_stable items (everywhere_seq.mp each)]
  | .node tag fields =>
    have own : settled [] (.node tag fields) = [.node tag fields] := each.own
    rw [reshapedField, reshapedFields_stable fields each.below, own]
    rfl
  | .null | .bool _ | .int _ | .float _ | .str _ | .sealed _ | .list _ | .object _ => rfl

theorem reshapedItems_stable (items : List Value) (each : ∀ item ∈ items, Everywhere Stable item) :
    reshapedItems [] items = items := by
  match items with
  | [] => rfl
  | item :: rest =>
    have later := reshapedItems_stable rest fun other within => each other (by simp [within])
    match item with
    | .node tag fields =>
      have whole := each (.node tag fields) (by simp)
      have own : settled [] (.node tag fields) = [.node tag fields] := whole.own
      rw [reshapedItems, reshapedFields_stable fields whole.below, own, later]
      rfl
    | .null | .bool _ | .int _ | .float _ | .str _ | .sealed _ | .seq _ | .list _ | .object _ =>
      simp only [reshapedItems, later]

end

/-! ## What the rules leave behind -/

theorem stable_other {tag : String} (fields : Fields) (other : tag ∉ settledTags) :
    Stable (.tagged tag fields) :=
  settled_other [] fields other

theorem stable_branch {fields : Fields} {test : Value} (testIs : fields.lookup "test" = some test)
    (notComma : NotComma test)
    (closed : Lacks fields "alternate" ∨
      ∃ yes, fields.lookup "consequent" = some yes ∧ Rule.endsWithoutElse yes = .ok false) :
    Stable (.tagged "IfStatement" fields) := by
  refine (settledIf_plain testIs notComma).trans (congrArg (fun n => [n]) ?_)
  rcases closed with lacks | ⟨yes, yesIs, ends⟩
  · have missing : (Value.tagged "IfStatement" fields).optional "alternate" = .ok none :=
      Value.optional_of_lacks lacks
    exact braced_without _ missing
  · simp only [braced, yesIs]
    split <;> first | rfl | simp_all

theorem stable_result {fields : Fields} {v : Value} (found : fields.lookup "argument" = some v)
    (fit : fits expression v = true) (notComma : NotComma v) (notChoice : NotChoice v) :
    Stable (.tagged "ReturnStatement" fields) := by
  obtain ⟨tag, inner, rfl, -⟩ := fits_one.mp fit
  have parts := commaSplit_plain notComma
  show settledReturn [] (.tagged "ReturnStatement" fields) fields = _
  simp only [settledReturn, found]
  rw [returned_plain _ (by rw [parts]; exact notChoice), parts]
  simp only [List.flatMap_nil, List.nil_append, Value.withField_lookup found]

theorem stable_unary {fields : Fields}
    (stays : Rule.evaluateUnary (.tagged "UnaryExpression" fields) =
      .ok (.tagged "UnaryExpression" fields)) : Stable (.tagged "UnaryExpression" fields) := by
  show orSelf _ ((Rule.evaluateUnary (.tagged "UnaryExpression" fields)).map _) = _
  rw [stays]
  rfl

theorem Made.stable {n : Value} (made : Made n) : Stable n := by
  cases made with
  | statement v fit plain =>
    have packs : unpacking [] v = .plain := by
      rw [OnlyComparisons.unpacking_eq (by simp [OnlyComparisons]), plain]
    show (if unpacks [] v then unpacked [] v else [Value.expressionStatement v]) = _
    rw [unpacked_plain packs, asStatement_expression fit, ite_self]
  | branch test yes no fit notComma closed =>
    refine stable_branch rfl notComma (closed.imp ?_ ?_)
    · rintro rfl
      exact Or.inr rfl
    · exact fun ends => ⟨yes, rfl, ends⟩
  | result v fit notComma notChoice => exact stable_result rfl fit notComma notChoice
  | negation v stays => exact stable_unary stays
  | block | truth | absent | declaration => exact stable_other _ (by decide)

/-! ## What may be written -/

/-- One of the comparison operators that have a mirror image. -/
def isComparison : Value → Bool
  | .str operator => (Rule.comparisonTable.lookup operator).isSome
  | _ => false

/-- A comma sequence that ends in a comma sequence. -/
def endsInComma : Value → Bool
  | .node (.str "SequenceExpression") fields =>
    match fields.lookup "expressions" with
    | some (.seq items) => items.getLast?.any (·.hasTag "SequenceExpression")
    | _ => false
  | _ => false

/-- No comparison with `undefined`, and no comma sequence at the end of another one in the head of a
loop or of a switch. -/
def isTame (constant : Value → Bool) : Value → Bool
  | .node (.str "BinaryExpression") fields =>
    !(fields.lookup "operator").any isComparison ||
      !(fields.lookup "left").any (isUndefined constant) &&
        !(fields.lookup "right").any (isUndefined constant)
  | .node (.str "ForStatement") fields => !(fields.lookup "init").any endsInComma
  | .node (.str "SwitchStatement") fields => !(fields.lookup "discriminant").any endsInComma
  | _ => true

/-! ## Comparisons -/

theorem stable_comparison {fields : Fields}
    (stays : Rule.turnComparison (.tagged "BinaryExpression" fields) =
      .ok (.tagged "BinaryExpression" fields)) : Stable (.tagged "BinaryExpression" fields) := by
  show orSelf _ ((Rule.turnComparison (.tagged "BinaryExpression" fields)).map _) = _
  rw [stays]
  rfl

/-- A comparison without `undefined` is turned round once at most. -/
theorem stable_turned {fields : Fields} {n : Value} (formed : Formed "BinaryExpression" fields)
    (tame : isTame isFoldedLiteral (.tagged "BinaryExpression" fields) = true)
    (answer : Rule.turnComparison (.tagged "BinaryExpression" (reshapedFields [] fields)) = .ok n) :
    Stable n := by
  have below := reshapedFields_formed [] fields formed
  obtain ⟨m, same, turns⟩ := turnComparison_turns below
  rw [answer] at same
  cases same
  have turned := turns_formed turns below
  cases turns with
  | keep => exact stable_comparison answer
  | turn operator mirrored left right operatorIs mirrors leftIs rightIs reverses =>
    obtain ⟨own, l, r, ownIs, lIs, lFits, rIs, rFits⟩ := operand_fields formed rfl
    rw [lookup_reshaped ownIs] at operatorIs
    rw [lookup_reshaped lIs] at leftIs
    rw [lookup_reshaped rIs] at rightIs
    cases operatorIs
    cases leftIs
    cases rightIs
    simp only [isTame, ownIs, lIs, rIs, isComparison, mirrors, Option.any_some, Option.isSome_some,
      Bool.not_true, Bool.false_or, Bool.and_eq_true, Bool.not_eq_true'] at tame
    have calm := reverses.not_again
      (fun named => by simp [undefined_of_reshaped lFits named] at tame)
      (fun named => by simp [undefined_of_reshaped rFits named] at tame)
    refine stable_comparison (turnComparison_stays (fits_node.mp turned).2 ?_ ?_ calm)
    · rw [Fields.lookup_set_of_ne _ _ (by decide), Fields.lookup_set_self]
    · rw [Fields.lookup_set_self]

/-! ## Heads -/

theorem sequence_of_comma {v : Value} {items : List Value} (packs : packing v = .comma items) :
    ∃ fields, v = .tagged "SequenceExpression" fields := by
  have shape := packs ▸ packed v
  cases shape with
  | comma fields => exact ⟨fields, rfl⟩

/-- Only a comma sequence is reshaped into one. -/
theorem sequence_of_reshaped {tag : String} {fields others : Fields} (formed : Formed tag fields)
    (same : reshapedField [] (.tagged tag fields) = .tagged "SequenceExpression" others) :
    tag = "SequenceExpression" := by
  have whole : one (reshaped [] (.tagged tag fields)) = .tagged "SequenceExpression" others := same
  have outcome := reshaped_fits [] formed
  unfold one at whole
  split at whole
  · rename_i n only
    have admitted := (fits_node.mp (whole ▸ outcome.each n (by simp [only]))).1
    simp only [Slot.tags, outcomes] at admitted
    split at admitted
    · exact absurd admitted (by decide)
    · split at admitted
      · exact absurd admitted (by decide)
      · exact (List.mem_singleton.mp admitted).symm
  · simp [Value.blockStatement] at whole

theorem notComma_reshaped {tag : String} {fields : Fields} (formed : Formed tag fields)
    (other : tag ≠ "SequenceExpression") : NotComma (reshapedField [] (.tagged tag fields)) := by
  intro items packs
  obtain ⟨others, same⟩ := sequence_of_comma packs
  exact other (sequence_of_reshaped formed same)

theorem tagged_of_hasTag {v : Value} {tag : String} (tagged : v.hasTag tag = true) :
    ∃ fields, v = .tagged tag fields := by
  cases v with
  | node text fields =>
    cases text with
    | str s =>
      have same : s = tag := beq_iff_eq.mp tagged
      exact ⟨fields, by rw [same]⟩
    | _ => cases tagged
  | _ => cases tagged

theorem hasTag_reshaped {tag : String} {fields : Fields} (formed : Formed tag fields) :
    (reshapedField [] (.tagged tag fields)).hasTag "SequenceExpression" =
      (tag == "SequenceExpression") := by
  by_cases isComma : tag = "SequenceExpression"
  · subst isComma
    rw [reshapedField_other [] fields (by decide)]
    rfl
  · rw [beq_false_of_ne isComma, Bool.eq_false_iff]
    intro tagged
    obtain ⟨others, same⟩ := tagged_of_hasTag tagged
    exact isComma (sequence_of_reshaped formed same)

theorem endsInComma_other {tag : String} (fields : Fields) (other : tag ≠ "SequenceExpression") :
    endsInComma (.tagged tag fields) = false := by
  unfold endsInComma
  split
  · rename_i same
    cases same
    exact absurd rfl other
  · rfl

/-- What is left of a reshaped comma sequence is a comma sequence if it ended in one before. -/
theorem hasTag_commaLast {slot : Slot} {v : Value} (fit : fits slot v = true) :
    (commaLast (reshapedField [] v)).hasTag "SequenceExpression" = endsInComma v := by
  cases v with
  | node tag fields =>
    obtain ⟨tag, rfl, formed⟩ := formed_of_fits fit
    by_cases isComma : tag = "SequenceExpression"
    · subst isComma
      obtain ⟨items, itemsAre, each⟩ := formed.many (show (fieldsOf
        "SequenceExpression").lookup "expressions" = some (.many expressionTags) from rfl)
      have packs : packing (reshapedField [] (.tagged "SequenceExpression" fields)) =
          .comma (items.map (reshapedField [])) := by
        rw [packing_reshapedField fit]
        simp only [packing, itemsAre, Packing.map]
      rcases items.eq_nil_or_concat with rfl | ⟨leading, last, rfl⟩
      · have shaped := formed.shaped
        simp [isShaped, itemsAre] at shaped
      · obtain ⟨lastTag, lastFields, rfl, -, lastFormed⟩ := fits_one.mp (each last (by simp))
        rw [List.concat_eq_append, List.map_append, List.map_singleton] at packs
        rw [commaLast_comma packs, hasTag_reshaped lastFormed]
        simp [endsInComma, itemsAre]
    · rw [commaLast_plain (notComma_reshaped formed isComma), hasTag_reshaped formed,
        beq_false_of_ne isComma, endsInComma_other fields isComma]
  | _ => rfl

theorem commaLast_reshaped {slot : Slot} {v : Value} (fit : fits slot v = true)
    (calm : endsInComma v = false) : NotComma (commaLast (reshapedField [] v)) := by
  intro items packs
  obtain ⟨fields, same⟩ := sequence_of_comma packs
  have tagged := hasTag_commaLast fit
  rw [same, calm] at tagged
  cases tagged

theorem commaLast_of_tame {tag name : String} {fields : Fields} {v : Value}
    (formed : Formed tag fields) (calm : (!(fields.lookup name).any endsInComma) = true)
    (found : (reshapedFields [] fields).lookup name = some v) : NotComma (commaLast v) := by
  rw [lookup_reshapedFields] at found
  obtain ⟨source, sourceIs, rfl⟩ := Option.map_eq_some_iff.mp found
  exact commaLast_reshaped (formed.fits_lookup sourceIs) (by simpa [sourceIs] using calm)

theorem isVar_commaLast {slot : Slot} {v : Value} (fit : fits slot v = true)
    (notVar : isVar v = false) : isVar (commaLast v) = false := by
  unfold commaLast
  split
  · rename_i items packs
    have parts := packs ▸ packing_fits fit
    cases ends : items.getLast? with
    | none => exact notVar
    | some last => exact isVar_expression (parts last (List.mem_of_getLast? ends))
  · exact notVar

theorem stable_switch {fields : Fields} {v : Value}
    (found : fields.lookup "discriminant" = some v) (notComma : NotComma v) :
    Stable (.tagged "SwitchStatement" fields) := by
  show settledSwitch [] (.tagged "SwitchStatement" fields) fields = _
  simp only [settledSwitch, found, commaHoisted_plain _ _ notComma]

theorem stable_loop {fields : Fields} {v : Value} (found : fields.lookup "init" = some v)
    (notVar : isVar v = false) (notComma : NotComma v) : Stable (.tagged "ForStatement" fields) := by
  show settledFor [] (.tagged "ForStatement" fields) fields = _
  simp [settledFor, found, notVar, commaHoisted_plain _ _ notComma]

/-- A head whose declarators all stay is stable. -/
theorem stable_declared {fields initFields : Fields} {declarators : List Value}
    (found : fields.lookup "init" = some (.tagged "VariableDeclaration" initFields))
    (declares : isVar (.tagged "VariableDeclaration" initFields) = true)
    (split : HeadSplit fields initFields declarators declarators []) :
    Stable (.tagged "ForStatement" fields) := by
  show settledFor [] (.tagged "ForStatement" fields) fields = _
  simp only [settledFor, found, declares, if_true, split.hoists]
  rfl

/-- The declarators that a head keeps all stay. -/
theorem HeadSplit.again {fields initFields : Fields} {declarators kept moved : List Value}
    (init : Value) (split : HeadSplit fields initFields declarators kept moved) :
    HeadSplit (Fields.set "init" init fields) (Fields.set "declarations" (.seq kept) initFields)
      kept kept [] := by
  obtain ⟨test, update, names, testIs, updateIs, namesAre, partitioned⟩ := split.partitioned
  refine ⟨Fields.lookup_set_self .., fun d member => split.each d (split.splits.mem_kept member),
    test, update, names, ?_, ?_, namesAre, partitionDeclarators_again names split.each partitioned⟩
  · rw [Fields.lookup_set_of_ne _ _ (by decide), testIs]
  · rw [Fields.lookup_set_of_ne _ _ (by decide), updateIs]

theorem stable_keptHead {fields initFields : Fields} {declarators kept moved : List Value}
    (found : fields.lookup "init" = some (.tagged "VariableDeclaration" initFields))
    (declares : isVar (.tagged "VariableDeclaration" initFields) = true)
    (split : HeadSplit fields initFields declarators kept moved) :
    Stable (keptHead (.tagged "ForStatement" fields) (.tagged "VariableDeclaration" initFields)
      kept moved) := by
  unfold keptHead
  by_cases none : moved = []
  · subst none
    show settledFor [] (.tagged "ForStatement" fields) fields = _
    simp only [settledFor, found, declares, if_true, split.hoists]
    rfl
  · rw [if_neg (by simpa using none)]
    by_cases empty : kept = []
    · rw [if_pos (by simpa using empty)]
      exact stable_loop (Fields.lookup_set_self ..) rfl (fun items packs => by cases packs)
    · rw [if_neg (by simpa using empty)]
      refine stable_declared (Fields.lookup_set_self ..) ?_ (split.again _)
      rwa [isVar, Fields.lookup_set_of_ne _ _ (by decide)]

/-! ## Reshaped programs -/

theorem Remade.stable {tag : String} {fields : Fields} {n : Value} (formed : Formed tag fields)
    (tame : isTame isFoldedLiteral (.tagged tag fields) = true)
    (remade : Remade [] tag (reshapedFields [] fields) n) : Stable n := by
  have below := reshapedFields_formed [] fields formed
  generalize same : reshapedFields [] fields = inner at remade below
  cases remade with
  | same tag fields ruleless => exact stable_other _ (ruleless.resolve_left (by simp))
  | statement fields v found kept =>
    show settledExpression [] _ _ = _
    simp [settledExpression, found, kept]
  | branch fields changed test names formed testIs notComma closed =>
    exact stable_branch testIs notComma closed
  | choose _ v found =>
    subst same
    exact stable_switch (Fields.lookup_set_self ..) (commaLast_of_tame formed tame found)
  | loop _ v found notVar =>
    subst same
    exact stable_loop (Fields.lookup_set_self ..) (isVar_commaLast (below.fits_lookup found) notVar)
      (commaLast_of_tame formed tame found)
  | declare fields initFields declarators kept moved found isVar split =>
    exact stable_keptHead found isVar split
  | stay fields stays => exact stays
  | relabel inner body last found fit loops =>
    obtain ⟨label, target, -, targetIs, named, -, -⟩ := label_fields below
    have bodyIs : (Fields.set "body" last inner).lookup "body" = some last :=
      Fields.lookup_set_self ..
    refine (settledLabel_stays ?_ named bodyIs fit
      fun _ _ => not_leaving_of_looping loops).trans ?_
    · rw [Fields.lookup_set_of_ne _ _ (by decide), targetIs]
    · rw [Value.withField_lookup bodyIs]
      rfl
  | leave _ lacks =>
    show settledReturn [] _ inner = _
    rcases lacks with missing | isNull
    · simp only [settledReturn, missing]
    · simp only [settledReturn, isNull]
  | result fields argument v found fit notComma notChoice =>
    exact stable_result (Fields.lookup_set_self ..) fit notComma notChoice
  | compare _ n _ answer =>
    subst same
    exact stable_turned formed tame answer
  | operate fields answer => exact stable_unary answer

/-- A reshaped program is a fixed point of reshaping. -/
theorem prettify_prettify {program : Value} (formed : WellFormed program)
    (tame : Everywhere (isTame isFoldedLiteral · = true) program) :
    ∃ result, prettify Registry.builtin program = .ok result ∧
      prettify Registry.builtin result = .ok result := by
  rw [← without_nil]
  obtain ⟨result, answer, resultFormed, stable⟩ := prettify_everywhere (by simp [OnlyComparisons])
    (fun n => Made.stable) (fun tag fields formed tame m => Remade.stable formed tame) formed tame
  obtain ⟨fields, rfl, -, -, again, -⟩ := prettify_program [] resultFormed
  rw [reshapedFields_stable fields stable.below] at again
  exact ⟨_, answer, again⟩

/-- The program `for (var i, j; 5 > i;) x && f();`. -/
def packedLoop : Value :=
  let name (text : String) : Value := .tagged "Identifier" [("name", .str text)]
  let declarator (text : String) : Value :=
    .tagged "VariableDeclarator" [("id", name text), ("init", .null)]
  let head := Value.variableDeclaration [declarator "i", declarator "j"] (.str "var")
  let test := Value.tagged "BinaryExpression" [("operator", .str ">"),
    ("left", .tagged "Literal" [("value", .int 5)]), ("right", name "i")]
  let call := Value.tagged "CallExpression" [("callee", name "f"), ("arguments", .seq [])]
  let guard := Value.tagged "LogicalExpression"
    [("operator", .str "&&"), ("left", name "x"), ("right", call)]
  .tagged "Program" [("body", .seq [.tagged "ForStatement" [("init", head), ("test", test),
    ("update", .null), ("body", .tagged "ExpressionStatement" [("expression", guard)])]])]

/-- One of the variables leaves the head, the test is turned round and the guard becomes a branch, and
all of them stay so. -/
theorem prettify_prettify_packedLoop :
    WellFormed packedLoop ∧ Everywhere (isTame isFoldedLiteral · = true) packedLoop ∧
      ∃ result, prettify Registry.builtin packedLoop = .ok result ∧
        prettify Registry.builtin result = .ok result :=
  ⟨by decide, by decide, prettify_prettify (by decide) (by decide)⟩

/-- The program that is a single comparison for equality. -/
def comparisonOf (left right : Value) : Value :=
  .tagged "Program" [("body", .seq [Value.expressionStatement (.tagged "BinaryExpression"
    [("operator", .str "=="), ("left", left), ("right", right)])])]

/-- In `void !0 == 5` the negation is no literal in writing, but it is one when the `void` in front of
it is looked at. The `undefined` that it leaves changes sides on every run. -/
theorem prettify_undefined_swings :
    let five := Value.tagged "Literal" [("value", .int 5)]
    let zero := Value.tagged "Literal" [("value", .int 0)]
    let absent := Value.identifier (.str "undefined")
    let program :=
      comparisonOf (Value.unaryExpression (.str "void") (Value.unaryExpression (.str "!") zero)) five
    WellFormed program ∧ Everywhere (isTame (·.hasTag "Literal") · = true) program ∧
      prettify Registry.builtin program = .ok (comparisonOf five absent) ∧
      prettify Registry.builtin (comparisonOf five absent) = .ok (comparisonOf absent five) ∧
      comparisonOf absent five ≠ comparisonOf five absent :=
  ⟨by decide, by decide, rfl, rfl, by simp [comparisonOf, Value.identifier, Value.expressionStatement]⟩

end Untangle.Reshape
