import Untangle.Proofs.Reshape.Adequacy

/-!
# What the rules make

Every node of a reshaped tree is one of the old nodes with its children reshaped, or it was made by a
rule. What a rule makes is said here once. A property that holds of whatever the rules make of a
tree then holds everywhere in the reshaped tree.

All rules are taken to be there, except perhaps the one for comparisons.

* `Made` are the new nodes that rules build.
* `Remade` is what becomes of the node that a rule is applied to.
* `reshaped_everywhere` carries a property through the traversal.
-/

namespace Untangle.Reshape

open Syntax

variable {off : List String}

/-- No rule was removed but perhaps the one for comparisons. -/
def OnlyComparisons (off : List String) : Prop :=
  ∀ tag ∈ off, tag = "BinaryExpression"

theorem OnlyComparisons.present (only : OnlyComparisons off) {tag : String}
    (other : tag ≠ "BinaryExpression") : ¬ off.contains tag = true := by
  intro removed
  exact other (only tag (List.contains_iff_mem.mp removed))

/-- Without the rule for comparisons, expressions are unpacked as with it. -/
theorem OnlyComparisons.unpacking_eq (only : OnlyComparisons off) (v : Value) :
    unpacking off v = packing v := by
  unfold unpacking
  split
  · rename_i tag fields
    split
    · rename_i removed
      rw [only tag (List.contains_iff_mem.mp removed), packing_other fields (by decide)]
    · rfl
  · rename_i other
    unfold packing
    split
    all_goals first | exact absurd rfl (other _ _) | rfl

theorem OnlyComparisons.hoisted_eq (only : OnlyComparisons off) (test : Value) :
    hoisted off test = commaSplit test := by
  rw [hoisted, if_neg (only.present (by decide))]

/-! ## New nodes -/

def NotComma (v : Value) : Prop :=
  ∀ items, packing v ≠ .comma items

def NotChoice (v : Value) : Prop :=
  ∀ test yes no, packing v ≠ .choice test yes no

/-- What is left of an expression without its leading parts is no comma sequence. -/
theorem commaSplit_notComma {v : Value} (fit : fits expression v = true) :
    NotComma (commaSplit v).2 := by
  fun_induction commaSplit v with
  | case1 v items packs final last ih =>
    have each := packs ▸ packing_fits fit
    exact ih (each final (List.mem_of_getLast? last))
  | case2 v items packs last =>
    exact absurd (List.getLast?_eq_none_iff.mp last) (packing_comma_ne_nil fit packs)
  | case3 v packs => exact packs

/-- The new nodes that rules build. -/
inductive Made : Value → Prop where
  | statement (v : Value) (fit : fits expression v = true) (plain : packing v = .plain) :
      Made (Value.expressionStatement v)
  | block (nodes : List Value) : Made (Value.blockStatement nodes)
  | branch (test yes no : Value) (fit : fits statement (Value.ifStatement test yes no) = true)
      (notComma : NotComma test) (closed : no = .null ∨ Rule.endsWithoutElse yes = .ok false) :
      Made (Value.ifStatement test yes no)
  | result (v : Value) (fit : fits expression v = true) (notComma : NotComma v)
      (notChoice : NotChoice v) : Made (Value.returnStatement v)
  | negation (v : Value) (stays : Rule.evaluateUnary (Value.unaryExpression (.str "!") v) =
      .ok (Value.unaryExpression (.str "!") v)) : Made (Value.unaryExpression (.str "!") v)
  | truth (b : Bool) : Made (Value.booleanLiteral (.bool b))
  | absent : Made (Value.identifier (.str "undefined"))
  | declaration (fields : Fields) (formed : Formed "VariableDeclaration" fields)
      (isVar : fields.lookup "kind" = some (.str "var")) : Made (.tagged "VariableDeclaration" fields)

section

variable {P : Value → Prop} (made : ∀ n, Made n → P n)

/-- What holds of all nodes of an expression holds in the parts of its packing. -/
theorem Packed.everywhere {v part : Value} {p : Packing} (h : Packed v p) (each : Everywhere P v)
    (member : part ∈ p.parts) : Everywhere P part := by
  cases h with
  | comma fields items found => exact each.below.member found member
  | choice fields test yes no testIs yesIs noIs =>
    simp only [Packing.parts, List.mem_cons, List.not_mem_nil, or_false] at member
    rcases member with rfl | rfl | rfl
    · exact each.below.lookup testIs
    · exact each.below.lookup yesIs
    · exact each.below.lookup noIs
  | guard fields test body operatorIs testIs bodyIs
  | fallback fields test body operatorIs testIs bodyIs =>
    simp only [Packing.parts, List.mem_cons, List.not_mem_nil, or_false] at member
    rcases member with rfl | rfl
    · exact each.below.lookup testIs
    · exact each.below.lookup bodyIs
  | plain => simp [Packing.parts] at member

theorem packing_everywhere {v part : Value} {p : Packing} (packs : packing v = p)
    (each : Everywhere P v) (member : part ∈ p.parts) : Everywhere P part :=
  Packed.everywhere (packs ▸ packed v) each member

/-- What holds of all nodes of an expression holds in the operands that it is split into. -/
theorem commaSplit_everywhere {v : Value} (each : Everywhere P v) :
    (∀ part ∈ (commaSplit v).1, Everywhere P part) ∧ Everywhere P (commaSplit v).2 := by
  fun_induction commaSplit v with
  | case1 v items packs final last ih =>
    have rest := ih (packing_everywhere packs each (List.mem_of_getLast? last))
    refine ⟨fun part member => ?_, rest.2⟩
    rcases List.mem_append.mp member with member | member
    · exact packing_everywhere packs each (List.dropLast_subset _ member)
    · exact rest.1 part member
  | case2 v items packs last => exact ⟨by simp, each⟩
  | case3 v packs => exact ⟨by simp, each⟩

include made

theorem blockStatement_everywhere {nodes : List Value} (each : ∀ n ∈ nodes, Everywhere P n) :
    Everywhere P (Value.blockStatement nodes) := by
  refine everywhere_node.mpr ⟨made _ (.block nodes), fun field within => ?_⟩
  rw [List.mem_singleton.mp within]
  exact everywhere_seq.mpr each

theorem one_everywhere {nodes : List Value} (each : ∀ n ∈ nodes, Everywhere P n) :
    Everywhere P (one nodes) := by
  unfold one
  split
  · exact each _ (by simp)
  · exact blockStatement_everywhere made each

theorem enclosed_everywhere {n : Value} (each : Everywhere P n) : Everywhere P (enclosed n) := by
  unfold enclosed
  split
  · exact each
  · exact blockStatement_everywhere made (by simpa using each)

theorem guarded_everywhere {n : Value} (each : Everywhere P n) : Everywhere P (guarded n) := by
  unfold guarded
  split
  · exact enclosed_everywhere made each
  · exact each

theorem elseForm_everywhere {n : Value} (each : Everywhere P n) : Everywhere P (elseForm n) := by
  unfold elseForm
  split
  · exact each
  · exact enclosed_everywhere made each

/-- A new branch is one of the nodes that rules make; what is below it was there before. -/
theorem ifStatement_everywhere {test yes no : Value} (own : Made (Value.ifStatement test yes no))
    (testEach : Everywhere P test) (yesEach : Everywhere P yes) (noEach : Everywhere P no) :
    Everywhere P (Value.ifStatement test yes no) := by
  refine everywhere_node.mpr ⟨made _ own, fun field within => ?_⟩
  simp only [List.mem_cons, List.not_mem_nil, or_false] at within
  rcases within with rfl | rfl | rfl
  · exact testEach
  · exact yesEach
  · exact noEach

/-- A negation is a new node or a folded one. -/
theorem negated_everywhere (only : OnlyComparisons off) {v : Value}
    (fit : fits expression v = true) (each : Everywhere P v) : Everywhere P (negated off v) := by
  obtain ⟨n, answer, folds⟩ := evaluateUnary_folds (@formed_unary "!" v fit)
  have same : negated off v = n := by
    simp only [negated, if_neg (only.present (show "UnaryExpression" ≠ _ by decide))]
    rw [Value.unaryExpression, answer]
    rfl
  rw [same]
  cases folds with
  | keep =>
    refine everywhere_node.mpr ⟨made _ (.negation v answer), fun field within => ?_⟩
    simp only [List.mem_cons, List.not_mem_nil, or_false] at within
    rcases within with rfl | rfl | rfl
    · exact .of_walk_nil rfl
    · exact each
    · exact .of_walk_nil rfl
  | truth _ _ b =>
    cases b <;>
      exact fun n member => List.mem_singleton.mp member ▸ made _ (.truth _)
  | absent => exact fun n member => List.mem_singleton.mp member ▸ made _ .absent

/-- A branch after what moved out of its test. -/
theorem branched_everywhere {test yes no : Value} {front : List Value}
    (frontEach : ∀ s ∈ front, Everywhere P s) (testFits : fits expression test = true)
    (yesFits : fits statement yes = true) (noFits : fits (.opt statementTags) no = true)
    (testEach : Everywhere P test) (yesEach : Everywhere P yes) (noEach : Everywhere P no)
    (closed : no = .null ∨ Rule.endsWithoutElse yes = .ok false) :
    ∀ s ∈ front ++ [Value.ifStatement (commaSplit test).2 yes no], Everywhere P s := by
  intro s member
  rcases List.mem_append.mp member with member | member
  · exact frontEach s member
  · rw [List.mem_singleton.mp member]
    have fit := fits_ifStatement (commaSplit_fits testFits).2 yesFits noFits
    exact ifStatement_everywhere made (.branch _ _ _ fit (commaSplit_notComma testFits) closed)
      (commaSplit_everywhere testEach).2 yesEach noEach

/-- What an expression in the place of a statement becomes keeps the property. -/
theorem unpacked_everywhere (only : OnlyComparisons off) {v : Value}
    (fit : fits expression v = true) (each : Everywhere P v) :
    ∀ s ∈ unpacked off v, Everywhere P s := by
  induction v using unpacked_induction off with
  | comma v items packs ih =>
    rw [unpacked_comma packs]
    have itemsFit := unpacking_fits fit packs
    rw [only.unpacking_eq] at packs
    intro s member
    obtain ⟨item, among, within⟩ := List.mem_flatMap.mp member
    exact ih item among (itemsFit item among) (packing_everywhere packs each among) s within
  | choice v test yes no packs ihParts ihYes ihNo =>
    rw [unpacked_choice packs]
    have partsFit := unpacking_fits fit packs
    have testFits := partsFit test (by simp [Packing.parts])
    have yesFits := partsFit yes (by simp [Packing.parts])
    have noFits := partsFit no (by simp [Packing.parts])
    rw [only.unpacking_eq] at packs
    rw [only.hoisted_eq] at ihParts ⊢
    have testEach : Everywhere P test := packing_everywhere packs each (by simp [Packing.parts])
    have yesEach := ihYes yesFits (packing_everywhere packs each (by simp [Packing.parts]))
    have noEach := ihNo noFits (packing_everywhere packs each (by simp [Packing.parts]))
    have yesOne := one_fits (unpacked_fits off yesFits).each
    have noOne := one_fits (unpacked_fits off noFits).each
    refine branched_everywhere made (fun s member => ?_) testFits (guarded_fits yesOne)
      (fits_opt.mpr (Or.inr (elseForm_fits noOne))) testEach
      (guarded_everywhere made (one_everywhere made yesEach))
      (elseForm_everywhere made (one_everywhere made noEach))
      (Or.inr (endsWithoutElse_guarded yesOne))
    obtain ⟨part, among, within⟩ := List.mem_flatMap.mp member
    exact ihParts part among ((commaSplit_fits testFits).1 part among)
      ((commaSplit_everywhere testEach).1 part among) s within
  | guard v test body packs ihParts ihBody =>
    rw [unpacked_guard packs]
    have partsFit := unpacking_fits fit packs
    have testFits := partsFit test (by simp [Packing.parts])
    have bodyFits := partsFit body (by simp [Packing.parts])
    rw [only.unpacking_eq] at packs
    rw [only.hoisted_eq] at ihParts ⊢
    have testEach : Everywhere P test := packing_everywhere packs each (by simp [Packing.parts])
    have bodyEach := ihBody bodyFits (packing_everywhere packs each (by simp [Packing.parts]))
    refine branched_everywhere made (fun s member => ?_) testFits
      (one_fits (unpacked_fits off bodyFits).each) rfl testEach (one_everywhere made bodyEach)
      (.of_walk_nil rfl) (Or.inl rfl)
    obtain ⟨part, among, within⟩ := List.mem_flatMap.mp member
    exact ihParts part among ((commaSplit_fits testFits).1 part among)
      ((commaSplit_everywhere testEach).1 part among) s within
  | fallback v test body packs ihBody =>
    rw [unpacked_fallback packs]
    have partsFit := unpacking_fits fit packs
    have testFits := partsFit test (by simp [Packing.parts])
    have bodyFits := partsFit body (by simp [Packing.parts])
    rw [only.unpacking_eq] at packs
    have testEach := negated_everywhere made only testFits
      (packing_everywhere packs each (by simp [Packing.parts]))
    have bodyEach := ihBody bodyFits (packing_everywhere packs each (by simp [Packing.parts]))
    have notComma : NotComma (negated off test) := by simp [NotComma, packing_negated off testFits]
    have branchFits := @fits_ifStatement _ _ .null (negated_fits off testFits)
      (one_fits (unpacked_fits off bodyFits).each) rfl
    intro s member
    rw [List.mem_singleton.mp member]
    exact ifStatement_everywhere made (.branch _ _ _ branchFits notComma (Or.inl rfl)) testEach
      (one_everywhere made bodyEach) (.of_walk_nil rfl)
  | plain v packs =>
    rw [unpacked_plain packs, asStatement_expression fit]
    rw [only.unpacking_eq] at packs
    intro s member
    rw [List.mem_singleton.mp member]
    refine everywhere_node.mpr ⟨made _ (.statement v fit packs), fun field within => ?_⟩
    rw [List.mem_singleton.mp within]
    exact each

/-- Of the statements that operands become, every node is one that rules make or one that was there.
-/
theorem unpackedAll_everywhere (only : OnlyComparisons off) {parts : List Value}
    (fit : ∀ part ∈ parts, fits expression part = true)
    (each : ∀ part ∈ parts, Everywhere P part) :
    ∀ s ∈ parts.flatMap (unpacked off), Everywhere P s := by
  intro s member
  obtain ⟨part, among, within⟩ := List.mem_flatMap.mp member
  exact unpacked_everywhere made only (fit part among) (each part among) s within

/-- What moves out of an expression keeps the property. -/
theorem leading_everywhere (only : OnlyComparisons off) {v : Value}
    (fit : fits expression v = true) (each : Everywhere P v) :
    ∀ s ∈ (commaSplit v).1.flatMap (unpacked off), Everywhere P s :=
  unpackedAll_everywhere made only (commaSplit_fits fit).1 (commaSplit_everywhere each).1

/-- What a return becomes keeps the property, if the return of what is left of the argument has
it. -/
theorem returned_everywhere (only : OnlyComparisons off) {argument : Value}
    (fit : fits expression argument = true) (each : Everywhere P argument)
    {rebuild : Value → Value}
    (rebuilt : ∀ v, fits expression v = true → NotComma v → NotChoice v → Everywhere P v →
      Everywhere P (rebuild v)) :
    ∀ s ∈ returned off rebuild argument, Everywhere P s := by
  induction argument using returned_induction generalizing rebuild with
  | choice v test yes no packs ihYes ihNo =>
    rw [returned_choice rebuild packs, only.hoisted_eq]
    have split := commaSplit_everywhere each
    have partsFit := packs ▸ packing_fits (commaSplit_fits fit).2
    have testFits := partsFit test (by simp [Packing.parts])
    have yesFits := partsFit yes (by simp [Packing.parts])
    have noFits := partsFit no (by simp [Packing.parts])
    have testEach : Everywhere P test := packing_everywhere packs split.2 (by simp [Packing.parts])
    have fresh : ∀ v, fits expression v = true → NotComma v → NotChoice v → Everywhere P v →
        Everywhere P (Value.returnStatement v) := by
      intro v vFits notComma notChoice vEach
      refine everywhere_node.mpr ⟨made _ (.result v vFits notComma notChoice), fun field within => ?_⟩
      rw [List.mem_singleton.mp within]
      exact vEach
    have yesEach := ihYes yesFits (packing_everywhere packs split.2 (by simp [Packing.parts])) fresh
    have noEach := ihNo noFits (packing_everywhere packs split.2 (by simp [Packing.parts])) fresh
    have yesOne := one_fits (returned_fits off yesFits _ fun _ => fits_returnStatement).each
    have noOne := one_fits (returned_fits off noFits _ fun _ => fits_returnStatement).each
    intro s member
    rcases List.mem_append.mp member with member | member
    · exact leading_everywhere made only fit each s member
    · exact branched_everywhere made (leading_everywhere made only testFits testEach) testFits
        (fits_statement_of_block (enclosed_fits yesOne))
        (fits_opt.mpr (Or.inr (elseForm_fits noOne))) testEach
        (enclosed_everywhere made (one_everywhere made yesEach))
        (elseForm_everywhere made (one_everywhere made noEach))
        (Or.inr (endsWithoutElse_enclosed yesOne)) s member
  | plain v packs =>
    rw [returned_plain rebuild packs]
    intro s member
    rcases List.mem_append.mp member with member | member
    · exact leading_everywhere made only fit each s member
    · rw [List.mem_singleton.mp member]
      exact rebuilt _ (commaSplit_fits fit).2 (commaSplit_notComma fit) packs
        (commaSplit_everywhere each).2

end

/-! ## Labels -/

/-- A loop is no block. -/
theorem not_leaving_of_looping {label : String} {n last : Value} {leading : List Value}
    (loops : Looping n) : ¬ Leaving label n leading last := by
  rintro ⟨⟨fields, same, -⟩, -⟩
  cases loops with
  | loop _ _ isLoop =>
    cases same
    exact absurd isLoop (by decide)
  | label => simp at same

section

variable {fields : Fields} {label : String} {target body : Value}

/-- The label stays if nothing in front of its statement may leave it. -/
theorem settledLabel_stays (targetIs : fields.lookup "label" = some target)
    (named : Named label target) (bodyIs : fields.lookup "body" = some body)
    (bodyFits : fits statement body = true)
    (stays : ∀ leading last, ¬ Leaving label body leading last) :
    settledLabel (.tagged "LabeledStatement" fields) fields =
      [(Value.tagged "LabeledStatement" fields).withField "body" body] := by
  obtain ⟨found, answer, iff⟩ := leavingBefore_spec targetIs named bodyFits
  cases found with
  | none => simp only [settledLabel, bodyIs, answer, Value.withField_lookup bodyIs]
  | some parts => exact absurd ((iff parts.1 parts.2).mp rfl) (stays _ _)

/-- The label goes to the last statement if those before it may leave it. -/
theorem settledLabel_moves {leading : List Value} {last : Value}
    (targetIs : fields.lookup "label" = some target) (named : Named label target)
    (bodyIs : fields.lookup "body" = some body) (bodyFits : fits statement body = true)
    (leaving : Leaving label body leading last) :
    settledLabel (.tagged "LabeledStatement" fields) fields =
      leading ++ [(Value.tagged "LabeledStatement" fields).withField "body" last] := by
  obtain ⟨found, answer, iff⟩ := leavingBefore_spec targetIs named bodyFits
  obtain rfl := (iff leading last).mpr leaving
  simp only [settledLabel, bodyIs, answer]

end

/-! ## What becomes of a node -/

/-- The last expression of a comma sequence; any other value is itself. -/
def commaLast (v : Value) : Value :=
  match packing v with
  | .comma items => items.getLast?.getD v
  | _ => v

theorem commaLast_comma {v last : Value} {leading : List Value}
    (packs : packing v = .comma (leading ++ [last])) : commaLast v = last := by
  simp [commaLast, packs]

theorem commaLast_plain {v : Value} (notComma : NotComma v) : commaLast v = v := by
  unfold commaLast
  split
  · rename_i items packs
    exact absurd packs (notComma items)
  · rfl

/-- The expressions before the last one of a comma sequence. -/
def leadingOf (v : Value) : List Value :=
  match packing v with
  | .comma items => items.dropLast
  | _ => []

theorem leadingOf_fits {slot : Slot} {v : Value} (fit : fits slot v = true) :
    ∀ part ∈ leadingOf v, fits expression part = true := by
  have parts := packing_fits fit
  intro part member
  unfold leadingOf at member
  split at member
  · rename_i items packs
    exact parts part (by simpa [packs, Packing.parts] using List.dropLast_subset _ member)
  · simp at member

theorem leadingOf_reshapedField {slot : Slot} {v : Value} (fit : fits slot v = true) :
    leadingOf (reshapedField off v) = (leadingOf v).map (reshapedField off) := by
  rw [leadingOf, leadingOf, packing_reshapedField fit]
  cases packing v <;> simp [Packing.map, List.map_dropLast]

/-- What moves out of a field, and what stays there. -/
theorem commaHoisted_eq {tag name : String} {fields : Fields} {v : Value}
    (found : fields.lookup name = some v) :
    commaHoisted off (.tagged tag fields) name v = (leadingOf v).flatMap (unpacked off) ++
      [(Value.tagged tag fields).withField name (commaLast v)] := by
  cases packs : packing v with
  | comma items =>
    cases ends : items.getLast? with
    | some last => simp only [commaHoisted, leadingOf, commaLast, packs, ends, Option.getD_some]
    | none =>
      obtain rfl := List.getLast?_eq_none_iff.mp ends
      simp [commaHoisted, leadingOf, commaLast, packs, Value.withField_lookup found]
  | _ => simp [commaHoisted, leadingOf, commaLast, packs, Value.withField_lookup found]

/-- A loop with the declarators that its head keeps. -/
def keptHead (n init : Value) (kept moved : List Value) : Value :=
  if moved.isEmpty then n
  else n.withField "init"
    (if kept.isEmpty then .null else init.withField "declarations" (.seq kept))

/-- What becomes of the node that a rule is applied to, beside what moves out of it. -/
inductive Remade (off : List String) : String → Fields → Value → Prop where
  | same (tag : String) (fields : Fields)
      (ruleless : off.contains tag = true ∨ tag ∉ settledTags) :
      Remade off tag fields (.tagged tag fields)
  | statement (fields : Fields) (v : Value) (found : fields.lookup "expression" = some v)
      (kept : unpacks off v = false) :
      Remade off "ExpressionStatement" fields (.tagged "ExpressionStatement" fields)
  | branch (fields changed : Fields) (test : Value)
      (names : changed.map Prod.fst = fields.map Prod.fst)
      (formed : Formed "IfStatement" changed) (testIs : changed.lookup "test" = some test)
      (notComma : NotComma test)
      (closed : Lacks changed "alternate" ∨
        ∃ yes, changed.lookup "consequent" = some yes ∧ Rule.endsWithoutElse yes = .ok false) :
      Remade off "IfStatement" fields (.tagged "IfStatement" changed)
  | choose (fields : Fields) (v : Value) (found : fields.lookup "discriminant" = some v) :
      Remade off "SwitchStatement" fields
        ((Value.tagged "SwitchStatement" fields).withField "discriminant" (commaLast v))
  | loop (fields : Fields) (v : Value) (found : fields.lookup "init" = some v)
      (notVar : isVar v = false) :
      Remade off "ForStatement" fields
        ((Value.tagged "ForStatement" fields).withField "init" (commaLast v))
  | declare (fields initFields : Fields) (declarators kept moved : List Value)
      (found : fields.lookup "init" = some (.tagged "VariableDeclaration" initFields))
      (isVar : isVar (.tagged "VariableDeclaration" initFields) = true)
      (split : HeadSplit fields initFields declarators kept moved) :
      Remade off "ForStatement" fields (keptHead (.tagged "ForStatement" fields)
        (.tagged "VariableDeclaration" initFields) kept moved)
  | stay (fields : Fields)
      (stays : settledLabel (.tagged "LabeledStatement" fields) fields =
        [.tagged "LabeledStatement" fields]) :
      Remade off "LabeledStatement" fields (.tagged "LabeledStatement" fields)
  | relabel (fields : Fields) (body last : Value) (found : fields.lookup "body" = some body)
      (fit : fits statement last = true) (loops : Looping last) :
      Remade off "LabeledStatement" fields
        ((Value.tagged "LabeledStatement" fields).withField "body" last)
  | leave (fields : Fields) (lacks : Lacks fields "argument") :
      Remade off "ReturnStatement" fields (.tagged "ReturnStatement" fields)
  | result (fields : Fields) (argument v : Value) (found : fields.lookup "argument" = some argument)
      (fit : fits expression v = true) (notComma : NotComma v) (notChoice : NotChoice v) :
      Remade off "ReturnStatement" fields
        ((Value.tagged "ReturnStatement" fields).withField "argument" v)
  | compare (fields : Fields) (n : Value) (formed : Formed "BinaryExpression" fields)
      (answer : Rule.turnComparison (.tagged "BinaryExpression" fields) = .ok n) :
      Remade off "BinaryExpression" fields n
  | operate (fields : Fields)
      (answer : Rule.evaluateUnary (.tagged "UnaryExpression" fields) =
        .ok (.tagged "UnaryExpression" fields)) :
      Remade off "UnaryExpression" fields (.tagged "UnaryExpression" fields)

/-- The node keeps its tag, and its fields keep their names and their order. -/
theorem Remade.names {tag : String} {fields : Fields} {n : Value} (remade : Remade off tag fields n) :
    ∃ changed, n = .tagged tag changed ∧ changed.map Prod.fst = fields.map Prod.fst := by
  cases remade with
  | same | statement | stay | leave | operate => exact ⟨fields, rfl, rfl⟩
  | branch _ changed _ names => exact ⟨changed, rfl, names⟩
  | choose _ v found | loop _ v found | relabel _ v _ found | result _ v _ found =>
    exact ⟨_, rfl, Fields.map_fst_set _ found⟩
  | declare _ _ _ _ _ found =>
    unfold keptHead
    split
    · exact ⟨fields, rfl, rfl⟩
    · exact ⟨_, rfl, Fields.map_fst_set _ found⟩
  | compare _ _ formed answer =>
    obtain ⟨m, same, turns⟩ := turnComparison_turns formed
    rw [answer] at same
    cases same
    cases turns with
    | keep => exact ⟨fields, rfl, rfl⟩
    | turn operator mirrored left right operatorIs mirrors leftIs rightIs =>
      have leftThere : (Fields.set "operator" (.str mirrored) fields).lookup "left" = some left := by
        rw [Fields.lookup_set_of_ne _ _ (by decide), leftIs]
      have rightThere : (Fields.set "left" right
          (Fields.set "operator" (.str mirrored) fields)).lookup "right" = some right := by
        rw [Fields.lookup_set_of_ne _ _ (by decide), Fields.lookup_set_of_ne _ _ (by decide), rightIs]
      exact ⟨_, rfl, (Fields.map_fst_set _ rightThere).trans
        ((Fields.map_fst_set _ leftThere).trans (Fields.map_fst_set _ operatorIs))⟩

section

variable {P : Value → Prop} {fields : Fields} (only : OnlyComparisons off)
  (made : ∀ n, Made n → P n) (each : Throughout P fields)

include only made each

theorem settledExpression_everywhere (formed : Formed "ExpressionStatement" fields)
    (own : ∀ m, Remade off "ExpressionStatement" fields m → P m) :
    ∀ s ∈ settledExpression off (.tagged "ExpressionStatement" fields) fields, Everywhere P s := by
  obtain ⟨v, vIs, vFits⟩ := formed.required
    (show (fieldsOf "ExpressionStatement").lookup "expression" = some expression from rfl) rfl
  simp only [settledExpression, vIs]
  split
  · exact unpacked_everywhere made only vFits (each.lookup vIs)
  · rename_i kept
    intro s member
    rw [List.mem_singleton.mp member]
    exact everywhere_node.mpr ⟨own _ (.statement fields v vIs (by simpa using kept)), each⟩

/-- A branch is made again with its test and with its branches, and each time the property holds of
it. -/
theorem settledIf_everywhere (formed : Formed "IfStatement" fields)
    (own : ∀ m, Remade off "IfStatement" fields m → P m) :
    ∀ s ∈ settledIf off (.tagged "IfStatement" fields) fields, Everywhere P s := by
  obtain ⟨test, testIs, testFits⟩ := formed.required
    (show (fieldsOf "IfStatement").lookup "test" = some expression from rfl) rfl
  obtain ⟨yes, yesIs, yesFits⟩ := formed.required
    (show (fieldsOf "IfStatement").lookup "consequent" = some statement from rfl) rfl
  have testEach := each.lookup testIs
  have notComma := commaSplit_notComma testFits
  have split := commaSplit_fits testFits
  -- The branch with its new test, before braces.
  have names := Fields.map_fst_set (commaSplit test).2 testIs
  have changedFormed : Formed "IfStatement" (Fields.set "test" (commaSplit test).2 fields) :=
    formed.set split.2 rfl
  have changedEach := @Throughout.set P fields "test" _ each (commaSplit_everywhere testEach).2
  have changedTest := Fields.lookup_set_self "test" (commaSplit test).2 fields
  have changedYes : (Fields.set "test" (commaSplit test).2 fields).lookup "consequent" = some yes := by
    rw [Fields.lookup_set_of_ne _ _ (by decide), yesIs]
  have changedNo : (Fields.set "test" (commaSplit test).2 fields).lookup "alternate" =
      fields.lookup "alternate" := Fields.lookup_set_of_ne _ _ (by decide)
  simp only [settledIf, testIs]
  intro s member
  rcases List.mem_append.mp member with member | member
  · exact leading_everywhere made only testFits testEach s member
  rw [List.mem_singleton.mp member]
  rcases formed.optional
    (show (fieldsOf "IfStatement").lookup "alternate" = some (.opt statementTags) from rfl) with
    missing | ⟨no, noIs, noFits, -⟩
  · rw [braced_without _ missing]
    refine everywhere_node.mpr ⟨own _ (.branch fields _ _ names changedFormed changedTest notComma ?_),
      changedEach⟩
    left
    rw [Lacks, changedNo]
    cases found : fields.lookup "alternate" with
    | none => exact Or.inl rfl
    | some v =>
      cases v with
      | null => exact Or.inr rfl
      | _ => simp [Value.optional, found] at missing
  · obtain ⟨b, ends⟩ := endsWithoutElse_ok yes yesFits
    rw [braced_with _ yesIs noIs noFits ends]
    cases b with
    | false =>
      exact everywhere_node.mpr ⟨own _ (.branch fields _ _ names changedFormed changedTest notComma
        (Or.inr ⟨yes, changedYes, ends⟩)), changedEach⟩
    | true =>
      have block := fits_statement_of_block (enclosed_fits yesFits)
      have yesEach := enclosed_everywhere made (each.lookup yesIs)
      refine everywhere_node.mpr ⟨own _ (.branch fields _ _ ?_ (changedFormed.set block rfl) ?_ notComma
        (Or.inr ⟨_, Fields.lookup_set_self .., endsWithoutElse_enclosed yesFits⟩)),
        changedEach.set yesEach⟩
      · rw [Fields.map_fst_set _ changedYes, names]
      · rw [Fields.lookup_set_of_ne _ _ (by decide), changedTest]

/-- Moving a comma sequence out of a node keeps the property. -/
theorem commaHoisted_everywhere {tag name : String} {v : Value}
    (found : fields.lookup name = some v) (fit : fits expression v = true)
    (own : P ((Value.tagged tag fields).withField name (commaLast v))) :
    ∀ s ∈ commaHoisted off (.tagged tag fields) name v, Everywhere P s := by
  rcases comma_cases fit with ⟨leading, last, packs, -, -⟩ | ⟨notComma, -⟩
  · have partsFit := packs ▸ packing_fits fit
    have partsEach : ∀ part ∈ leading ++ [last], Everywhere P part :=
      fun part => packing_everywhere packs (each.lookup found)
    rw [commaHoisted_comma _ _ packs]
    rw [commaLast_comma packs] at own
    intro s member
    rcases List.mem_append.mp member with member | member
    · exact unpackedAll_everywhere made only
        (fun part among => partsFit part (List.mem_append_left _ among))
        (fun part among => partsEach part (List.mem_append_left _ among)) s member
    · rw [List.mem_singleton.mp member]
      exact each.withField (partsEach last (by simp)) own
  · rw [commaHoisted_plain _ _ notComma]
    rw [commaLast_plain notComma, Value.withField_lookup found] at own
    intro s member
    rw [List.mem_singleton.mp member]
    exact everywhere_node.mpr ⟨own, each⟩

theorem settledSwitch_everywhere (formed : Formed "SwitchStatement" fields)
    (own : ∀ m, Remade off "SwitchStatement" fields m → P m) :
    ∀ s ∈ settledSwitch off (.tagged "SwitchStatement" fields) fields, Everywhere P s := by
  obtain ⟨v, vIs, vFits⟩ := formed.required
    (show (fieldsOf "SwitchStatement").lookup "discriminant" = some expression from rfl) rfl
  simp only [settledSwitch, vIs]
  exact commaHoisted_everywhere only made each vIs vFits (own _ (.choose fields v vIs))

omit only in
/-- A loop whose declarators were split keeps the property. -/
theorem hoistedFrom_everywhere {initFields : Fields} {declarators kept moved : List Value}
    (found : fields.lookup "init" = some (.tagged "VariableDeclaration" initFields))
    (initFormed : Formed "VariableDeclaration" initFields)
    (kindIs : initFields.lookup "kind" = some (.str "var"))
    (split : HeadSplit fields initFields declarators kept moved)
    (own : P (keptHead (.tagged "ForStatement" fields) (.tagged "VariableDeclaration" initFields)
      kept moved)) :
    ∀ s ∈ hoistedFrom (.tagged "ForStatement" fields) (.tagged "VariableDeclaration" initFields)
      kept moved, Everywhere P s := by
  have initEach := each.lookup found
  have declaratorsEach : ∀ d ∈ declarators, Everywhere P d :=
    fun d => initEach.below.member split.declared
  unfold hoistedFrom
  unfold keptHead at own
  split
  · rename_i none
    rw [if_pos none] at own
    intro s member
    rw [List.mem_singleton.mp member]
    exact everywhere_node.mpr ⟨own, each⟩
  · rename_i some
    rw [if_neg some] at own
    intro s member
    simp only [List.mem_cons, List.not_mem_nil, or_false] at member
    rcases member with rfl | rfl
    · have movedFormed := (fits_node.mp
        (fits_variableDeclaration fun d among => split.each d (split.splits.mem_moved among))).2
      refine everywhere_node.mpr ⟨made _ (.declaration _ movedFormed rfl), fun field within => ?_⟩
      simp only [List.mem_cons, List.not_mem_nil, or_false] at within
      rcases within with rfl | rfl
      · exact everywhere_seq.mpr fun d among => declaratorsEach d (split.splits.mem_moved among)
      · exact .of_walk_nil rfl
    · refine each.withField ?_ own
      split
      · exact .of_walk_nil rfl
      · have keptFits : fits (.many ["VariableDeclarator"]) (.seq kept) = true :=
          fits_many.mpr ⟨kept, rfl, fun d among => split.each d (split.splits.mem_kept among)⟩
        refine initEach.below.withField (everywhere_seq.mpr fun d among => ?_)
          (made _ (.declaration _ (initFormed.set keptFits rfl) ?_))
        · exact declaratorsEach d (split.splits.mem_kept among)
        · rw [Fields.lookup_set_of_ne _ _ (by decide), kindIs]

/-- A loop is made again with what is left of its head. -/
theorem settledFor_everywhere (formed : Formed "ForStatement" fields)
    (own : ∀ m, Remade off "ForStatement" fields m → P m) :
    ∀ s ∈ settledFor off (.tagged "ForStatement" fields) fields, Everywhere P s := by
  obtain ⟨init, initIs, initFits⟩ := formed.required (show (fieldsOf "ForStatement").lookup "init" =
    some (.maybe ("VariableDeclaration" :: expressionTags)) from rfl) rfl
  have unchanged : commaLast init = init → isVar init = false →
      ∀ s ∈ [Value.tagged "ForStatement" fields], Everywhere P s := by
    intro last notVar s member
    have kept := own _ (.loop fields init initIs notVar)
    rw [last, Value.withField_lookup initIs] at kept
    rw [List.mem_singleton.mp member]
    exact everywhere_node.mpr ⟨kept, each⟩
  simp only [settledFor, initIs]
  rcases fits_maybe.mp initFits with rfl | initFits
  · exact unchanged rfl rfl
  · obtain ⟨tag, inner, rfl, admitted, initFormed⟩ := fits_one.mp initFits
    rcases List.mem_cons.mp admitted with rfl | admitted
    · split
      · rename_i declares
        obtain ⟨declarators, kept, moved, split⟩ := headSplit_exists formed initFormed
        obtain ⟨kind, kindIs⟩ := initFormed.text
          (show (fieldsOf "VariableDeclaration").lookup "kind" = some .text from rfl)
        have kindVar : kind = "var" := by simpa [isVar, kindIs] using declares
        rw [split.hoists]
        exact hoistedFrom_everywhere made each initIs initFormed (kindVar ▸ kindIs) split
          (own _ (.declare fields inner declarators kept moved initIs declares split))
      · rename_i declares
        exact unchanged rfl (by simpa using declares)
    · have isExpression : fits expression (.tagged tag inner) = true :=
        fits_node.mpr ⟨admitted, initFormed⟩
      have notVar : isVar (.tagged tag inner) = false := isVar_expression isExpression
      rw [notVar, if_neg (by simp)]
      exact commaHoisted_everywhere only made each initIs isExpression
        (own _ (.loop fields _ initIs notVar))

omit only made in
/-- A label is made again around another statement. -/
theorem settledLabel_everywhere (formed : Formed "LabeledStatement" fields)
    (own : ∀ m, Remade off "LabeledStatement" fields m → P m) :
    ∀ s ∈ settledLabel (.tagged "LabeledStatement" fields) fields, Everywhere P s := by
  obtain ⟨label, target, body, targetIs, named, bodyIs, bodyFits⟩ := label_fields formed
  obtain ⟨found, answer, spec⟩ := leavingBefore_spec targetIs named bodyFits
  cases found with
  | none =>
    have stays : settledLabel (.tagged "LabeledStatement" fields) fields =
        [.tagged "LabeledStatement" fields] := by
      simp only [settledLabel, bodyIs, answer]
    rw [stays]
    intro s member
    rw [List.mem_singleton.mp member]
    exact everywhere_node.mpr ⟨own _ (.stay fields stays), each⟩
  | some parts =>
    obtain ⟨leading, last⟩ := parts
    have leaving := (spec leading last).mp rfl
    obtain ⟨inner, rfl, itemsAre⟩ := leaving.block
    have itemsFit := (fits_node.mp bodyFits).2.fits_lookup itemsAre
    obtain ⟨items, same, eachFits⟩ := fits_many.mp itemsFit
    cases same
    have itemsEach : ∀ item ∈ leading ++ [last], Everywhere P item :=
      fun item => (each.lookup bodyIs).below.member itemsAre
    rw [settledLabel_moves targetIs named bodyIs bodyFits leaving]
    intro s member
    rcases List.mem_append.mp member with member | member
    · exact itemsEach s (List.mem_append_left _ member)
    · rw [List.mem_singleton.mp member]
      exact each.withField (itemsEach last (by simp))
        (own _ (.relabel fields _ last bodyIs (eachFits last (by simp)) leaving.loops))

/-- A return is made again with what is left of its argument. -/
theorem settledReturn_everywhere (formed : Formed "ReturnStatement" fields)
    (own : ∀ m, Remade off "ReturnStatement" fields m → P m) :
    ∀ s ∈ settledReturn off (.tagged "ReturnStatement" fields) fields, Everywhere P s := by
  have unchanged : Lacks fields "argument" →
      ∀ s ∈ [Value.tagged "ReturnStatement" fields], Everywhere P s := by
    intro lacks s member
    rw [List.mem_singleton.mp member]
    exact everywhere_node.mpr ⟨own _ (.leave fields lacks), each⟩
  cases found : fields.lookup "argument" with
  | none => simpa only [settledReturn, found] using unchanged (Or.inl found)
  | some argument =>
    rcases fits_opt.mp (formed.fits_lookup found) with rfl | argumentFits
    · simpa only [settledReturn, found] using unchanged (Or.inr found)
    · have returns := returned_everywhere made only argumentFits (each.lookup found)
        fun v vFits notComma notChoice vEach =>
          each.withField vEach (own _ (.result fields argument v found vFits notComma notChoice))
      obtain ⟨_, _, rfl, -⟩ := fits_one.mp argumentFits
      simpa only [settledReturn, found] using returns

omit only made in
/-- A comparison is made again with its operands exchanged. -/
theorem turned_everywhere (formed : Formed "BinaryExpression" fields)
    (own : ∀ m, Remade off "BinaryExpression" fields m → P m) {n : Value}
    (answer : Rule.turnComparison (.tagged "BinaryExpression" fields) = .ok n) :
    Everywhere P n := by
  have holds := own n (.compare fields n formed answer)
  obtain ⟨m, same, turns⟩ := turnComparison_turns formed
  rw [answer] at same
  cases same
  cases turns with
  | keep => exact everywhere_node.mpr ⟨holds, each⟩
  | turn operator mirrored left right operatorIs mirrors leftIs rightIs reverses =>
    have turned := @Throughout.set P fields "operator" (.str mirrored) each (.of_walk_nil rfl)
    exact everywhere_node.mpr ⟨holds, (turned.set (each.lookup rightIs)).set (each.lookup leftIs)⟩

omit only in
/-- A folded constant has no nodes below it. -/
theorem folded_everywhere (formed : Formed "UnaryExpression" fields)
    (own : ∀ m, Remade off "UnaryExpression" fields m → P m) {n : Value}
    (answer : Rule.evaluateUnary (.tagged "UnaryExpression" fields) = .ok n) :
    Everywhere P n := by
  obtain ⟨m, same, folds⟩ := evaluateUnary_folds formed
  rw [answer] at same
  cases same
  cases folds with
  | keep => exact everywhere_node.mpr ⟨own _ (.operate fields answer), each⟩
  | truth _ _ b =>
    cases b <;>
      exact fun n member => List.mem_singleton.mp member ▸ made _ (.truth _)
  | absent => exact fun n member => List.mem_singleton.mp member ▸ made _ .absent

/-- What takes the place of a node with finished children keeps the property. -/
theorem settled_everywhere {tag : String} (formed : Formed tag fields)
    (own : ∀ m, Remade off tag fields m → P m) :
    ∀ s ∈ settled off (.tagged tag fields), Everywhere P s := by
  have unchanged : off.contains tag = true ∨ tag ∉ settledTags →
      ∀ s ∈ [Value.tagged tag fields], Everywhere P s := by
    intro ruleless s member
    rw [List.mem_singleton.mp member]
    exact everywhere_node.mpr ⟨own _ (.same tag fields ruleless), each⟩
  by_cases settles : tag ∈ settledTags
  · simp only [settled]
    split
    · rename_i removed
      exact unchanged (Or.inl removed)
    · simp only [settledTags, List.mem_cons, List.not_mem_nil, or_false] at settles
      rcases settles with rfl | rfl | rfl | rfl | rfl | rfl | rfl | rfl
      · exact settledExpression_everywhere only made each formed own
      · exact settledIf_everywhere only made each formed own
      · exact settledSwitch_everywhere only made each formed own
      · exact settledFor_everywhere only made each formed own
      · exact settledLabel_everywhere each formed own
      · exact settledReturn_everywhere only made each formed own
      · obtain ⟨n, answer, -⟩ := turnComparison_turns formed
        simp only [settledBy, answer]
        intro s member
        rw [List.mem_singleton.mp member]
        exact turned_everywhere each formed own answer
      · obtain ⟨n, answer, -⟩ := evaluateUnary_folds formed
        simp only [settledBy, answer]
        intro s member
        rw [List.mem_singleton.mp member]
        exact folded_everywhere made each formed own answer
  · rw [settled_other off fields settles]
    exact unchanged (Or.inr settles)

end

/-! ## Whole trees -/

/-- A property that holds of what the rules make, and of what they make of every node with a
property of its own, holds everywhere in what becomes of a tree. -/
theorem reshaped_everywhere {P Q : Value → Prop} (only : OnlyComparisons off)
    (made : ∀ n, Made n → P n)
    (own : ∀ tag fields, Formed tag fields → Q (.tagged tag fields) →
      ∀ m, Remade off tag (reshapedFields off fields) m → P m)
    {tag : String} (fields : Fields) (formed : Formed tag fields)
    (each : Everywhere Q (.tagged tag fields)) :
    ∀ s ∈ reshaped off (.tagged tag fields), Everywhere P s := by
  induction formed using formed_induction with
  | step tag fields formed inner =>
    have below {name : String} {v : Value} {tag' : String} {inside : Fields}
        (member : (name, v) ∈ fields) (held : heldBy v tag' inside) (insideFormed : Formed tag' inside) :
        ∀ s ∈ reshaped off (.tagged tag' inside), Everywhere P s :=
      inner name v member tag' inside held insideFormed ((each.below _ member).held held)
    have fieldsEach : Throughout P (reshapedFields off fields) := by
      intro field member
      rw [reshapedFields_eq] at member
      obtain ⟨⟨name, v⟩, original, rfl⟩ := List.mem_map.mp member
      have fit := fitFields_iff.mp formed.fitted _ original
      cases v with
      | node tag' inside =>
        obtain ⟨text, rfl, insideFormed⟩ := formed_of_fits fit
        exact one_everywhere made (below original (Or.inl rfl) insideFormed)
      | seq items =>
        refine everywhere_seq.mpr fun s among => ?_
        rw [reshapedItems_eq] at among
        obtain ⟨item, itemMember, within⟩ := List.mem_flatMap.mp among
        rcases member_of_fits fit itemMember with ⟨text, inside, rfl, insideFormed⟩ | empty
        · exact below original (Or.inr ⟨items, rfl, itemMember⟩) insideFormed s within
        · cases item with
          | node => simp [Value.walk] at empty
          | _ =>
            rw [List.mem_singleton.mp within]
            exact .of_walk_nil empty
      | _ => exact .of_walk_nil rfl
    exact settled_everywhere only made fieldsEach (reshapedFields_formed off fields formed)
      (own tag fields formed each.own)

/-- The same of a whole program. -/
theorem prettify_everywhere {P Q : Value → Prop} (only : OnlyComparisons off)
    (made : ∀ n, Made n → P n)
    (own : ∀ tag fields, Formed tag fields → Q (.tagged tag fields) →
      ∀ m, Remade off tag (reshapedFields off fields) m → P m)
    {program : Value} (formed : WellFormed program) (each : Everywhere Q program) :
    ∃ result, prettify (Registry.builtin.without off) program = .ok result ∧ WellFormed result ∧
      Everywhere P result := by
  obtain ⟨fields, rfl, programFormed, whole, answer, resultFormed⟩ := prettify_program off formed
  refine ⟨_, answer, resultFormed, ?_⟩
  apply reshaped_everywhere only made own fields programFormed each
  rw [whole]
  exact List.mem_singleton_self _

end Untangle.Reshape
