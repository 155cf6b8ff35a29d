import Untangle.Proofs.Reshape.Functions

/-!
# Directives

The directives of a program or a function are the text literals that stand as statements in front of
its body. No rule touches such a statement, so they all stay. A text literal that is merely computed
may become a directive, when it is the first expression to be moved out of the first statement after
the directives: `"use strict", f();` becomes `"use strict"; f();`. Nothing else makes one.

* `Opens` and `Exposes` say of which expressions and statements a text literal comes out first.
* `reshaped_keepsPrologue` is the statement about a body, `prettify_keeps_directives` about a whole
  program and the functions in it.
-/

namespace Untangle.Reshape

open Syntax

/-- Whether an expression is the literal of a text. -/
def isTextLiteral : Value → Bool
  | .node (.str "Literal") fields =>
    match fields.lookup "value" with
    | some (.str _) => true
    | _ => false
  | _ => false

/-- Whether a statement is a text literal and nothing else. -/
def isDirective : Value → Bool
  | .node (.str "ExpressionStatement") fields => (fields.lookup "expression").any isTextLiteral
  | _ => false

/-- The directives in front of a body. -/
def prologue (body : List Value) : List Value :=
  body.takeWhile isDirective

/-- The statements of a body: the members of a sequence or a block, or what stands for a block. -/
def statementsAt : Value → List Value
  | .seq items => items
  | .node (.str "BlockStatement") fields =>
    match fields.lookup "body" with
    | some (.seq items) => items
    | _ => []
  | v => [v]

def statementsOf : Value → List Value
  | .node _ fields => ((fields.lookup "body").map statementsAt).getD []
  | _ => []

/-- An expression out of which a text literal comes first when it is unpacked. -/
inductive Opens : Value → Prop where
  | text {v : Value} (isText : isTextLiteral v = true) : Opens v
  | comma {v first : Value} {rest : List Value} (packs : packing v = .comma (first :: rest))
      (opens : Opens first) : Opens v
  | choice {v test yes no first : Value} {rest : List Value}
      (packs : packing v = .choice test yes no) (leads : (commaSplit test).1 = first :: rest)
      (opens : Opens first) : Opens v
  | guard {v test body first : Value} {rest : List Value} (packs : packing v = .guard test body)
      (leads : (commaSplit test).1 = first :: rest) (opens : Opens first) : Opens v

/-- The expressions that a return computes before it branches or returns. -/
def leadingOfResult (v : Value) : List Value :=
  (commaSplit v).1 ++
    match packing (commaSplit v).2 with
    | .choice test _ _ => (commaSplit test).1
    | _ => []

def takenFrom (take : Value → List Value) (name : String) (fields : Fields) : List Value :=
  ((fields.lookup name).map take).getD []

/-- The expressions whose statements stand first in the place of a statement. -/
def movedOut : Value → List Value
  | .node (.str "ExpressionStatement") fields => takenFrom (fun v => [v]) "expression" fields
  | .node (.str "IfStatement") fields => takenFrom (fun v => (commaSplit v).1) "test" fields
  | .node (.str "SwitchStatement") fields => takenFrom leadingOf "discriminant" fields
  | .node (.str "ForStatement") fields => takenFrom leadingOf "init" fields
  | .node (.str "ReturnStatement") fields => takenFrom leadingOfResult "argument" fields
  | _ => []

/-- A statement that may put a text literal in front of what it becomes. A label does so when the
statements in front of its loop leave it. -/
inductive Exposes : Value → Prop where
  | moved {s first : Value} {rest : List Value} (leads : movedOut s = first :: rest)
      (opens : Opens first) : Exposes s
  | label {fields : Fields} {body first : Value} {rest : List Value}
      (bodyIs : fields.lookup "body" = some body) (leads : statementsAt body = first :: rest)
      (exposes : Exposes first) : Exposes (.tagged "LabeledStatement" fields)

/-- The directives of the first body are in front of the second one. More come after them only if the
first statement that is no directive exposes a text literal. -/
def KeepsPrologue (before after : List Value) : Prop :=
  ∃ created, prologue after = prologue before ++ created ∧
    (created ≠ [] → ∃ s, (before.dropWhile isDirective).head? = some s ∧ Exposes s)

/-! ## What stands first -/

theorem prologue_cons_ne_nil {s : Value} {rest : List Value} :
    prologue (s :: rest) ≠ [] ↔ isDirective s = true := by
  unfold prologue
  by_cases directive : isDirective s = true <;> simp [directive]

/-- Whether a body starts with directives is decided by its first statement. -/
theorem prologue_append_ne_nil {first second : List Value} (nonempty : first ≠ [])
    (directives : prologue (first ++ second) ≠ []) : prologue first ≠ [] := by
  cases first with
  | nil => exact absurd rfl nonempty
  | cons s rest => exact prologue_cons_ne_nil.mpr (prologue_cons_ne_nil.mp directives)

variable {off : List String}

/-- A directive in front of moved statements comes out of the first expression. -/
theorem prologue_moved {parts rest : List Value}
    (each : ∀ part ∈ parts, fits expression part = true) (plain : prologue rest = [])
    (directives : prologue (parts.flatMap (unpacked off) ++ rest) ≠ []) :
    ∃ first others, parts = first :: others ∧ fits expression first = true ∧
      prologue (unpacked off first) ≠ [] := by
  cases parts with
  | nil => exact absurd plain directives
  | cons first others =>
    have firstFits := each first (by simp)
    rw [List.flatMap_cons, List.append_assoc] at directives
    exact ⟨first, others, rfl, firstFits,
      prologue_append_ne_nil (unpacked_fits off firstFits).nonempty directives⟩

theorem isDirective_expressionStatement (v : Value) :
    isDirective (Value.expressionStatement v) = isTextLiteral v := rfl

/-- If the statements of an expression start with a directive, the expression opens with a text. -/
theorem opens_of_prologue {v : Value} (fit : fits expression v = true)
    (directives : prologue (unpacked [] v) ≠ []) : Opens v := by
  induction v using unpacked_induction [] with
  | comma v items packs ih =>
    have each := unpacking_fits fit packs
    rw [unpacked_comma packs, ← List.append_nil (items.flatMap _)] at directives
    obtain ⟨first, others, rfl, firstFits, leads⟩ := prologue_moved each rfl directives
    exact .comma (packing_of_unpacking packs (by simp)) (ih first (by simp) firstFits leads)
  | choice v test yes no packs ihTest ihYes ihNo =>
    have testFits := unpacking_fits fit packs test (by simp [Packing.parts])
    rw [unpacked_choice packs] at directives
    obtain ⟨first, others, leads, firstFits, opens⟩ :=
      prologue_moved (commaSplit_fits testFits).1 rfl directives
    exact .choice (packing_of_unpacking packs (by simp)) leads
      (ihTest first (leads ▸ List.mem_cons_self) firstFits opens)
  | guard v test body packs ihTest ihBody =>
    have testFits := unpacking_fits fit packs test (by simp [Packing.parts])
    rw [unpacked_guard packs] at directives
    obtain ⟨first, others, leads, firstFits, opens⟩ :=
      prologue_moved (commaSplit_fits testFits).1 rfl directives
    exact .guard (packing_of_unpacking packs (by simp)) leads
      (ihTest first (leads ▸ List.mem_cons_self) firstFits opens)
  | fallback v test body packs ih =>
    rw [unpacked_fallback packs] at directives
    exact absurd rfl directives
  | plain v packs =>
    rw [unpacked_plain packs, asStatement_expression fit, prologue_cons_ne_nil,
      isDirective_expressionStatement] at directives
    exact .text directives

/-! ## Reshaped expressions -/

theorem isTextLiteral_reshaped {slot : Slot} {v : Value} (fit : fits slot v = true)
    (isText : isTextLiteral (reshapedField [] v) = true) : isTextLiteral v = true := by
  cases v with
  | node tag fields =>
    obtain ⟨tag, rfl, formed⟩ := formed_of_fits fit
    by_cases isUnary : tag = "UnaryExpression"
    · subst isUnary
      have folds := @reshapedField_folds [] _ formed
      generalize reshapedField [] (.tagged "UnaryExpression" fields) = folded at folds isText
      cases folds <;> cases isText
    · obtain ⟨other, inner, same, among, -⟩ := fits_one.mp (reshaped_fits [] formed).one_fits
      have whole : reshapedField [] (.tagged tag fields) = .tagged other inner := same
      obtain rfl : other = "Literal" := by
        rw [whole] at isText
        unfold isTextLiteral at isText
        split at isText
        · rename_i literal
          cases literal
          rfl
        · cases isText
      have literal : tag = "Literal" := by
        unfold outcomes at among
        rw [if_neg isUnary] at among
        split at among
        · exact absurd among (by decide)
        · exact (List.mem_singleton.mp among).symm
      subst literal
      rw [reshapedField_other [] fields (by decide)] at isText
      simpa only [isTextLiteral, lookup_reshaped_bare formed
        (show slotOf "Literal" "value" = .bare ∨ _ from Or.inl rfl)] using isText
  | _ => exact isText

/-- A reshaped comma sequence is split as it was. -/
theorem commaSplit_reshapedField {slot : Slot} {v : Value} (fit : fits slot v = true) :
    commaSplit (reshapedField off v) =
      ((commaSplit v).1.map (reshapedField off), reshapedField off (commaSplit v).2) := by
  have packs := @packing_reshapedField off _ _ fit
  fun_induction commaSplit v generalizing slot with
  | case1 v items comma final last ih =>
    obtain ⟨leading, rfl⟩ := List.getLast?_eq_some_iff.mp last
    have finalFits := packing_fits fit final (by simp [comma, Packing.parts])
    rw [comma, Packing.map, List.map_append, List.map_singleton] at packs
    rw [commaSplit_comma packs, ih finalFits (packing_reshapedField finalFits)]
    simp
  | case2 v items comma last =>
    obtain rfl := List.getLast?_eq_none_iff.mp last
    rw [comma] at packs
    rw [commaSplit]
    split
    · rename_i others same
      obtain rfl : others = [] := by simpa [packs, Packing.map] using same.symm
      rfl
    · rfl
  | case3 v plain =>
    refine commaSplit_plain fun items comma => ?_
    rw [packs] at comma
    cases original : packing v with
    | comma others => exact plain others original
    | _ => simp [original, Packing.map] at comma

theorem head_commaSplit_reshaped {slot : Slot} {v first : Value} {rest : List Value}
    (fit : fits slot v = true) (leads : (commaSplit (reshapedField off v)).1 = first :: rest) :
    ∃ source others, (commaSplit v).1 = source :: others ∧ reshapedField off source = first := by
  rw [commaSplit_reshapedField fit] at leads
  obtain ⟨source, others, split, same, -⟩ := List.map_eq_cons_iff.mp leads
  exact ⟨source, others, split, same⟩

/-- An expression that opens with a text after reshaping did so before. -/
theorem opens_of_reshaped {v : Value} (fit : fits expression v = true)
    (opens : Opens (reshapedField [] v)) : Opens v := by
  generalize same : reshapedField [] v = reshapedV at opens
  induction opens generalizing v with
  | text isText => exact .text (isTextLiteral_reshaped fit (same ▸ isText))
  | comma packs _ ih =>
    rw [← same, packing_reshapedField fit] at packs
    have parts := packing_fits fit
    cases original : packing v with
    | comma items =>
      rw [original] at packs parts
      obtain ⟨source, others, rfl, sourceIs, -⟩ := List.map_eq_cons_iff.mp (Packing.comma.inj packs)
      exact .comma original (ih (parts source (by simp [Packing.parts])) sourceIs)
    | _ => simp [original, Packing.map] at packs
  | choice packs leads _ ih =>
    rw [← same, packing_reshapedField fit] at packs
    have parts := packing_fits fit
    cases original : packing v with
    | choice test yes no =>
      rw [original] at packs parts
      obtain ⟨rfl, -, -⟩ := Packing.choice.inj packs
      have testFits := parts test (by simp [Packing.parts])
      obtain ⟨source, others, split, sourceIs⟩ := head_commaSplit_reshaped testFits leads
      exact .choice original split
        (ih ((commaSplit_fits testFits).1 source (split ▸ List.mem_cons_self)) sourceIs)
    | _ => simp [original, Packing.map] at packs
  | guard packs leads _ ih =>
    rw [← same, packing_reshapedField fit] at packs
    have parts := packing_fits fit
    cases original : packing v with
    | guard test body =>
      rw [original] at packs parts
      obtain ⟨rfl, -⟩ := Packing.guard.inj packs
      have testFits := parts test (by simp [Packing.parts])
      obtain ⟨source, others, split, sourceIs⟩ := head_commaSplit_reshaped testFits leads
      exact .guard original split
        (ih ((commaSplit_fits testFits).1 source (split ▸ List.mem_cons_self)) sourceIs)
    | _ => simp [original, Packing.map] at packs

/-! ## Expressions that are moved out -/

theorem leadingOfResult_fits {v : Value} (fit : fits expression v = true) :
    ∀ part ∈ leadingOfResult v, fits expression part = true := by
  obtain ⟨leadingFit, lastFits⟩ := commaSplit_fits fit
  intro part member
  rcases List.mem_append.mp member with leads | inTest
  · exact leadingFit part leads
  · split at inTest
    · rename_i test yes no packs
      have testFits := packing_fits lastFits test (by simp [packs, Packing.parts])
      exact (commaSplit_fits testFits).1 part inTest
    · simp at inTest

theorem leadingOfResult_reshapedField {v : Value} (fit : fits expression v = true) :
    leadingOfResult (reshapedField off v) = (leadingOfResult v).map (reshapedField off) := by
  have lastFits := (commaSplit_fits fit).2
  have parts := packing_fits lastFits
  rw [leadingOfResult, leadingOfResult, commaSplit_reshapedField fit]
  dsimp only
  rw [packing_reshapedField lastFits]
  cases packs : packing (commaSplit v).2 with
  | choice test yes no =>
    have testFits := parts test (by simp [packs, Packing.parts])
    simp only [Packing.map, commaSplit_reshapedField testFits, List.map_append]
  | _ => simp [Packing.map]

/-- A return of nothing moves nothing. -/
theorem leadingOfResult_null : leadingOfResult .null = [] := by
  rw [leadingOfResult, commaSplit_plain fun items packs => by cases packs]
  rfl

theorem takenFrom_fits {take : Value → List Value} {tag name : String} {fields : Fields}
    (formed : Formed tag fields)
    (each : ∀ v, fits (slotOf tag name) v = true → ∀ part ∈ take v, fits expression part = true) :
    ∀ part ∈ takenFrom take name fields, fits expression part = true := by
  intro part member
  unfold takenFrom at member
  cases found : fields.lookup name with
  | none => simp [found] at member
  | some v => exact each v (formed.fits_lookup found) part (by simpa [found] using member)

theorem takenFrom_reshaped {take : Value → List Value} {tag name : String} {fields : Fields}
    (formed : Formed tag fields) (same : ∀ v, fits (slotOf tag name) v = true →
      take (reshapedField off v) = (take v).map (reshapedField off)) :
    takenFrom take name (reshapedFields off fields) =
      (takenFrom take name fields).map (reshapedField off) := by
  unfold takenFrom
  rw [lookup_reshapedFields]
  cases found : fields.lookup name with
  | none => rfl
  | some v => exact same v (formed.fits_lookup found)

/-- What is moved out are expressions, and reshaped they are what is moved out of the reshaped
fields. -/
theorem movedOut_spec {tag : String} {fields : Fields} (formed : Formed tag fields) :
    (∀ part ∈ movedOut (.tagged tag fields), fits expression part = true) ∧
      movedOut (.tagged tag (reshapedFields off fields)) =
        (movedOut (.tagged tag fields)).map (reshapedField off) := by
  unfold movedOut
  split
  · rename_i same
    cases same
    exact ⟨takenFrom_fits formed fun v fit part member => List.mem_singleton.mp member ▸ fit,
      takenFrom_reshaped formed fun v fit => rfl⟩
  · rename_i same
    cases same
    exact ⟨takenFrom_fits formed fun v fit => (commaSplit_fits fit).1,
      takenFrom_reshaped formed fun v fit => by rw [commaSplit_reshapedField fit]⟩
  · rename_i same
    cases same
    exact ⟨takenFrom_fits formed fun v fit => leadingOf_fits fit,
      takenFrom_reshaped formed fun v fit => leadingOf_reshapedField fit⟩
  · rename_i same
    cases same
    exact ⟨takenFrom_fits formed fun v fit => leadingOf_fits fit,
      takenFrom_reshaped formed fun v fit => leadingOf_reshapedField fit⟩
  · rename_i same
    cases same
    refine ⟨takenFrom_fits formed fun v fit => ?_, takenFrom_reshaped formed fun v fit => ?_⟩
    · rcases fits_opt.mp fit with rfl | fit
      · simp [leadingOfResult_null]
      · exact leadingOfResult_fits fit
    · rcases fits_opt.mp fit with rfl | fit
      · exact leadingOfResult_null.trans (by rw [leadingOfResult_null]; rfl)
      · exact leadingOfResult_reshapedField fit
  · rename_i e i s f r
    refine ⟨by simp, ?_⟩
    split <;> simp_all

/-! ## Statements -/

theorem braced_branch (inner fields : Fields) :
    ∃ others, braced (.tagged "IfStatement" inner) fields = .tagged "IfStatement" others := by
  unfold braced
  split
  · exact ⟨_, rfl⟩
  · exact ⟨_, rfl⟩
  · split
    · exact ⟨_, rfl⟩
    · exact ⟨_, rfl⟩
  · exact ⟨_, rfl⟩

/-- The tags of statements that stay behind what moves out of them. -/
def frontedTags : List String :=
  ["IfStatement", "SwitchStatement", "ForStatement", "ReturnStatement"]

/-- What stands in the place of such a statement: what moves out of it, or a declaration that leaves
the head of a loop, and a last statement. -/
structure Fronted (n : Value) (nodes : List Value) : Prop where
  shape : ∃ front tag fields, nodes = front ++ [.tagged tag fields] ∧ tag ∈ frontedTags ∧
    (front = (movedOut n).flatMap (unpacked []) ∨
      ∃ inner, front = [.tagged "VariableDeclaration" inner])

theorem Fronted.moved {n : Value} {parts nodes : List Value} {tag : String} {fields : Fields}
    (movesOut : movedOut n = parts)
    (nodesAre : nodes = parts.flatMap (unpacked []) ++ [.tagged tag fields])
    (among : tag ∈ frontedTags) : Fronted n nodes :=
  ⟨parts.flatMap (unpacked []), tag, fields, nodesAre, among, Or.inl (by rw [movesOut])⟩

theorem Fronted.stays {n : Value} {tag : String} {fields : Fields} (movesOut : movedOut n = [])
    (among : tag ∈ frontedTags) : Fronted n [.tagged tag fields] :=
  .moved movesOut rfl among

section

variable {fields : Fields}

theorem settledIf_fronted (formed : Formed "IfStatement" fields) :
    Fronted (.tagged "IfStatement" fields)
      (settledIf [] (.tagged "IfStatement" fields) fields) := by
  obtain ⟨test, testIs, -⟩ := formed.required
    (show (fieldsOf "IfStatement").lookup "test" = some expression from rfl) rfl
  obtain ⟨inner, same⟩ := braced_branch (Fields.set "test" (commaSplit test).2 fields) fields
  simp only [settledIf, testIs, Value.withField, same]
  exact .moved (by simp [movedOut, takenFrom, testIs]) rfl (by decide)

theorem settledSwitch_fronted (formed : Formed "SwitchStatement" fields) :
    Fronted (.tagged "SwitchStatement" fields)
      (settledSwitch [] (.tagged "SwitchStatement" fields) fields) := by
  obtain ⟨v, vIs, -⟩ := formed.required
    (show (fieldsOf "SwitchStatement").lookup "discriminant" = some expression from rfl) rfl
  simp only [settledSwitch, vIs]
  exact .moved (by simp [movedOut, takenFrom, vIs]) (commaHoisted_eq vIs) (by decide)

theorem settledFor_fronted (formed : Formed "ForStatement" fields) :
    Fronted (.tagged "ForStatement" fields)
      (settledFor [] (.tagged "ForStatement" fields) fields) := by
  obtain ⟨init, initIs, initFits⟩ := formed.required (show (fieldsOf "ForStatement").lookup "init" =
    some (.maybe ("VariableDeclaration" :: expressionTags)) from rfl) rfl
  have movesOut : movedOut (.tagged "ForStatement" fields) = leadingOf init := by
    simp [movedOut, takenFrom, initIs]
  simp only [settledFor, initIs]
  split
  · rename_i declares
    obtain ⟨initFields, rfl⟩ := declaration_of_isVar declares
    obtain ⟨declarators, kept, moved, -, -, -, hoists⟩ :=
      hoistDeclarators_spec formed (fits_node.mp initFits).2
    rw [hoists, orSelf, hoistedFrom]
    split
    · refine .stays (movesOut.trans ?_) (by decide)
      rw [leadingOf, packing_other initFields (by decide)]
    · exact ⟨[_], _, _, rfl, by decide, Or.inr ⟨_, rfl⟩⟩
  · exact .moved movesOut (commaHoisted_eq initIs) (by decide)

theorem settledReturn_fronted (formed : Formed "ReturnStatement" fields) :
    Fronted (.tagged "ReturnStatement" fields)
      (settledReturn [] (.tagged "ReturnStatement" fields) fields) := by
  cases found : fields.lookup "argument" with
  | none =>
    simp only [settledReturn, found]
    exact .stays (by simp [movedOut, takenFrom, found]) (by decide)
  | some argument =>
    have movesOut : movedOut (.tagged "ReturnStatement" fields) = leadingOfResult argument := by
      simp [movedOut, takenFrom, found]
    rcases fits_opt.mp (formed.fits_lookup found) with rfl | argumentFits
    · simp only [settledReturn, found]
      exact .stays (movesOut.trans leadingOfResult_null) (by decide)
    · have returns : settledReturn [] (.tagged "ReturnStatement" fields) fields =
          returned [] ((Value.tagged "ReturnStatement" fields).withField "argument") argument := by
        obtain ⟨_, _, rfl, -⟩ := fits_one.mp argumentFits
        simp only [settledReturn, found]
      rw [returns]
      cases packs : packing (commaSplit argument).2 with
      | choice test yes no =>
        simp only [leadingOfResult, packs] at movesOut
        have split : returned [] ((Value.tagged "ReturnStatement" fields).withField "argument")
            argument = ((commaSplit argument).1 ++ (commaSplit test).1).flatMap (unpacked []) ++
              [Value.ifStatement (commaSplit test).2
                (enclosed (one (returned [] Value.returnStatement yes)))
                (elseForm (one (returned [] Value.returnStatement no)))] := by
          rw [returned_choice _ packs, List.flatMap_append, List.append_assoc]
          rfl
        exact .moved movesOut split (by decide)
      | _ =>
        simp only [leadingOfResult, packs, List.append_nil] at movesOut
        exact .moved movesOut (returned_plain _ (by simp [packs])) (by decide)

end

theorem settled_fronted {tag : String} {fields : Fields} (formed : Formed tag fields)
    (among : tag ∈ frontedTags) :
    Fronted (.tagged tag fields) (settled [] (.tagged tag fields)) := by
  simp only [frontedTags, List.mem_cons, List.not_mem_nil, or_false] at among
  rcases among with rfl | rfl | rfl | rfl
  · exact settledIf_fronted formed
  · exact settledSwitch_fronted formed
  · exact settledFor_fronted formed
  · exact settledReturn_fronted formed

/-- The statements that become several are those, expression statements and labels. -/
theorem fronted_of_splits {tag : String} (splits : tag ∈ splitTags)
    (noExpression : tag ≠ "ExpressionStatement") (noLabel : tag ≠ "LabeledStatement") :
    tag ∈ frontedTags := by
  have each : ∀ t ∈ splitTags, t = "ExpressionStatement" ∨ t = "LabeledStatement" ∨
    t ∈ frontedTags := by decide
  exact ((each tag splits).resolve_left noExpression).resolve_left noLabel

/-- A node that does not become several becomes one with a tag of its own kind. -/
theorem settled_unsplit {tag : String} {fields : Fields} (formed : Formed tag fields)
    (unsplit : tag ∉ splitTags) :
    ∃ other inner, settled [] (.tagged tag fields) = [.tagged other inner] ∧
      (other = tag ∨ other ∈ ["UnaryExpression", "Literal", "Identifier"]) := by
  have outcome := settled_fits [] formed
  obtain ⟨n, single⟩ := outcome.single unsplit
  rw [single] at outcome
  obtain ⟨other, inner, rfl, among, -⟩ := fits_one.mp (outcome.each n (by simp))
  refine ⟨other, inner, single, ?_⟩
  rw [outcomes, if_neg (by simpa using unsplit)] at among
  split at among
  · exact Or.inr among
  · exact Or.inl (List.mem_singleton.mp among)

/-! ## Directives of statements -/

theorem prologue_other {tag : String} {fields : Fields} (other : tag ≠ "ExpressionStatement")
    (rest : List Value) : prologue (.tagged tag fields :: rest) = [] := by
  apply Classical.byContradiction
  intro directives
  have directive := prologue_cons_ne_nil.mp directives
  unfold isDirective at directive
  split at directive
  · rename_i same
    cases same
    exact other rfl
  · cases directive

/-- A node without a label that becomes a directive first had a text literal to move out. -/
theorem settled_opens {tag : String} {fields : Fields} (formed : Formed tag fields)
    (noLabel : tag ≠ "LabeledStatement")
    (directives : prologue (settled [] (.tagged tag fields)) ≠ []) :
    ∃ first others, movedOut (.tagged tag fields) = first :: others ∧ Opens first := by
  by_cases isExpression : tag = "ExpressionStatement"
  · subst isExpression
    obtain ⟨v, vIs, vFits⟩ := formed.required
      (show (fieldsOf "ExpressionStatement").lookup "expression" = some expression from rfl) rfl
    change prologue (settledExpression [] _ fields) ≠ [] at directives
    simp only [settledExpression, vIs] at directives
    refine ⟨v, [], by simp [movedOut, takenFrom, vIs], ?_⟩
    split at directives
    · exact opens_of_prologue vFits directives
    · have directive := prologue_cons_ne_nil.mp directives
      exact .text (by simpa [isDirective, vIs] using directive)
  · by_cases splits : tag ∈ splitTags
    · obtain ⟨front, other, inner, same, among, frontIs⟩ :=
        (settled_fronted formed (fronted_of_splits splits isExpression noLabel)).shape
      have plain : ∀ t ∈ frontedTags, t ≠ "ExpressionStatement" := by decide
      rw [same] at directives
      rcases frontIs with rfl | ⟨declaration, rfl⟩
      · obtain ⟨first, others, leads, firstFits, opens⟩ := prologue_moved
          (@movedOut_spec [] _ _ formed).1 (prologue_other (plain other among) _) directives
        exact ⟨first, others, leads, opens_of_prologue firstFits opens⟩
      · exact absurd (prologue_other (by decide) _) directives
    · obtain ⟨other, inner, single, kind⟩ := settled_unsplit formed splits
      rw [single] at directives
      refine absurd (prologue_other ?_ _) directives
      rcases kind with rfl | folded
      · exact isExpression
      · rintro rfl
        exact absurd folded (by decide)

/-! ## Bodies -/

theorem last_of_single {nodes : List Value} {last n : Value} (single : nodes ++ [last] = [n]) :
    last = n := by
  simpa using congrArg List.getLast? single

/-- No expression becomes a single block. -/
theorem unpacked_not_block {v n : Value} (fit : fits expression v = true)
    (single : unpacked off v = [n]) : n.hasTag "BlockStatement" = false := by
  induction v using unpacked_induction off with
  | comma v items packs ih =>
    have each := unpacking_fits fit packs
    rw [unpacked_comma packs] at single
    cases items with
    | nil => simp at single
    | cons item rest =>
      have itemFits := each item (by simp [Packing.parts])
      have nonempty := (unpacked_fits off itemFits).nonempty
      rw [List.flatMap_cons, List.append_eq_singleton_iff] at single
      rcases single with ⟨empty, -⟩ | ⟨own, -⟩
      · exact absurd empty nonempty
      · exact ih item (by simp) itemFits own
  | choice v test yes no packs =>
    rw [unpacked_choice packs] at single
    exact last_of_single single ▸ rfl
  | guard v test body packs =>
    rw [unpacked_guard packs] at single
    exact last_of_single single ▸ rfl
  | fallback v test body packs =>
    rw [unpacked_fallback packs] at single
    exact List.singleton_inj.mp single ▸ rfl
  | plain v packs =>
    rw [unpacked_plain packs, asStatement_expression fit] at single
    exact List.singleton_inj.mp single ▸ rfl

/-- A node that becomes a single block was one. -/
theorem settled_block {tag : String} {fields inner : Fields} (formed : Formed tag fields)
    (single : settled [] (.tagged tag fields) = [.tagged "BlockStatement" inner]) :
    tag = "BlockStatement" := by
  by_cases isExpression : tag = "ExpressionStatement"
  · subst isExpression
    obtain ⟨v, vIs, vFits⟩ := formed.required
      (show (fieldsOf "ExpressionStatement").lookup "expression" = some expression from rfl) rfl
    change settledExpression [] _ fields = _ at single
    simp only [settledExpression, vIs] at single
    split at single
    · have noBlock := unpacked_not_block vFits single
      simp at noBlock
    · simp at single
  · by_cases isLabel : tag = "LabeledStatement"
    · subst isLabel
      change settledLabel _ fields = _ at single
      unfold settledLabel at single
      split at single
      · split at single
        · have last := last_of_single single
          simp [Value.withField] at last
        · simp at single
      · simp at single
    · by_cases splits : tag ∈ splitTags
      · obtain ⟨front, other, others, same, among, -⟩ :=
          (settled_fronted formed (fronted_of_splits splits isExpression isLabel)).shape
        rw [same] at single
        cases last_of_single single
        exact absurd among (by decide)
      · obtain ⟨other, others, same, kind⟩ := settled_unsplit formed splits
        rw [same] at single
        cases single
        exact kind.elim Eq.symm fun folded => absurd folded (by decide)

/-- The statements of a reshaped body are those of the body, each reshaped. -/
theorem statementsAt_reshaped {slot : Slot} {body : Value} (fit : fits slot body = true) :
    statementsAt (reshapedField [] body) = (statementsAt body).flatMap (reshaped []) := by
  cases body with
  | seq items => exact reshapedItems_eq [] items
  | node tag fields =>
    obtain ⟨tag, rfl, formed⟩ := formed_of_fits fit
    by_cases isBlock : tag = "BlockStatement"
    · subst isBlock
      obtain ⟨items, itemsAre, -⟩ := formed.many
        (show (fieldsOf "BlockStatement").lookup "body" = some (.many statementTags) from rfl)
      rw [reshapedField_other [] fields (by decide)]
      simp only [statementsAt, itemsAre, lookup_reshaped itemsAre, reshapedField, reshapedItems_eq]
    · have single : statementsAt (.tagged tag fields) = [.tagged tag fields] := by
        unfold statementsAt
        split
        · contradiction
        · rename_i same
          cases same
          exact absurd rfl isBlock
        · rfl
      rw [single, List.flatMap_singleton]
      show statementsAt (one (reshaped [] (.tagged tag fields))) = _
      unfold one
      split
      · rename_i n same
        unfold statementsAt
        split
        · have outcome := reshaped_fits [] formed
          rw [same] at outcome
          obtain ⟨_, _, node, -⟩ := fits_one.mp (outcome.each _ List.mem_cons_self)
          cases node
        · exact absurd (settled_block (reshapedFields_formed [] fields formed) same) isBlock
        · exact same.symm
      · rfl
  | _ => rfl

theorem size_le_of_mem_statementsAt {v s : Value} (member : s ∈ statementsAt v) :
    s.size ≤ v.size := by
  unfold statementsAt at member
  split at member
  · have := Value.size_le_of_mem_items member
    simp only [Value.size]
    omega
  · split at member
    · rename_i items found
      exact Nat.le_of_lt (Value.size_lt_of_lookup_seq found member)
    · simp at member
  · rw [List.mem_singleton.mp member]

/-- The statements of a well-formed body are well-formed nodes. -/
theorem statementsAt_formed {tags : List String} {body : Value} (fit : fits (.one tags) body = true) :
    ∀ s ∈ statementsAt body, IsFormed s := by
  obtain ⟨tag, fields, rfl, -, formed⟩ := fits_one.mp fit
  intro s member
  unfold statementsAt at member
  split at member
  · contradiction
  · rename_i same
    cases same
    obtain ⟨items, itemsAre, each⟩ := formed.many
      (show (fieldsOf "BlockStatement").lookup "body" = some (.many statementTags) from rfl)
    simp only [itemsAre] at member
    obtain ⟨own, inner, rfl, -, ownFormed⟩ := fits_one.mp (each s member)
    exact ⟨own, inner, rfl, ownFormed⟩
  · exact ⟨tag, fields, List.mem_singleton.mp member, formed⟩

/-- A directive in front of a reshaped body is the first node in the place of its first statement. -/
theorem prologue_reshaped {body : List Value} (each : ∀ s ∈ body, IsFormed s)
    (directives : prologue (body.flatMap (reshaped [])) ≠ []) :
    ∃ first rest, body = first :: rest ∧ prologue (reshaped [] first) ≠ [] := by
  cases body with
  | nil => exact absurd rfl directives
  | cons first rest =>
    obtain ⟨tag, fields, rfl, formed⟩ := each first (by simp)
    rw [List.flatMap_cons] at directives
    exact ⟨_, rest, rfl, prologue_append_ne_nil (reshaped_fits [] formed).nonempty directives⟩

/-- A statement that starts with a directive once it is reshaped exposes a text literal. -/
theorem exposes_of_prologue {tag : String} {fields : Fields} (formed : Formed tag fields)
    (directives : prologue (reshaped [] (.tagged tag fields)) ≠ []) :
    Exposes (.tagged tag fields) := by
  by_cases isLabel : tag = "LabeledStatement"
  · subst isLabel
    obtain ⟨_, _, body, -, -, bodyIs, bodyFits⟩ := label_fields formed
    have bodyOf := @lookup_reshaped [] _ _ _ bodyIs
    obtain ⟨label, target, after, targetIs, named, afterIs, afterFits⟩ :=
      label_fields (reshapedFields_formed [] fields formed)
    obtain rfl : reshapedField [] body = after := by simpa [bodyOf] using afterIs
    change prologue (settledLabel _ (reshapedFields [] fields)) ≠ [] at directives
    by_cases leaves : ∃ leading last, Leaving label (reshapedField [] body) leading last
    · -- What leaves the label stands in front of its body, so it comes from the first statement.
      obtain ⟨leading, last, leaving⟩ := leaves
      rw [settledLabel_moves targetIs named afterIs afterFits leaving] at directives
      obtain ⟨inner, isBlock, itemsAre⟩ := leaving.block
      have statements : (statementsAt body).flatMap (reshaped []) = leading ++ [last] := by
        rw [← statementsAt_reshaped bodyFits, isBlock]
        simp only [statementsAt, itemsAre]
      have leads : prologue ((statementsAt body).flatMap (reshaped [])) ≠ [] := by
        have front := prologue_append_ne_nil leaving.leads directives
        rw [statements]
        obtain ⟨s, others, rfl⟩ := List.exists_cons_of_ne_nil leaving.leads
        exact prologue_cons_ne_nil.mpr (prologue_cons_ne_nil.mp front)
      have each := statementsAt_formed bodyFits
      obtain ⟨first, rest, body', first'⟩ := prologue_reshaped each leads
      have member : first ∈ statementsAt body := body' ▸ List.mem_cons_self
      obtain ⟨own, ownFields, rfl, ownFormed⟩ := each first member
      have smaller := Nat.lt_of_le_of_lt (size_le_of_mem_statementsAt member)
        (@Value.size_lt_of_lookup (.str "LabeledStatement") _ _ _ bodyIs)
      exact .label bodyIs body' (exposes_of_prologue ownFormed first')
    · have stays := settledLabel_stays targetIs named afterIs afterFits fun leading last leaving =>
        leaves ⟨leading, last, leaving⟩
      rw [stays] at directives
      exact absurd (prologue_other (by decide) _) directives
  · obtain ⟨first, others, movesOut, opens⟩ :=
      settled_opens (reshapedFields_formed [] fields formed) isLabel directives
    obtain ⟨each, same⟩ := @movedOut_spec [] _ _ formed
    rw [same] at movesOut
    obtain ⟨source, rest, leads, rfl, -⟩ := List.map_eq_cons_iff.mp movesOut
    exact .moved leads (opens_of_reshaped (each source (leads ▸ List.mem_cons_self)) opens)
termination_by (Value.tagged tag fields).size

/-! ## Directives stay -/

theorem reshapedFields_same {fields : Fields}
    (each : ∀ field ∈ fields, reshapedField off field.2 = field.2) :
    reshapedFields off fields = fields := by
  rw [reshapedFields_eq]
  conv_rhs => rw [← List.map_id fields]
  refine List.map_congr_left fun field member => ?_
  rw [each field member]
  rfl

/-- Nothing in a literal is reshaped. -/
theorem reshapedField_literal {fields : Fields} (formed : Formed "Literal" fields) :
    reshapedField off (.tagged "Literal" fields) = .tagged "Literal" fields := by
  rw [reshapedField_other off fields (by decide)]
  refine congrArg _ (reshapedFields_same fun field member => ?_)
  exact reshapedField_bare off (fitFields_iff.mp formed.fitted field member)

/-- A directive stays as it is. -/
theorem reshaped_directive {tag : String} {fields : Fields} (formed : Formed tag fields)
    (directive : isDirective (.tagged tag fields) = true) :
    reshaped [] (.tagged tag fields) = [.tagged tag fields] := by
  obtain ⟨rfl, inner, literalIs⟩ : tag = "ExpressionStatement" ∧
      ∃ inner, fields.lookup "expression" = some (.tagged "Literal" inner) := by
    unfold isDirective at directive
    split at directive
    · rename_i same
      cases same
      obtain ⟨v, vIs, isText⟩ := (Option.any_eq_true _ _).mp directive
      unfold isTextLiteral at isText
      split at isText
      · exact ⟨rfl, _, vIs⟩
      · cases isText
    · cases directive
  have literalFormed := (fits_node.mp (formed.fits_lookup literalIs)).2
  have same : reshapedFields [] fields = fields := by
    refine reshapedFields_same fun field member => ?_
    by_cases isExpression : field.1 = "expression"
    · have found := Fields.lookup_of_mem formed.distinct member
      rw [isExpression, literalIs] at found
      rw [← Option.some.inj found]
      exact reshapedField_literal literalFormed
    · have fit := fitFields_iff.mp formed.fitted field member
      have bare : slotOf "ExpressionStatement" field.1 = .bare := by
        simp [slotOf, show fieldsOf "ExpressionStatement" = [("expression", expression)] from rfl,
          List.lookup_cons, beq_false_of_ne isExpression]
      exact reshapedField_bare [] (bare ▸ fit)
  show settledBy [] "ExpressionStatement" (.tagged "ExpressionStatement" (reshapedFields [] fields))
    (reshapedFields [] fields) = _
  rw [same]
  simp [settledBy, settledExpression, literalIs, unpacks, unpackedTags]

/-- Reshaping the statements of a body keeps its directives in front. -/
theorem reshaped_keepsPrologue {body : List Value} (each : ∀ s ∈ body, IsFormed s) :
    KeepsPrologue body (body.flatMap (reshaped [])) := by
  induction body with
  | nil => exact ⟨[], rfl, fun created => absurd rfl created⟩
  | cons s rest ih =>
    obtain ⟨tag, fields, rfl, formed⟩ := each s (by simp)
    rw [List.flatMap_cons]
    by_cases directive : isDirective (.tagged tag fields) = true
    · obtain ⟨created, same, exposed⟩ := ih fun other among => each other (by simp [among])
      refine ⟨created, ?_, ?_⟩
      · rw [reshaped_directive formed directive, List.singleton_append]
        simp only [prologue, List.takeWhile_cons_of_pos directive, List.cons_append]
        exact congrArg _ same
      · rwa [List.dropWhile_cons_of_pos directive]
    · refine ⟨prologue (reshaped [] (.tagged tag fields) ++ rest.flatMap (reshaped [])), ?_,
        fun created => ?_⟩
      · rw [prologue, prologue, List.takeWhile_cons_of_neg directive, List.nil_append]
      · refine ⟨.tagged tag fields, by rw [List.dropWhile_cons_of_neg directive]; rfl, ?_⟩
        exact exposes_of_prologue formed
          (prologue_append_ne_nil (reshaped_fits [] formed).nonempty created)

/-! ## Functions -/

/-- A function has a body. -/
theorem function_body {tag : String} {fields : Fields} (function : tag ∈ functionTags)
    (formed : Formed tag fields) :
    ∃ tags body, fields.lookup "body" = some body ∧ fits (.one tags) body = true := by
  simp only [functionTags, List.mem_cons, List.not_mem_nil, or_false] at function
  rcases function with rfl | rfl | rfl
  · obtain ⟨body, bodyIs, fit⟩ := formed.required
      (show (fieldsOf "FunctionDeclaration").lookup "body" = some statement from rfl) rfl
    exact ⟨_, body, bodyIs, fit⟩
  · obtain ⟨body, bodyIs, fit⟩ := formed.required
      (show (fieldsOf "FunctionExpression").lookup "body" = some statement from rfl) rfl
    exact ⟨_, body, bodyIs, fit⟩
  · obtain ⟨body, bodyIs, fit⟩ := formed.required (show (fieldsOf
      "ArrowFunctionExpression").lookup "body" = some (.one ("BlockStatement" :: expressionTags)) from
        rfl) rfl
    exact ⟨_, body, bodyIs, fit⟩

theorem function_keepsPrologue {tag : String} {fields : Fields} (function : tag ∈ functionTags)
    (formed : Formed tag fields) :
    KeepsPrologue (statementsOf (.tagged tag fields))
      (statementsOf (.tagged tag (reshapedFields [] fields))) := by
  obtain ⟨tags, body, bodyIs, bodyFits⟩ := function_body function formed
  have before : statementsOf (.tagged tag fields) = statementsAt body := by
    simp [statementsOf, bodyIs]
  have after : statementsOf (.tagged tag (reshapedFields [] fields)) =
      (statementsAt body).flatMap (reshaped []) := by
    rw [← statementsAt_reshaped bodyFits]
    simp [statementsOf, lookup_reshaped bodyIs]
  rw [before, after]
  exact reshaped_keepsPrologue (statementsAt_formed bodyFits)

theorem program_keepsPrologue {fields : Fields} (formed : Formed "Program" fields) :
    KeepsPrologue (statementsOf (.tagged "Program" fields))
      (statementsOf (.tagged "Program" (reshapedFields [] fields))) := by
  obtain ⟨items, itemsAre, each⟩ := formed.many
    (show (fieldsOf "Program").lookup "body" = some (.many statementTags) from rfl)
  have before : statementsOf (.tagged "Program" fields) = items := by
    simp [statementsOf, itemsAre, statementsAt]
  have after : statementsOf (.tagged "Program" (reshapedFields [] fields)) =
      items.flatMap (reshaped []) := by
    simp [statementsOf, lookup_reshaped itemsAre, reshapedField, statementsAt, reshapedItems_eq]
  rw [before, after]
  refine reshaped_keepsPrologue fun s member => ?_
  obtain ⟨tag, inner, rfl, -, innerFormed⟩ := fits_one.mp (each s member)
  exact ⟨tag, inner, rfl, innerFormed⟩

/-- Reshaping a program keeps its directives and those of its functions in front. A directive is
added to them only if the statement after them exposes a text literal. -/
theorem prettify_keeps_directives {program : Value} (formed : WellFormed program) :
    ∃ result image, prettify Registry.builtin program = .ok result ∧
      KeepsPrologue (statementsOf program) (statementsOf result) ∧
      (functionsOf result).Perm ((functionsOf program).map image) ∧
      ∀ function ∈ functionsOf program,
        Yields (reshape (Registry.builtin.engineFor program) function) [image function] ∧
        KeepsPrologue (statementsOf function) (statementsOf (image function)) := by
  obtain ⟨fields, rfl, programFormed, -, answer, -⟩ := prettify_program [] formed
  rw [without_nil] at answer
  refine ⟨_, withReshapedFields, answer, program_keepsPrologue programFormed,
    functionsOf_reshaped programFormed, fun function member => ?_⟩
  obtain ⟨met, isOne⟩ := List.mem_filter.mp member
  obtain ⟨tag, inner, rfl, innerFormed⟩ := walk_formed formed function met
  have isFunctionTag := function_of_isFunction isOne
  refine ⟨?_, function_keepsPrologue isFunctionTag innerFormed⟩
  have deep : (Value.tagged tag inner).size + 6 ≤
      Registry.depthFor (Value.tagged "Program" fields).size := by
    have smaller := size_le_of_mem_walk met
    unfold Registry.depthFor
    omega
  have reshapes := @reshape_yields [] _ tag inner innerFormed deep
  rwa [engineWithout, without_nil,
    reshaped_other [] inner (function_not_settled tag isFunctionTag)] at reshapes

/-- The program `"use strict"; l: { "first"; for (;;) continue l; } (function () { "use asm"; });`. -/
def strictLoop : Value :=
  let text (s : String) : Value :=
    Value.expressionStatement (.tagged "Literal" [("value", .str s), ("raw", .str s)])
  let name (s : String) : Value := .tagged "Identifier" [("name", .str s)]
  let loop := Value.tagged "ForStatement" [("init", .null), ("test", .null), ("update", .null),
    ("body", .tagged "ContinueStatement" [("label", name "l")])]
  let labelled := Value.tagged "LabeledStatement"
    [("label", name "l"), ("body", Value.blockStatement [text "first", loop])]
  let function := Value.tagged "FunctionExpression"
    [("id", .null), ("params", .seq []), ("body", Value.blockStatement [text "use asm"])]
  .tagged "Program"
    [("body", .seq [text "use strict", labelled, Value.expressionStatement function])]

/-- Both directives stay, and the text in front of the loop joins the first one. -/
theorem prettify_keeps_directives_strictLoop :
    WellFormed strictLoop ∧ ∃ result image, prettify Registry.builtin strictLoop = .ok result ∧
      KeepsPrologue (statementsOf strictLoop) (statementsOf result) ∧
      (functionsOf result).Perm ((functionsOf strictLoop).map image) ∧
      ∀ function ∈ functionsOf strictLoop,
        Yields (reshape (Registry.builtin.engineFor strictLoop) function) [image function] ∧
        KeepsPrologue (statementsOf function) (statementsOf (image function)) :=
  ⟨by decide, prettify_keeps_directives (by decide)⟩

/-- The program `"use strict", f();`. -/
def computedText : Value :=
  .tagged "Program" [("body", .seq [Value.expressionStatement (.tagged "SequenceExpression"
    [("expressions", .seq [.tagged "Literal" [("value", .str "use strict")],
      .tagged "CallExpression" [("callee", .tagged "Identifier" [("name", .str "f")]),
        ("arguments", .seq [])]])])])]

/-- A text that is computed and dropped becomes a directive. -/
theorem prettify_makes_directive :
    WellFormed computedText ∧ ∃ result, prettify Registry.builtin computedText = .ok result ∧
      prologue (statementsOf computedText) = [] ∧
      prologue (statementsOf result) =
        [Value.expressionStatement (.tagged "Literal" [("value", .str "use strict")])] :=
  ⟨by decide, _, rfl, rfl, rfl⟩

end Untangle.Reshape
