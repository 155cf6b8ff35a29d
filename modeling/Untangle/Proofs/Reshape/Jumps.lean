import Untangle.Proofs.Reshape.Functions

/-!
# Jumps and their labels

A jump to a label goes somewhere if it stands under the label, within the same function, and a continue
also needs the label to be on a loop. Rules move statements, and the statements that leave the head of
a loop take its label away for a moment: `l: for (a(), b();;)` becomes `l: { a(); for (b();;) }`. The
rule for labels puts the label back on the loop. It does so if what left the head are declarations and
expression statements that hold no jump to a label of the same name, and then every jump still goes
where it went. A conditional that leaves the head becomes a branch, and the label stays on the block.

* `stray` are the jumps of a tree that go nowhere in it, `JumpsBound` says that a program has none.
* `loop_leaves` says when the label finds its loop again.
* `reshaped_stray` is the step and `prettify_keeps_jumps` the statement about whole programs.
-/

namespace Untangle.Reshape

open Syntax

/-- A jump to a label, by a continue or a break. -/
structure Jump where
  continues : Bool
  label : String
deriving DecidableEq

def labelName (fields : Fields) : Option String :=
  match fields.lookup "label" with
  | some (.node (.str "Identifier") inner) =>
    match inner.lookup "name" with
    | some (.str name) => some name
    | _ => none
  | _ => none

/-- The jump that a node is. -/
def ownJumps : Value → List Jump
  | .node (.str "ContinueStatement") fields => (labelName fields).toList.map (⟨true, ·⟩)
  | .node (.str "BreakStatement") fields => (labelName fields).toList.map (⟨false, ·⟩)
  | _ => []

mutual

/-- What stands under the labels of a statement. -/
def unlabelled : Value → Value
  | .node (.str "LabeledStatement") fields => unlabelledBody fields
  | v => v

/-- What stands under the labels in the body of a node. -/
def unlabelledBody : Fields → Value
  | [] => .null
  | (name, v) :: rest => if name = "body" then unlabelled v else unlabelledBody rest

end

mutual

/-- The labels that a statement starts with. -/
def labelsOn : Value → List String
  | .node (.str "LabeledStatement") fields => (labelName fields).toList ++ labelsOnBody fields
  | _ => []

/-- The labels that the body of a node starts with. -/
def labelsOnBody : Fields → List String
  | [] => []
  | (name, v) :: rest => if name = "body" then labelsOn v else labelsOnBody rest

end

def isLoopNode : Value → Bool
  | .node (.str tag) _ => Rule.loopTags.contains tag
  | _ => false

/-- Whether a jump that stands in the node goes no further: a label catches a break to it, and a
continue if it is on a loop. No jump gets out of a function. -/
def catches : Value → Jump → Bool
  | .node (.str "LabeledStatement") fields, jump =>
    labelName fields == some jump.label &&
      (!jump.continues || isLoopNode (unlabelledBody fields))
  | n, _ => isFunction n

mutual

/-- The jumps of a value that nothing in it catches. -/
def stray : Value → List Jump
  | .node tag fields =>
    ownJumps (.node tag fields) ++
      (strayFields fields).filter fun jump => !catches (.node tag fields) jump
  | .seq items => strayItems items
  | _ => []

/-- The jumps that get out of the fields of a node. -/
def strayFields : Fields → List Jump
  | [] => []
  | (_, v) :: rest => stray v ++ strayFields rest

/-- The jumps that get out of the members of a sequence. -/
def strayItems : List Value → List Jump
  | [] => []
  | v :: rest => stray v ++ strayItems rest

end

/-- The jumps that get out of the parts of a node. -/
def strayInside : Value → List Jump
  | .node _ fields => strayFields fields
  | _ => []

/-- Every jump in the program goes somewhere, and so does every jump in one of its functions. -/
def JumpsBound (program : Value) : Prop :=
  stray program = [] ∧ ∀ function ∈ functionsOf program, strayInside function = []

instance (program : Value) : Decidable (JumpsBound program) :=
  inferInstanceAs (Decidable (_ ∧ ∀ function ∈ functionsOf program, strayInside function = []))

mutual

/-- Whether nothing but expression statements comes out of an expression, or out of the members of a
sequence. -/
def isFlat : Value → Bool
  | .node (.str "SequenceExpression") fields => isFlatFields fields
  | .node (.str "ConditionalExpression") _ => false
  | .node (.str "LogicalExpression") fields =>
    !(fields.lookup "operator").any fun operator => operator.isText "&&" || operator.isText "||"
  | .seq items => isFlatItems items
  | _ => true

def isFlatFields : Fields → Bool
  | [] => true
  | (name, v) :: rest => if name = "expressions" then isFlat v else isFlatFields rest

def isFlatItems : List Value → Bool
  | [] => true
  | v :: rest => isFlat v && isFlatItems rest

end

/-- What may leave the head of a loop: a declaration or all but the last of a comma sequence. -/
def headParts (init : Value) : List Value :=
  if isVar init then [init] else leadingOf init

/-- Whether all that leaves the head of the loop can do without labels of these names. -/
def headLeaves (names : List String) : Value → Bool
  | .node (.str "ForStatement") fields =>
    (fields.lookup "init").all fun init => (headParts init).all fun part =>
      isFlat part && part.walk.all fun n => (ownJumps n).all fun jump => !names.contains jump.label
  | _ => true

/-- Whether a label that is asked to continue finds its loop again. -/
def keepsLoop : Value → Bool
  | .node (.str "LabeledStatement") fields =>
    (labelName fields).all fun name => !(strayFields fields).contains ⟨true, name⟩ ||
      headLeaves (labelsOn (.node (.str "LabeledStatement") fields)) (unlabelledBody fields)
  | _ => true

/-! ## Stray jumps of a node -/

/-- A jump that leaves a node leaves one of its fields. -/
theorem mem_strayFields {fields : Fields} {jump : Jump} :
    jump ∈ strayFields fields ↔ ∃ field ∈ fields, jump ∈ stray field.2 := by
  induction fields with
  | nil => simp [strayFields]
  | cons field rest ih => simp [strayFields, ih]

theorem strayItems_eq (items : List Value) : strayItems items = items.flatMap stray := by
  induction items with
  | nil => rfl
  | cons item rest ih => simp [strayItems, ih]

theorem mem_strayItems {items : List Value} {jump : Jump} :
    jump ∈ strayItems items ↔ ∃ item ∈ items, jump ∈ stray item := by
  rw [strayItems_eq, List.mem_flatMap]

theorem strayItems_append (first second : List Value) :
    strayItems (first ++ second) = strayItems first ++ strayItems second := by
  simp only [strayItems_eq, List.flatMap_append]

theorem strayItems_singleton (n : Value) : strayItems [n] = stray n := by
  simp [strayItems]

theorem strayItems_nil_of {items : List Value} (each : ∀ item ∈ items, stray item = []) :
    strayItems items = [] := by
  rw [strayItems_eq, List.flatMap_eq_nil_iff]
  exact each

theorem strayItems_flatMap_nil {f : Value → List Value} {parts : List Value}
    (each : ∀ part ∈ parts, strayItems (f part) = []) : strayItems (parts.flatMap f) = [] := by
  rw [strayItems_eq, List.flatMap_assoc, List.flatMap_eq_nil_iff]
  intro part member
  rw [← strayItems_eq, each part member]

def jumpTags : List String :=
  ["LabeledStatement", "BreakStatement", "ContinueStatement"]

/-- Only jumps jump. -/
theorem ownJumps_other {tag : String} (fields : Fields) (other : tag ∉ jumpTags) :
    ownJumps (.tagged tag fields) = [] := by
  unfold ownJumps
  split
  · rename_i same
    cases same
    exact absurd (by decide) other
  · rename_i same
    cases same
    exact absurd (by decide) other
  · rfl

/-- Besides labels, only functions keep jumps from going further out. -/
theorem catches_other {tag : String} (fields : Fields) (jump : Jump)
    (other : tag ≠ "LabeledStatement") :
    catches (.tagged tag fields) jump = functionTags.contains tag := by
  unfold catches
  split
  · rename_i same
    cases same
    exact absurd rfl other
  · rfl

/-- The jumps that get out of any other node are those that get out of its fields, unless it is a
function. -/
theorem stray_other {tag : String} (fields : Fields) (other : tag ∉ jumpTags) :
    stray (.tagged tag fields) = if functionTags.contains tag then [] else strayFields fields := by
  have noLabel : tag ≠ "LabeledStatement" := by
    rintro rfl
    exact other (by decide)
  rw [stray, ownJumps_other fields other, List.nil_append]
  simp only [catches_other fields _ noLabel]
  split
  · rename_i function
    simp only [function, Bool.not_true, List.filter_false]
  · rename_i plain
    simp only [Bool.not_eq_true] at plain
    simp only [plain, Bool.not_false, List.filter_true]

mutual

theorem stray_of_walk_nil : ∀ (v : Value), v.walk = [] → stray v = []
  | .node _ _, empty => by simp [Value.walk] at empty
  | .seq items, empty => strayItems_of_walk_nil items (by simpa [Value.walk] using empty)
  | .null, _ | .bool _, _ | .int _, _ | .float _, _ | .str _, _ | .sealed _, _ | .list _, _
  | .object _, _ => by simp [stray]

theorem strayItems_of_walk_nil : ∀ (items : List Value), Value.walkItems items = [] →
    strayItems items = []
  | [], _ => rfl
  | v :: rest, empty => by
    obtain ⟨here, later⟩ := List.append_eq_nil_iff.mp (by simpa [Value.walkItems] using empty)
    rw [strayItems, stray_of_walk_nil v here, strayItems_of_walk_nil rest later, List.append_nil]

end

/-! ## Where no jumps come from -/

/-- The tags of nodes that jumps get out of only through functions, so not at all. -/
def quietTags : List String :=
  expressionTags ++ ["Property", "TemplateElement", "ClassBody", "MethodDefinition",
    "VariableDeclarator", "VariableDeclaration", "ExpressionStatement", "ReturnStatement"]

/-- From an expression no jump is reached except through a function: a property of the schema. -/
theorem quiet_closed : ∀ entry ∈ schema, entry.1 ∈ quietTags →
    functionTags.contains entry.1 = true ∨
      ∀ field ∈ entry.2, ∀ tag ∈ slotTags field.2, tag ∈ quietTags := by
  decide +kernel

theorem quiet_other : ∀ tag ∈ quietTags, tag ∉ jumpTags := by
  decide

theorem quiet_slot {tag name : String} (quiet : tag ∈ quietTags)
    (plain : functionTags.contains tag = false) : ∀ t ∈ slotTags (slotOf tag name), t ∈ quietTags := by
  unfold slotOf fieldsOf
  cases found : schema.lookup tag with
  | none => simp [slotTags]
  | some fields =>
    cases slotIs : fields.lookup name with
    | none => simp [slotIs, slotTags]
    | some slot =>
      have entry := quiet_closed _ (Fields.mem_of_lookup found) quiet
      simp only [plain, Bool.false_eq_true, false_or] at entry
      simpa [slotIs] using entry _ (Fields.mem_of_lookup slotIs)

/-- No jump leaves a value all of whose nodes are quiet. -/
theorem stray_nil_of_fits {slot : Slot} {v : Value} (fit : fits slot v = true)
    (quiet : ∀ t ∈ slotTags slot, t ∈ quietTags)
    (each : ∀ tag fields, heldBy v tag fields → Formed tag fields → tag ∈ quietTags →
      stray (.tagged tag fields) = []) : stray v = [] := by
  cases v with
  | node tag fields =>
    obtain ⟨tag, rfl, -⟩ := formed_of_fits fit
    obtain ⟨admitted, formed⟩ := fits_node.mp fit
    refine each tag fields (Or.inl rfl) formed (quiet tag ?_)
    cases slot <;> first | exact admitted | simp [Slot.tags] at admitted
  | seq items =>
    have held {tag : String} {fields : Fields} (among : .tagged tag fields ∈ items)
        (formed : Formed tag fields) (admitted : tag ∈ slotTags slot) :
        stray (.tagged tag fields) = [] :=
      each tag fields (Or.inr ⟨items, rfl, among⟩) formed (quiet tag admitted)
    cases slot with
    | many tags =>
      obtain ⟨_, same, fitted⟩ := fits_many.mp fit
      cases same
      refine strayItems_nil_of fun item among => ?_
      obtain ⟨tag, fields, rfl, admitted, formed⟩ := fits_one.mp (fitted item among)
      exact held among formed admitted
    | holes tags =>
      obtain ⟨_, same, fitted⟩ := fits_holes.mp fit
      cases same
      refine strayItems_nil_of fun item among => ?_
      rcases fits_maybe.mp (fitted item among) with rfl | itemFits
      · rfl
      · obtain ⟨tag, fields, rfl, admitted, formed⟩ := fits_one.mp itemFits
        exact held among formed admitted
    | _ =>
      simp only [fits, Slot.member?, Bool.and_eq_true, List.isEmpty_iff] at fit
      exact strayItems_of_walk_nil items fit.2
  | _ => rfl

/-- No jump gets out of a quiet node. -/
theorem stray_of_quiet {tag : String} {fields : Fields} (formed : Formed tag fields)
    (quiet : tag ∈ quietTags) : stray (.tagged tag fields) = [] := by
  induction formed using formed_induction with
  | step tag fields formed inner =>
    rw [stray_other fields (quiet_other tag quiet)]
    split
    · rfl
    · rename_i plain
      rw [List.eq_nil_iff_forall_not_mem]
      intro jump member
      obtain ⟨⟨name, v⟩, among, strays⟩ := mem_strayFields.mp member
      have fit := fitFields_iff.mp formed.fitted _ among
      have none := stray_nil_of_fits fit (quiet_slot quiet (by simpa using plain))
        fun tag' fields' held formed' quiet' => inner name v among tag' fields' held formed' quiet'
      simp [none] at strays

theorem stray_quiet {slot : Slot} {v : Value} (fit : fits slot v = true)
    (quiet : ∀ t ∈ slotTags slot, t ∈ quietTags) : stray v = [] :=
  stray_nil_of_fits fit quiet fun _ _ _ formed isQuiet => stray_of_quiet formed isQuiet

/-- No jump leaves an expression. -/
theorem stray_expression {v : Value} (fit : fits expression v = true) : stray v = [] :=
  stray_quiet fit (by decide)

/-! ## What rules build -/

theorem stray_blockStatement (nodes : List Value) :
    stray (Value.blockStatement nodes) = strayItems nodes := by
  rw [Value.blockStatement, stray_other _ (by decide), if_neg (by decide)]
  simp [strayFields, stray]

/-- Jumps leave a branch from its test and from both its branches. -/
theorem stray_ifStatement (test yes no : Value) :
    stray (Value.ifStatement test yes no) = stray test ++ (stray yes ++ stray no) := by
  rw [Value.ifStatement, stray_other _ (by decide), if_neg (by decide)]
  simp [strayFields]

theorem stray_one (nodes : List Value) : stray (one nodes) = strayItems nodes := by
  unfold one
  split
  · exact (strayItems_singleton _).symm
  · exact stray_blockStatement nodes

theorem stray_enclosed (n : Value) : stray (enclosed n) = stray n := by
  unfold enclosed
  split
  · rfl
  · rw [stray_blockStatement, strayItems_singleton]

theorem stray_guarded (n : Value) : stray (guarded n) = stray n := by
  unfold guarded
  split
  · exact stray_enclosed n
  · rfl

theorem stray_elseForm (n : Value) : stray (elseForm n) = stray n := by
  unfold elseForm
  split
  · rfl
  · exact stray_enclosed n

variable {off : List String}

/-- No jump gets out of the statements that an expression becomes. -/
theorem unpacked_stray {v : Value} (fit : fits expression v = true) :
    strayItems (unpacked off v) = [] := by
  induction v using unpacked_induction off with
  | comma v items packs ih =>
    have each := unpacking_fits fit packs
    rw [unpacked_comma packs]
    exact strayItems_flatMap_nil fun item member => ih item member (each item member)
  | choice v test yes no packs ihTest ihYes ihNo =>
    have each := unpacking_fits fit packs
    have head := hoisted_fits off (each test (by simp [Packing.parts]))
    rw [unpacked_choice packs, strayItems_append, strayItems_singleton, stray_ifStatement,
      stray_guarded, stray_elseForm, stray_one, stray_one, stray_expression head.2,
      ihYes (each yes (by simp [Packing.parts])), ihNo (each no (by simp [Packing.parts])),
      strayItems_flatMap_nil fun part member => ihTest part member (head.1 part member)]
    rfl
  | guard v test body packs ihTest ihBody =>
    have each := unpacking_fits fit packs
    have head := hoisted_fits off (each test (by simp [Packing.parts]))
    rw [unpacked_guard packs, strayItems_append, strayItems_singleton, stray_ifStatement, stray_one,
      stray_expression head.2, ihBody (each body (by simp [Packing.parts])),
      strayItems_flatMap_nil fun part member => ihTest part member (head.1 part member)]
    rfl
  | fallback v test body packs ih =>
    have each := unpacking_fits fit packs
    rw [unpacked_fallback packs, strayItems_singleton, stray_ifStatement, stray_one,
      stray_expression (negated_fits off (each test (by simp [Packing.parts]))),
      ih (each body (by simp [Packing.parts]))]
    rfl
  | plain v packs =>
    rw [unpacked_plain packs, asStatement_expression fit, strayItems_singleton]
    exact stray_of_quiet (fits_node.mp (fits_expressionStatement fit)).2 (by decide)

theorem unpackedAll_stray {parts : List Value} (each : ∀ part ∈ parts, fits expression part = true) :
    strayItems (parts.flatMap (unpacked off)) = [] :=
  strayItems_flatMap_nil fun part member => unpacked_stray (each part member)

/-- No jump gets out of the statements that a return becomes. -/
theorem returned_stray {argument : Value} (fit : fits expression argument = true)
    (rebuild : Value → Value) (rebuilds : ∀ v, fits expression v = true → stray (rebuild v) = []) :
    strayItems (returned off rebuild argument) = [] := by
  have plainly : ∀ v, fits expression v = true → stray (Value.returnStatement v) = [] :=
    fun v vFits => stray_of_quiet (fits_node.mp (fits_returnStatement vFits)).2 (by decide)
  induction argument using returned_induction generalizing rebuild with
  | choice v test yes no packs ihYes ihNo =>
    have split := commaSplit_fits fit
    have each := packs ▸ packing_fits split.2
    have head := hoisted_fits off (each test (by simp [Packing.parts]))
    rw [returned_choice rebuild packs, strayItems_append, strayItems_append, strayItems_singleton,
      unpackedAll_stray split.1, unpackedAll_stray head.1, stray_ifStatement, stray_enclosed,
      stray_elseForm, stray_one, stray_one, stray_expression head.2,
      ihYes (each yes (by simp [Packing.parts])) _ plainly,
      ihNo (each no (by simp [Packing.parts])) _ plainly]
    rfl
  | plain v packs =>
    have split := commaSplit_fits fit
    rw [returned_plain rebuild packs, strayItems_append, strayItems_singleton,
      unpackedAll_stray split.1, rebuilds _ split.2]
    rfl

/-! ## Settled nodes -/

/-- Fewer jumps in the fields, fewer out of the node. -/
theorem stray_mono {tag : String} {fields others : Fields} (other : tag ∉ jumpTags)
    (within : strayFields others ⊆ strayFields fields) :
    stray (.tagged tag others) ⊆ stray (.tagged tag fields) := by
  rw [stray_other others other, stray_other fields other]
  split
  · exact List.Subset.refl _
  · exact within

/-- Exchanging a field for one with no other jumps adds none. -/
theorem strayFields_set {fields : Fields} {name : String} {v : Value}
    (new : stray v ⊆ strayFields fields) :
    strayFields (Fields.set name v fields) ⊆ strayFields fields := by
  intro jump member
  obtain ⟨field, among, strays⟩ := mem_strayFields.mp member
  rcases Fields.mem_set among with rfl | among
  · exact new strays
  · exact mem_strayFields.mpr ⟨field, among, strays⟩

theorem strayFields_lookup {fields : Fields} {name : String} {v : Value}
    (found : fields.lookup name = some v) : stray v ⊆ strayFields fields :=
  fun _ strays => mem_strayFields.mpr ⟨_, Fields.mem_of_lookup found, strays⟩

/-- Replacing a field by an expression adds no jumps. -/
theorem stray_withField {tag name : String} {fields : Fields} {v : Value} (other : tag ∉ jumpTags)
    (none : stray v = []) :
    stray ((Value.tagged tag fields).withField name v) ⊆ stray (.tagged tag fields) :=
  stray_mono other (strayFields_set (by simp [none]))

/-- The last operand of a head has no jump to add. -/
theorem stray_commaLast {slot : Slot} {v : Value} (fit : fits slot v = true)
    (none : stray v = []) : stray (commaLast v) = [] := by
  have parts := packing_fits fit
  unfold commaLast
  split
  · rename_i items packs
    cases ends : items.getLast? with
    | none => exact none
    | some last =>
      refine stray_expression (parts last ?_)
      simpa [packs, Packing.parts] using List.mem_of_getLast? ends
  · exact none

theorem commaHoisted_stray {tag name : String} {fields : Fields} {v : Value} {slot : Slot}
    (other : tag ∉ jumpTags) (found : fields.lookup name = some v) (fit : fits slot v = true)
    (none : stray v = []) :
    strayItems (commaHoisted off (.tagged tag fields) name v) ⊆ stray (.tagged tag fields) := by
  rw [commaHoisted_eq found, strayItems_append, strayItems_singleton,
    unpackedAll_stray (leadingOf_fits fit), List.nil_append]
  exact stray_withField other (stray_commaLast fit none)

section

variable {fields : Fields}

/-- The jumps of a branch are those of its branches, wherever these go. -/
theorem settledIf_stray (formed : Formed "IfStatement" fields) :
    strayItems (settledIf off (.tagged "IfStatement" fields) fields) ⊆
      stray (.tagged "IfStatement" fields) := by
  obtain ⟨test, testIs, testFits⟩ := formed.required
    (show (fieldsOf "IfStatement").lookup "test" = some expression from rfl) rfl
  have split := commaSplit_fits testFits
  have kept : strayFields (Fields.set "test" (commaSplit test).2 fields) ⊆ strayFields fields :=
    strayFields_set (by simp [stray_expression split.2])
  have tested : stray ((Value.tagged "IfStatement" fields).withField "test" (commaSplit test).2) ⊆
      stray (.tagged "IfStatement" fields) := stray_mono (by decide) kept
  simp only [settledIf, testIs]
  rw [strayItems_append, strayItems_singleton, unpackedAll_stray split.1, List.nil_append]
  unfold braced
  split
  · exact tested
  · exact tested
  · rename_i consequent _ _ consequentIs _
    split
    · refine stray_mono (by decide) (List.Subset.trans ?_ kept)
      refine strayFields_set ?_
      rw [stray_enclosed]
      exact strayFields_lookup
        (by rwa [Fields.lookup_set_of_ne _ _ (show "consequent" ≠ "test" by decide)])
    · exact tested
  · exact tested

/-- The jumps of a loop are those of its body, for none leaves its head. -/
theorem settledFor_stray (formed : Formed "ForStatement" fields) :
    strayItems (settledFor off (.tagged "ForStatement" fields) fields) ⊆
      stray (.tagged "ForStatement" fields) := by
  obtain ⟨init, initIs, initFits⟩ := formed.required (show (fieldsOf "ForStatement").lookup "init" =
    some (.maybe ("VariableDeclaration" :: expressionTags)) from rfl) rfl
  simp only [settledFor, initIs]
  split
  · rename_i declares
    obtain ⟨initFields, rfl⟩ := declaration_of_isVar declares
    have initFormed := (fits_node.mp initFits).2
    obtain ⟨declarators, kept, moved, -, each, splits, hoists⟩ :=
      hoistDeclarators_spec formed initFormed
    rw [hoists, orSelf, hoistedFrom]
    split
    · rw [strayItems_singleton]
      exact List.Subset.refl _
    · have movedFits := fits_variableDeclaration fun d among => each d (splits.mem_moved among)
      have none : stray (if kept.isEmpty then Value.null else
          (Value.tagged "VariableDeclaration" initFields).withField "declarations" (.seq kept)) =
            [] := by
        split
        · rfl
        · refine stray_of_quiet (initFormed.set ?_ rfl) (by decide)
          exact fits_many.mpr ⟨kept, rfl, fun d among => each d (splits.mem_kept among)⟩
      rw [strayItems, strayItems_singleton, Value.variableDeclaration,
        stray_of_quiet (fits_node.mp movedFits).2 (by decide), List.nil_append]
      exact stray_withField (by decide) none
  · exact commaHoisted_stray (by decide) initIs initFits (stray_quiet initFits (by decide))

/-- No jump leaves what a return becomes. -/
theorem settledReturn_stray (formed : Formed "ReturnStatement" fields) :
    strayItems (settledReturn off (.tagged "ReturnStatement" fields) fields) = [] := by
  have stays : strayItems [.tagged "ReturnStatement" fields] = [] := by
    rw [strayItems_singleton, stray_of_quiet formed (by decide)]
  cases found : fields.lookup "argument" with
  | none => simpa only [settledReturn, found] using stays
  | some argument =>
    rcases fits_opt.mp (formed.fits_lookup found) with rfl | argumentFits
    · simpa only [settledReturn, found] using stays
    · have returns := @returned_stray off _ argumentFits
        ((Value.tagged "ReturnStatement" fields).withField "argument") fun v vFits =>
          stray_of_quiet (formed.set (fits_opt.mpr (Or.inr vFits)) rfl) (by decide)
      obtain ⟨_, _, rfl, -⟩ := fits_one.mp argumentFits
      simpa only [settledReturn, found] using returns

/-- No rule but the one for labels adds a stray jump. -/
theorem settled_stray {tag : String} (formed : Formed tag fields)
    (noLabel : tag ≠ "LabeledStatement") :
    strayItems (settled [] (.tagged tag fields)) ⊆ stray (.tagged tag fields) := by
  by_cases settles : tag ∈ settledTags
  · simp only [settledTags, List.mem_cons, List.not_mem_nil, or_false] at settles
    rcases settles with rfl | rfl | rfl | rfl | rfl | rfl | rfl | rfl
    · obtain ⟨v, vIs, vFits⟩ := formed.required
        (show (fieldsOf "ExpressionStatement").lookup "expression" = some expression from rfl) rfl
      change strayItems (settledExpression [] _ fields) ⊆ _
      simp only [settledExpression, vIs]
      split
      · simp [unpacked_stray vFits]
      · rw [strayItems_singleton]
        exact List.Subset.refl _
    · exact settledIf_stray formed
    · obtain ⟨v, vIs, vFits⟩ := formed.required
        (show (fieldsOf "SwitchStatement").lookup "discriminant" = some expression from rfl) rfl
      change strayItems (settledSwitch [] _ fields) ⊆ _
      simp only [settledSwitch, vIs]
      exact commaHoisted_stray (by decide) vIs vFits (stray_expression vFits)
    · exact settledFor_stray formed
    · exact absurd rfl noLabel
    · change strayItems (settledReturn [] _ fields) ⊆ _
      simp [settledReturn_stray formed]
    all_goals
      have outcome := settled_fits [] formed
      obtain ⟨n, single⟩ := outcome.single (by decide)
      rw [single] at outcome ⊢
      rw [strayItems_singleton, stray_quiet (outcome.each n (by simp)) (by decide)]
      simp
  · rw [settled_other [] fields settles, strayItems_singleton]
    exact List.Subset.refl _

end

/-! ## Labels -/

section

variable {fields : Fields}

theorem labelName_of_named {name : String} {target : Value}
    (targetIs : fields.lookup "label" = some target) (named : Named name target) :
    labelName fields = some name := by
  obtain ⟨inner, rfl, nameIs⟩ := named
  simp [labelName, targetIs, nameIs]

/-- A name of a label comes from an identifier. -/
theorem named_of_labelName {name : String} (nameIs : labelName fields = some name) :
    ∃ target, fields.lookup "label" = some target ∧ Named name target := by
  unfold labelName at nameIs
  split at nameIs
  · rename_i inner found
    split at nameIs
    · rename_i own ownIs
      cases nameIs
      exact ⟨_, found, inner, rfl, ownIs⟩
    · cases nameIs
  · cases nameIs

/-- A label keeps its name. -/
theorem labelName_reshaped {tag : String} (formed : Formed tag fields)
    (optional : slotOf tag "label" = .opt ["Identifier"] ∨
      slotOf tag "label" = .one ["Identifier"]) :
    labelName (reshapedFields off fields) = labelName fields := by
  cases found : fields.lookup "label" with
  | none => simp [labelName, lookup_reshapedFields, found]
  | some target =>
    have fit := formed.fits_lookup found
    have known : target = .null ∨ fits (.one ["Identifier"]) target = true := by
      rcases optional with slot | slot
      · exact fits_opt.mp (slot ▸ fit)
      · exact Or.inr (slot ▸ fit)
    rcases known with rfl | isIdentifier
    · simp [labelName, lookup_reshapedFields, found, reshapedField]
    · obtain ⟨tag', inner, rfl, among, innerFormed⟩ := fits_one.mp isIdentifier
      obtain rfl := List.mem_singleton.mp among
      have nameSame := @lookup_reshaped_bare off _ "name" _ innerFormed (Or.inr rfl)
      simp only [labelName, lookup_reshaped found, found,
        reshapedField_other off inner (show "Identifier" ∉ settledTags by decide), nameSame]

theorem unlabelledBody_eq {body : Value} (bodyIs : fields.lookup "body" = some body) :
    unlabelledBody fields = unlabelled body := by
  induction fields with
  | nil => simp at bodyIs
  | cons field rest ih =>
    obtain ⟨name, v⟩ := field
    by_cases same : name = "body"
    · subst same
      simp only [List.lookup_cons_self, Option.some.injEq] at bodyIs
      simp [unlabelledBody, bodyIs]
    · rw [List.lookup_cons, beq_false_of_ne (Ne.symm same)] at bodyIs
      rw [unlabelledBody, if_neg same, ih bodyIs]

theorem labelsOnBody_eq {body : Value} (bodyIs : fields.lookup "body" = some body) :
    labelsOnBody fields = labelsOn body := by
  induction fields with
  | nil => simp at bodyIs
  | cons field rest ih =>
    obtain ⟨name, v⟩ := field
    by_cases same : name = "body"
    · subst same
      simp only [List.lookup_cons_self, Option.some.injEq] at bodyIs
      simp [labelsOnBody, bodyIs]
    · rw [List.lookup_cons, beq_false_of_ne (Ne.symm same)] at bodyIs
      rw [labelsOnBody, if_neg same, ih bodyIs]

theorem unlabelled_other {tag : String} (other : tag ≠ "LabeledStatement") :
    unlabelled (.tagged tag fields) = .tagged tag fields := by
  unfold unlabelled
  split
  · rename_i same
    cases same
    exact absurd rfl other
  · rfl

/-- A statement loops if it is a loop under its labels. -/
theorem looping_iff {v : Value} (fit : fits statement v = true) :
    isLoopNode (unlabelled v) = true ↔ Looping v := by
  obtain ⟨tag, fields, rfl, -, formed⟩ := fits_one.mp fit
  by_cases isLabel : tag = "LabeledStatement"
  · subst isLabel
    obtain ⟨-, -, body, -, -, bodyIs, bodyFits⟩ := label_fields formed
    have smaller := @Value.size_lt_of_lookup (.str "LabeledStatement") _ _ _ bodyIs
    rw [unlabelled, unlabelledBody_eq bodyIs, looping_iff bodyFits]
    constructor
    · exact .label fields body bodyIs
    · intro loops
      cases loops with
      | loop _ _ isLoop => exact absurd isLoop (by decide)
      | label _ _ otherIs inner =>
        rw [bodyIs] at otherIs
        exact Option.some.inj otherIs ▸ inner
  · rw [unlabelled_other isLabel, isLoopNode, List.contains_iff_mem]
    constructor
    · exact .loop tag fields
    · intro loops
      cases loops with
      | loop _ _ isLoop => exact isLoop
      | label => exact absurd rfl isLabel
termination_by v.size

/-- The jumps that get out of a label are those that get out of its body and that it does not catch. -/
theorem mem_stray_label {name : String} {target body : Value} {jump : Jump}
    (formed : Formed "LabeledStatement" fields) (targetIs : fields.lookup "label" = some target)
    (named : Named name target) (bodyIs : fields.lookup "body" = some body)
    (bodyFits : fits statement body = true) :
    jump ∈ stray (.tagged "LabeledStatement" fields) ↔
      jump ∈ stray body ∧ (jump.label = name → jump.continues = true ∧ ¬ Looping body) := by
  have inside : jump ∈ strayFields fields ↔ jump ∈ stray body := by
    refine ⟨fun member => ?_, fun strays => strayFields_lookup bodyIs strays⟩
    obtain ⟨⟨own, v⟩, among, strays⟩ := mem_strayFields.mp member
    have found := Fields.lookup_of_mem formed.distinct among
    have fit := fitFields_iff.mp formed.fitted _ among
    by_cases isBody : own = "body"
    · subst isBody
      rw [bodyIs] at found
      exact Option.some.inj found ▸ strays
    · have quiet : ∀ t ∈ slotTags (slotOf "LabeledStatement" own), t ∈ quietTags := by
        by_cases isLabel : own = "label"
        · subst isLabel
          decide
        · simp [slotOf, show fieldsOf "LabeledStatement" =
            [("label", .one ["Identifier"]), ("body", statement)] from rfl, List.lookup_cons,
            beq_false_of_ne isLabel, beq_false_of_ne isBody, slotTags]
      simp [stray_quiet fit quiet] at strays
  rw [stray, ownJumps, List.nil_append, List.mem_filter, inside]
  · refine and_congr_right fun _ => ?_
    rw [catches, labelName_of_named targetIs named, unlabelledBody_eq bodyIs, ← looping_iff bodyFits]
    by_cases same : jump.label = name
    · cases jump.continues <;> simp [same]
    · simp [same, Ne.symm same]
  · simp
  · simp

end

/-! ## What leaves the head of a loop -/

/-- A node jumps to a name if it is a jump with this label. -/
theorem jumpsTo_iff {name : String} {n : Value} :
    JumpsTo name n ↔ ∃ jump ∈ ownJumps n, jump.label = name := by
  constructor
  · rintro ⟨tag, fields, target, rfl, isJump, targetIs, named⟩
    have nameIs := labelName_of_named targetIs named
    rcases isJump with rfl | rfl
    · exact ⟨⟨false, name⟩, by simp [ownJumps, nameIs], rfl⟩
    · exact ⟨⟨true, name⟩, by simp [ownJumps, nameIs], rfl⟩
  · rintro ⟨jump, member, rfl⟩
    unfold ownJumps at member
    split at member
    · obtain ⟨name, nameIs, rfl⟩ := List.mem_map.mp member
      obtain ⟨target, targetIs, named⟩ := named_of_labelName (Option.mem_toList.mp nameIs)
      exact ⟨_, _, target, rfl, Or.inr rfl, targetIs, named⟩
    · obtain ⟨name, nameIs, rfl⟩ := List.mem_map.mp member
      obtain ⟨target, targetIs, named⟩ := named_of_labelName (Option.mem_toList.mp nameIs)
      exact ⟨_, _, target, rfl, Or.inl rfl, targetIs, named⟩
    · simp at member

/-- No rule makes a jump. -/
theorem made_noJump {name : String} {n : Value} (made : Made n) : ¬ JumpsTo name n := by
  rintro ⟨tag, fields, target, same, isJump, -⟩
  have tags : tag ∈ ["BreakStatement", "ContinueStatement"] := by
    rcases isJump with rfl | rfl <;> decide
  cases made <;> cases same <;> exact absurd tags (by decide)

/-- A node that a rule makes again jumps nowhere that it did not jump before. -/
theorem remade_noJump {name tag : String} {fields : Fields} {m : Value} (formed : Formed tag fields)
    (none : ¬ JumpsTo name (.tagged tag fields))
    (remade : Remade [] tag (reshapedFields [] fields) m) : ¬ JumpsTo name m := by
  intro jumps
  obtain ⟨changed, shape, -⟩ := remade.names
  have isJump : tag = "BreakStatement" ∨ tag = "ContinueStatement" := by
    obtain ⟨_, _, _, same, isJump, -⟩ := jumps
    rw [shape] at same
    cases same
    exact isJump
  have other : tag ∉ settledTags := by
    rcases isJump with rfl | rfl <;> decide
  have labelled : slotOf tag "label" = .opt ["Identifier"] := by
    rcases isJump with rfl | rfl <;> rfl
  cases remade with
  | same =>
    obtain ⟨_, _, _, same, -, targetIs, named⟩ := jumps
    cases same
    have nameIs := labelName_of_named targetIs named
    rw [labelName_reshaped formed (Or.inl labelled)] at nameIs
    obtain ⟨target, found, isNamed⟩ := named_of_labelName nameIs
    exact none ⟨tag, fields, target, rfl, isJump, found, isNamed⟩
  | _ => exact absurd (by decide) other

theorem noComparisons_removed : OnlyComparisons [] := by
  intro tag member
  simp at member

/-- What holds no jump to a label holds none after reshaping. -/
theorem noJump_reshaped {name : String} {slot : Slot} {v : Value} (fit : fits slot v = true)
    (single : ∃ tag fields, v = .tagged tag fields)
    (none : Everywhere (¬ JumpsTo name ·) v) :
    Everywhere (¬ JumpsTo name ·) (reshapedField [] v) := by
  obtain ⟨tag, fields, rfl⟩ := single
  exact one_everywhere (fun _ => made_noJump) (reshaped_everywhere noComparisons_removed
    (fun _ => made_noJump) (fun _ _ formed calm _ => remade_noJump formed calm) fields
    (fits_node.mp fit).2 none)

/-- A list is flat if each member is. -/
theorem isFlatItems_iff {items : List Value} :
    isFlatItems items = true ↔ ∀ item ∈ items, isFlat item = true := by
  induction items with
  | nil => simp [isFlatItems]
  | cons item rest ih => simp [isFlatItems, ih]

theorem isFlatFields_eq {fields : Fields} {v : Value}
    (found : fields.lookup "expressions" = some v) : isFlatFields fields = isFlat v := by
  induction fields with
  | nil => simp at found
  | cons field rest ih =>
    obtain ⟨name, w⟩ := field
    by_cases same : name = "expressions"
    · subst same
      simp only [List.lookup_cons_self, Option.some.injEq] at found
      simp [isFlatFields, found]
    · rw [List.lookup_cons, beq_false_of_ne (Ne.symm same)] at found
      rw [isFlatFields, if_neg same, ih found]

/-- A flat expression is a comma sequence of flat ones, or not packed at all. -/
theorem packing_of_isFlat {v : Value} (flat : isFlat v = true) :
    (∃ items, packing v = .comma items ∧ ∀ item ∈ items, isFlat item = true) ∨
      packing v = .plain := by
  generalize packs : packing v = p
  have shape := packs ▸ packed v
  cases shape with
  | comma fields items found =>
    rw [isFlat, isFlatFields_eq found, isFlat] at flat
    exact Or.inl ⟨items, rfl, isFlatItems_iff.mp flat⟩
  | choice => simp [isFlat] at flat
  | guard fields test body operatorIs => simp [isFlat, operatorIs] at flat
  | fallback fields test body operatorIs => simp [isFlat, operatorIs] at flat
  | plain => exact Or.inr rfl

/-- Nothing but expression statements comes out of a flat expression. -/
theorem unpacked_flat {v : Value} (fit : fits expression v = true) (flat : isFlat v = true) :
    ∀ s ∈ unpacked [] (reshapedField [] v), ∃ fields, s = .tagged "ExpressionStatement" fields := by
  have packs := noComparisons_removed.unpacking_eq (reshapedField [] v)
  rw [packing_reshapedField fit] at packs
  rcases packing_of_isFlat flat with ⟨items, comma, each⟩ | plain
  · have parts := packing_fits fit
    rw [comma] at packs
    rw [unpacked_comma packs]
    intro s member
    obtain ⟨_, among, within⟩ := List.mem_flatMap.mp member
    obtain ⟨item, itemAmong, rfl⟩ := List.mem_map.mp among
    have smaller := @size_lt_of_mem_parts _ item _ comma itemAmong
    exact unpacked_flat (parts item (by simpa [comma, Packing.parts] using itemAmong))
      (each item itemAmong) s within
  · rw [plain] at packs
    have fitAfter : fits expression (reshapedField [] v) = true :=
      reshapedField_fits (by decide) fit fun _ _ _ formed => reshaped_fits [] formed
    rw [unpacked_plain packs, asStatement_expression fitAfter]
    intro s member
    exact ⟨_, List.mem_singleton.mp member⟩
termination_by v.size

/-- Reshaping makes no declaration with `var`, and unmakes none. -/
theorem isVar_reshaped {v : Value}
    (fit : fits (.maybe ("VariableDeclaration" :: expressionTags)) v = true) :
    isVar (reshapedField [] v) = isVar v := by
  rcases fits_maybe.mp fit with rfl | fit
  · rfl
  · obtain ⟨tag, inner, rfl, admitted, formed⟩ := fits_one.mp fit
    rcases List.mem_cons.mp admitted with rfl | admitted
    · have kind := @lookup_reshaped_bare [] _ "kind" _ formed (Or.inr rfl)
      rw [reshapedField_other [] inner (by decide), isVar, isVar, kind]
    · have isExpression : fits expression (.tagged tag inner) = true :=
        fits_node.mpr ⟨admitted, formed⟩
      rw [isVar_expression isExpression]
      exact isVar_expression
        (reshapedField_fits (by decide) isExpression fun _ _ _ formed => reshaped_fits [] formed)

/-- What becomes of a loop: statements that leave any label of the given names, and a loop. -/
structure Leaves (names : List String) (nodes : List Value) : Prop where
  split : ∃ leading last, nodes = leading ++ [last] ∧ Looping last ∧
    ∀ s ∈ leading, ∀ name ∈ names, CanLeave name s

theorem Leaves.stays {names : List String} {n : Value} (loops : Looping n) : Leaves names [n] :=
  ⟨[], n, rfl, loops, by simp⟩

/-- What moves out of a head that may leave its labels is flat, and does not jump to them. -/
theorem headLeaves_spec {names : List String} {fields : Fields} {init : Value}
    (head : headLeaves names (.tagged "ForStatement" fields) = true)
    (initIs : fields.lookup "init" = some init) :
    ∀ part ∈ headParts init, isFlat part = true ∧
      ∀ name ∈ names, Everywhere (¬ JumpsTo name ·) part := by
  intro part member
  simp only [headLeaves, initIs, Option.all_some, List.all_eq_true, Bool.and_eq_true] at head
  obtain ⟨flat, calm⟩ := head part member
  refine ⟨flat, fun name among n met jumps => ?_⟩
  obtain ⟨jump, isOwn, rfl⟩ := jumpsTo_iff.mp jumps
  simpa [among] using calm n met jump isOwn

/-- A declaration that leaves the head of a loop. -/
theorem canLeave_declaration {name : String} {initFields : Fields} {declarators moved : List Value}
    (none : Everywhere (¬ JumpsTo name ·) (.tagged "VariableDeclaration" initFields))
    (declared : initFields.lookup "declarations" = some (.seq declarators))
    (within : ∀ d ∈ moved, d ∈ declarators) :
    CanLeave name (Value.variableDeclaration moved (.str "var")) := by
  refine ⟨Or.inl ⟨_, rfl, rfl⟩, everywhere_node.mpr ⟨?_, fun field member => ?_⟩⟩
  · rintro ⟨_, _, _, same, isJump, -⟩
    cases same
    rcases isJump with isJump | isJump <;> simp at isJump
  · simp only [List.mem_cons, List.not_mem_nil, or_false] at member
    rcases member with rfl | rfl
    · exact everywhere_seq.mpr fun d among => none.below.member declared (within d among)
    · exact .of_walk_nil rfl

/-- Reshaping a loop whose head may leave its labels puts statements before it that may leave them.
-/
theorem for_leaves {names : List String} {fields : Fields} (formed : Formed "ForStatement" fields)
    (head : headLeaves names (.tagged "ForStatement" fields) = true) :
    Leaves names (reshaped [] (.tagged "ForStatement" fields)) := by
  obtain ⟨init, initIs, initFits⟩ := formed.required (show (fieldsOf "ForStatement").lookup "init" =
    some (.maybe ("VariableDeclaration" :: expressionTags)) from rfl) rfl
  have parts := headLeaves_spec head initIs
  have after := @lookup_reshaped [] _ _ _ initIs
  have loop : ∀ others, Looping (.tagged "ForStatement" others) :=
    fun others => .loop _ others (by decide)
  show Leaves names (settledFor [] (.tagged "ForStatement" (reshapedFields [] fields))
    (reshapedFields [] fields))
  simp only [settledFor, after, isVar_reshaped initFits]
  split
  · rename_i declares
    obtain ⟨initFields, rfl⟩ := declaration_of_isVar declares
    rw [headParts, if_pos declares] at parts
    have initFormed := (fits_node.mp initFits).2
    have whole := reshapedField_other [] initFields (show "VariableDeclaration" ∉ settledTags by decide)
    rw [whole]
    obtain ⟨declarators, kept, moved, declared, -, splits, hoists⟩ := hoistDeclarators_spec
      (reshapedFields_formed [] fields formed) (reshapedFields_formed [] initFields initFormed)
    rw [hoists, orSelf, hoistedFrom]
    split
    · exact .stays (loop _)
    · refine ⟨[_], _, rfl, loop _, fun s member name among => ?_⟩
      rw [List.mem_singleton.mp member]
      have calm := noJump_reshaped initFits ⟨_, _, rfl⟩ ((parts _ (by simp)).2 name among)
      rw [whole] at calm
      exact canLeave_declaration calm declared fun d isMoved => splits.mem_moved isMoved
  · rename_i noVar
    rw [headParts, if_neg noVar] at parts
    rw [commaHoisted_eq after, leadingOf_reshapedField initFits]
    refine ⟨_, _, rfl, loop _, fun s member name among => ?_⟩
    obtain ⟨_, isPart, within⟩ := List.mem_flatMap.mp member
    obtain ⟨part, partAmong, rfl⟩ := List.mem_map.mp isPart
    have partFits := leadingOf_fits initFits part partAmong
    obtain ⟨flat, calm⟩ := parts part partAmong
    obtain ⟨_, _, rfl, -⟩ := fits_one.mp partFits
    refine ⟨Or.inr (unpacked_flat partFits flat s within), ?_⟩
    exact unpacked_everywhere (fun _ => made_noJump) noComparisons_removed
      (reshapedField_fits (by decide) partFits fun _ _ _ formed => reshaped_fits [] formed)
      (noJump_reshaped partFits ⟨_, _, rfl⟩ (calm name among)) s within

/-- The fields of a reshaped label. -/
theorem label_after {name : String} {fields : Fields} {target body : Value}
    (formed : Formed "LabeledStatement" fields) (targetIs : fields.lookup "label" = some target)
    (named : Named name target) (bodyIs : fields.lookup "body" = some body) :
    ∃ after, (reshapedFields [] fields).lookup "label" = some after ∧ Named name after ∧
      (reshapedFields [] fields).lookup "body" = some (reshapedField [] body) ∧
      fits statement (reshapedField [] body) = true := by
  have nameIs := labelName_of_named targetIs named
  rw [← @labelName_reshaped [] _ _ formed (Or.inr rfl)] at nameIs
  obtain ⟨after, afterIs, isNamed⟩ := named_of_labelName nameIs
  have bodyAfter := @lookup_reshaped [] _ _ _ bodyIs
  exact ⟨after, afterIs, isNamed, bodyAfter,
    (reshapedFields_formed [] fields formed).fits_lookup bodyAfter⟩

theorem one_several {leading : List Value} (last : Value) (leads : leading ≠ []) :
    one (leading ++ [last]) = Value.blockStatement (leading ++ [last]) := by
  unfold one
  split
  · rename_i n same
    rcases List.append_eq_singleton_iff.mp same with ⟨none, -⟩ | ⟨-, none⟩
    · exact absurd none leads
    · cases none
  · rfl

/-- A label leaves the block of a loop and what left its head. -/
theorem Leaves.leaving {names : List String} {name : String} {leading : List Value} {last : Value}
    (leads : leading ≠ []) (loops : Looping last)
    (leave : ∀ s ∈ leading, ∀ name ∈ names, CanLeave name s) (among : name ∈ names) :
    Leaving name (one (leading ++ [last])) leading last := by
  rw [one_several last leads]
  exact ⟨⟨_, rfl, rfl⟩, leads, loops, fun s member => leave s member name among⟩

/-- A loop under labels becomes a loop under the same labels, and what leaves its head stands in
front. -/
theorem loop_leaves {names : List String} {v : Value} (fit : fits statement v = true)
    (loops : Looping v) (head : headLeaves names (unlabelled v) = true)
    (on : ∀ name ∈ labelsOn v, name ∈ names) : Leaves names (reshaped [] v) := by
  induction loops with
  | loop tag fields isLoop =>
    have formed := (fits_node.mp fit).2
    have noLabel : tag ≠ "LabeledStatement" := by
      rintro rfl
      exact absurd isLoop (by decide)
    rw [unlabelled_other noLabel] at head
    by_cases isFor : tag = "ForStatement"
    · subst isFor
      exact for_leaves formed head
    · have others : ∀ t ∈ Rule.loopTags, t = "ForStatement" ∨ t ∉ settledTags := by decide
      rw [reshaped_other [] fields ((others tag isLoop).resolve_left isFor)]
      exact .stays (.loop tag _ isLoop)
  | label fields body bodyIs inner ih =>
    have formed := (fits_node.mp fit).2
    obtain ⟨name, target, own, targetIs, named, ownIs, bodyFits⟩ := label_fields formed
    obtain rfl : body = own := by simpa [bodyIs] using ownIs
    have nameIs := labelName_of_named targetIs named
    rw [unlabelled, unlabelledBody_eq bodyIs] at head
    rw [labelsOn, labelsOnBody_eq bodyIs, nameIs] at on
    obtain ⟨leading, last, same, lastLoops, leave⟩ :=
      (ih bodyFits head fun other among => on other (by simp [among])).split
    obtain ⟨after, afterIs, isNamed, bodyAfter, afterFits⟩ :=
      label_after formed targetIs named bodyIs
    have bodyBecomes : reshapedField [] body = one (leading ++ [last]) := by
      obtain ⟨_, _, rfl, -⟩ := fits_one.mp bodyFits
      exact congrArg one same
    change Leaves names (settledLabel (.tagged "LabeledStatement" (reshapedFields [] fields))
      (reshapedFields [] fields))
    rw [bodyBecomes] at bodyAfter afterFits
    by_cases leads : leading = []
    · subst leads
      rw [settledLabel_stays afterIs isNamed bodyAfter afterFits fun _ _ =>
        not_leaving_of_looping lastLoops, Value.withField_lookup bodyAfter]
      exact .stays (.label _ _ bodyAfter lastLoops)
    · have leaving := Leaves.leaving leads lastLoops leave (on name (by simp))
      rw [settledLabel_moves afterIs isNamed bodyAfter afterFits leaving]
      exact ⟨leading, _, rfl, .label _ last (Fields.lookup_set_self ..) lastLoops, leave⟩

/-! ## Whole trees -/

/-- The statements of a block that a label leaves. -/
theorem leaving_statements {name : String} {body last : Value} {leading : List Value}
    (leaving : Leaving name body leading last) (bodyFits : fits statement body = true) :
    ∀ s ∈ leading ++ [last], fits statement s = true := by
  obtain ⟨fields, rfl, itemsAre⟩ := leaving.block
  obtain ⟨items, found, each⟩ := (fits_node.mp bodyFits).2.many
    (show (fieldsOf "BlockStatement").lookup "body" = some (.many statementTags) from rfl)
  obtain rfl : leading ++ [last] = items := by simpa [itemsAre] using found
  exact each

theorem plain_stray {s : Value} (plain : Plain s) (fit : fits statement s = true) : stray s = [] := by
  rcases plain with ⟨fields, rfl, -⟩ | ⟨fields, rfl⟩
  · exact stray_of_quiet (fits_node.mp fit).2 (by decide)
  · exact stray_of_quiet (fits_node.mp fit).2 (by decide)

/-- A label lets no jump out that did not get out before. -/
theorem label_stray {fields : Fields} {body : Value} (formed : Formed "LabeledStatement" fields)
    (bodyIs : fields.lookup "body" = some body)
    (keeps : keepsLoop (.tagged "LabeledStatement" fields) = true)
    (inner : stray (reshapedField [] body) ⊆ stray body) :
    strayItems (reshaped [] (.tagged "LabeledStatement" fields)) ⊆
      stray (.tagged "LabeledStatement" fields) := by
  obtain ⟨name, target, own, targetIs, named, ownIs, bodyFits⟩ := label_fields formed
  obtain rfl : body = own := by simpa [bodyIs] using ownIs
  obtain ⟨after, afterIs, isNamed, bodyAfter, afterFits⟩ :=
    label_after formed targetIs named bodyIs
  have formedAfter := reshapedFields_formed [] fields formed
  intro jump member
  rw [mem_stray_label formed targetIs named bodyIs bodyFits]
  change jump ∈ strayItems (settledLabel (.tagged "LabeledStatement" (reshapedFields [] fields))
    (reshapedFields [] fields)) at member
  by_cases leaves : ∃ leading last, Leaving name (reshapedField [] body) leading last
  · -- The label is on the loop again, so it catches what goes to it.
    obtain ⟨leading, last, leaving⟩ := leaves
    rw [settledLabel_moves afterIs isNamed bodyAfter afterFits leaving, strayItems_append,
      strayItems_singleton] at member
    have statements := leaving_statements leaving afterFits
    have plain : strayItems leading = [] := strayItems_nil_of fun s among =>
      plain_stray (leaving.leave s among).plain (statements s (List.mem_append_left _ among))
    have lastFits := statements last (by simp)
    have relabelled : Formed "LabeledStatement" (Fields.set "body" last (reshapedFields [] fields)) :=
      formedAfter.set lastFits rfl
    rw [plain, List.nil_append, Value.withField, mem_stray_label relabelled
      (by rw [Fields.lookup_set_of_ne _ _ (by decide), afterIs]) isNamed (Fields.lookup_set_self ..)
      lastFits] at member
    have fromLast : jump ∈ stray (reshapedField [] body) := by
      obtain ⟨blockFields, isBlock, itemsAre⟩ := leaving.block
      rw [isBlock, stray_other _ (by decide), if_neg (by decide)]
      refine strayFields_lookup itemsAre (mem_strayItems.mpr ⟨last, by simp, member.1⟩)
    exact ⟨inner fromLast, fun same => absurd leaving.loops (member.2 same).2⟩
  · rw [settledLabel_stays afterIs isNamed bodyAfter afterFits fun leading last leaving =>
      leaves ⟨leading, last, leaving⟩, Value.withField_lookup bodyAfter, strayItems_singleton,
      mem_stray_label formedAfter afterIs isNamed bodyAfter afterFits] at member
    refine ⟨inner member.1, fun same => ?_⟩
    obtain ⟨continues, notLooping⟩ := member.2 same
    refine ⟨continues, fun loops => ?_⟩
    -- A continue to the label gets out of the body, so the label finds its loop again.
    have asked : ⟨true, name⟩ ∈ strayFields fields := by
      obtain ⟨_, _⟩ := jump
      cases continues
      cases same
      exact strayFields_lookup bodyIs (inner member.1)
    have nameIs := labelName_of_named targetIs named
    have head : headLeaves (name :: labelsOn body) (unlabelled body) = true := by
      simpa [keepsLoop, nameIs, asked, labelsOn, labelsOnBody_eq bodyIs, unlabelledBody_eq bodyIs]
        using keeps
    obtain ⟨leading, last, becomes, lastLoops, leave⟩ := (loop_leaves bodyFits loops head
      fun other among => List.mem_cons_of_mem _ among).split
    have bodyBecomes : reshapedField [] body = one (leading ++ [last]) := by
      obtain ⟨_, _, rfl, -⟩ := fits_one.mp bodyFits
      exact congrArg one becomes
    by_cases leads : leading = []
    · subst leads
      exact notLooping (bodyBecomes ▸ lastLoops)
    · exact leaves ⟨leading, last, bodyBecomes ▸ Leaves.leaving leads lastLoops leave (by simp)⟩

/-- The jumps that get out of reshaped fields got out of the fields. -/
theorem strayField_reshaped {tag : String} {fields : Fields} (formed : Formed tag fields)
    (inner : ∀ name v, (name, v) ∈ fields → ∀ tag' inside, heldBy v tag' inside →
      Formed tag' inside → strayItems (reshaped [] (.tagged tag' inside)) ⊆
        stray (.tagged tag' inside)) :
    ∀ name v, (name, v) ∈ fields → stray (reshapedField [] v) ⊆ stray v := by
  intro name v member
  have fit := fitFields_iff.mp formed.fitted _ member
  cases v with
  | node tag' inside =>
    obtain ⟨text, rfl, insideFormed⟩ := formed_of_fits fit
    exact (stray_one _).symm ▸ inner name _ member text inside (Or.inl rfl) insideFormed
  | seq items =>
    intro jump strays
    obtain ⟨n, among, own⟩ := mem_strayItems.mp strays
    rw [reshapedItems_eq] at among
    obtain ⟨item, itemAmong, within⟩ := List.mem_flatMap.mp among
    refine mem_strayItems.mpr ⟨item, itemAmong, ?_⟩
    rcases member_of_fits fit itemAmong with ⟨text, inside, rfl, insideFormed⟩ | empty
    · exact inner name _ member text inside (Or.inr ⟨items, rfl, itemAmong⟩) insideFormed
        (mem_strayItems.mpr ⟨n, within, own⟩)
    · cases item with
      | node => simp [Value.walk] at empty
      | _ => exact List.mem_singleton.mp within ▸ own
  | _ => exact List.Subset.refl _

/-- From the fields to the node. -/
theorem strayFields_reshaped {fields : Fields}
    (each : ∀ name v, (name, v) ∈ fields → stray (reshapedField [] v) ⊆ stray v) :
    strayFields (reshapedFields [] fields) ⊆ strayFields fields := by
  intro jump member
  obtain ⟨field, among, strays⟩ := mem_strayFields.mp member
  rw [reshapedFields_eq] at among
  obtain ⟨⟨name, v⟩, original, rfl⟩ := List.mem_map.mp among
  exact mem_strayFields.mpr ⟨(name, v), original, each name v original strays⟩

/-- A node that is no label lets no more jumps out when its fields do not. -/
theorem strayNode_reshaped {tag : String} {fields : Fields} (formed : Formed tag fields)
    (noLabel : tag ≠ "LabeledStatement")
    (within : strayFields (reshapedFields [] fields) ⊆ strayFields fields) :
    stray (.tagged tag (reshapedFields [] fields)) ⊆ stray (.tagged tag fields) := by
  by_cases jumps : tag ∈ jumpTags
  · have isJump : tag = "BreakStatement" ∨ tag = "ContinueStatement" := by
      simpa [jumpTags, noLabel] using jumps
    have labelled : slotOf tag "label" = .opt ["Identifier"] := by
      rcases isJump with rfl | rfl <;> rfl
    have same := @labelName_reshaped [] _ _ formed (Or.inl labelled)
    have own : ownJumps (.tagged tag (reshapedFields [] fields)) =
        ownJumps (.tagged tag fields) := by
      rcases isJump with rfl | rfl <;> simp only [ownJumps, same]
    intro jump member
    rw [stray, List.mem_append, List.mem_filter, own] at member
    rw [stray, List.mem_append, List.mem_filter, catches_other _ _ noLabel]
    rw [catches_other _ _ noLabel] at member
    exact member.imp_right fun inside => ⟨within inside.1, inside.2⟩
  · exact stray_mono jumps within

/-- No jump gets out of what becomes of a node that did not get out of the node. -/
theorem reshaped_stray {tag : String} {fields : Fields} (formed : Formed tag fields)
    (each : Everywhere (keepsLoop · = true) (.tagged tag fields)) :
    strayItems (reshaped [] (.tagged tag fields)) ⊆ stray (.tagged tag fields) := by
  induction formed using formed_induction with
  | step tag fields formed inner =>
    have fieldwise := strayField_reshaped formed fun name v member tag' inside held insideFormed =>
      inner name v member tag' inside held insideFormed ((each.below _ member).held held)
    by_cases isLabel : tag = "LabeledStatement"
    · subst isLabel
      obtain ⟨-, -, body, -, -, bodyIs, -⟩ := label_fields formed
      exact label_stray formed bodyIs each.own
        (fieldwise "body" body (Fields.mem_of_lookup bodyIs))
    · exact List.Subset.trans (settled_stray (reshapedFields_formed [] fields formed) isLabel)
        (strayNode_reshaped formed isLabel (strayFields_reshaped fieldwise))

/-- If every label that is asked to continue finds its loop again, every jump of a reshaped program
still goes somewhere. -/
theorem prettify_keeps_jumps {program : Value} (formed : WellFormed program)
    (bound : JumpsBound program) (keeps : Everywhere (keepsLoop · = true) program) :
    ∃ result, prettify Registry.builtin program = .ok result ∧ WellFormed result ∧
      JumpsBound result := by
  obtain ⟨fields, rfl, programFormed, whole, answer, resultFormed⟩ := prettify_program [] formed
  rw [without_nil] at answer
  refine ⟨_, answer, resultFormed, ?_, fun function member => ?_⟩
  · have within := reshaped_stray programFormed keeps
    rwa [whole, strayItems_singleton, bound.1, List.subset_nil] at within
  · have among := (functionsOf_reshaped programFormed).mem_iff.mp member
    obtain ⟨source, isFunction, rfl⟩ := List.mem_map.mp among
    have met := (List.mem_filter.mp isFunction).1
    obtain ⟨tag, inner, rfl, innerFormed⟩ := walk_formed formed source met
    have none : strayFields inner = [] := bound.2 _ isFunction
    have within := strayFields_reshaped (strayField_reshaped innerFormed
      fun name v field tag' inside held insideFormed =>
        reshaped_stray insideFormed (((keeps.met met).below _ field).held held))
    rwa [none, List.subset_nil] at within

/-- The program `l: m: for (var i = 0, j = a(); i < 9;) { if (b) continue l; break m; }`. -/
def declaringLoop : Value :=
  let name (s : String) : Value := .tagged "Identifier" [("name", .str s)]
  let number (n : Int) : Value := .tagged "Literal" [("value", .int n)]
  let declarator (x : String) (v : Value) : Value :=
    .tagged "VariableDeclarator" [("id", name x), ("init", v)]
  let call := Value.tagged "CallExpression" [("callee", name "a"), ("arguments", .seq [])]
  let test := Value.tagged "BinaryExpression"
    [("operator", .str "<"), ("left", name "i"), ("right", number 9)]
  let body := Value.blockStatement [
    Value.ifStatement (name "b") (.tagged "ContinueStatement" [("label", name "l")]) .null,
    .tagged "BreakStatement" [("label", name "m")]]
  let loop := Value.tagged "ForStatement" [("init", Value.variableDeclaration
      [declarator "i" (number 0), declarator "j" call] (.str "var")),
    ("test", test), ("update", .null), ("body", body)]
  .tagged "Program" [("body", .seq [.tagged "LabeledStatement" [("label", name "l"),
    ("body", .tagged "LabeledStatement" [("label", name "m"), ("body", loop)])]])]

/-- The declaration of `j` leaves both labels. -/
theorem prettify_keeps_jumps_declaringLoop :
    WellFormed declaringLoop ∧ JumpsBound declaringLoop ∧
      Everywhere (keepsLoop · = true) declaringLoop ∧
      ∃ result, prettify Registry.builtin declaringLoop = .ok result ∧ WellFormed result ∧
        JumpsBound result :=
  ⟨by decide, by decide, by decide,
    prettify_keeps_jumps (by decide) (by decide) (by decide)⟩

/-- The program `l: for (x && a(), i = 0;;) continue l;`. -/
def guardedHead : Value :=
  let name (s : String) : Value := .tagged "Identifier" [("name", .str s)]
  let guard := Value.tagged "LogicalExpression" [("operator", .str "&&"), ("left", name "x"),
    ("right", .tagged "CallExpression" [("callee", name "a"), ("arguments", .seq [])])]
  let start := Value.tagged "AssignmentExpression"
    [("operator", .str "="), ("left", name "i"), ("right", .tagged "Literal" [("value", .int 0)])]
  .tagged "Program" [("body", .seq [.tagged "LabeledStatement" [("label", name "l"),
    ("body", .tagged "ForStatement" [
      ("init", .tagged "SequenceExpression" [("expressions", .seq [guard, start])]),
      ("test", .null), ("update", .null),
      ("body", .tagged "ContinueStatement" [("label", name "l")])])]])]

/-- The branch that leaves the head keeps the label off the loop, and the continue goes nowhere. -/
theorem prettify_loses_loop :
    WellFormed guardedHead ∧ JumpsBound guardedHead ∧
      ∃ result, prettify Registry.builtin guardedHead = .ok result ∧
        stray result = [⟨true, "l"⟩] :=
  ⟨by decide, by decide, _, rfl, by decide⟩

end Untangle.Reshape
