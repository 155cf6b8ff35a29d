import Mathlib.Algebra.FreeMonoid.Basic
import Untangle.Proofs.Reshape.Conservation
import Untangle.Proofs.Reshape.Constants

/-!
# Reshaping keeps what a program does, in order

Calls, assignments, member accesses and the like stand in a reshaped program as often and in the same
order as before. Each is told apart by its tag, its operator and the name that it is about. The one
name that reshaping brings in is `undefined`, for what was a packed spelling of it.

* `effects` lists what a tree does, in walk order.
* `prettify_keeps_effects` is the statement about whole programs. Comparisons keep their sides there:
  the rule that turns them round is taken out.
-/

namespace Untangle.Reshape

open Syntax

/-- The tags of expressions that do something or that are something of their own. -/
def effectTags : List String :=
  ["CallExpression", "NewExpression", "AssignmentExpression", "UpdateExpression",
    "TaggedTemplateExpression", "YieldExpression", "AwaitExpression", "MemberExpression",
    "FunctionExpression", "ArrowFunctionExpression", "ClassExpression"]

/-- Such an expression without its parts. -/
structure Effect where
  tag : String
  operator : Option Value
  name : Option String

def nameOf? : Value → Option String
  | .node (.str "Identifier") fields =>
    match fields.lookup "name" with
    | some (.str name) => some name
    | _ => none
  | _ => none

/-- The name of an identifier, where the packed spellings of `undefined` count as that name. -/
def foldedNameOf? (v : Value) : Option String :=
  if isUndefined isFoldedLiteral v then some "undefined" else nameOf? v

/-- The fields that hold what an effect is about. -/
def subjectFields : List String :=
  ["callee", "left", "argument"]

/-- What a node does, by the given reading of names. -/
def effect? (name? : Value → Option String) : Value → Option Effect
  | .node (.str tag) fields =>
    if effectTags.contains tag then
      some ⟨tag, fields.lookup "operator",
        subjectFields.findSome? fun field => (fields.lookup field).bind name?⟩
    else none
  | _ => none

/-- What a tree does, in walk order. -/
def effects (name? : Value → Option String) (v : Value) : List Effect :=
  v.walk.filterMap (effect? name?)

/-! ## Names -/

theorem nameOf?_eq_some {v : Value} {name : String} : nameOf? v = some name ↔ Named name v := by
  constructor
  · intro same
    unfold nameOf? at same
    split at same
    · split at same
      · cases same
        exact ⟨_, rfl, ‹_›⟩
      · simp at same
    · simp at same
  · rintro ⟨fields, rfl, nameIs⟩
    rw [nameOf?, nameIs]

section

variable {off : List String} (present : ¬ off.contains "UnaryExpression" = true)

/-- Reshaping brings in no name but `undefined`. -/
theorem named_of_reshaped {v : Value} {name : String} (fit : fits expression v = true)
    (named : Named name (reshapedField off v)) :
    Named name v ∨ isUndefined isFoldedLiteral v = true := by
  obtain ⟨tag, fields, rfl, -, formed⟩ := fits_one.mp fit
  obtain ⟨others, same, nameIs⟩ := named
  by_cases isUnary : tag = "UnaryExpression"
  · subst isUnary
    right
    have folds : Folds (reshapedFields off fields) (reshapedField off _) := reshapedField_folds formed
    generalize whole : reshapedField off (.tagged "UnaryExpression" fields) = n at folds
    cases folds with
    | keep | truth => simp [whole, Value.booleanLiteral, Value.literal] at same
    | absent => exact undefined_of_reshaped fit ⟨_, whole, rfl⟩
  · obtain rfl := tag_of_reshaped fit isUnary same
    rw [reshapedField_other off fields (by decide)] at same
    cases same
    rw [lookup_reshaped_bare formed (Or.inr rfl)] at nameIs
    exact Or.inl ⟨fields, rfl, nameIs⟩

include present

theorem nameOf?_expression {v : Value} (fit : fits expression v = true) :
    nameOf? (reshapedField off v) = foldedNameOf? v := by
  unfold foldedNameOf?
  split
  · rename_i absent
    exact nameOf?_eq_some.mpr (reshaped_undefined present fit absent)
  · rename_i other
    apply Option.ext
    intro name
    rw [nameOf?_eq_some, nameOf?_eq_some]
    constructor
    · exact fun named => (named_of_reshaped fit named).resolve_right other
    · rintro ⟨fields, rfl, nameIs⟩
      exact ⟨_, reshapedField_other off fields (by decide), lookup_reshaped nameIs⟩

/-- What an effect is about is an expression, or nothing with a name. -/
theorem nameOf?_subject {tag field : String} {fields : Fields} {v : Value}
    (formed : Formed tag fields) (isEffect : tag ∈ effectTags) (subject : field ∈ subjectFields)
    (found : fields.lookup field = some v) :
    nameOf? (reshapedField off v) = foldedNameOf? v := by
  have slots : ∀ tag ∈ effectTags, ∀ field ∈ subjectFields,
      slotOf tag field ∈ [expression, .opt expressionTags, .bare] := by decide
  have fit := formed.fits_lookup found
  have slot := slots tag isEffect field subject
  generalize slotOf tag field = s at fit slot
  simp only [List.mem_cons, List.not_mem_nil, or_false] at slot
  rcases slot with rfl | rfl | rfl
  · exact nameOf?_expression present fit
  · rcases fits_opt.mp fit with rfl | fit
    · rfl
    · exact nameOf?_expression present fit
  · cases v with
    | node inner others =>
      obtain ⟨text, rfl, -⟩ := formed_of_fits fit
      exact absurd (fits_node.mp fit).1 (by simp [Slot.tags])
    | _ => rfl

/-- A reshaped node does what the node did. -/
theorem effect?_reshaped {tag : String} {fields : Fields} (formed : Formed tag fields) :
    effect? nameOf? (.tagged tag (reshapedFields off fields)) =
      effect? foldedNameOf? (.tagged tag fields) := by
  simp only [effect?]
  split
  · rename_i isEffect
    rw [List.contains_iff_mem] at isEffect
    have operators : ∀ tag ∈ effectTags,
      slotOf tag "operator" = .bare ∨ slotOf tag "operator" = .text := by decide
    have subject (field : String) (among : field ∈ subjectFields) :
        ((reshapedFields off fields).lookup field).bind nameOf? =
          (fields.lookup field).bind foldedNameOf? := by
      rw [lookup_reshapedFields]
      cases found : fields.lookup field with
      | none => rfl
      | some v => exact nameOf?_subject present formed isEffect among found
    simp only [lookup_reshaped_bare formed (operators tag isEffect), subjectFields, List.findSome?,
      subject "callee" (by decide), subject "left" (by decide), subject "argument" (by decide)]
  · rfl

end

/-! ## Weights -/

/-- A node weighs what it does. -/
def effectWeight (name? : Value → Option String) (n : Value) : FreeAddMonoid Effect :=
  FreeAddMonoid.ofList (effect? name? n).toList

theorem sum_effectWeight (name? : Value → Option String) (nodes : List Value) :
    (nodes.map (effectWeight name?)).sum = FreeAddMonoid.ofList (nodes.filterMap (effect? name?)) := by
  induction nodes with
  | nil => rfl
  | cons n rest ih =>
    rw [List.map_cons, List.sum_cons, ih, effectWeight, List.filterMap_cons]
    cases effect? name? n <;> rfl

theorem effectWeight_other {name? : Value → Option String} {tag : String} (fields : Fields)
    (other : tag ∉ effectTags) : effectWeight name? (.tagged tag fields) = 0 := by
  have none : effect? name? (.tagged tag fields) = none := by
    simp [effect?, other]
  rw [effectWeight, none]
  rfl

theorem effectWeight_indifferent (name? : Value → Option String) :
    Indifferent ["BinaryExpression"] (effectWeight name?) where
  wrapper tag wraps fields := by
    have others : ∀ tag ∈ wrapperTags, tag ∉ effectTags := by decide
    exact effectWeight_other fields (others tag wraps)
  declaration fields _ := effectWeight_other fields (by decide)
  turned kept := absurd rfl kept

/-! ## Whole programs -/

/-- Whether a declarator has an initializer or declares a single name. -/
def hasPlainTarget : Value → Bool
  | .node (.str "VariableDeclarator") fields =>
    (fields.lookup "init").any (fun init => !init.isNull) ||
      (fields.lookup "id").any (·.hasTag "Identifier")
  | _ => true

/-- A declarator without an initializer after reshaping had none before. -/
theorem lacks_init {off : List String} {fields : Fields} (formed : Formed "VariableDeclarator" fields)
    (noInit : (Value.tagged "VariableDeclarator" (reshapedFields off fields)).optional "init" =
      .ok none) : Lacks fields "init" := by
  cases found : fields.lookup "init" with
  | none => exact Or.inl found
  | some v =>
    rcases fits_opt.mp (formed.fits_lookup found) with rfl | fit
    · exact Or.inr found
    · have stays : fits expression (reshapedField off v) = true :=
        reshapedField_fits (by decide) fit fun _ _ _ innerFormed => reshaped_fits off innerFormed
      obtain ⟨tag, inner, same, -⟩ := fits_one.mp stays
      rw [Value.optional_of_lookup (lookup_reshaped found) (by simp [same])] at noInit
      cases noInit

theorem effectWeight_calm :
    CalmDeclarators ["BinaryExpression"] (effectWeight nameOf?) (hasPlainTarget · = true) := by
  intro fields formed each noInit m
  have h := effectWeight_indifferent nameOf?
  have lacks := lacks_init formed noInit
  have plain : hasPlainTarget (.tagged "VariableDeclarator" fields) = true := each.own
  obtain ⟨target, targetIs, targetFits⟩ := formed.required
    (show (fieldsOf "VariableDeclarator").lookup "id" = some expression from rfl) rfl
  obtain ⟨tag, inner, rfl, -⟩ := fits_one.mp targetFits
  obtain rfl : tag = "Identifier" := by
    rcases lacks with none | null
    · simpa [hasPlainTarget, none, targetIs] using plain
    · simpa [hasPlainTarget, null, targetIs, Value.isNull] using plain
  have missing : tallyOf (effectWeight nameOf?)
      ((reshapedFields ["BinaryExpression"] fields).lookup "init") = 0 := by
    rw [lookup_reshapedFields]
    rcases lacks with none | null
    · rw [none, Option.map_none, tallyOf_none]
    · rw [null, Option.map_some, reshapedField, tallyOf_some, tally_null] <;> simp
  have empty : tally (effectWeight nameOf?)
      (.tagged "VariableDeclarator" (reshapedFields ["BinaryExpression"] fields)) = 0 := by
    rw [tally_node, effectWeight_other _ (by decide),
      show partsOf "VariableDeclarator" = ["id", "init"] from rfl]
    simp only [List.map_cons, List.map_nil, List.sum_cons, List.sum_nil, add_zero, zero_add, missing,
      lookup_reshaped targetIs, tallyOf_some]
    rw [reshapedField_other _ inner (by decide)]
    exact tally_identifier h.foresees _
  rw [empty, zero_add, add_zero]

/-- The rules keep the fields of a program in order. -/
theorem Made.inOrder {n : Value} (made : Made n) : isInOrder n = true := by
  cases made with
  | truth b => cases b <;> rfl
  | declaration fields formed => exact isInOrder_of_single formed rfl
  | _ => rfl

theorem Remade.inOrder {tag : String} {fields : Fields} {n : Value} {off : List String}
    (ordered : isInOrder (.tagged tag fields) = true)
    (remade : Remade off tag (reshapedFields off fields) n) : isInOrder n = true := by
  obtain ⟨changed, rfl, names⟩ := remade.names
  rw [← ordered]
  apply isInOrder_congr
  rw [names, reshapedFields_eq, List.map_map]
  rfl

/-- A reshaped program does what the program did, in the same order. -/
theorem prettify_keeps_effects {program : Value} (formed : WellFormed program)
    (ordered : Everywhere (isInOrder · = true) program)
    (plain : Everywhere (hasPlainTarget · = true) program) :
    ∃ result, prettify (Registry.builtin.without ["BinaryExpression"]) program = .ok result ∧
      effects nameOf? result = effects foldedNameOf? program := by
  obtain ⟨fields, rfl, programFormed, whole, answer, resultFormed⟩ :=
    prettify_program ["BinaryExpression"] formed
  have only : OnlyComparisons ["BinaryExpression"] := by simp [OnlyComparisons]
  obtain ⟨result, same, -, resultOrdered⟩ := prettify_everywhere only (fun n => Made.inOrder)
    (fun tag fields _ ordered n => Remade.inOrder ordered) formed ordered
  rw [answer] at same
  cases same
  have weighs (tag : String) (inner : Fields) (innerFormed : Formed tag inner) :
      effectWeight nameOf? (.tagged tag (reshapedFields ["BinaryExpression"] inner)) =
        effectWeight foldedNameOf? (.tagged tag inner) := by
    rw [effectWeight, effectWeight, effect?_reshaped (by decide) innerFormed]
  have conserved := reshaped_tally (effectWeight_indifferent nameOf?) weighs effectWeight_calm
    programFormed plain
  rw [whole, tallyItems_cons, tallyItems_nil, add_zero,
    ← total_eq_tally programFormed (ordered.imp fun _ => inTurn_of_inOrder),
    ← total_eq_tally (fits_node.mp resultFormed).2 (resultOrdered.imp fun _ => inTurn_of_inOrder),
    total, total, sum_effectWeight, sum_effectWeight] at conserved
  exact ⟨_, answer, FreeAddMonoid.ofList.injective conserved⟩

/-- The program `for (f(), i = g(); ; i++) x ? h(void 0) : new C();`. -/
def busyLoop : Value :=
  let name (text : String) : Value := .tagged "Identifier" [("name", .str text)]
  let call (text : String) (given : List Value) : Value :=
    .tagged "CallExpression" [("callee", name text), ("arguments", .seq given)]
  let start := Value.tagged "AssignmentExpression"
    [("operator", .str "="), ("left", name "i"), ("right", call "g" [])]
  let step := Value.tagged "UpdateExpression"
    [("operator", .str "++"), ("argument", name "i"), ("prefix", .bool false)]
  let nothing := Value.unaryExpression (.str "void") (.tagged "Literal" [("value", .int 0)])
  let choice := Value.tagged "ConditionalExpression" [("test", name "x"),
    ("consequent", call "h" [nothing]),
    ("alternate", .tagged "NewExpression" [("callee", name "C"), ("arguments", .seq [])])]
  .tagged "Program" [("body", .seq [.tagged "ForStatement" [
    ("init", .tagged "SequenceExpression" [("expressions", .seq [call "f" [], start])]),
    ("test", .null), ("update", step), ("body", Value.expressionStatement choice)]])]

/-- A call leaves the head of the loop and two become branches, and all is done in the same order. -/
theorem prettify_keeps_effects_busyLoop :
    WellFormed busyLoop ∧ Everywhere (isInOrder · = true) busyLoop ∧
      Everywhere (hasPlainTarget · = true) busyLoop ∧
      ∃ result, prettify (Registry.builtin.without ["BinaryExpression"]) busyLoop = .ok result ∧
        effects nameOf? result = effects foldedNameOf? busyLoop :=
  ⟨by decide, by decide, by decide, prettify_keeps_effects (by decide) (by decide) (by decide)⟩

/-- The program that calls the given expression. -/
def callOf (callee : Value) : Value :=
  .tagged "Program" [("body", .seq [Value.expressionStatement
    (.tagged "CallExpression" [("callee", callee), ("arguments", .seq [])])])]

/-- In `(void 0)()` nothing is called by name in writing, but the reshaped program calls `undefined`. -/
theorem prettify_names_callee :
    let program := callOf (Value.unaryExpression (.str "void") (.tagged "Literal" [("value", .int 0)]))
    WellFormed program ∧ Everywhere (isInOrder · = true) program ∧
      Everywhere (hasPlainTarget · = true) program ∧
      ∃ result, prettify (Registry.builtin.without ["BinaryExpression"]) program = .ok result ∧
        effects nameOf? result ≠ effects nameOf? program := by
  refine ⟨by decide, by decide, by decide, callOf (Value.identifier (.str "undefined")), rfl, ?_⟩
  intro same
  have names : [some "undefined"] = [none] := congrArg (List.map Effect.name) same
  simp at names

end Untangle.Reshape
