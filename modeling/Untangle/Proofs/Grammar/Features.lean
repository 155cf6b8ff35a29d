import Mathlib.Algebra.BigOperators.Group.Multiset.Basic
import Untangle.Proofs.Grammar.Admission
import Untangle.Proofs.Reshape.Conservation

/-!
# Reshaping needs no newer grammar

The features that a program uses are those of its reshaped form, each as often as before. A grammar
version therefore admits both or neither.

* `used` lists the features of a well-formed node, which has them without fail.
* `holdTo_ok` says when a version admits a tree.
* `prettify_keeps_features` is the statement about whole programs.
-/

namespace Untangle.Grammar

open Syntax Reshape

/-- What a feature is apart from the node that has it: the tag of the node, the version and the name. -/
def Feature.kind (feature : Feature) : Option Value × Nat × String :=
  (match feature.node with
    | .node tag _ => some tag
    | _ => none,
    feature.required, feature.name)

/-- The features of a node, where it has any. -/
def used (n : Value) : List Feature :=
  match featuresOf n with
  | .ok features => features
  | .error _ => []

/-- The fields of nodes that features depend on. -/
def flagNames : List String :=
  ["kind", "operator", "generator", "async", "computed", "shorthand", "method"]

/-- No node stands in these fields. -/
theorem slotOf_flag (tag : String) {name : String} (flag : name ∈ flagNames) :
    slotOf tag name = .bare ∨ slotOf tag name = .text := by
  have plain : ∀ entry ∈ schema, ∀ field ∈ entry.2, field.1 ∈ flagNames →
      field.2 = .bare ∨ field.2 = .text := by decide
  unfold slotOf fieldsOf
  cases found : schema.lookup tag with
  | none => exact Or.inl rfl
  | some entry =>
    cases slot : entry.lookup name with
    | none => exact Or.inl (by simp [slot])
    | some s =>
      have here := plain _ (Fields.mem_of_lookup found) _ (Fields.mem_of_lookup slot) flag
      simpa [slot] using here

section

variable {tag : String} {fields others : Fields}

theorem field_congr {name : String} (same : others.lookup name = fields.lookup name) :
    (Value.tagged tag others).field name = (Value.tagged tag fields).field name := by
  simp only [Value.field, same]

theorem optional_congr {name : String} (same : others.lookup name = fields.lookup name) :
    (Value.tagged tag others).optional name = (Value.tagged tag fields).optional name := by
  simp only [Value.optional, same]

theorem optional_ok (tag : String) (fields : Fields) (name : String) :
    ∃ found, (Value.tagged tag fields).optional name = .ok found := by
  simp only [Value.optional]
  split <;> exact ⟨_, rfl⟩

/-- The features of two nodes apart from the nodes are the same. -/
def Alike (first second : Except Fault (List Feature)) : Prop :=
  first.map (·.map Feature.kind) = second.map (·.map Feature.kind)

theorem alike_ite {c : Prop} [Decidable c] {a b a' b' : Except Fault (List Feature)}
    (first : Alike a a') (second : Alike b b') :
    Alike (if c then a else b) (if c then a' else b') := by
  split
  · exact first
  · exact second

theorem declarationFeatures_alike (kind : others.lookup "kind" = fields.lookup "kind") :
    Alike (declarationFeatures (.tagged tag others)) (declarationFeatures (.tagged tag fields)) := by
  simp only [declarationFeatures, field_congr kind]
  cases (Value.tagged tag fields).field "kind" with
  | error fault => rfl
  | ok v => exact alike_ite rfl rfl

theorem operatorFeatures_alike (operator : others.lookup "operator" = fields.lookup "operator") :
    Alike (operatorFeatures (.tagged tag others)) (operatorFeatures (.tagged tag fields)) := by
  simp only [operatorFeatures, field_congr operator]
  cases (Value.tagged tag fields).field "operator" with
  | error fault => rfl
  | ok v => exact alike_ite rfl rfl

theorem functionFeatures_alike (generator : others.lookup "generator" = fields.lookup "generator")
    (async : others.lookup "async" = fields.lookup "async") :
    Alike (functionFeatures (.tagged tag others)) (functionFeatures (.tagged tag fields)) := by
  obtain ⟨g, generatorIs⟩ := optional_ok tag fields "generator"
  obtain ⟨a, asyncIs⟩ := optional_ok tag fields "async"
  simp only [functionFeatures, isSet, optional_congr generator, optional_congr async, generatorIs,
    asyncIs, ok_bind, pure_ok]
  cases Value.truthy? g <;> cases Value.truthy? a <;> rfl

theorem propertyFeatures_alike (computed : others.lookup "computed" = fields.lookup "computed")
    (shorthand : others.lookup "shorthand" = fields.lookup "shorthand")
    (method : others.lookup "method" = fields.lookup "method")
    (kind : others.lookup "kind" = fields.lookup "kind") :
    Alike (propertyFeatures (.tagged tag others)) (propertyFeatures (.tagged tag fields)) := by
  obtain ⟨c, computedIs⟩ := optional_ok tag fields "computed"
  obtain ⟨s, shorthandIs⟩ := optional_ok tag fields "shorthand"
  obtain ⟨m, methodIs⟩ := optional_ok tag fields "method"
  obtain ⟨k, kindIs⟩ := optional_ok tag fields "kind"
  simp only [propertyFeatures, isSet, optional_congr computed, optional_congr shorthand,
    optional_congr method, optional_congr kind, computedIs, shorthandIs, methodIs, kindIs, ok_bind,
    pure_ok]
  exact alike_ite rfl (alike_ite rfl rfl)

/-- Features depend on nothing else. -/
theorem featuresOf_alike (same : ∀ name ∈ flagNames, others.lookup name = fields.lookup name) :
    Alike (featuresOf (.tagged tag others)) (featuresOf (.tagged tag fields)) := by
  simp only [featuresOf, tag_tagged, Value.key?, ok_bind, pure_ok, Option.bind_some, hasTag_tagged]
  cases tagTable.lookup tag with
  | some entry => rfl
  | none =>
    apply alike_ite (declarationFeatures_alike (same "kind" (by decide)))
    apply alike_ite (operatorFeatures_alike (same "operator" (by decide)))
    apply alike_ite
      (functionFeatures_alike (same "generator" (by decide)) (same "async" (by decide)))
    exact alike_ite (propertyFeatures_alike (same "computed" (by decide))
      (same "shorthand" (by decide)) (same "method" (by decide)) (same "kind" (by decide))) rfl

theorem declarationFeatures_ok (formed : Formed "VariableDeclaration" fields) :
    ∃ features, declarationFeatures (.tagged "VariableDeclaration" fields) = .ok features := by
  obtain ⟨kind, kindIs⟩ := formed.text
    (show (fieldsOf "VariableDeclaration").lookup "kind" = some .text from rfl)
  simp only [declarationFeatures, Value.field_of_lookup kindIs, ok_bind]
  split <;> exact ⟨_, rfl⟩

theorem operatorFeatures_ok (formed : Formed tag fields) (declared : fieldsOf tag = operandFields) :
    ∃ features, operatorFeatures (.tagged tag fields) = .ok features := by
  obtain ⟨operator, -, -, operatorIs, -⟩ := operand_fields formed declared
  simp only [operatorFeatures, Value.field_of_lookup operatorIs, ok_bind]
  split <;> exact ⟨_, rfl⟩

theorem functionFeatures_ok (tag : String) (fields : Fields) :
    ∃ features, functionFeatures (.tagged tag fields) = .ok features := by
  obtain ⟨g, generatorIs⟩ := optional_ok tag fields "generator"
  obtain ⟨a, asyncIs⟩ := optional_ok tag fields "async"
  simp only [functionFeatures, isSet, generatorIs, asyncIs, ok_bind, pure_ok]
  exact ⟨_, rfl⟩

theorem propertyFeatures_ok (tag : String) (fields : Fields) :
    ∃ features, propertyFeatures (.tagged tag fields) = .ok features := by
  obtain ⟨c, computedIs⟩ := optional_ok tag fields "computed"
  obtain ⟨s, shorthandIs⟩ := optional_ok tag fields "shorthand"
  obtain ⟨m, methodIs⟩ := optional_ok tag fields "method"
  obtain ⟨k, kindIs⟩ := optional_ok tag fields "kind"
  simp only [propertyFeatures, isSet, computedIs, shorthandIs, methodIs, kindIs, ok_bind, pure_ok]
  split
  · exact ⟨_, rfl⟩
  · split <;> exact ⟨_, rfl⟩

theorem ite_ok {α : Type} {c : Prop} [Decidable c] {a b : Except Fault α}
    (first : c → ∃ x, a = .ok x) (second : ∃ x, b = .ok x) : ∃ x, (if c then a else b) = .ok x := by
  split
  · exact first ‹_›
  · exact second

/-- A well-formed node has its features without fail. -/
theorem featuresOf_formed (formed : Formed tag fields) :
    featuresOf (.tagged tag fields) = .ok (used (.tagged tag fields)) := by
  have succeeds : ∃ features, featuresOf (.tagged tag fields) = .ok features := by
    simp only [featuresOf, tag_tagged, Value.key?, ok_bind, pure_ok, Option.bind_some, hasTag_tagged]
    cases tagTable.lookup tag with
    | some entry => exact ⟨_, rfl⟩
    | none =>
      refine ite_ok (fun declares => ?_) (ite_ok (fun operates => ?_)
        (ite_ok (fun _ => functionFeatures_ok tag fields)
          (ite_ok (fun _ => propertyFeatures_ok tag fields) ⟨[], rfl⟩)))
      · obtain rfl := beq_iff_eq.mp declares
        exact declarationFeatures_ok formed
      · rw [Bool.or_eq_true, beq_iff_eq, beq_iff_eq] at operates
        rcases operates with rfl | rfl <;> exact operatorFeatures_ok formed rfl
  obtain ⟨features, answer⟩ := succeeds
  rw [used, answer]

end

/-! ## Weights -/

/-- A node weighs the features that it uses. -/
def usedKinds (n : Value) : Multiset (Option Value × Nat × String) :=
  ((used n).map Feature.kind : List _)

theorem usedKinds_reshaped (off : List String) {tag : String} {fields : Fields}
    (formed : Formed tag fields) :
    usedKinds (.tagged tag (reshapedFields off fields)) = usedKinds (.tagged tag fields) := by
  have alike : Alike (featuresOf (.tagged tag (reshapedFields off fields)))
      (featuresOf (.tagged tag fields)) :=
    featuresOf_alike fun name flag => lookup_reshaped_bare formed (slotOf_flag tag flag)
  rw [Alike, featuresOf_formed formed,
    featuresOf_formed (reshapedFields_formed off fields formed)] at alike
  have same : (used (.tagged tag (reshapedFields off fields))).map Feature.kind =
      (used (.tagged tag fields)).map Feature.kind := Except.ok.inj alike
  rw [usedKinds, usedKinds, same]

/-- No comparison is a power. -/
theorem comparison_plain : ∀ entry ∈ Rule.comparisonTable,
    (entry.1 ≠ "**" ∧ entry.1 ≠ "**=") ∧ entry.2 ≠ "**" ∧ entry.2 ≠ "**=" := by
  decide

theorem usedKinds_comparison {fields : Fields} {operator : String}
    (operatorIs : fields.lookup "operator" = some (.str operator))
    (plain : operator ≠ "**" ∧ operator ≠ "**=") :
    usedKinds (.tagged "BinaryExpression" fields) = 0 := by
  have none : featuresOf (.tagged "BinaryExpression" fields) = .ok [] := by
    show operatorFeatures (.tagged "BinaryExpression" fields) = .ok []
    simp [operatorFeatures, Value.field_of_lookup operatorIs, plain]
  rw [usedKinds, used, none]
  rfl

theorem usedKinds_indifferent : Indifferent [] usedKinds where
  wrapper tag wraps fields := by
    simp only [wrapperTags, List.mem_cons, List.not_mem_nil, or_false] at wraps
    rcases wraps with rfl | rfl | rfl | rfl | rfl | rfl | rfl | rfl | rfl | rfl | rfl | rfl | rfl <;> rfl
  declaration fields declares := by
    obtain ⟨kind, kindIs, isVar⟩ := (Option.any_eq_true _ _).mp declares
    have none : featuresOf (.tagged "VariableDeclaration" fields) = .ok [] := by
      show declarationFeatures (.tagged "VariableDeclaration" fields) = .ok []
      simp [declarationFeatures, Value.field_of_lookup kindIs, isVar]
    rw [usedKinds, used, none]
    rfl
  turned _ fields n formed turns := by
    apply turns_tally turns
    cases turns with
    | keep => rfl
    | turn operator mirrored left right operatorIs mirrors leftIs rightIs =>
      obtain ⟨plain, mirroredPlain⟩ := comparison_plain _ (Fields.mem_of_lookup mirrors)
      rw [usedKinds_comparison operatorIs plain, usedKinds_comparison _ mirroredPlain]
      rw [Fields.lookup_set_of_ne _ _ (by decide), Fields.lookup_set_of_ne _ _ (by decide),
        Fields.lookup_set_self]

/-! ## Whole programs -/

theorem sum_usedKinds (nodes : List Value) :
    (nodes.map usedKinds).sum = ((nodes.flatMap used).map Feature.kind : List _) := by
  induction nodes with
  | nil => rfl
  | cons n rest ih =>
    rw [List.map_cons, List.sum_cons, ih, usedKinds, List.flatMap_cons, List.map_append,
      Multiset.coe_add]

/-- The features of a well-formed tree are those of its nodes. -/
theorem features_ok {slot : Slot} {v : Value} (fit : fits slot v = true) :
    features v = .ok (v.walk.flatMap used) := by
  have each : v.walk.mapM featuresOf = .ok (v.walk.map used) := by
    have formed := walk_formed fit
    generalize v.walk = nodes at formed
    induction nodes with
    | nil => rfl
    | cons n rest ih =>
      obtain ⟨tag, fields, rfl, nFormed⟩ := formed n (by simp)
      rw [List.mapM_cons, featuresOf_formed nFormed, ih fun m among => formed m (by simp [among])]
      rfl
  rw [features, each]
  rfl

/-- A version admits a well-formed tree if none of its features needs a newer one. -/
theorem holdTo_ok {slot : Slot} {v : Value} (fit : fits slot v = true) (version : Version)
    (source : Option String) (file : Value) :
    holdTo version v source file = .ok () ↔
      ∀ feature ∈ v.walk.flatMap used, feature.required ≤ version.number := by
  rw [holdTo_iff]
  constructor
  · intro admitted feature member
    obtain ⟨n, walked, uses⟩ := List.mem_flatMap.mp member
    obtain ⟨tag, fields, rfl, nFormed⟩ := walk_formed fit n walked
    obtain ⟨features, answer, within⟩ := admitted _ walked
    rw [featuresOf_formed nFormed] at answer
    cases answer
    exact within feature uses
  · intro within n walked
    obtain ⟨tag, fields, rfl, nFormed⟩ := walk_formed fit n walked
    exact ⟨_, featuresOf_formed nFormed, fun feature uses =>
      within feature (List.mem_flatMap.mpr ⟨_, walked, uses⟩)⟩

/-- Reshaping a program gives it neither more nor fewer features, so the same grammar versions admit
it. -/
theorem prettify_keeps_features {program : Value} (formed : WellFormed program) :
    ∃ result before after, prettify Registry.builtin program = .ok result ∧
      features program = .ok before ∧ features result = .ok after ∧
      (before.map Feature.kind).Perm (after.map Feature.kind) ∧
      ∀ version source file,
        holdTo version program source file = .ok () ↔ holdTo version result source file = .ok () := by
  obtain ⟨fields, rfl, programFormed, whole, answer, resultFormed⟩ := prettify_program [] formed
  rw [without_nil] at answer
  have calm : CalmDeclarators [] usedKinds fun _ => True := fun _ _ _ _ m => add_comm _ m
  have conserved := reshaped_tally usedKinds_indifferent
    (fun tag fields nFormed => usedKinds_reshaped [] nFormed) calm programFormed fun _ _ => trivial
  rw [whole, tallyItems_cons, tallyItems_nil, add_zero,
    ← total_eq_tally programFormed fun _ _ => inTurn_of_comm _,
    ← total_eq_tally (fits_node.mp resultFormed).2 fun _ _ => inTurn_of_comm _, total, total,
    sum_usedKinds, sum_usedKinds, Multiset.coe_eq_coe] at conserved
  refine ⟨_, _, _, answer, features_ok formed, features_ok resultFormed, conserved.symm,
    fun version source file => ?_⟩
  rw [holdTo_ok formed, holdTo_ok resultFormed]
  have transfers {first second : List Feature}
      (perm : (first.map Feature.kind).Perm (second.map Feature.kind))
      (admitted : ∀ feature ∈ first, feature.required ≤ version.number) :
      ∀ feature ∈ second, feature.required ≤ version.number := by
    intro feature member
    obtain ⟨other, among, same⟩ := List.mem_map.mp (perm.mem_iff.mpr (List.mem_map_of_mem member))
    have required : other.required = feature.required := congrArg (·.2.1) same
    exact required ▸ admitted other among
  exact ⟨transfers conserved.symm, transfers conserved⟩

/-- The program `x && (y **= z => z);`. -/
def guardedPower : Value :=
  let name (text : String) : Value := .tagged "Identifier" [("name", .str text)]
  let arrow := Value.tagged "ArrowFunctionExpression"
    [("params", .seq [name "z"]), ("body", name "z")]
  let power := Value.tagged "AssignmentExpression"
    [("operator", .str "**="), ("left", name "y"), ("right", arrow)]
  .tagged "Program" [("body", .seq [Value.expressionStatement (.tagged "LogicalExpression"
    [("operator", .str "&&"), ("left", name "x"), ("right", power)])])]

/-- The power and the arrow function move under a branch and are still there. -/
theorem prettify_keeps_features_guardedPower :
    WellFormed guardedPower ∧ ∃ result before after,
      prettify Registry.builtin guardedPower = .ok result ∧
      features guardedPower = .ok before ∧ features result = .ok after ∧
      (before.map Feature.kind).Perm (after.map Feature.kind) ∧
      ∀ version source file, holdTo version guardedPower source file = .ok () ↔
        holdTo version result source file = .ok () :=
  ⟨by decide, prettify_keeps_features (by decide)⟩

end Untangle.Grammar
