import Untangle.Grammar.Feature
import Untangle.Proofs.Reshape.Functions

/-!
# What a version admits

A grammar version admits a tree, whatever the tree is, if it admits every node that a walk meets. This
gives the async functions of an admitted tree: a declared function or a function expression is never
async, since no version is as new as that asks for. An arrow function is looked at for being an arrow
function and for nothing else, so an async one passes with the others.

Section 11 of the specification lists the grammar gate among its properties.

* `holdTo_iff` says when a tree is admitted.
* `holdTo_async` is the statement about functions, `holdTo_admits_asyncArrow` the gap that it leaves.
-/

namespace Untangle.Grammar

open Syntax Reshape

variable {version : Version} {source : Option String} {file : Value}

/-- The node can be asked for its features, and the version has them all. -/
def Admitted (version : Version) (n : Value) : Prop :=
  ∃ features, featuresOf n = .ok features ∧
    ∀ feature ∈ features, feature.required ≤ version.number

theorem checkNodes_iff (nodes : List Value) :
    checkNodes version source file nodes = .ok () ↔ ∀ n ∈ nodes, Admitted version n := by
  induction nodes with
  | nil => simp [checkNodes]
  | cons n rest ih =>
    rw [List.forall_mem_cons, checkNodes]
    cases asked : featuresOf n with
    | error fault =>
      refine iff_of_false (fun passed => by cases passed) fun both => ?_
      obtain ⟨features, answer, -⟩ := both.1
      rw [asked] at answer
      cases answer
    | ok features =>
      show Except.bind (Except.ok features) _ = _ ↔ _
      rw [Except.bind]
      cases found : features.find? fun feature => decide (version.number < feature.required) with
      | none =>
        have admitted : Admitted version n := ⟨features, asked, by simpa using found⟩
        exact ih.trans (and_iff_right admitted).symm
      | some feature =>
        have needs : version.number < feature.required := by simpa using List.find?_some found
        refine iff_of_false ?_ fun both => ?_
        · dsimp only
          generalize refusal feature source file = refused
          cases refused <;> exact fun passed => by cases passed
        · obtain ⟨others, answer, within⟩ := both.1
          rw [asked] at answer
          cases answer
          have enough := within feature (List.mem_of_find?_eq_some found)
          omega

/-- A version admits a tree if it admits every node of it. -/
theorem holdTo_iff (tree : Value) :
    holdTo version tree source file = .ok () ↔ ∀ n ∈ tree.walk, Admitted version n :=
  checkNodes_iff tree.walk

/-- A node is admitted with what stands in its fields. -/
theorem holdTo_node (tag : Value) (fields : Fields) :
    holdTo version (.node tag fields) source file = .ok () ↔
      Admitted version (.node tag fields) ∧
        ∀ field ∈ fields, holdTo version field.2 source file = .ok () := by
  simp only [holdTo_iff]
  rw [Value.walk, List.forall_mem_cons]
  refine and_congr_right fun _ => ⟨fun all field within n member => ?_, fun each n member => ?_⟩
  · exact all n (walkFields_of_mem within member)
  · obtain ⟨field, within, found⟩ := mem_walkFields member
    exact each field within n found

theorem isSet_tagged (tag : String) (fields : Fields) (name : String) :
    isSet (.tagged tag fields) name = .ok (Value.truthy? (fields.lookup name)) := by
  simp only [isSet, Value.optional]
  split
  · rename_i isNull
    rw [isNull]
    rfl
  · rfl

theorem featuresOf_function {tag : String} (fields : Fields)
    (function : tag = "FunctionDeclaration" ∨ tag = "FunctionExpression") :
    featuresOf (.tagged tag fields) = functionFeatures (.tagged tag fields) := by
  rcases function with rfl | rfl <;> rfl

/-- No version admits a function that says it is async. -/
theorem Admitted.not_async {tag : String} {fields : Fields}
    (admitted : Admitted version (.tagged tag fields))
    (function : tag = "FunctionDeclaration" ∨ tag = "FunctionExpression") :
    Value.truthy? (fields.lookup "async") = false := by
  obtain ⟨features, answer, within⟩ := admitted
  rw [featuresOf_function fields function, functionFeatures, isSet_tagged, isSet_tagged] at answer
  rw [Bool.eq_false_iff]
  intro isAsync
  simp only [ok_bind, pure_ok, isAsync, if_true, Except.ok.injEq] at answer
  subst answer
  have required : 8 ≤ version.number :=
    within ⟨.tagged tag fields, 8, "async functions"⟩ (by simp)
  have newest : version.number ≤ 7 := by cases version <;> decide
  omega

/-- Of an arrow function only that it is one is looked at. -/
theorem admitted_arrow (fields : Fields) :
    Admitted version (.tagged "ArrowFunctionExpression" fields) ↔ 6 ≤ version.number := by
  have asked : featuresOf (.tagged "ArrowFunctionExpression" fields) =
      .ok [⟨.tagged "ArrowFunctionExpression" fields, 6, "arrow functions"⟩] := rfl
  constructor
  · rintro ⟨features, answer, within⟩
    rw [asked] at answer
    cases answer
    exact within _ (List.mem_singleton_self _)
  · intro newEnough
    refine ⟨_, asked, fun feature member => ?_⟩
    rw [List.mem_singleton.mp member]
    exact newEnough

/-- The only async functions of an admitted tree are arrow functions. Whether an arrow function is
admitted is a matter of the version and of what stands in its fields, and being async is none. -/
theorem holdTo_async (version : Version) (tree : Value) (source : Option String) (file : Value) :
    (holdTo version tree source file = .ok () →
      ∀ tag ∈ functionTags, ∀ fields, .tagged tag fields ∈ tree.walk →
        Value.truthy? (fields.lookup "async") = true →
        tag = "ArrowFunctionExpression" ∧ 6 ≤ version.number) ∧
    ∀ fields, holdTo version (.tagged "ArrowFunctionExpression" fields) source file = .ok () ↔
      6 ≤ version.number ∧ ∀ field ∈ fields, holdTo version field.2 source file = .ok () := by
  refine ⟨fun passed tag function fields member isAsync => ?_, fun fields => ?_⟩
  · have admitted := (holdTo_iff tree).mp passed _ member
    simp only [functionTags, List.mem_cons, List.not_mem_nil, or_false] at function
    rcases function with rfl | rfl | rfl
    · rw [admitted.not_async (.inl rfl)] at isAsync
      cases isAsync
    · rw [admitted.not_async (.inr rfl)] at isAsync
      cases isAsync
    · exact ⟨rfl, (admitted_arrow fields).mp admitted⟩
  · rw [holdTo_node, admitted_arrow]

/-- An arrow function without parameters. -/
def arrowTo (body : Value) (async : Bool) : Value :=
  .tagged "ArrowFunctionExpression"
    [("params", .seq []), ("body", body), ("async", .bool async)]

/-- A function expression without parameters and statements. -/
def emptyFunction (async : Bool) : Value :=
  .tagged "FunctionExpression" [("id", .null), ("params", .seq []),
    ("body", Value.blockStatement []), ("generator", .bool false), ("async", .bool async)]

theorem emptyFunction_walked (async mark : Bool) :
    emptyFunction async ∈ (arrowTo (emptyFunction async) mark).walk := by
  simp [arrowTo, Value.walk, Value.walkFields, emptyFunction]

/-- An async arrow function may give a function, but not one that is async itself. -/
theorem holdTo_async_nested :
    holdTo .es7 (arrowTo (emptyFunction false) true) none .null = .ok () ∧
      holdTo .es7 (arrowTo (emptyFunction true) true) none .null ≠ .ok () := by
  refine ⟨rfl, fun passed => ?_⟩
  have onlyArrows := (holdTo_async .es7 (arrowTo (emptyFunction true) true) none .null).1 passed
    "FunctionExpression" (by decide) _ (emptyFunction_walked true true) rfl
  exact absurd onlyArrows.1 (by decide)

/-- An async arrow function is admitted, although an async function is refused in its place. -/
theorem holdTo_admits_asyncArrow :
    let arrow := arrowTo (Value.identifier (.str "x")) true
    holdTo .es6 arrow none .null = .ok () ∧ holdTo .es6 (emptyFunction true) none .null ≠ .ok () ∧
      ∃ tag ∈ functionTags, ∃ fields, .tagged tag fields ∈ arrow.walk ∧
        Value.truthy? (fields.lookup "async") = true := by
  refine ⟨rfl, ?_, "ArrowFunctionExpression", by decide, _, List.mem_cons_self, rfl⟩
  intro passed
  cases passed

end Untangle.Grammar
