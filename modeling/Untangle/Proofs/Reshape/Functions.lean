import Mathlib.Algebra.BigOperators.Group.Multiset.Basic
import Untangle.Proofs.Reshape.Conservation

/-!
# Functions

Reshaping works inside functions and leaves it at that: each stays a function of its kind, and its
fields become what they become on their own. The functions of a reshaped program are therefore the
functions of the program one for one, each with reshaped fields.

* `functionsOf_reshaped` is that correspondence.
-/

namespace Untangle.Reshape

open Syntax

def functionTags : List String :=
  ["FunctionDeclaration", "FunctionExpression", "ArrowFunctionExpression"]

def isFunction : Value → Bool
  | .node (.str tag) _ => functionTags.contains tag
  | _ => false

def functionsOf (v : Value) : List Value :=
  v.walk.filter isFunction

/-- A node before its own rule is applied, for a function all that becomes of it. -/
def withReshapedFields : Value → Value
  | .node tag fields => .node tag (reshapedFields [] fields)
  | v => v

theorem function_not_settled : ∀ tag ∈ functionTags, tag ∉ settledTags := by
  decide

theorem function_of_isFunction {tag : String} {fields : Fields}
    (function : isFunction (.tagged tag fields) = true) : tag ∈ functionTags :=
  List.contains_iff_mem.mp function

/-- The weight of a function is what is made of it, other nodes weigh nothing. -/
def functionWeight (image : Value → Value) (n : Value) : Multiset Value :=
  if isFunction n then {image n} else 0

theorem functionWeight_indifferent : Indifferent [] (functionWeight id) where
  wrapper tag wraps fields := by
    have none : ∀ t ∈ wrapperTags, t ∉ functionTags := by decide
    simp [functionWeight, isFunction, none tag wraps]
  declaration fields _ := by
    simp [functionWeight, isFunction, functionTags]
  turned _ fields n _ turns := by
    apply turns_tally turns
    cases turns <;> simp [functionWeight, isFunction, functionTags]

theorem sum_functionWeight (image : Value → Value) (nodes : List Value) :
    (nodes.map (functionWeight image)).sum = ((nodes.filter isFunction).map image : List Value) := by
  induction nodes with
  | nil => rfl
  | cons n rest ih =>
    rw [List.map_cons, List.sum_cons, ih, functionWeight]
    split
    · rename_i function
      rw [List.filter_cons_of_pos function, List.map_cons, Multiset.singleton_add,
        Multiset.cons_coe]
    · rename_i other
      rw [List.filter_cons_of_neg other, zero_add]

/-- The functions of a reshaped program are those of the program, each reshaped. -/
theorem functionsOf_reshaped {fields : Fields} (formed : Formed "Program" fields) :
    (functionsOf (.tagged "Program" (reshapedFields [] fields))).Perm
      ((functionsOf (.tagged "Program" fields)).map withReshapedFields) := by
  have calm : CalmDeclarators [] (functionWeight id) fun _ => True := fun _ _ _ _ m => add_comm _ m
  have conserved : tallyItems (functionWeight id) (reshaped [] (.tagged "Program" fields)) =
      tally (functionWeight withReshapedFields) (.tagged "Program" fields) :=
    reshaped_tally functionWeight_indifferent (fun tag fields _ => rfl) calm formed
      fun _ _ => trivial
  rw [reshaped_other [] fields (by decide), tallyItems_cons, tallyItems_nil, add_zero,
    ← total_eq_tally formed fun _ _ => inTurn_of_comm _,
    ← total_eq_tally (reshapedFields_formed [] fields formed) fun _ _ => inTurn_of_comm _, total,
    total, sum_functionWeight, sum_functionWeight, Multiset.coe_eq_coe, List.map_id] at conserved
  exact conserved

end Untangle.Reshape
