import Untangle.Proofs.Reshape.Idempotence

/-!
# Comparisons of reshaped programs

The rule for comparisons looks for three reasons to exchange the operands, and at most one of them
counts. After an exchange the same three are looked for by whoever reads the result. All of them are
gone then, except where `undefined` meets something that is not called by another name: on the left
it wants to go to the right, and on the right of what has no name it wants to go to the left.

Section 4.4 of the specification has the three conditions and their order.

* `Swings` are the operands that change places whenever the rule is applied.
* `turnComparison_twice` says what a second application of the rule does.
* `prettify_turns_comparisons` says it of all comparisons in a reshaped program.
-/

namespace Untangle.Reshape

open Syntax

/-- One operand is `undefined`, and the other one has no name or the same. -/
def Swings (left right : Value) : Prop :=
  (Named "undefined" left ∧ ∀ name, Named name right → name = "undefined") ∨
    (Named "undefined" right ∧ ∀ name, Named name left → name = "undefined")

theorem Swings.symm {left right : Value} (swings : Swings left right) : Swings right left :=
  Or.symm swings

theorem Swings.reverses {left right : Value} (swings : Swings left right) : Reverses left right := by
  rcases swings with ⟨undefined, -⟩ | ⟨undefined, others⟩
  · exact Or.inl undefined
  · by_cases named : ∃ name, Named name left
    · obtain ⟨name, isName⟩ := named
      rw [others name isName] at isName
      exact Or.inl isName
    · exact Or.inr (Or.inl ⟨named, _, undefined⟩)

/-- A name that goes to the right is `undefined`. -/
theorem Reverses.left_undefined {left right : Value} (reverses : Reverses left right) {name : String}
    (named : Named name left) : name = "undefined" := by
  rcases reverses with undefined | ⟨unnamed, -⟩ | ⟨constant, -⟩
  · exact named.unique undefined
  · exact absurd ⟨name, named⟩ unnamed
  · exact absurd ⟨name, named⟩ constant.not_named

/-- Only operands that swing have a reason to change places again. -/
theorem Reverses.again {left right : Value} (reverses : Reverses left right)
    (back : Reverses right left) : Swings left right := by
  by_cases leftIs : Named "undefined" left
  · exact Or.inl ⟨leftIs, fun name => back.left_undefined⟩
  · by_cases rightIs : Named "undefined" right
    · exact Or.inr ⟨rightIs, fun name => reverses.left_undefined⟩
    · exact absurd back (reverses.not_again leftIs rightIs)

/-! ## The rule on a comparison -/

/-- The node compares two operands with an operator that has a mirror image. -/
def Compares (left right n : Value) : Prop :=
  ∃ fields operator mirrored, n = .tagged "BinaryExpression" fields ∧
    fields.lookup "operator" = some (.str operator) ∧
    Rule.comparisonTable.lookup operator = some mirrored ∧
    fields.lookup "left" = some left ∧ fields.lookup "right" = some right

def exchanged (mirrored : String) (left right : Value) (fields : Fields) : Fields :=
  Fields.set "right" left (Fields.set "left" right (Fields.set "operator" (.str mirrored) fields))

section

variable {fields : Fields} {operator mirrored : String} {left right : Value}

theorem mirrored_back (mirrors : Rule.comparisonTable.lookup operator = some mirrored) :
    Rule.comparisonTable.lookup mirrored = some operator := by
  have each : ∀ entry ∈ Rule.comparisonTable,
      Rule.comparisonTable.lookup entry.2 = some entry.1 := by
    decide
  exact each _ (Fields.mem_of_lookup mirrors)

theorem lookup_exchanged :
    (exchanged mirrored left right fields).lookup "operator" = some (.str mirrored) ∧
      (exchanged mirrored left right fields).lookup "left" = some right ∧
      (exchanged mirrored left right fields).lookup "right" = some left := by
  unfold exchanged
  refine ⟨?_, ?_, Fields.lookup_set_self ..⟩
  · rw [Fields.lookup_set_of_ne _ _ (by decide), Fields.lookup_set_of_ne _ _ (by decide),
      Fields.lookup_set_self]
  · rw [Fields.lookup_set_of_ne _ _ (by decide), Fields.lookup_set_self]

theorem compares_exchanged (mirrors : Rule.comparisonTable.lookup operator = some mirrored) :
    Compares right left (.tagged "BinaryExpression" (exchanged mirrored left right fields)) := by
  obtain ⟨operatorIs, leftIs, rightIs⟩ :=
    @lookup_exchanged fields mirrored left right
  exact ⟨_, mirrored, operator, rfl, operatorIs, mirrored_back mirrors, leftIs, rightIs⟩

/-- Exchanging twice gives the node back. -/
theorem exchanged_exchanged (operatorIs : fields.lookup "operator" = some (.str operator))
    (leftIs : fields.lookup "left" = some left) (rightIs : fields.lookup "right" = some right) :
    exchanged operator right left (exchanged mirrored left right fields) = fields := by
  have withOperator : (Fields.set "operator" (.str mirrored) fields).lookup "left" = some left := by
    rw [Fields.lookup_set_of_ne _ _ (by decide), leftIs]
  have withBoth : (Fields.set "left" right (Fields.set "operator" (.str mirrored) fields)).lookup
      "operator" = some (.str mirrored) := by
    rw [Fields.lookup_set_of_ne _ _ (by decide), Fields.lookup_set_self]
  -- each of the three replacements is moved in front of the one that it undoes
  unfold exchanged
  rw [Fields.set_comm (by decide) _ _ withBoth,
    Fields.set_comm (by decide) _ _ (Fields.lookup_set_self "operator" _ fields),
    Fields.set_set, Fields.set_lookup operatorIs,
    Fields.set_comm (by decide) _ _ (Fields.lookup_set_self "left" _ fields), Fields.set_set,
    Fields.set_set, Fields.set_lookup leftIs, Fields.set_lookup rightIs]

theorem turnComparison_exchanges (formed : Formed "BinaryExpression" fields)
    (operatorIs : fields.lookup "operator" = some (.str operator))
    (mirrors : Rule.comparisonTable.lookup operator = some mirrored)
    (leftIs : fields.lookup "left" = some left) (rightIs : fields.lookup "right" = some right)
    (reverses : Reverses left right) :
    Rule.turnComparison (.tagged "BinaryExpression" fields) =
        .ok (.tagged "BinaryExpression" (exchanged mirrored left right fields)) ∧
      Formed "BinaryExpression" (exchanged mirrored left right fields) := by
  obtain ⟨b, answer, iff⟩ :=
    isReversed_spec (formed.fits_lookup leftIs) (formed.fits_lookup rightIs)
  obtain rfl : b = true := iff.mpr reverses
  constructor
  · simp only [Rule.turnComparison, Value.field_of_lookup operatorIs, Value.field_of_lookup leftIs,
      Value.field_of_lookup rightIs, Rule.flipped?, Value.key?, ok_bind, pure_ok, Option.bind_some,
      mirrors, answer, if_true]
    rfl
  · have turns := Turns.turn operator mirrored left right operatorIs mirrors leftIs rightIs reverses
    exact (fits_node.mp (turns_formed turns formed)).2

/-- What a second application of the rule does: nothing, unless the operands swing; then it takes the
first one back. -/
theorem turnComparison_twice {n : Value} (fit : fits expression n = true)
    (compares : Compares left right n) :
    ∃ m, Rule.turnComparison n = .ok m ∧
      (¬ Swings left right → Rule.turnComparison m = .ok m) ∧
      (Swings left right → Rule.turnComparison m = .ok n) := by
  obtain ⟨fields, operator, mirrored, rfl, operatorIs, mirrors, leftIs, rightIs⟩ := compares
  have formed : Formed "BinaryExpression" fields := (fits_node.mp fit).2
  by_cases reverses : Reverses left right
  · obtain ⟨answer, changed⟩ :=
      turnComparison_exchanges formed operatorIs mirrors leftIs rightIs reverses
    obtain ⟨newOperator, newLeft, newRight⟩ := @lookup_exchanged fields mirrored left right
    refine ⟨_, answer, ?_, ?_⟩
    · intro steady
      exact turnComparison_stays changed newLeft newRight fun back => steady (reverses.again back)
    · intro swings
      rw [(turnComparison_exchanges changed newOperator (mirrored_back mirrors) newLeft newRight
        swings.symm.reverses).1, exchanged_exchanged operatorIs leftIs rightIs]
  · have stays := turnComparison_stays formed leftIs rightIs reverses
    exact ⟨_, stays, fun _ => stays, fun swings => absurd swings.reverses reverses⟩

end

/-! ## Whole programs -/

/-- If the node is a comparison, the rule leaves it alone unless its operands swing, and `undefined`
does not stand on the left of another name. -/
def Turned (n : Value) : Prop :=
  ∀ left right, Compares left right n →
    (¬ Swings left right → Rule.turnComparison n = .ok n) ∧
    (Swings left right → ∃ m, Rule.turnComparison n = .ok m ∧ Compares right left m) ∧
    (Named "undefined" left → ∀ name, Named name right → name = "undefined")

theorem turned_other {tag : String} (fields : Fields) (other : tag ≠ "BinaryExpression") :
    Turned (.tagged tag fields) := by
  rintro left right ⟨_, _, _, same, -⟩
  cases same
  exact absurd rfl other

theorem Made.turned {n : Value} (made : Made n) : Turned n := by
  cases made with
  | truth b => cases b <;> exact turned_other _ (by decide)
  | statement | block | branch | result | negation | absent | declaration =>
    exact turned_other _ (by decide)

/-- The rule leaves a comparison behind that it leaves alone, unless the operands swing. -/
theorem turned_of_exchange {fields : Fields} {operator mirrored : String} {left right : Value}
    (formed : Formed "BinaryExpression" fields)
    (operatorIs : fields.lookup "operator" = some (.str operator))
    (mirrors : Rule.comparisonTable.lookup operator = some mirrored)
    (leftIs : fields.lookup "left" = some left) (rightIs : fields.lookup "right" = some right)
    (reverses : Reverses left right) :
    Turned (.tagged "BinaryExpression" (exchanged mirrored left right fields)) := by
  obtain ⟨-, changed⟩ := turnComparison_exchanges formed operatorIs mirrors leftIs rightIs reverses
  obtain ⟨newOperator, newLeft, newRight⟩ := @lookup_exchanged fields mirrored left right
  rintro l r ⟨_, _, _, same, -, -, lIs, rIs⟩
  cases same
  rw [newLeft] at lIs
  rw [newRight] at rIs
  cases lIs
  cases rIs
  refine ⟨?_, ?_, ?_⟩
  · intro steady
    exact turnComparison_stays changed newLeft newRight
      fun back => steady (reverses.again back).symm
  · intro swings
    exact ⟨_, (turnComparison_exchanges changed newOperator (mirrored_back mirrors) newLeft newRight
      swings.reverses).1, compares_exchanged (mirrored_back mirrors)⟩
  · intro undefined name named
    exact reverses.left_undefined named

theorem turned_of_calm {fields : Fields} (formed : Formed "BinaryExpression" fields)
    (calm : ∀ left right, Compares left right (.tagged "BinaryExpression" fields) →
      ¬ Reverses left right) : Turned (.tagged "BinaryExpression" fields) := by
  intro left right compares
  have calmHere := calm left right compares
  obtain ⟨_, _, _, same, -, -, leftIs, rightIs⟩ := compares
  cases same
  refine ⟨fun _ => turnComparison_stays formed leftIs rightIs calmHere, ?_, ?_⟩
  · intro swings
    exact absurd swings.reverses calmHere
  · intro undefined
    exact absurd (Or.inl undefined) calmHere

theorem turned_of_answer {fields : Fields} {n : Value} (formed : Formed "BinaryExpression" fields)
    (answer : Rule.turnComparison (.tagged "BinaryExpression" fields) = .ok n) : Turned n := by
  by_cases reversed : ∃ left right, Compares left right (.tagged "BinaryExpression" fields) ∧
      Reverses left right
  · obtain ⟨left, right, ⟨_, operator, mirrored, same, operatorIs, mirrors, leftIs, rightIs⟩,
      reverses⟩ := reversed
    cases same
    rw [(turnComparison_exchanges formed operatorIs mirrors leftIs rightIs reverses).1] at answer
    cases answer
    exact turned_of_exchange formed operatorIs mirrors leftIs rightIs reverses
  · obtain ⟨m, same, turns⟩ := turnComparison_turns formed
    rw [answer] at same
    cases same
    cases turns with
    | keep =>
      exact turned_of_calm formed fun left right compares reverses =>
        reversed ⟨left, right, compares, reverses⟩
    | turn operator mirrored left right operatorIs mirrors leftIs rightIs reverses =>
      exact absurd ⟨left, right, ⟨fields, operator, mirrored, rfl, operatorIs, mirrors, leftIs,
        rightIs⟩, reverses⟩ reversed

theorem Remade.turned {tag : String} {fields : Fields} {n : Value}
    (remade : Remade [] tag fields n) : Turned n := by
  by_cases other : tag = "BinaryExpression"
  · cases remade with
    | same tag fields ruleless =>
      rcases ruleless with removed | ruleless
      · simp at removed
      · exact absurd (other ▸ by decide) ruleless
    | compare fields n formed answer => exact turned_of_answer formed answer
    | _ => simp at other
  · obtain ⟨changed, rfl, -⟩ := remade.names
    exact turned_other changed other

/-- The rule changes no comparison of a reshaped program, except that it exchanges operands that
swing, and `undefined` is on the left of no other name there. On any comparison a second application
of the rule does nothing, except that it takes back the first where the operands swing. -/
theorem prettify_turns_comparisons {program : Value} (formed : WellFormed program) :
    (∃ result, prettify Registry.builtin program = .ok result ∧ WellFormed result ∧
      Everywhere Turned result) ∧
    ∀ n left right, fits expression n = true → Compares left right n →
      ∃ m, Rule.turnComparison n = .ok m ∧
        (¬ Swings left right → Rule.turnComparison m = .ok m) ∧
        (Swings left right → Rule.turnComparison m = .ok n) := by
  constructor
  · rw [← without_nil]
    exact prettify_everywhere (by simp [OnlyComparisons]) (fun n => Made.turned)
      (fun tag fields _ _ m => Remade.turned) formed (Q := fun _ => True) (fun _ _ => trivial)
  · intro n left right
    exact turnComparison_twice

/-- In `undefined == x` the operands change places and stay there. -/
theorem prettify_turns_comparisons_named :
    let absent := Value.identifier (.str "undefined")
    let x := Value.identifier (.str "x")
    WellFormed (comparisonOf absent x) ∧
      prettify Registry.builtin (comparisonOf absent x) = .ok (comparisonOf x absent) ∧
      Everywhere Turned (comparisonOf x absent) := by
  obtain ⟨⟨result, answer, -, turned⟩, -⟩ := @prettify_turns_comparisons (comparisonOf
    (Value.identifier (.str "undefined")) (Value.identifier (.str "x"))) (by decide)
  have known : prettify Registry.builtin (comparisonOf (Value.identifier (.str "undefined"))
      (Value.identifier (.str "x"))) = .ok (comparisonOf (Value.identifier (.str "x"))
      (Value.identifier (.str "undefined"))) := by
    rfl
  rw [known] at answer
  cases answer
  exact ⟨by decide, known, turned⟩

/-- `undefined == 5` becomes `5 == undefined`, which the rule turns round again, and in
`f() == undefined` the rule itself brings `undefined` to the left of a call. -/
theorem prettify_leaves_swinging :
    let absent := Value.identifier (.str "undefined")
    let five := Value.tagged "Literal" [("value", .int 5)]
    let call := Value.tagged "CallExpression"
      [("callee", Value.identifier (.str "f")), ("arguments", .seq [])]
    let equality (left right : Value) := Value.tagged "BinaryExpression"
      [("operator", .str "=="), ("left", left), ("right", right)]
    WellFormed (comparisonOf absent five) ∧ WellFormed (comparisonOf call absent) ∧
      prettify Registry.builtin (comparisonOf absent five) = .ok (comparisonOf five absent) ∧
      Rule.turnComparison (equality five absent) = .ok (equality absent five) ∧
      equality absent five ≠ equality five absent ∧
      prettify Registry.builtin (comparisonOf call absent) = .ok (comparisonOf absent call) :=
  ⟨by decide, by decide, rfl, rfl, by simp [Value.identifier], rfl⟩

end Untangle.Reshape
