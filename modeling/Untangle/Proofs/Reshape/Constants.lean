import Untangle.Proofs.Reshape.Adequacy

/-!
# Packed spellings of constants

Short programs write `!0` for `true`, `!1` for `false` and `void 0` for `undefined`. Reshaping unfolds
these, and nothing else becomes a literal or the name `undefined`.

These are the rows for `!` and `void` in section 4.4 of the specification.

* `isUndefined` is how `undefined` may be written.
* `undefined_of_reshaped` and `reshaped_undefined` say that exactly these spellings are unfolded.
-/

namespace Untangle.Reshape

open Syntax

/-- A number that is zero or one. Truth values are no numbers. -/
def isBit : Value → Bool
  | .int i => i == 0 || i == 1
  | .float x => x.sameInt 0 || x.sameInt 1
  | _ => false

/-- The rule negates the numbers zero and one. -/
theorem negatedNumber?_isSome (value : Value) :
    (Rule.negatedNumber? value).isSome = isBit value := by
  cases value with
  | int i =>
    unfold Rule.negatedNumber? isBit
    split <;> simp_all
  | float x =>
    by_cases zero : x.sameInt 0 = true <;> by_cases one : x.sameInt 1 = true <;>
      simp [Rule.negatedNumber?, isBit, zero, one]
  | _ => rfl

/-- `!` of a number that is zero or one. -/
def isNegatedBit : Value → Bool
  | .node (.str "UnaryExpression") fields =>
    (fields.lookup "operator").any (·.isText "!") && (fields.lookup "argument").any fun
      | .node (.str "Literal") literal => (literal.lookup "value").any isBit
      | _ => false
  | _ => false

/-- The name `undefined`, or `void` of one of the given constants. -/
def isUndefined (constant : Value → Bool) : Value → Bool
  | .node (.str "Identifier") fields => (fields.lookup "name").any (·.isText "undefined")
  | .node (.str "UnaryExpression") fields =>
    (fields.lookup "operator").any (·.isText "void") && (fields.lookup "argument").any constant
  | _ => false

/-- A literal, where `!0` and `!1` count as the literals that they stand for. -/
def isFoldedLiteral (v : Value) : Bool :=
  v.hasTag "Literal" || isNegatedBit v

variable {off : List String}

/-- Only a unary operator can be reshaped into an expression with another tag. -/
theorem tag_of_reshaped {tag other : String} {fields others : Fields}
    (fit : fits expression (.tagged tag fields) = true) (notUnary : tag ≠ "UnaryExpression")
    (same : reshapedField off (.tagged tag fields) = .tagged other others) : other = tag := by
  obtain ⟨admitted, formed⟩ := fits_node.mp fit
  have outcome := (reshaped_fits off formed).each (.tagged other others)
    (by rw [reshaped_expression off fit, same]; simp)
  have kinds : outcomes tag = [tag] := by
    rw [outcomes, if_neg (by simpa using expression_not_split tag admitted), if_neg notUnary]
  simpa [kinds, Slot.tags] using (fits_node.mp outcome).1

/-- An expression that is reshaped into a zero or a one was that number before. -/
theorem number_of_reshaped {v value : Value} {literal : Fields} (fit : fits expression v = true)
    (same : reshapedField off v = .tagged "Literal" literal)
    (valueIs : literal.lookup "value" = some value) (bit : isBit value = true) :
    ∃ fields, v = .tagged "Literal" fields ∧ fields.lookup "value" = some value := by
  obtain ⟨tag, fields, rfl, -, formed⟩ := fits_one.mp fit
  by_cases isUnary : tag = "UnaryExpression"
  · subst isUnary
    have folds : Folds (reshapedFields off fields) (reshapedField off _) := reshapedField_folds formed
    rw [same] at folds
    generalize whole : Value.tagged "Literal" literal = n at folds
    cases folds with
    | keep | absent => simp [Value.identifier] at whole
    | truth _ _ b =>
      cases whole
      cases valueIs
      cases bit
  · obtain rfl := tag_of_reshaped fit isUnary same
    rw [reshapedField_other off fields (by decide)] at same
    cases same
    exact ⟨fields, rfl, (lookup_reshaped_bare formed (Or.inl rfl)).symm.trans valueIs⟩

/-- An expression that is reshaped into a literal was one before, if `!0` and `!1` count. -/
theorem literal_of_reshaped {v : Value} {literal : Fields} (fit : fits expression v = true)
    (same : reshapedField off v = .tagged "Literal" literal) : isFoldedLiteral v = true := by
  obtain ⟨tag, fields, rfl, -, formed⟩ := fits_one.mp fit
  by_cases isUnary : tag = "UnaryExpression"
  · subst isUnary
    obtain ⟨operator, argument, operatorIs, argumentIs, argumentFits⟩ := unary_fields formed
    have folds : Folds (reshapedFields off fields) (reshapedField off _) := reshapedField_folds formed
    rw [same] at folds
    generalize whole : Value.tagged "Literal" literal = n at folds
    cases folds with
    | keep | absent => simp [Value.identifier] at whole
    | truth inner value b isNot innerIs valueIs negates =>
      have bit : isBit value = true := by rw [← negatedNumber?_isSome, negates, Option.isSome_some]
      rw [lookup_reshaped argumentIs] at innerIs
      rw [lookup_reshaped operatorIs] at isNot
      cases isNot
      obtain ⟨source, rfl, sourceIs⟩ :=
        number_of_reshaped argumentFits (Option.some.inj innerIs) valueIs bit
      simp [isFoldedLiteral, isNegatedBit, operatorIs, argumentIs, sourceIs, bit]
  · obtain rfl := tag_of_reshaped fit isUnary same
    simp [isFoldedLiteral]

/-- An operand that is reshaped into `undefined` was written as such before. -/
theorem undefined_of_reshaped {v : Value} (fit : fits expression v = true)
    (named : Named "undefined" (reshapedField off v)) : isUndefined isFoldedLiteral v = true := by
  obtain ⟨tag, fields, rfl, -, formed⟩ := fits_one.mp fit
  obtain ⟨others, same, nameIs⟩ := named
  by_cases isUnary : tag = "UnaryExpression"
  · subst isUnary
    obtain ⟨operator, argument, operatorIs, argumentIs, argumentFits⟩ := unary_fields formed
    have folds : Folds (reshapedFields off fields) (reshapedField off _) := reshapedField_folds formed
    rw [same] at folds
    generalize whole : Value.tagged "Identifier" others = n at folds
    cases folds with
    | keep | truth => simp [Value.booleanLiteral, Value.literal] at whole
    | absent literal isVoid literalIs =>
      rw [lookup_reshaped argumentIs] at literalIs
      rw [lookup_reshaped operatorIs] at isVoid
      cases isVoid
      have constant := literal_of_reshaped argumentFits (Option.some.inj literalIs)
      simp [isUndefined, operatorIs, argumentIs, constant]
  · obtain rfl := tag_of_reshaped fit isUnary same
    rw [reshapedField_other off fields (by decide)] at same
    cases same
    rw [lookup_reshaped_bare formed (Or.inr rfl)] at nameIs
    simp [isUndefined, nameIs]

section

variable (present : ¬ off.contains "UnaryExpression" = true)

include present

theorem reshapedField_unary {fields : Fields} {n : Value}
    (answer : Rule.evaluateUnary (.tagged "UnaryExpression" (reshapedFields off fields)) = .ok n) :
    reshapedField off (.tagged "UnaryExpression" fields) = n := by
  simp only [reshapedField, settled]
  rw [if_neg present]
  simp only [settledBy, answer]
  rfl

/-- A negated zero or one is unfolded. -/
theorem reshaped_negatedBit {v : Value} (fit : fits expression v = true)
    (negates : isNegatedBit v = true) :
    ∃ literal, reshapedField off v = .tagged "Literal" literal := by
  obtain ⟨tag, fields, rfl, -, formed⟩ := fits_one.mp fit
  unfold isNegatedBit at negates
  split at negates
  · rename_i same
    cases same
    obtain ⟨operator, argument, operatorIs, argumentIs, argumentFits⟩ := unary_fields formed
    simp only [operatorIs, argumentIs, Option.any_some, isText_str, Bool.and_eq_true,
      beq_iff_eq] at negates
    obtain ⟨rfl, bit⟩ := negates
    split at bit
    · rename_i literal
      obtain ⟨value, valueIs, isBit⟩ := (Option.any_eq_true _ _).mp bit
      rw [← negatedNumber?_isSome] at isBit
      obtain ⟨b, negation⟩ := Option.isSome_iff_exists.mp isBit
      have folds := evaluateUnary_negates (lookup_reshaped operatorIs)
        ((lookup_reshaped argumentIs).trans
          (congrArg some (reshapedField_other off literal (by decide))))
        ((lookup_reshaped_bare (fits_node.mp argumentFits).2 (Or.inl rfl)).trans valueIs) negation
      exact ⟨_, reshapedField_unary present folds⟩
    · simp at bit
  · simp at negates

/-- Constants become literals. -/
theorem reshaped_literal {v : Value} (fit : fits expression v = true)
    (constant : isFoldedLiteral v = true) :
    ∃ literal, reshapedField off v = .tagged "Literal" literal := by
  rcases Bool.or_eq_true_iff.mp constant with isLiteral | negates
  · obtain ⟨tag, fields, rfl, -⟩ := fits_one.mp fit
    rw [hasTag_tagged, beq_iff_eq] at isLiteral
    subst isLiteral
    exact ⟨_, reshapedField_other off fields (by decide)⟩
  · exact reshaped_negatedBit present fit negates

/-- Whatever is written for `undefined` becomes that name. -/
theorem reshaped_undefined {v : Value} (fit : fits expression v = true)
    (absent : isUndefined isFoldedLiteral v = true) : Named "undefined" (reshapedField off v) := by
  obtain ⟨tag, fields, rfl, -, formed⟩ := fits_one.mp fit
  unfold isUndefined at absent
  split at absent
  · rename_i same
    cases same
    obtain ⟨name, nameIs⟩ := named_of_formed formed
    rw [nameIs, Option.any_some, isText_str, beq_iff_eq] at absent
    subst absent
    exact ⟨_, reshapedField_other off fields (by decide), lookup_reshaped nameIs⟩
  · rename_i same
    cases same
    obtain ⟨operator, argument, operatorIs, argumentIs, argumentFits⟩ := unary_fields formed
    simp only [operatorIs, argumentIs, Option.any_some, isText_str, Bool.and_eq_true,
      beq_iff_eq] at absent
    obtain ⟨rfl, constant⟩ := absent
    obtain ⟨literal, literalIs⟩ := reshaped_literal present argumentFits constant
    have folds := evaluateUnary_voids (lookup_reshaped operatorIs)
      ((lookup_reshaped argumentIs).trans (congrArg some literalIs))
    exact ⟨_, reshapedField_unary present folds, rfl⟩
  · simp at absent

end

end Untangle.Reshape
