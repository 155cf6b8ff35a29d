import Untangle.Proofs.Reshape.Adequacy
import Untangle.Proofs.Semantics.Reading

/-!
# Reshaping keeps what expressions do

A reshaped expression evaluates as before: to the same value or the same thing thrown, with the same
store and the same calls. Operators are the only expressions with a rule. A folded operator gives
the value of the operator, and a comparison may be turned round when one side is a constant or the
right side is a name that the left side does not assign.

* `Expr.Keeps` says that a tree stands for an expression that does the same.
* `Expr.IsKept` says that an expression is kept; the lemmas under its name take the parts of an
  expression to be kept and say so of the expression.
* `reshapedField_keeps` is the statement about whole expressions.
-/

namespace Untangle.Semantics

open Reshape Syntax

/-! ## What a tree stands for -/

/-- Only the name is read from an identifier. -/
theorem Expr.Reads.of_named {e : Expr} {v : Value} {x : String} (reads : e.Reads v)
    (named : Named x v) : e = .name x := by
  obtain ⟨fields, rfl, nameIs⟩ := named
  cases e with
  | name y =>
    obtain ⟨_, same, otherIs⟩ := reads
    cases same
    rw [nameIs] at otherIs
    simpa using otherIs.symm
  | _ => simp [Expr.Reads] at reads

theorem Expr.Reads.of_literal {e : Expr} {fields : Fields}
    (reads : e.Reads (.tagged "Literal" fields)) : e = .literal fields := by
  cases e with
  | literal other => simp_all [Expr.Reads]
  | _ => simp [Expr.Reads, Named] at reads

/-- Reading a tree backwards: only a unary expression stands for a node with that tag. -/
theorem Expr.Reads.of_unary {e : Expr} {fields : Fields} {operator : String} {inner : Value}
    (reads : e.Reads (.tagged "UnaryExpression" fields))
    (operatorIs : fields.lookup "operator" = some (.str operator))
    (innerIs : fields.lookup "argument" = some inner) :
    ∃ argument, e = .unary operator argument ∧ argument.Reads inner := by
  cases e with
  | unary own argument =>
    obtain ⟨_, other, same, ownIs, otherIs, inside⟩ := reads
    cases same
    rw [operatorIs] at ownIs
    rw [innerIs] at otherIs
    cases ownIs
    cases otherIs
    exact ⟨argument, rfl, inside⟩
  | _ => simp [Expr.Reads, Named] at reads

/-- A constant has a value of its own and does nothing. -/
theorem eval_constant (w : World) {e : Expr} {v : Value} (constant : Constant v)
    (reads : e.Reads v) : ∃ d, e.eval w = .give d := by
  induction constant generalizing e with
  | literal fields =>
    obtain rfl := reads.of_literal
    exact ⟨w.literalOf fields, by rw [Expr.eval]⟩
  | unary fields operator argument operatorIs isPlain argumentIs inner ih =>
    obtain ⟨a, rfl, inside⟩ := reads.of_unary operatorIs argumentIs
    obtain ⟨d, pure⟩ := ih inside
    exact ⟨w.unaryOf operator d, by rw [Expr.eval, pure]; rfl⟩

/-! ## Names that are not assigned -/

/-- What both halves keep of the state, the whole keeps. -/
theorem Run.andThen_state {α β : Type} {P : State → Prop} {r : Run α} {f : α → Run β} {st : State}
    (first : P (r st).2) (next : ∀ a st, P st → P (f a st).2) : P (r.andThen f st).2 := by
  simp only [Run.andThen]
  generalize r st = outcome at first
  obtain ⟨result, after⟩ := outcome
  cases result with
  | error thrown => exact first
  | ok a => exact next a after first

mutual

/-- Evaluation leaves a name alone that the expression does not assign. -/
theorem eval_store (w : World) (x : String) : ∀ (e : Expr) (st : State), x ∉ e.assigned →
    (e.eval w st).2.store x = st.store x
  | .name _, st, _ => by rw [Expr.eval]
  | .literal _, st, _ => by rw [Expr.eval]; rfl
  | .call callee arguments, st, free => by
    rw [Expr.eval]
    exact Run.andThen_state (P := fun s => s.store x = st.store x)
      (evalAll_store w x arguments st free) fun ds s same => same
  | .assign y value, st, free => by
    simp only [Expr.assigned, List.mem_cons, not_or] at free
    rw [Expr.eval]
    refine Run.andThen_state (P := fun s => s.store x = st.store x)
      (eval_store w x value st free.2) fun d s same => ?_
    simpa [State.assign, free.1] using same
  | .unary _ argument, st, free => by
    rw [Expr.eval]
    exact Run.andThen_state (P := fun s => s.store x = st.store x)
      (eval_store w x argument st free) fun d s same => same
  | .binary _ left right, st, free => by
    simp only [Expr.assigned, List.mem_append, not_or] at free
    rw [Expr.eval]
    refine Run.andThen_state (P := fun s => s.store x = st.store x)
      (eval_store w x left st free.1) fun a s same => ?_
    exact Run.andThen_state (P := fun s => s.store x = st.store x)
      ((eval_store w x right s free.2).trans same) fun b s same => same
  | .both left right, st, free => by
    simp only [Expr.assigned, List.mem_append, not_or] at free
    rw [Expr.eval]
    refine Run.andThen_state (P := fun s => s.store x = st.store x)
      (eval_store w x left st free.1) fun d s same => ?_
    split
    · exact (eval_store w x right s free.2).trans same
    · exact same
  | .either left right, st, free => by
    simp only [Expr.assigned, List.mem_append, not_or] at free
    rw [Expr.eval]
    refine Run.andThen_state (P := fun s => s.store x = st.store x)
      (eval_store w x left st free.1) fun d s same => ?_
    split
    · exact same
    · exact (eval_store w x right s free.2).trans same
  | .choice test yes no, st, free => by
    simp only [Expr.assigned, List.mem_append, not_or] at free
    rw [Expr.eval]
    refine Run.andThen_state (P := fun s => s.store x = st.store x)
      (eval_store w x test st free.1.1) fun d s same => ?_
    split
    · exact (eval_store w x yes s free.1.2).trans same
    · exact (eval_store w x no s free.2).trans same
  | .comma leading last, st, free => by
    simp only [Expr.assigned, List.mem_append, not_or] at free
    rw [Expr.eval]
    refine Run.andThen_state (P := fun s => s.store x = st.store x)
      (evalAll_store w x leading st free.1) fun d s same => ?_
    exact (eval_store w x last s free.2).trans same

/-- Expressions that do not assign a name leave its value, whichever of them throws. -/
theorem evalAll_store (w : World) (x : String) : ∀ (es : List Expr) (st : State),
    x ∉ assignedAll es → (evalAll w es st).2.store x = st.store x
  | [], st, _ => by rw [evalAll]; rfl
  | e :: rest, st, free => by
    simp only [assignedAll, List.mem_append, not_or] at free
    rw [evalAll]
    refine Run.andThen_state (P := fun s => s.store x = st.store x)
      (eval_store w x e st free.1) fun d s same => ?_
    exact Run.andThen_state (P := fun s => s.store x = st.store x)
      ((evalAll_store w x rest s free.2).trans same) fun ds s same => same

end

/-! ## Folded operators -/

/-- A number that equals the integer zero is a zero, of either sign. -/
theorem isZero_of_sameInt_zero {x : Binary64} (same : x.sameInt 0 = true) : x.isZero = true := by
  simp only [Binary64.sameInt, beq_iff_eq] at same
  cases x with
  | finite negative m q =>
    simp only [Binary64.toInt?, Binary64.ratio, Binary64.signed] at same
    have zero : m = 0 := by
      split at same
      · split at same
        · rename_i _ exact'
          have quotient : m / Nat.pow 2 q.natAbs = 0 := by
            simp only [Option.some.injEq] at same
            split at same <;> omega
          have whole := Nat.div_add_mod m (Nat.pow 2 q.natAbs)
          rw [quotient, exact'] at whole
          simpa using whole.symm
        · cases same
      · split at same
        · have product : m * Nat.pow 2 q.natAbs = 0 := by
            simp only [Option.some.injEq, Nat.div_one] at same
            split at same <;> omega
          rcases Nat.mul_eq_zero.mp product with zero | power
          · exact zero
          · exact absurd power (Nat.ne_of_gt (Nat.pow_pos (by decide)))
        · cases same
    simp [Binary64.isZero, zero]
  | _ => simp [Binary64.toInt?] at same

theorem not_isZero_of_sameInt_one {x : Binary64} (same : x.sameInt 1 = true) :
    (!x.isZero && x != .nan) = true := by
  simp only [Binary64.sameInt, beq_iff_eq] at same
  cases x with
  | finite negative m q =>
    have nonzero : m ≠ 0 := by
      rintro rfl
      simp only [Binary64.toInt?, Binary64.ratio, Binary64.signed, Nat.zero_mul] at same
      split at same <;> simp at same
    simp [Binary64.isZero, nonzero]
  | _ => simp [Binary64.toInt?] at same

/-- A number that folds under `!` counts as the opposite of what it folds to. -/
theorem truthy_of_negated (w : World) {fields : Fields} {value : Value} {b : Bool}
    (valueIs : fields.lookup "value" = some value) (negates : Rule.negatedNumber? value = some b) :
    (w.literalOf fields).truthy = !b := by
  unfold Rule.negatedNumber? at negates
  split at negates
  · obtain rfl := Option.some.inj negates
    simp only [World.literalOf, valueIs]
    decide
  · obtain rfl := Option.some.inj negates
    simp only [World.literalOf, valueIs]
    decide
  · rename_i x
    simp only [World.literalOf, valueIs, Datum.truthy]
    split at negates
    · rename_i zero
      obtain rfl := Option.some.inj negates
      simp [isZero_of_sameInt_zero zero]
    · split at negates
      · rename_i one
        obtain rfl := Option.some.inj negates
        simpa using not_isZero_of_sameInt_one one
      · cases negates
  · cases negates

/-- The second expression is as flat as the first. -/
def AsFlat (e e' : Expr) : Prop :=
  (e.isFlat = true → e'.isFlat = true) ∧ (e.leadsFlat = true → e'.leadsFlat = true)

/-- A tree that stands for an expression which does what the given one does. It is flat if that one
is, and a name other than `undefined` only if that one is. -/
def Expr.Keeps (e : Expr) (v : Value) : Prop :=
  ∃ e' : Expr, e'.Reads v ∧ (∀ w, e'.eval w = e.eval w) ∧ AsFlat e e' ∧
    ∀ x, e' = .name x → x ≠ "undefined" → e = .name x

/-- A folded constant is evaluated to the value of the operation. -/
theorem keeps_folded {fields : Fields} {operator : String} {argument a : Expr} {inner n : Value}
    (folds : Folds fields n) (operatorIs : fields.lookup "operator" = some (.str operator))
    (innerIs : fields.lookup "argument" = some inner) (reads : a.Reads inner)
    (same : ∀ w, a.eval w = argument.eval w) : (Expr.unary operator argument).Keeps n := by
  have evaluates : ∀ w, (Expr.unary operator argument).eval w = (Expr.unary operator a).eval w :=
    fun w => by rw [Expr.eval, Expr.eval, same]
  cases folds with
  | keep =>
    exact ⟨.unary operator a, ⟨fields, inner, rfl, operatorIs, innerIs, reads⟩,
      fun w => (evaluates w).symm, ⟨fun _ => rfl, fun _ => rfl⟩, by simp⟩
  | truth literal value b bang literalIs valueIs negates =>
    obtain rfl : operator = "!" := by simpa [operatorIs] using bang
    obtain rfl : inner = .tagged "Literal" literal := by simpa [innerIs] using literalIs
    obtain rfl := reads.of_literal
    refine ⟨.literal _, rfl, fun w => ?_, ⟨fun _ => rfl, fun _ => rfl⟩, by simp⟩
    rw [evaluates, Expr.eval, Expr.eval, Expr.eval]
    show _ = Run.give (Datum.bool !(w.literalOf literal).truthy)
    rw [truthy_of_negated w valueIs negates, Bool.not_not]
    cases b <;> rfl
  | absent literal voids literalIs =>
    obtain rfl : operator = "void" := by simpa [operatorIs] using voids
    obtain rfl : inner = .tagged "Literal" literal := by simpa [innerIs] using literalIs
    obtain rfl := reads.of_literal
    refine ⟨.name "undefined", ⟨_, rfl, rfl⟩, fun w => ?_, ⟨fun _ => rfl, fun _ => rfl⟩, ?_⟩
    · rw [evaluates, Expr.eval, Expr.eval, Expr.eval]
      rfl
    · intro x isName differs
      exact absurd (Expr.name.inj isName).symm differs

/-! ## Turned comparisons -/

/-- The mirrored comparison of exchanged operands gives the same. -/
theorem binary_mirrored (w : World) {operator mirrored : String}
    (mirrors : Rule.comparisonTable.lookup operator = some mirrored) (a b : Datum) :
    w.binary operator a b = w.binary mirrored b a := by
  have member := Fields.mem_of_lookup mirrors
  simp only [Rule.comparisonTable, List.mem_cons, Prod.mk.injEq, List.not_mem_nil, or_false] at member
  rcases member with ⟨rfl, rfl⟩ | ⟨rfl, rfl⟩ | ⟨rfl, rfl⟩ | ⟨rfl, rfl⟩ | ⟨rfl, rfl⟩ | ⟨rfl, rfl⟩ |
    ⟨rfl, rfl⟩ | ⟨rfl, rfl⟩
  · exact w.symmetric _ (by decide) a b
  · exact w.symmetric _ (by decide) a b
  · exact w.symmetric _ (by decide) a b
  · exact w.symmetric _ (by decide) a b
  · exact (w.mirrored b a).symm
  · exact w.mirrored a b
  · exact (w.mirroredOrEqual b a).symm
  · exact w.mirroredOrEqual a b

theorem comparison_of_mirrored {operator mirrored : String}
    (mirrors : Rule.comparisonTable.lookup operator = some mirrored) :
    operator ∈ comparisons := by
  have listed : ∀ entry ∈ Rule.comparisonTable, entry.1 ∈ comparisons := by decide
  exact listed _ (Fields.mem_of_lookup mirrors)

/-- A side that does nothing and always has the same value may change places with the other. -/
theorem eval_turned_constant (w : World) {operator mirrored : String} {left right : Expr} {d : Datum}
    (mirrors : Rule.comparisonTable.lookup operator = some mirrored) (pure : left.eval w = .give d) :
    (Expr.binary mirrored right left).eval w = (Expr.binary operator left right).eval w := by
  rw [Expr.eval, Expr.eval, pure]
  funext st
  simp only [Run.andThen, Run.give]
  cases right.eval w st with
  | mk result st =>
    cases result with
    | error thrown => rfl
    | ok b => simp only [binary_mirrored w mirrors]

/-- A name that the left side leaves alone may be read before it. -/
theorem eval_turned_name (w : World) {operator mirrored : String} {left : Expr} {x : String}
    (mirrors : Rule.comparisonTable.lookup operator = some mirrored)
    (leaves : ∀ st, (left.eval w st).2.read x = st.read x) :
    (Expr.binary mirrored (.name x) left).eval w = (Expr.binary operator left (.name x)).eval w := by
  funext st
  have same := leaves st
  simp only [Expr.eval, Run.andThen]
  generalize left.eval w st = outcome at same
  obtain ⟨result, after⟩ := outcome
  cases result with
  | error thrown => rfl
  | ok a =>
    simp only at same ⊢
    rw [binary_mirrored w mirrors, same]

/-- A turned comparison is evaluated as the comparison was, unless its operands clash. -/
theorem keeps_turned {fields : Fields} {operator : String} {left right l r : Expr} {a b n : Value}
    (turns : Turns fields n) (operatorIs : fields.lookup "operator" = some (.str operator))
    (leftIs : fields.lookup "left" = some a) (leftReads : l.Reads a)
    (leftSame : ∀ w, l.eval w = left.eval w) (rightIs : fields.lookup "right" = some b)
    (rightReads : r.Reads b) (rightSame : ∀ w, r.eval w = right.eval w)
    (rightName : ∀ x, r = .name x → x ≠ "undefined" → right = .name x)
    (calm : n = .tagged "BinaryExpression" fields ∨ clashes operator left right = false) :
    (Expr.binary operator left right).Keeps n := by
  have evaluates : ∀ w, (Expr.binary operator left right).eval w =
      (Expr.binary operator l r).eval w := fun w => by rw [Expr.eval, Expr.eval, leftSame, rightSame]
  have unturned : (Expr.binary operator left right).Keeps (.tagged "BinaryExpression" fields) :=
    ⟨.binary operator l r, ⟨fields, a, b, rfl, operatorIs, leftIs, leftReads, rightIs, rightReads⟩,
      fun w => (evaluates w).symm, ⟨fun _ => rfl, fun _ => rfl⟩, by simp⟩
  rcases calm with rfl | calm
  · exact unturned
  cases turns with
  | keep => exact unturned
  | turn own mirrored leftValue rightValue ownIs mirrors leftValueIs rightValueIs reverses =>
    obtain rfl : operator = own := by simpa [operatorIs] using ownIs
    obtain rfl : a = leftValue := by simpa [leftIs] using leftValueIs
    obtain rfl : b = rightValue := by simpa [rightIs] using rightValueIs
    refine ⟨.binary mirrored r l, ⟨_, b, a, rfl, ?_, ?_, rightReads, ?_, leftReads⟩, fun w => ?_,
      ⟨fun _ => rfl, fun _ => rfl⟩, by simp⟩
    · rw [Fields.lookup_set_of_ne _ _ (by decide), Fields.lookup_set_of_ne _ _ (by decide),
        Fields.lookup_set_self]
    · rw [Fields.lookup_set_of_ne _ _ (by decide), Fields.lookup_set_self]
    · rw [Fields.lookup_set_self]
    · rw [evaluates]
      rcases reverses with named | ⟨-, x, named⟩ | ⟨constant, -⟩
      · obtain rfl := leftReads.of_named named
        exact eval_turned_constant w mirrors (by rw [Expr.eval]; rfl)
      · obtain rfl := rightReads.of_named named
        refine eval_turned_name w mirrors fun st => ?_
        by_cases undefined : x = "undefined"
        · simp [State.read, undefined]
        · have free : x ∉ left.assigned := by
            rw [rightName x rfl undefined] at calm
            simpa [clashes, comparison_of_mirrored mirrors, undefined] using calm
          simp only [State.read, if_neg undefined, leftSame]
          exact eval_store w x left st free
      · obtain ⟨d, pure⟩ := eval_constant w constant leftReads
        exact eval_turned_constant w mirrors pure

/-! ## Whole expressions -/

/-- A condition that is needed only where the rule for comparisons is there. -/
def CalmUnless (off : List String) (calm : Bool) : Prop :=
  "BinaryExpression" ∈ off ∨ calm = true

theorem CalmUnless.left {off : List String} {a b : Bool} (h : CalmUnless off (a && b)) :
    CalmUnless off a :=
  h.imp_right fun both => (Bool.and_eq_true _ _ ▸ both).1

theorem CalmUnless.right {off : List String} {a b : Bool} (h : CalmUnless off (a && b)) :
    CalmUnless off b :=
  h.imp_right fun both => (Bool.and_eq_true _ _ ▸ both).2

variable {off : List String}

theorem named_reshaped {slot : Slot} {v : Value} {x : String} (fit : fits slot v = true)
    (named : Named x v) : Named x (reshapedField off v) := by
  obtain ⟨fields, rfl, nameIs⟩ := named
  refine ⟨reshapedFields off fields, reshapedField_other off fields (by decide), ?_⟩
  rw [lookup_reshaped_bare (fits_node.mp fit).2 (Or.inr rfl), nameIs]

theorem reshapedFields_literal {fields : Fields} (formed : Formed "Literal" fields) :
    reshapedFields off fields = fields := by
  have unchanged : ∀ field ∈ fields, (field.1, reshapedField off field.2) = id field := by
    intro field member
    have bare : fits .bare field.2 = true := fitFields_iff.mp formed.fitted field member
    rw [reshapedField_bare off bare]
    rfl
  rw [reshapedFields_eq, List.map_congr_left unchanged, List.map_id]

theorem reshapedField_unturned (fields : Fields) (removed : "BinaryExpression" ∈ off) :
    reshapedField off (.tagged "BinaryExpression" fields) =
      .tagged "BinaryExpression" (reshapedFields off fields) := by
  simp only [reshapedField, settled, List.contains_iff_mem.mpr removed, if_true]
  rfl

/-- The trees stand for expressions that do what the given ones do. -/
def keepsAll (es : List Expr) (items : List Value) : Prop :=
  ∃ es', readsAll es' items ∧ (∀ w, evalAll w es' = evalAll w es) ∧
    (allFlat es = true → allFlat es' = true)

theorem fits_lookup_expression {tag name : String} {fields : Fields} {v : Value}
    (formed : Formed tag fields) (declared : slotOf tag name = expression)
    (found : fields.lookup name = some v) : fits expression v = true :=
  declared ▸ formed.fits_lookup found

/-- Whatever tree stands for the expression, the one that takes its place does what it did. -/
def Expr.IsKept (off : List String) (e : Expr) : Prop :=
  ∀ ⦃v : Value⦄, e.Reads v → fits expression v = true → e.Keeps (reshapedField off v)

/-- Whatever trees stand for the expressions, those that take their place do what they did. -/
def AreKept (off : List String) (es : List Expr) : Prop :=
  ∀ ⦃items : List Value⦄, readsAll es items → (∀ item ∈ items, fits expression item = true) →
    keepsAll es (items.map (reshapedField off))

/-! ### One kind of expression at a time

Each lemma takes the parts of an expression to be kept and says that the expression is. -/

section Steps

variable {x operator : String} {e left right test yes no last : Expr} {es : List Expr}

theorem Expr.IsKept.name : (Expr.name x).IsKept off := fun _ reads fit =>
  ⟨.name x, named_reshaped fit reads, fun _ => rfl, ⟨id, id⟩, fun _ same _ => same⟩

theorem Expr.IsKept.literal {fields : Fields} : (Expr.literal fields).IsKept off := by
  intro v reads fit
  obtain rfl := reads
  refine ⟨.literal fields, ?_, fun _ => rfl, ⟨fun _ => rfl, fun _ => rfl⟩, by simp⟩
  rw [reshapedField_other off fields (by decide), reshapedFields_literal (fits_node.mp fit).2]
  rfl

/-- The arguments are evaluated from left to right, before and after. -/
theorem Expr.IsKept.call (kept : AreKept off es) : (Expr.call x es).IsKept off := by
  intro v reads fit
  obtain ⟨fields, target, items, rfl, targetIs, named, itemsAre, each⟩ := reads
  have formed := (fits_node.mp fit).2
  have targetFits := fits_lookup_expression formed rfl targetIs
  obtain ⟨_, same, itemsFit⟩ := fits_many.mp (formed.fits_lookup itemsAre)
  cases same
  obtain ⟨es', esRead, esSame, -⟩ := kept each itemsFit
  refine ⟨.call x es', ?_, fun w => by rw [Expr.eval, Expr.eval, esSame],
    ⟨fun _ => rfl, fun _ => rfl⟩, by simp⟩
  refine ⟨_, _, _, reshapedField_other off fields (by decide), lookup_reshaped targetIs,
    named_reshaped targetFits named, ?_, esRead⟩
  rw [lookup_reshaped itemsAre, reshapedField, reshapedItems_expressions off itemsFit]

theorem Expr.IsKept.assign (kept : e.IsKept off) : (Expr.assign x e).IsKept off := by
  intro v reads fit
  obtain ⟨fields, target, value, rfl, operatorIs, targetIs, named, valueIs, inside⟩ := reads
  have formed := (fits_node.mp fit).2
  have targetFits := fits_lookup_expression formed rfl targetIs
  obtain ⟨e', eReads, eSame, -⟩ := kept inside (fits_lookup_expression formed rfl valueIs)
  refine ⟨.assign x e', ?_, fun w => by rw [Expr.eval, Expr.eval, eSame],
    ⟨fun _ => rfl, fun _ => rfl⟩, by simp⟩
  exact ⟨_, _, _, reshapedField_other off fields (by decide), lookup_reshaped operatorIs,
    lookup_reshaped targetIs, named_reshaped targetFits named, lookup_reshaped valueIs, eReads⟩

theorem Expr.IsKept.unary (kept : e.IsKept off) : (Expr.unary operator e).IsKept off := by
  intro v reads fit
  obtain ⟨fields, inner, rfl, operatorIs, innerIs, inside⟩ := reads
  have formed := (fits_node.mp fit).2
  obtain ⟨e', eReads, eSame, -⟩ := kept inside (fits_lookup_expression formed rfl innerIs)
  exact keeps_folded (reshapedField_folds formed) (lookup_reshaped operatorIs)
    (lookup_reshaped innerIs) eReads eSame

/-- Evaluation of an expression is kept by reshaping, case by case. The operands of a comparison may
only change places if they do not clash. -/
theorem Expr.IsKept.binary (calm : CalmUnless off (!clashes operator left right))
    (leftKept : left.IsKept off) (rightKept : right.IsKept off) :
    (Expr.binary operator left right).IsKept off := by
  intro v reads fit
  obtain ⟨fields, a, b, rfl, operatorIs, leftIs, leftReads, rightIs, rightReads⟩ := reads
  have formed := (fits_node.mp fit).2
  obtain ⟨l, lReads, lSame, -⟩ := leftKept leftReads (fits_lookup_expression formed rfl leftIs)
  obtain ⟨r, rReads, rSame, -, rName⟩ :=
    rightKept rightReads (fits_lookup_expression formed rfl rightIs)
  refine keeps_turned (reshapedField_turns formed) (lookup_reshaped operatorIs)
    (lookup_reshaped leftIs) lReads lSame (lookup_reshaped rightIs) rReads rSame rName ?_
  rcases calm with removed | calm
  · exact Or.inl (reshapedField_unturned fields removed)
  · exact Or.inr (by simpa using calm)

/-- The operands of a short circuit are kept, whichever of the two operators it has. -/
theorem shortCircuit_reshaped {fields : Fields} {a b : Value}
    (fit : fits expression (.tagged "LogicalExpression" fields) = true)
    (leftIs : fields.lookup "left" = some a) (leftReads : left.Reads a)
    (rightIs : fields.lookup "right" = some b) (rightReads : right.Reads b)
    (leftKept : left.IsKept off) (rightKept : right.IsKept off) :
    ∃ l r : Expr, (reshapedFields off fields).lookup "left" = some (reshapedField off a) ∧
      l.Reads (reshapedField off a) ∧ (∀ w, l.eval w = left.eval w) ∧
      (reshapedFields off fields).lookup "right" = some (reshapedField off b) ∧
      r.Reads (reshapedField off b) ∧ ∀ w, r.eval w = right.eval w := by
  have formed := (fits_node.mp fit).2
  obtain ⟨l, lReads, lSame, -⟩ := leftKept leftReads (fits_lookup_expression formed rfl leftIs)
  obtain ⟨r, rReads, rSame, -⟩ := rightKept rightReads (fits_lookup_expression formed rfl rightIs)
  exact ⟨l, r, lookup_reshaped leftIs, lReads, lSame, lookup_reshaped rightIs, rReads, rSame⟩

theorem Expr.IsKept.both (leftKept : left.IsKept off) (rightKept : right.IsKept off) :
    (Expr.both left right).IsKept off := by
  intro v reads fit
  obtain ⟨fields, a, b, rfl, operatorIs, leftIs, leftReads, rightIs, rightReads⟩ := reads
  obtain ⟨l, r, lIs, lReads, lSame, rIs, rReads, rSame⟩ :=
    shortCircuit_reshaped fit leftIs leftReads rightIs rightReads leftKept rightKept
  exact ⟨.both l r, ⟨_, _, _, reshapedField_other off fields (by decide),
    lookup_reshaped operatorIs, lIs, lReads, rIs, rReads⟩,
    fun w => by rw [Expr.eval, Expr.eval, lSame, rSame],
    ⟨fun flat => by simp [Expr.isFlat] at flat, fun _ => rfl⟩, by simp⟩

theorem Expr.IsKept.either (leftKept : left.IsKept off) (rightKept : right.IsKept off) :
    (Expr.either left right).IsKept off := by
  intro v reads fit
  obtain ⟨fields, a, b, rfl, operatorIs, leftIs, leftReads, rightIs, rightReads⟩ := reads
  obtain ⟨l, r, lIs, lReads, lSame, rIs, rReads, rSame⟩ :=
    shortCircuit_reshaped fit leftIs leftReads rightIs rightReads leftKept rightKept
  exact ⟨.either l r, ⟨_, _, _, reshapedField_other off fields (by decide),
    lookup_reshaped operatorIs, lIs, lReads, rIs, rReads⟩,
    fun w => by rw [Expr.eval, Expr.eval, lSame, rSame],
    ⟨fun flat => by simp [Expr.isFlat] at flat, fun _ => rfl⟩, by simp⟩

theorem Expr.IsKept.choice (testKept : test.IsKept off) (yesKept : yes.IsKept off)
    (noKept : no.IsKept off) : (Expr.choice test yes no).IsKept off := by
  intro v reads fit
  obtain ⟨fields, a, b, c, rfl, testIs, testReads, yesIs, yesReads, noIs, noReads⟩ := reads
  have formed := (fits_node.mp fit).2
  obtain ⟨t, tReads, tSame, -⟩ := testKept testReads (fits_lookup_expression formed rfl testIs)
  obtain ⟨y, yReads, ySame, -⟩ := yesKept yesReads (fits_lookup_expression formed rfl yesIs)
  obtain ⟨n, nReads, nSame, -⟩ := noKept noReads (fits_lookup_expression formed rfl noIs)
  refine ⟨.choice t y n, ?_, fun w => by rw [Expr.eval, Expr.eval, tSame, ySame, nSame],
    ⟨fun flat => by simp [Expr.isFlat] at flat, fun _ => rfl⟩, by simp⟩
  exact ⟨_, _, _, _, reshapedField_other off fields (by decide), lookup_reshaped testIs, tReads,
    lookup_reshaped yesIs, yReads, lookup_reshaped noIs, nReads⟩

theorem Expr.IsKept.comma (leadingKept : AreKept off es) (lastKept : last.IsKept off) :
    (Expr.comma es last).IsKept off := by
  intro v reads fit
  obtain ⟨fields, items, final, rfl, itemsAre, each, lastReads⟩ := reads
  obtain ⟨_, same, itemsFit⟩ := fits_many.mp ((fits_node.mp fit).2.fits_lookup itemsAre)
  cases same
  obtain ⟨es', esRead, esSame, esFlat⟩ := leadingKept each fun item member =>
    itemsFit item (List.mem_append_left _ member)
  obtain ⟨l, lReads, lSame, lFlat, -⟩ := lastKept lastReads (itemsFit final (by simp))
  refine ⟨.comma es' l, ?_, fun w => by rw [Expr.eval, Expr.eval, esSame, lSame], ?_, by simp⟩
  · refine ⟨_, _, _, reshapedField_other off fields (by decide), ?_, esRead, lReads⟩
    rw [lookup_reshaped itemsAre, reshapedField, reshapedItems_expressions off itemsFit,
      List.map_append, List.map_singleton]
  · simp only [AsFlat, Expr.isFlat, Expr.leadsFlat, Bool.and_eq_true]
    exact ⟨fun flat => ⟨esFlat flat.1, lFlat.1 flat.2⟩, esFlat⟩

theorem AreKept.nil : AreKept off [] := by
  intro items reads fit
  obtain rfl := reads
  exact ⟨[], rfl, fun _ => rfl, fun _ => rfl⟩

/-- From left to right, by the first and the others. -/
theorem AreKept.cons (first : e.IsKept off) (others : AreKept off es) : AreKept off (e :: es) := by
  intro items reads fit
  obtain ⟨v, more, rfl, firstReads, othersRead⟩ := reads
  obtain ⟨e', eReads, eSame, eFlat, -⟩ := first firstReads (fit v (by simp))
  obtain ⟨es', esRead, esSame, esFlat⟩ :=
    others othersRead fun item member => fit item (by simp [member])
  refine ⟨e' :: es', ⟨_, _, rfl, eReads, esRead⟩,
    fun w => by rw [evalAll, evalAll, eSame, esSame], ?_⟩
  simp only [allFlat, Bool.and_eq_true]
  exact fun flat => ⟨eFlat.1 flat.1, esFlat flat.2⟩

end Steps

mutual

/-- A reshaped expression does what the expression did. -/
theorem reshapedField_keeps : ∀ e : Expr, CalmUnless off e.isCalm → e.IsKept off
  | .name _, _ => .name
  | .literal _, _ => .literal
  | .call _ arguments, calm => .call (reshapedItems_keeps arguments calm)
  | .assign _ value, calm => .assign (reshapedField_keeps value calm)
  | .unary _ argument, calm => .unary (reshapedField_keeps argument calm)
  | .binary _ left right, calm =>
    .binary calm.left.left (reshapedField_keeps left calm.left.right)
      (reshapedField_keeps right calm.right)
  | .both left right, calm =>
    .both (reshapedField_keeps left calm.left) (reshapedField_keeps right calm.right)
  | .either left right, calm =>
    .either (reshapedField_keeps left calm.left) (reshapedField_keeps right calm.right)
  | .choice test yes no, calm =>
    .choice (reshapedField_keeps test calm.left.left) (reshapedField_keeps yes calm.left.right)
      (reshapedField_keeps no calm.right)
  | .comma leading last, calm =>
    .comma (reshapedItems_keeps leading calm.left) (reshapedField_keeps last calm.right)

theorem reshapedItems_keeps : ∀ es : List Expr, CalmUnless off (allCalm es) → AreKept off es
  | [], _ => .nil
  | e :: rest, calm => .cons (reshapedField_keeps e calm.left) (reshapedItems_keeps rest calm.right)

end

end Untangle.Semantics
