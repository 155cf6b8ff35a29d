import Untangle.Proofs.Reading.Writing
import Untangle.Proofs.Text.Decimal

/-!
# Printed expressions are read back

Printing the tree of an expression gives the row of glyphs of that expression, so reading the text
gives the expression again, whatever precedence, level and width it was printed for. The exception are
constructions: the printer looks for a call in the tree of the callee and for a parenthesis at the
start of its text, and that parenthesis may be around the beginning of the callee only.

* `Term.Stands` says which trees stand for an expression; a negative number stands for the negation of
  its absolute value.
* `Term.writes` says that a printer writes the row of the expression that a tree stands for.
* `read_expression` is the round trip and `read_construction` says when a construction makes it.
-/

namespace Untangle.Reading

open Print (Precedence Printer Place Ruler Doc Phrase)
open Text (toList_nonneg toList_negSucc head_toDigits not_minus_of_digit isDigit_of_digit)

/-! ## Trees of expressions -/

/-- The tree is a whole number that is not spelled out. -/
def IsInteger (value : Int) (v : Value) : Prop :=
  ∃ fields, v = .tagged "Literal" fields ∧ Lacks fields "raw" ∧ Lacks fields "regex" ∧
    fields.lookup "value" = some (.int value)

mutual

def Term.Stands : Term → Value → Prop
  | .name text, v => ∃ fields, v = .tagged "Identifier" fields ∧
      fields.lookup "name" = some (.str text)
  | .number value, v => IsInteger value v
  | .hole, v => v = .null
  | .unary operator e, v =>
      (∃ fields inner, v = .tagged "UnaryExpression" fields ∧
        fields.lookup "operator" = some (.str operator) ∧
        fields.lookup "argument" = some inner ∧ e.Stands inner) ∨
      (operator = "-" ∧ ∃ n, e = .number (n + 1) ∧ IsInteger (Int.negSucc n) v)
  | .update operator isPrefix e, v => ∃ fields before inner,
      v = .tagged "UpdateExpression" fields ∧ fields.lookup "operator" = some (.str operator) ∧
      fields.lookup "prefix" = some before ∧ before.truthy = isPrefix ∧
      fields.lookup "argument" = some inner ∧ e.Stands inner
  | .binary operator left right, v => ∃ fields a b, v = .tagged (binaryTag operator) fields ∧
      fields.lookup "operator" = some (.str operator) ∧ fields.lookup "left" = some a ∧
      left.Stands a ∧ fields.lookup "right" = some b ∧ right.Stands b
  | .assign operator target value, v => ∃ fields a b, v = .tagged "AssignmentExpression" fields ∧
      fields.lookup "operator" = some (.str operator) ∧ fields.lookup "left" = some a ∧
      target.Stands a ∧ fields.lookup "right" = some b ∧ value.Stands b
  | .conditional test consequent alternate, v => ∃ fields a b c,
      v = .tagged "ConditionalExpression" fields ∧ fields.lookup "test" = some a ∧ test.Stands a ∧
      fields.lookup "consequent" = some b ∧ consequent.Stands b ∧
      fields.lookup "alternate" = some c ∧ alternate.Stands c
  | .sequence items, v => ∃ fields values, v = .tagged "SequenceExpression" fields ∧
      fields.lookup "expressions" = some (.seq values) ∧ standAll items values
  | .call callee items, v => ∃ fields a values, v = .tagged "CallExpression" fields ∧
      fields.lookup "callee" = some a ∧ callee.Stands a ∧
      fields.lookup "arguments" = some (.seq values) ∧ standAll items values
  | .construct callee items, v => ∃ fields a values, v = .tagged "NewExpression" fields ∧
      fields.lookup "callee" = some a ∧ callee.Stands a ∧
      fields.lookup "arguments" = some (.seq values) ∧ standAll items values
  | .dot object text, v => ∃ fields a property computed, v = .tagged "MemberExpression" fields ∧
      fields.lookup "object" = some a ∧ object.Stands a ∧
      fields.lookup "computed" = some computed ∧ computed.truthy = false ∧
      fields.lookup "property" = some (.tagged "Identifier" property) ∧
      property.lookup "name" = some (.str text)
  | .index object key, v => ∃ fields a b computed, v = .tagged "MemberExpression" fields ∧
      fields.lookup "object" = some a ∧ object.Stands a ∧
      fields.lookup "computed" = some computed ∧ computed.truthy = true ∧
      fields.lookup "property" = some b ∧ key.Stands b
  | .array items, v => ∃ fields values, v = .tagged "ArrayExpression" fields ∧
      fields.lookup "elements" = some (.seq values) ∧ standAll items values

/-- The trees stand for the expressions, one for one. -/
def standAll : List Term → List Value → Prop
  | [], values => values = []
  | t :: rest, values => ∃ v more, values = v :: more ∧ t.Stands v ∧ standAll rest more

end

/-- A tree that stands for an expression is a whole number or has another tag than one. -/
theorem Term.Stands.cases {t : Term} {v : Value} (stands : t.Stands v) (notHole : t.isHole = false) :
    (∃ n : Nat, t = .number n ∧ IsInteger n v) ∨
    (∃ n, t = .unary "-" (.number (n + 1)) ∧ IsInteger (Int.negSucc n) v) ∨
    (t.isNumber = false ∧ ∃ tag fields, v = .tagged tag fields ∧ tag ≠ "Literal") := by
  cases t with
  | number n => exact .inl ⟨n, rfl, stands⟩
  | hole => cases notHole
  | unary operator e =>
    rw [Term.Stands] at stands
    obtain ⟨fields, _, isUnary, -⟩ | ⟨rfl, n, rfl, isInteger⟩ := stands
    · exact .inr (.inr ⟨rfl, _, fields, isUnary, by decide⟩)
    · exact .inr (.inl ⟨n, rfl, isInteger⟩)
  | binary operator left right =>
    rw [Term.Stands] at stands
    obtain ⟨fields, _, _, isBinary, -⟩ := stands
    exact .inr (.inr ⟨rfl, _, fields, isBinary, binaryTag_ne operator⟩)
  | name | update | assign | conditional | sequence | call | construct | dot | index | array =>
    refine .inr (.inr ⟨rfl, ?_⟩)
    rw [Term.Stands] at stands
    grind

/-! ## What a printer writes -/

/-- The printer writes the row of the expression for the tree, in every place that asks for a
precedence. -/
def Writes (p : Printer) (place : Place) (t : Term) (v : Value) : Prop :=
  ∀ precedence, Spelled (p.expression place precedence v)
    (placed place.noIn precedence t (t.row place.noIn))

section Expressions

variable {A : Alphabet} {p : Printer} {place : Place} {t : Term} {v : Value} {fields : Fields}

/-- The text of an expression as such. -/
def WritesText (p : Printer) (place : Place) (t : Term) (v : Value) : Prop :=
  SpelledText (Print.expressionText p place v) t.own (t.row place.noIn)

/-- The printer above puts the text in parentheses where its place asks for that. -/
theorem WritesText.above (text : WritesText p place t v)
    (same : Print.isInOperation v = t.isInOperation) : Writes p.above place t v := by
  intro precedence
  rw [placed, ← same]
  exact SpelledText.above text precedence

/-- A literal without a spelling of its own is written as its value. -/
theorem literalPhrase_integer {value : Int} (raw : Lacks fields "raw") (regex : Lacks fields "regex")
    (found : fields.lookup "value" = some (.int value)) :
    Print.literalPhrase (.tagged "Literal" fields) = .ok (.doc (Doc.text (toString value)),
      if (toString value).toList.head? = some '-' then Precedence.unary else Precedence.primary) := by
  simp [Print.literalPhrase, Value.tagged, Value.optional_of_lacks raw, Value.optional_of_lacks regex,
    Value.optional_of_lookup found, Print.literalSpelling]

theorem writes_number {n : Nat} (stands : IsInteger n v) : WritesText p place (.number n) v := by
  obtain ⟨fields, rfl, raw, regex, found⟩ := stands
  obtain ⟨c, rest, digits, isDigit⟩ := head_toDigits n
  have notMinus : (toString (n : Int)).toList.head? ≠ some '-' := by
    simp [-Int.toString_eq_repr, toList_nonneg, digits, not_minus_of_digit isDigit]
  refine ⟨Doc.text (toString (n : Int)), ?_, fun width => ?_⟩
  · show Print.literalPhrase (.tagged "Literal" fields) = _
    rw [literalPhrase_integer raw regex found, if_neg notMinus]
    rfl
  · rw [chars_text, toList_nonneg]
    simp [Term.row]

/-- A negative literal is read back as the negation of a number, and holds together like one. -/
theorem writes_negative {n : Nat} (stands : IsInteger (Int.negSucc n) v) :
    WritesText p place (.unary "-" (.number (n + 1))) v := by
  obtain ⟨fields, rfl, raw, regex, found⟩ := stands
  obtain ⟨c, rest, digits, isDigit⟩ := head_toDigits (n + 1)
  refine ⟨Doc.text (toString (Int.negSucc n)), ?_, fun width => ?_⟩
  · show Print.literalPhrase (.tagged "Literal" fields) = _
    rw [literalPhrase_integer raw regex found, toList_negSucc]
    rfl
  · have inner : placed place.noIn Precedence.unary (.number (n + 1))
        ((Term.number (n + 1)).row place.noIn) = [.token (.number (n + 1))] := by
      simp [placed, Term.own, Term.isInOperation, Term.row, Precedence.primary, Precedence.unary]
    have noGap : gap "-" [.token (.number (n + 1))] = [] := by
      simp [gap, Precedence.wordOperators, digits, (not_minus_of_digit isDigit).symm]
    rw [chars_text, toList_negSucc, Term.row, inner, noGap]
    simp

/-- Between the operator and the operand stands a blank exactly where the row has one. -/
theorem writes_unary {operator : String} {inner : Value}
    (isOperator : fields.lookup "operator" = some (.str operator))
    (found : fields.lookup "argument" = some inner) (writes : Writes p place t inner) :
    WritesText p place (.unary operator t) (.tagged "UnaryExpression" fields) := by
  obtain ⟨d, prints, chars⟩ := writes Precedence.unary
  have text : ∃ e, Print.unaryText p place (.tagged "UnaryExpression" fields) = .ok (.doc e) ∧
      ∀ width, e.chars width = spell ((Term.unary operator t).row place.noIn) := by
    simp only [Print.unaryText, Value.tagged, Value.field_of_lookup isOperator,
      Value.field_of_lookup found, prints, ok_bind, Value.key?, Print.Phrase.inspect,
      Print.Phrase.shown, chars, Term.row, gap]
    by_cases word : Precedence.wordOperators.contains operator
    · simp only [if_pos word]
      exact ⟨_, rfl, fun width => by simp [chars_append, chars_text, chars]⟩
    by_cases sign : operator = "+" ∨ operator = "-"
    · simp only [if_neg word, sign, true_and, if_true]
      split
      · exact ⟨_, rfl, fun width => by simp [chars_append, chars_text, chars]⟩
      · exact ⟨_, rfl, fun width => by simp [chars_append, chars_text, chars]⟩
    · simp only [if_neg word, sign, false_and, if_false]
      exact ⟨_, rfl, fun width => by simp [chars_append, chars_text, chars]⟩
  obtain ⟨e, answer, spelled⟩ := text
  refine ⟨e, ?_, spelled⟩
  show Print.unaryText p place (.tagged "UnaryExpression" fields) >>= _ = _
  rw [answer]
  rfl

/-- The operator stands before or behind its operand. -/
theorem writes_update {operator : String} {isPrefix : Bool} {before inner : Value}
    (isOperator : fields.lookup "operator" = some (.str operator))
    (isBefore : fields.lookup "prefix" = some before) (truth : before.truthy = isPrefix)
    (found : fields.lookup "argument" = some inner) (writes : Writes p place t inner) :
    WritesText p place (.update operator isPrefix t) (.tagged "UpdateExpression" fields) := by
  have text : ∃ e, Print.updateText p place (.tagged "UpdateExpression" fields) =
        .ok (.doc e, (Term.update operator isPrefix t).own) ∧
      ∀ width, e.chars width = spell ((Term.update operator isPrefix t).row place.noIn) := by
    simp only [Print.updateText, Value.tagged, Value.field_of_lookup isOperator,
      Value.field_of_lookup isBefore, Value.field_of_lookup found, ok_bind, truth]
    cases isPrefix with
    | true =>
      obtain ⟨d, prints, chars⟩ := writes Precedence.unary
      rw [if_pos rfl, prints]
      exact ⟨_, rfl, fun width => by simp [Term.row, chars_append, chars_text, chars]⟩
    | false =>
      obtain ⟨d, prints, chars⟩ := writes Precedence.update
      rw [if_neg Bool.false_ne_true, prints]
      exact ⟨_, rfl, fun width => by simp [Term.row, chars_append, chars_text, chars]⟩
  exact text

theorem Writes.shown (writes : Writes p place t v) (precedence : Precedence) :
    ∃ d, p.shown place precedence v = .ok d ∧
      ∀ width, d.chars width = spell (placed place.noIn precedence t (t.row place.noIn)) :=
  Spelled.shown (writes precedence)

theorem writes_assign {operator : String} {target value : Term} {a b : Value}
    (isOperator : fields.lookup "operator" = some (.str operator))
    (isLeft : fields.lookup "left" = some a) (targetWrites : Writes p place target a)
    (isRight : fields.lookup "right" = some b) (valueWrites : Writes p place value b) :
    WritesText p place (.assign operator target value) (.tagged "AssignmentExpression" fields) := by
  obtain ⟨d, targetPrints, targetChars⟩ := targetWrites.shown Precedence.call
  obtain ⟨e, valuePrints, valueChars⟩ := valueWrites.shown Precedence.assignment
  refine ⟨d ++ Doc.text " " ++ Doc.text operator ++ Doc.text " " ++ e, ?_, fun width => ?_⟩
  · show Print.assignmentText p place (.tagged "AssignmentExpression" fields) >>= _ = _
    simp only [Print.assignmentText, Value.tagged, Value.field_of_lookup isLeft, targetPrints,
      Value.field_of_lookup isRight, valuePrints, Value.field_of_lookup isOperator, ok_bind]
    rfl
  · simp [Term.row, spaced, chars_append, chars_text, targetChars, valueChars]

/-- The function writes the tree as the expression in a comma list. -/
def WritesItem (place : Place) (f : Value → Except Fault Phrase) (t : Term) (v : Value) : Prop :=
  ∃ d, f v = .ok (.doc d) ∧
    ∀ width, d.chars width = spell (placed place.noIn Precedence.assignment t (t.row place.noIn))

/-- Members are written one by one, as laid-out texts. -/
theorem mapM_writes {f : Value → Except Fault Phrase} {items : List Term} {values : List Value}
    (each : List.Forall₂ (WritesItem place f) items values) :
    ∃ docs : List Doc, values.mapM f = .ok (docs.map .doc) ∧
      ∀ width, docs.map (Doc.chars width) = (rowsOf place.noIn items).map spell := by
  rw [rowsOf_eq]
  exact mapM_rows each

/-- The tree is written as the element of an array, which may be a hole. -/
def WritesElement (p : Printer) (place : Place) (t : Term) (v : Value) : Prop :=
  t = .hole ∧ v = .null ∨ t.isHole = false ∧ v.isNull = false ∧ Writes p place t v

theorem WritesElement.isNull (element : WritesElement p place t v) : v.isNull = t.isHole := by
  obtain ⟨rfl, rfl⟩ | ⟨notHole, notNull, -⟩ := element
  · rfl
  · rw [notHole, notNull]

/-- A hole is written as nothing, an element as an expression. -/
theorem WritesElement.item (element : WritesElement p place t v) :
    WritesItem place (fun element =>
      if element.isNull then pure (Phrase.doc []) else p.expression place Precedence.assignment element)
      t v := by
  obtain ⟨rfl, rfl⟩ | ⟨-, notNull, writes⟩ := element
  · exact ⟨[], rfl, fun width => by
      simp [placed, Term.own, Term.isInOperation, Term.row, Precedence.primary, Precedence.assignment,
        Doc.chars]⟩
  · obtain ⟨d, prints, chars⟩ := writes Precedence.assignment
    exact ⟨d, by simp [notNull, prints], chars⟩

/-- The tree ends in a hole where the list of elements does. -/
theorem endsInHole_eq {items : List Term} {values : List Value}
    (each : List.Forall₂ (WritesElement p place) items values) :
    values.getLast?.any Value.isNull = items.getLast?.any Term.isHole := by
  have same : values.map Value.isNull = items.map Term.isHole := by
    induction each with
    | nil => rfl
    | cons first _ ih => simp [first.isNull, ih]
  have last := congrArg (fun flags => flags.getLast?.any id) same
  simpa [List.getLast?_map, Option.any_map] using last

/-- A last hole is written with a comma behind it, as the row has it. -/
theorem writes_array {items : List Term} {values : List Value}
    (found : fields.lookup "elements" = some (.seq values))
    (each : List.Forall₂ (WritesElement p place) items values) :
    WritesText p place (.array items) (.tagged "ArrayExpression" fields) := by
  obtain ⟨docs, prints, chars⟩ := mapM_writes (each.imp fun _ _ element => element.item)
  -- a hole at the end is one more empty document and one more empty row
  obtain ⟨all, phrases, spelled⟩ : ∃ all : List Doc,
      (if values.getLast?.any Value.isNull then docs.map Phrase.doc ++ [.doc []]
        else docs.map Phrase.doc) = all.map Phrase.doc ∧
      ∀ width, all.map (Doc.chars width) =
        (elementRows items (rowsOf place.noIn items)).map spell := by
    rw [endsInHole_eq each, elementRows]
    split
    · exact ⟨docs ++ [[]], by simp, fun width => by simp [chars, Doc.chars]⟩
    · exact ⟨docs, rfl, chars⟩
  refine ⟨Doc.text "[" ++ Doc.joined (Doc.text ", ") all ++ Doc.text "]", ?_, fun width => ?_⟩
  · show Print.arrayText p place (.tagged "ArrayExpression" fields) >>= _ = _
    simp only [Print.arrayText, Value.tagged, Value.field_of_lookup found, Value.items, prints,
      ok_bind, phrases, joined_docs]
    rfl
  · simp [chars_append, chars_text, Term.row, bracketed, chars_joined (spelled width)]

/-- Whether a literal is a number before a dot is seen on its characters. -/
theorem isAllDigits_literal {width : Nat} {d : Doc} {n : Int} (stands : IsInteger n v) :
    Print.isAllDigits width v (.doc d) =
      .ok (!(d.chars width).isEmpty && (d.chars width).all Text.isDigit) := by
  obtain ⟨fields, rfl, -⟩ := stands
  rfl

/-- Only a bare number is taken for digits that a dot would change: a negative one stands in
parentheses. -/
theorem isAllDigits_eq {width : Nat} {d : Doc} (stands : t.Stands v) (notHole : t.isHole = false)
    (chars : d.chars width = spell (placed place.noIn Precedence.call t (t.row place.noIn))) :
    Print.isAllDigits width v (.doc d) = .ok t.isNumber := by
  obtain ⟨n, rfl, isInteger⟩ | ⟨n, rfl, isInteger⟩ | ⟨notNumber, tag, fields, rfl, other⟩ :=
    stands.cases notHole
  · have digits : d.chars width = Nat.toDigits 10 n := by
      simpa [placed, Term.own, Term.isInOperation, Term.row, Precedence.primary, Precedence.call]
        using chars
    have all : (Nat.toDigits 10 n).all Text.isDigit = true :=
      List.all_eq_true.mpr fun c member =>
        isDigit_of_digit (Nat.isDigit_of_mem_toDigits (by decide) (by decide) member)
    simp [isAllDigits_literal isInteger, digits, all, Term.isNumber]
  · have notDigit : Text.isDigit '(' = false := by decide
    simp [isAllDigits_literal isInteger, chars, placed, Term.own, enclosed, Precedence.unary,
      Precedence.call, notDigit, Term.isNumber]
  · rw [isAllDigits_other other, notNumber]

/-- A number needs no parentheses as the object of an access; what is put around it before a dot is
there for the dot. -/
theorem placed_number {noIn : Bool} {row : List Glyph} (isNumber : t.isNumber = true) :
    placed noIn Precedence.call t row = row := by
  cases t <;> simp [Term.isNumber] at isNumber
  simp [placed, Term.own, Term.isInOperation, Precedence.primary, Precedence.call]

/-- The object is enclosed before the dot exactly where the row is. -/
theorem writes_dot {object : Term} {a computed : Value} {property : Fields} {text : String}
    (isObject : fields.lookup "object" = some a) (stands : object.Stands a)
    (notHole : object.isHole = false) (writes : Writes p place object a)
    (isComputed : fields.lookup "computed" = some computed) (plain : computed.truthy = false)
    (isProperty : fields.lookup "property" = some (.tagged "Identifier" property))
    (isName : property.lookup "name" = some (.str text)) :
    WritesText p place (.dot object text) (.tagged "MemberExpression" fields) := by
  have row : beforeDot place.noIn object (object.row place.noIn) =
      if object.isNumber then
        enclosed (placed place.noIn Precedence.call object (object.row place.noIn))
      else placed place.noIn Precedence.call object (object.row place.noIn) := by
    unfold beforeDot
    split
    case isTrue isNumber => rw [placed_number isNumber]
    case isFalse => rfl
  rw [WritesText, Term.row, row]
  exact spelled_dot isObject (writes _) (fun d => isAllDigits_eq stands notHole) isComputed plain
    isProperty isName

theorem writes_index {object key : Term} {a b computed : Value}
    (isObject : fields.lookup "object" = some a) (stands : object.Stands a)
    (notHole : object.isHole = false) (writes : Writes p place object a)
    (isComputed : fields.lookup "computed" = some computed) (truth : computed.truthy = true)
    (isProperty : fields.lookup "property" = some b) (keyWrites : Writes p place key b) :
    WritesText p place (.index object key) (.tagged "MemberExpression" fields) := by
  rw [WritesText, Term.row]
  exact spelled_index isObject (writes _) (fun d => isAllDigits_eq stands notHole) isComputed truth
    isProperty (keyWrites _)

end Expressions

/-- The tree is a bare `in` if the expression is. -/
theorem isInOperation_eq {t : Term} {v : Value} (stands : t.Stands v) :
    Print.isInOperation v = t.isInOperation := by
  cases t with
  | hole =>
    obtain rfl := stands
    rfl
  | binary operator left right =>
    rw [Term.Stands] at stands
    obtain ⟨fields, _, _, rfl, isOperator, -⟩ := stands
    by_cases shortCircuit : operator = "||" ∨ operator = "&&"
    · rw [binaryTag, if_pos shortCircuit, isInOperation_other (by decide)]
      obtain rfl | rfl := shortCircuit <;> rfl
    · rw [binaryTag, if_neg shortCircuit]
      simp [Print.isInOperation, Value.tagged, isOperator, Value.isText, Term.isInOperation]
  | name | number | unary | update | assign | conditional | sequence | call | construct | dot | index
  | array =>
    rw [Term.Stands] at stands
    obtain ⟨tag, fields, rfl, other⟩ :
        ∃ tag fields, v = .tagged tag fields ∧ tag ≠ "BinaryExpression" := by
      grind [IsInteger]
    exact isInOperation_other other

/-- The tree is a call, or a chain of members of one, if the expression is. -/
theorem isChainOfCall_eq {A : Alphabet} {t : Term} {v : Value} (formed : t.isFormed A = true)
    (stands : t.Stands v) : Print.isChainOfCall v = .ok t.isChainOfCall := by
  induction t generalizing v with
  | hole => cases formed
  | dot object property ih =>
    rw [Term.Stands] at stands
    obtain ⟨fields, a, _, _, rfl, isObject, objectStands, -⟩ := stands
    simp only [Term.isFormed, Bool.and_eq_true] at formed
    rw [isChainOfCall_member isObject, ih formed.1 objectStands, Term.isChainOfCall]
  | index object key ih =>
    rw [Term.Stands] at stands
    obtain ⟨fields, a, _, _, rfl, isObject, objectStands, -⟩ := stands
    simp only [Term.isFormed, Bool.and_eq_true] at formed
    rw [isChainOfCall_member isObject, ih formed.1 objectStands, Term.isChainOfCall]
  | call callee items =>
    rw [Term.Stands] at stands
    obtain ⟨fields, _, _, rfl, -⟩ := stands
    exact isChainOfCall_other (by decide) (by decide)
  | name | number | unary | update | binary | assign | conditional | sequence | construct | array =>
    rw [Term.Stands] at stands
    obtain ⟨tag, fields, rfl, notMember, notTemplate, notCall⟩ : ∃ tag fields, v = .tagged tag fields ∧
        tag ≠ "MemberExpression" ∧ tag ≠ "TaggedTemplateExpression" ∧ tag ≠ "CallExpression" := by
      grind [IsInteger, binaryTag]
    rw [isChainOfCall_other notMember notTemplate, beq_eq_false_iff_ne.mpr notCall]
    rfl

/-! ## Every tree of an expression -/

section Trees

variable {A : Alphabet} {t : Term} {v : Value}

/-- What holds of each expression and its tree holds along the list. -/
theorem standAll_forall {W : Term → Value → Prop} {items : List Term} {values : List Value}
    (stands : standAll items values) (each : ∀ t ∈ items, ∀ v ∈ values, t.Stands v → W t v) :
    List.Forall₂ W items values := by
  induction items generalizing values with
  | nil =>
    obtain rfl := stands
    exact .nil
  | cons t rest ih =>
    rw [standAll] at stands
    obtain ⟨v, more, rfl, first, others⟩ := stands
    refine .cons (each t (by simp) v (by simp) first) (ih others ?_)
    exact fun t member v found => each t (List.mem_cons_of_mem _ member) v (List.mem_cons_of_mem _ found)

theorem not_hole_of_isFormed (formed : t.isFormed A = true) : t.isHole = false := by
  cases t with
  | hole => cases formed
  | _ => rfl

theorem Term.Stands.not_null (stands : t.Stands v) (notHole : t.isHole = false) :
    v.isNull = false := by
  obtain ⟨_, rfl, _, rfl, -⟩ | ⟨_, rfl, _, rfl, -⟩ | ⟨-, _, _, rfl, -⟩ := stands.cases notHole <;> rfl

/-- A printer that reaches all of a tree writes the expression that the tree stands for. -/
theorem Term.writes (ruler : Ruler) (place : Place) (t : Term) {v : Value} (formed : t.isFormed A = true)
    (stands : t.Stands v) {depth : Nat} (reached : v.depth ≤ depth) :
    Writes (Printer.ofDepth ruler depth) place t v := by
  induction t generalizing v depth
  all_goals
    -- the parts are written by the printer below
    obtain ⟨inner, rfl⟩ : ∃ inner, depth = inner + 1 := by
      have positive : 0 < v.depth := by cases v <;> simp [Value.depth]
      exact Nat.exists_eq_add_one.mpr (by omega)
    refine WritesText.above ?_ (isInOperation_eq stands)
  case name text =>
    rw [Term.Stands] at stands
    obtain ⟨fields, rfl, found⟩ := stands
    rw [WritesText, Term.row]
    exact spelled_name found
  case number n => exact writes_number stands
  case hole => cases formed
  case unary operator e ih =>
    rw [Term.Stands] at stands
    obtain ⟨fields, a, rfl, isOperator, found, inside⟩ | ⟨rfl, n, rfl, isInteger⟩ := stands
    · simp only [Term.isFormed, Bool.and_eq_true] at formed
      exact writes_unary isOperator found (ih formed.2 inside (depth_of_field reached found))
    · exact writes_negative isInteger
  case update operator isPrefix e ih =>
    rw [Term.Stands] at stands
    obtain ⟨fields, before, a, rfl, isOperator, isBefore, truth, found, inside⟩ := stands
    simp only [Term.isFormed, Bool.and_eq_true] at formed
    exact writes_update isOperator isBefore truth found
      (ih formed.2 inside (depth_of_field reached found))
  case binary operator left right ihLeft ihRight =>
    rw [Term.Stands] at stands
    obtain ⟨fields, a, b, rfl, isOperator, isLeft, leftStands, isRight, rightStands⟩ := stands
    simp only [Term.isFormed, Bool.and_eq_true] at formed
    rw [WritesText, Term.row]
    exact spelled_binary formed.1.1 isOperator
      isLeft (ihLeft formed.1.2 leftStands (depth_of_field reached isLeft) _)
      isRight (ihRight formed.2 rightStands (depth_of_field reached isRight) _)
  case assign operator target value ihTarget ihValue =>
    rw [Term.Stands] at stands
    obtain ⟨fields, a, b, rfl, isOperator, isLeft, leftStands, isRight, rightStands⟩ := stands
    simp only [Term.isFormed, Bool.and_eq_true] at formed
    exact writes_assign isOperator
      isLeft (ihTarget formed.1.2 leftStands (depth_of_field reached isLeft))
      isRight (ihValue formed.2 rightStands (depth_of_field reached isRight))
  case conditional test consequent alternate ihTest ihYes ihNo =>
    rw [Term.Stands] at stands
    obtain ⟨fields, a, b, c, rfl, isTest, testStands, isConsequent, consequentStands, isAlternate,
      alternateStands⟩ := stands
    simp only [Term.isFormed, Bool.and_eq_true] at formed
    rw [WritesText, Term.row]
    exact spelled_conditional
      isTest (ihTest formed.1.1 testStands (depth_of_field reached isTest) _)
      isConsequent (ihYes formed.1.2 consequentStands (depth_of_field reached isConsequent) _)
      isAlternate (ihNo formed.2 alternateStands (depth_of_field reached isAlternate) _)
  case sequence items ih =>
    rw [Term.Stands] at stands
    obtain ⟨fields, values, rfl, found, allStand⟩ := stands
    simp only [Term.isFormed, Bool.and_eq_true, areFormed_iff] at formed
    rw [WritesText, Term.row, rowsOf_eq]
    refine spelled_sequence found (standAll_forall allStand fun e member a inside eStands => ?_)
    exact ih e member (formed.2 e member) eStands (depth_of_member reached found inside) _
  case call callee items ihCallee ih =>
    rw [Term.Stands] at stands
    obtain ⟨fields, a, values, rfl, isCallee, calleeStands, found, allStand⟩ := stands
    simp only [Term.isFormed, Bool.and_eq_true, areFormed_iff] at formed
    rw [WritesText, Term.row, rowsOf_eq]
    refine spelled_call isCallee
      (ihCallee formed.1 calleeStands (depth_of_field reached isCallee) _) found
      (standAll_forall allStand fun e member a inside eStands => ?_)
    exact ih e member (formed.2 e member) eStands (depth_of_member reached found inside) _
  case construct callee items ihCallee ih =>
    rw [Term.Stands] at stands
    obtain ⟨fields, a, values, rfl, isCallee, calleeStands, found, allStand⟩ := stands
    simp only [Term.isFormed, Bool.and_eq_true, areFormed_iff] at formed
    have operand := (callee.operand place.noIn formed.1).placed place.noIn Precedence.construction callee
    rw [WritesText, Term.row, rowsOf_eq, calleeRow]
    refine spelled_construct isCallee (isChainOfCall_eq formed.1 calleeStands)
      (ihCallee formed.1 calleeStands (depth_of_field reached isCallee) _) operand.valid found
      (standAll_forall allStand fun e member a inside eStands => ?_)
    exact ih e member (formed.2 e member) eStands (depth_of_member reached found inside) _
  case dot object text ih =>
    rw [Term.Stands] at stands
    obtain ⟨fields, a, property, computed, rfl, isObject, objectStands, isComputed, plain, isProperty,
      isName⟩ := stands
    simp only [Term.isFormed, Bool.and_eq_true] at formed
    exact writes_dot isObject objectStands (not_hole_of_isFormed formed.1)
      (ih formed.1 objectStands (depth_of_field reached isObject))
      isComputed plain isProperty isName
  case index object key ihObject ihKey =>
    rw [Term.Stands] at stands
    obtain ⟨fields, a, b, computed, rfl, isObject, objectStands, isComputed, truth, isProperty,
      keyStands⟩ := stands
    simp only [Term.isFormed, Bool.and_eq_true] at formed
    exact writes_index isObject objectStands (not_hole_of_isFormed formed.1)
      (ihObject formed.1 objectStands (depth_of_field reached isObject))
      isComputed truth isProperty
      (ihKey formed.2 keyStands (depth_of_field reached isProperty))
  case array items ih =>
    rw [Term.Stands] at stands
    obtain ⟨fields, values, rfl, found, allStand⟩ := stands
    simp only [Term.isFormed, areElements_iff] at formed
    refine writes_array found (standAll_forall allStand fun e member a inside eStands => ?_)
    obtain rfl | isFormed := formed e member
    · exact .inl ⟨rfl, eStands⟩
    · have notHole := not_hole_of_isFormed isFormed
      exact .inr ⟨notHole, eStands.not_null notHole,
        ih e member isFormed eStands
          (depth_of_member reached found inside)⟩

/-- Every expression of the language is read from its text, as it is or with its argument lists at
other places. -/
theorem read_asRead (ruler : Ruler) (place : Place) (precedence : Precedence) (width : Nat)
    (stands : t.Stands v) (formed : t.isFormed A = true) :
    ∃ phrase, Print.expression ruler place precedence v = .ok phrase ∧
      read A (phrase.render width) = some t.asRead := by
  obtain ⟨d, prints, chars⟩ := t.writes ruler place formed stands (Nat.le_refl v.depth) precedence
  refine ⟨.doc d, prints, ?_⟩
  have operand := (t.operand place.noIn formed).placed place.noIn precedence t
  have lexed : lex A (Phrase.render width (.doc d)).toList = some (t.tokensAt place.noIn precedence) := by
    show lex A (String.ofList (d.chars width)).toList = _
    rw [String.toList_ofList, chars]
    exact lex_spell operand.valid operand.clear
  have parsed : expression (Reader.ofDepth (t.tokensAt place.noIn precedence).length)
      (t.tokensAt place.noIn precedence ++ []) = some (t.asRead, []) :=
    ((t.parsed place.noIn formed).anywhere (Nat.le_refl _)).reads (by simp [Stops])
  rw [List.append_nil] at parsed
  simp [read, lexed, parsed]

/-- Printing the tree of an expression for any precedence, level and width gives a text that is read
back as the expression. -/
theorem read_expression (A : Alphabet) (ruler : Ruler) (place : Place) (precedence : Precedence)
    (width : Nat) {t : Term} {v : Value} (stands : t.Stands v) (legal : t.isLegal A = true) :
    ∃ phrase, Print.expression ruler place precedence v = .ok phrase ∧
      read A (phrase.render width) = some t := by
  obtain ⟨phrase, prints, reads⟩ :=
    read_asRead ruler place precedence width stands (Term.isFormed_of_isLegal legal)
  rw [Term.asRead_of_isLegal legal] at reads
  exact ⟨phrase, prints, reads⟩

/-- `[, a, , ] in (1).x ? (-2) ** - --y : (b, c[0] += f(3))`. -/
def guardedPower : Term :=
  .conditional (.binary "in" (.array [.hole, .name "a", .hole]) (.dot (.number 1) "x"))
    (.binary "**" (.unary "-" (.number 2)) (.unary "-" (.update "--" true (.name "y"))))
    (.sequence [.name "b",
      .assign "+=" (.index (.name "c") (.number 0)) (.call (.name "f") [.number 3])])

/-- The tree of `guardedPower`, in which the base of the power is a negative number. -/
def guardedPowerTree : Value :=
  .tagged "ConditionalExpression" [
    ("test", .tagged "BinaryExpression" [("operator", .str "in"),
      ("left", .tagged "ArrayExpression" [
        ("elements", .seq [.null, .tagged "Identifier" [("name", .str "a")], .null])]),
      ("right", .tagged "MemberExpression" [("object", .tagged "Literal" [("value", .int 1)]),
        ("property", .tagged "Identifier" [("name", .str "x")]), ("computed", .bool false)])]),
    ("consequent", .tagged "BinaryExpression" [("operator", .str "**"),
      ("left", .tagged "Literal" [("value", .int (-2))]),
      ("right", .tagged "UnaryExpression" [("operator", .str "-"),
        ("argument", .tagged "UpdateExpression" [("operator", .str "--"), ("prefix", .bool true),
          ("argument", .tagged "Identifier" [("name", .str "y")])])])]),
    ("alternate", .tagged "SequenceExpression" [("expressions", .seq [
      .tagged "Identifier" [("name", .str "b")],
      .tagged "AssignmentExpression" [("operator", .str "+="),
        ("left", .tagged "MemberExpression" [("object", .tagged "Identifier" [("name", .str "c")]),
          ("property", .tagged "Literal" [("value", .int 0)]), ("computed", .bool true)]),
        ("right", .tagged "CallExpression" [("callee", .tagged "Identifier" [("name", .str "f")]),
          ("arguments", .seq [.tagged "Literal" [("value", .int 3)]])])]])])]

theorem read_expression_guardedPower :
    guardedPower.Stands guardedPowerTree ∧ guardedPower.isLegal Alphabet.ascii = true ∧
      ∃ phrase, Print.expression { width := 4, check := fun _ => .ok () } { level := -3, noIn := true }
          Precedence.unary guardedPowerTree = .ok phrase ∧
        read Alphabet.ascii (phrase.render 4) = some guardedPower := by
  have stands : guardedPower.Stands guardedPowerTree := by
    simp [guardedPower, guardedPowerTree, Term.Stands, standAll, IsInteger, Lacks, binaryTag,
      Value.tagged, List.lookup_cons, Value.truthy]
  have legal : guardedPower.isLegal Alphabet.ascii = true := by decide
  exact ⟨stands, legal, read_expression Alphabet.ascii _ _ _ 4 stands legal⟩

end Trees

/-! ## Constructions -/

/-- Printing the tree of a construction for any precedence, level and width gives a text. It is read
back as the construction with that callee and those arguments just if no construction in it has a
callee that is a member of what a call gave, where what was called starts with a parenthesis: it is
taken for one around the callee. -/
theorem read_construction (A : Alphabet) (ruler : Ruler) (place : Place) (precedence : Precedence)
    (width : Nat) {callee : Term} {items : List Term} {v : Value}
    (stands : (Term.construct callee items).Stands v)
    (formed : (Term.construct callee items).isFormed A = true) :
    ∃ phrase, Print.expression ruler place precedence v = .ok phrase ∧
      (read A (phrase.render width) = some (.construct callee items) ↔
        (Term.construct callee items).isSound = true) := by
  obtain ⟨phrase, prints, reads⟩ := read_asRead ruler place precedence width stands formed
  refine ⟨phrase, prints, ?_⟩
  rw [reads, Option.some.injEq]
  exact (Term.construct callee items).faithful.asRead

/-- The construction `new (f(x)[y in z].g)(new (a ? b : c)(), (d, e))`. -/
def calledMember : Term :=
  .construct
    (.dot (.index (.call (.name "f") [.name "x"]) (.binary "in" (.name "y") (.name "z"))) "g")
    [.construct (.conditional (.name "a") (.name "b") (.name "c")) [],
      .sequence [.name "d", .name "e"]]

def nameTree (text : String) : Value :=
  .tagged "Identifier" [("name", .str text)]

def calledMemberTree : Value :=
  .tagged "NewExpression" [
    ("callee", .tagged "MemberExpression" [("computed", .bool false),
      ("object", .tagged "MemberExpression" [("computed", .bool true),
        ("object", .tagged "CallExpression" [("callee", nameTree "f"),
          ("arguments", .seq [nameTree "x"])]),
        ("property", .tagged "BinaryExpression" [("operator", .str "in"), ("left", nameTree "y"),
          ("right", nameTree "z")])]),
      ("property", nameTree "g")]),
    ("arguments", .seq [
      .tagged "NewExpression" [("callee", .tagged "ConditionalExpression" [("test", nameTree "a"),
        ("consequent", nameTree "b"), ("alternate", nameTree "c")]), ("arguments", .seq [])],
      .tagged "SequenceExpression" [("expressions", .seq [nameTree "d", nameTree "e"])]])]

theorem read_construction_calledMember :
    calledMember.Stands calledMemberTree ∧ calledMember.isFormed Alphabet.ascii = true ∧
      ∃ phrase, Print.expression { width := 4, check := fun _ => .ok () } { level := 2, noIn := true }
          Precedence.call calledMemberTree = .ok phrase ∧
        read Alphabet.ascii (phrase.render 4) = some calledMember := by
  have stands : calledMember.Stands calledMemberTree := by
    simp [calledMember, calledMemberTree, nameTree, Term.Stands, standAll, binaryTag, Value.tagged,
      List.lookup_cons, Value.truthy]
  have formed : calledMember.isFormed Alphabet.ascii = true := by decide
  obtain ⟨phrase, prints, reads⟩ := read_construction Alphabet.ascii
    { width := 4, check := fun _ => .ok () } { level := 2, noIn := true } Precedence.call 4 stands formed
  exact ⟨stands, formed, phrase, prints, reads.mpr rfl⟩

/-- The tree of `new ((a, b)().x)()`. -/
def calledSequenceTree : Value :=
  .tagged "NewExpression" [
    ("callee", .tagged "MemberExpression" [("computed", .bool false),
      ("object", .tagged "CallExpression" [
        ("callee", .tagged "SequenceExpression" [("expressions", .seq [nameTree "a", nameTree "b"])]),
        ("arguments", .seq [])]),
      ("property", nameTree "x")]),
    ("arguments", .seq [])]

/-- A callee that starts with a parenthesis stands after `new` as it is, and the text is read as a
call of a member of a construction. -/
theorem construction_reads_as_call :
    (Term.construct (.dot (.call (.sequence [.name "a", .name "b"]) []) "x") []).Stands
        calledSequenceTree ∧
      ∃ phrase, Print.expression { width := 4, check := fun _ => .ok () } { level := 0, noIn := false }
          Precedence.sequence calledSequenceTree = .ok phrase ∧
        phrase.render 4 = "new (a, b)().x()" ∧
        read Alphabet.ascii (phrase.render 4) =
          some (.call (.dot (.construct (.sequence [.name "a", .name "b"]) []) "x") []) := by
  have stands : (Term.construct (.dot (.call (.sequence [.name "a", .name "b"]) []) "x") []).Stands
      calledSequenceTree := by
    simp [calledSequenceTree, nameTree, Term.Stands, standAll, Value.tagged, List.lookup_cons,
      Value.truthy]
  obtain ⟨phrase, prints, reads⟩ := read_asRead (A := Alphabet.ascii)
    { width := 4, check := fun _ => .ok () } { level := 0, noIn := false } Precedence.sequence 4 stands
    (by decide)
  have text : (Print.expression { width := 4, check := fun _ => .ok () } { level := 0, noIn := false }
      Precedence.sequence calledSequenceTree).map (Phrase.render 4) = .ok "new (a, b)().x()" := rfl
  rw [prints] at text
  exact ⟨stands, phrase, prints, Except.ok.inj text, reads⟩

end Untangle.Reading
