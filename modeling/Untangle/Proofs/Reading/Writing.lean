import Untangle.Proofs.Print.Parts
import Untangle.Proofs.Reading.Parsing

/-!
# Rows that trees are written as

Each kind of tree is printed as a row of glyphs that is put together from the rows of its parts. The
statements leave open what the trees stand for: they speak of the rows alone.

* `Spelled` says that a document is written as a row, and `SpelledText` says so before the place of the
  document is asked for parentheses.
* `SpelledText.above` says what becomes of the row in its place.
* `spelled_binary` and the others give the row of one kind of tree each.
-/

namespace Untangle.Reading

open Print (Precedence Printer Place Doc Phrase)

/-- The tag of an operation: short circuits are told apart from the other operators. -/
def binaryTag (operator : String) : String :=
  if operator = "||" ∨ operator = "&&" then "LogicalExpression" else "BinaryExpression"

theorem binaryTag_ne (operator : String) : binaryTag operator ≠ "Literal" := by
  unfold binaryTag
  split <;> decide

/-! ## Documents -/

section Documents

variable {width : Nat}

theorem chars_append (d e : Doc) : Doc.chars width (d ++ e) = d.chars width ++ e.chars width :=
  List.flatMap_append

theorem chars_text (s : String) : (Doc.text s).chars width = s.toList := by
  simp [Doc.text, Doc.chars, Print.Piece.chars]

/-- Parentheses around text are those around the row. -/
theorem chars_parenthesized {d : Doc} {row : List Glyph} (same : d.chars width = spell row) :
    d.parenthesized.chars width = spell (enclosed row) := by
  simp [Doc.parenthesized, chars_append, chars_text, same, enclosed]

@[simp] theorem chars_operatorToken (operator : String) :
    (operatorToken operator).chars = operator.toList := by
  unfold operatorToken
  split <;> rfl

/-- Documents with commas between them are rows with commas between them. -/
theorem chars_joined {docs : List Doc} {rows : List (List Glyph)}
    (same : docs.map (Doc.chars width) = rows.map spell) :
    (Doc.joined (Doc.text ", ") docs).chars width = spell (separated rows) := by
  induction docs generalizing rows with
  | nil =>
    obtain rfl : rows = [] := by simpa [eq_comm] using same
    rfl
  | cons d docs ih =>
    cases rows with
    | nil => simp at same
    | cons row rows =>
      simp only [List.map_cons, List.cons.injEq] at same
      cases docs with
      | nil =>
        obtain rfl : rows = [] := by simpa [eq_comm] using same.2
        exact same.1
      | cons e docs =>
        cases rows with
        | nil => simp at same
        | cons next rows =>
          simp [Doc.joined, separated, chars_append, chars_text, same.1, ih same.2]

/-- The text of a row starts with a parenthesis just if the row does. -/
theorem startsWith_eq {A : Alphabet} {d : Doc} {row : List Glyph}
    (valid : ∀ t, .token t ∈ row → t.isValid A = true) (chars : d.chars width = spell row) :
    d.startsWith width '(' = opensRow row := by
  rw [Bool.eq_iff_iff, Doc.startsWith, chars, opensRow, beq_iff_eq, beq_iff_eq]
  constructor
  · intro isHead
    obtain ⟨g, first, starts⟩ := head?_spell valid isHead
    cases g with
    | blank => simp at starts
    | token token =>
      have isSign : '(' ∈ signChars := by decide
      obtain isPart | ⟨text, rfl, known, member⟩ :=
        head_of_valid (valid token (List.mem_of_mem_head? first)) starts
      · rw [A.not_part_of_sign isSign] at isPart
        cases isPart
      · have only : ∀ text ∈ signs, '(' ∈ text.toList → text = "(" := by decide
        rw [first, only text known member]
  · intro first
    obtain ⟨more, rfl⟩ := List.head?_eq_some_iff.mp first
    rfl

end Documents

/-! ## What the kinds of trees are written as -/

/-- The answer is a document that is written as the row, for every width. -/
def Spelled (answer : Except Fault Phrase) (row : List Glyph) : Prop :=
  ∃ d, answer = .ok (.doc d) ∧ ∀ width, d.chars width = spell row

/-- The answer is a document that is written as the row, with how tightly it holds together. -/
def SpelledText (answer : Except Fault (Phrase × Precedence)) (own : Precedence) (row : List Glyph) :
    Prop :=
  ∃ d, answer = .ok (.doc d, own) ∧ ∀ width, d.chars width = spell row

section Rows

variable {p : Printer} {place : Place} {v : Value} {fields : Fields}

/-- The printer above puts the text in parentheses where its place asks for that. -/
theorem SpelledText.above {own : Precedence} {row : List Glyph}
    (text : SpelledText (Print.expressionText p place v) own row) (precedence : Precedence) :
    Spelled (p.above.expression place precedence v)
      (if own < precedence || (place.noIn && Print.isInOperation v) then enclosed row else row) := by
  obtain ⟨d, prints, chars⟩ := text
  show Spelled (Print.expressionPhrase p place precedence v) _
  simp only [Spelled, Print.expressionPhrase, prints, ok_bind]
  split
  · exact ⟨d.parenthesized, rfl, fun width => chars_parenthesized (chars width)⟩
  · exact ⟨d, rfl, chars⟩

/-- A phrase that is spelled as the row is shown so. -/
theorem Spelled.shown {precedence : Precedence} {row : List Glyph}
    (spells : Spelled (p.expression place precedence v) row) :
    ∃ d, p.shown place precedence v = .ok d ∧ ∀ width, d.chars width = spell row := by
  obtain ⟨d, prints, chars⟩ := spells
  refine ⟨d, ?_, chars⟩
  rw [Printer.shown, prints]
  rfl

/-- An identifier is spelled as its name. -/
theorem spelled_name {text : String} (found : fields.lookup "name" = some (.str text)) :
    SpelledText (Print.expressionText p place (.tagged "Identifier" fields)) Precedence.primary
      [.token (.word text)] := by
  refine ⟨Doc.text text, ?_, fun width => by simp [chars_text]⟩
  show (Value.tagged "Identifier" fields).field "name" >>= _ = _
  rw [Value.tagged, Value.field_of_lookup found]
  rfl

theorem expressionText_binary (operator : String) (fields : Fields) :
    Print.expressionText p place (.tagged (binaryTag operator) fields) = (do
      let (text, own) ← Print.binaryText p place (.tagged (binaryTag operator) fields)
      return (.doc text, own)) := by
  unfold binaryTag
  split <;> rfl

/-- The operands of an operator are spelled for the precedences on its two sides, with blanks around
the operator. -/
theorem spelled_binary {operator : String} {left right : List Glyph} {a b : Value}
    (known : (Precedence.ofBinary? operator).isSome = true)
    (isOperator : fields.lookup "operator" = some (.str operator))
    (isLeft : fields.lookup "left" = some a)
    (leftSpells : Spelled (p.expression place (leftPrecedence operator) a) left)
    (isRight : fields.lookup "right" = some b)
    (rightSpells : Spelled (p.expression place (rightPrecedence operator) b) right) :
    SpelledText (Print.expressionText p place (.tagged (binaryTag operator) fields))
      ((Precedence.ofBinary? operator).getD Precedence.sequence)
      (left ++ spaced (operatorToken operator) ++ right) := by
  obtain ⟨own, found⟩ := Option.isSome_iff_exists.mp known
  obtain ⟨d, leftPrints, leftChars⟩ := leftSpells.shown
  obtain ⟨e, rightPrints, rightChars⟩ := rightSpells.shown
  have precedence : Print.binaryPrecedence (.str operator) = .ok own := by
    simp [Print.binaryPrecedence, Value.key?, found]
  have leftAsks : (if (Value.str operator).isText "**" then Precedence.update else own) =
      leftPrecedence operator := by
    simp [leftPrecedence, Value.isText, found]
  have rightAsks : (if (Value.str operator).isText "**" then own else own + 1) =
      rightPrecedence operator := by
    simp [rightPrecedence, Value.isText, found]
  refine ⟨d ++ Doc.text " " ++ Doc.text operator ++ Doc.text " " ++ e, ?_, fun width => ?_⟩
  · rw [expressionText_binary]
    simp only [Print.binaryText, Value.tagged, Value.field_of_lookup isOperator, ok_bind, precedence,
      leftAsks, rightAsks, Value.field_of_lookup isLeft, leftPrints, Value.field_of_lookup isRight,
      rightPrints, found]
    rfl
  · simp [spaced, chars_append, chars_text, leftChars, rightChars]

/-- Only the test is spelled more tightly than an assignment. -/
theorem spelled_conditional {test consequent alternate : List Glyph} {a b c : Value}
    (isTest : fields.lookup "test" = some a)
    (testSpells : Spelled (p.expression place Precedence.logicalOr a) test)
    (isConsequent : fields.lookup "consequent" = some b)
    (consequentSpells : Spelled (p.expression place Precedence.assignment b) consequent)
    (isAlternate : fields.lookup "alternate" = some c)
    (alternateSpells : Spelled (p.expression place Precedence.assignment c) alternate) :
    SpelledText (Print.expressionText p place (.tagged "ConditionalExpression" fields))
      Precedence.conditional
      (test ++ spaced (.sign "?") ++ consequent ++ spaced (.sign ":") ++ alternate) := by
  obtain ⟨d, testPrints, testChars⟩ := testSpells.shown
  obtain ⟨e, consequentPrints, consequentChars⟩ := consequentSpells.shown
  obtain ⟨f, alternatePrints, alternateChars⟩ := alternateSpells.shown
  refine ⟨d ++ Doc.text " ? " ++ e ++ Doc.text " : " ++ f, ?_, fun width => ?_⟩
  · show Print.conditionalText p place (.tagged "ConditionalExpression" fields) >>= _ = _
    simp only [Print.conditionalText, Value.tagged, Value.field_of_lookup isTest, testPrints,
      Value.field_of_lookup isConsequent, consequentPrints, Value.field_of_lookup isAlternate,
      alternatePrints, ok_bind]
    rfl
  · simp [spaced, chars_append, chars_text, testChars, consequentChars, alternateChars]

/-- Trees written one by one are rows. -/
theorem mapM_rows {α : Type} {row : α → List Glyph} {f : Value → Except Fault Phrase} {items : List α}
    {values : List Value} (each : List.Forall₂ (fun x v => ∃ d, f v = .ok (.doc d) ∧
      ∀ width, d.chars width = spell (row x)) items values) :
    ∃ docs : List Doc, values.mapM f = .ok (docs.map .doc) ∧
      ∀ width, docs.map (Doc.chars width) = (items.map row).map spell := by
  induction each with
  | nil => exact ⟨[], rfl, fun _ => rfl⟩
  | cons first _ ih =>
    obtain ⟨d, prints, chars⟩ := first
    obtain ⟨docs, printAll, charsAll⟩ := ih
    refine ⟨d :: docs, ?_, fun width => ?_⟩
    · simp [List.mapM_cons, prints, printAll]
    · simp only [List.map_cons, chars, charsAll]

theorem joined_docs (docs : List Doc) :
    Phrase.joined ", " (docs.map .doc) = .ok (Doc.joined (Doc.text ", ") docs) := by
  have glued : (docs.map Phrase.doc).mapM Phrase.glue = .ok docs := by
    induction docs with
    | nil => rfl
    | cons d docs ih => simp [List.mapM_cons, Phrase.glue, ih]
  rw [Phrase.joined, glued]
  rfl

section Lists

variable {α : Type} {row : α → List Glyph} {items : List α} {values : List Value}

/-- The members of a list are spelled one by one, with commas between them. -/
theorem spelled_commaList
    (each : List.Forall₂ (fun x v => Spelled (p.expression place Precedence.assignment v) (row x))
      items values) :
    ∃ d, p.commaList place (.seq values) = .ok d ∧
      ∀ width, d.chars width = spell (separated (items.map row)) := by
  obtain ⟨docs, prints, chars⟩ := mapM_rows each
  refine ⟨Doc.joined (Doc.text ", ") docs, ?_, fun width => chars_joined (chars width)⟩
  show values.mapM (p.expression place Precedence.assignment) >>= _ = _
  rw [prints, ok_bind, joined_docs]

theorem spelled_sequence (found : fields.lookup "expressions" = some (.seq values))
    (each : List.Forall₂ (fun x v => Spelled (p.expression place Precedence.assignment v) (row x))
      items values) :
    SpelledText (Print.expressionText p place (.tagged "SequenceExpression" fields))
      Precedence.sequence (separated (items.map row)) := by
  obtain ⟨d, prints, chars⟩ := spelled_commaList each
  refine ⟨d, ?_, chars⟩
  show (Value.tagged "SequenceExpression" fields).field "expressions" >>= _ = _
  rw [Value.tagged, Value.field_of_lookup found, ok_bind, prints]
  rfl

/-- Calls and constructions spell their arguments alike. -/
theorem spelled_arguments (tag : String) (found : fields.lookup "arguments" = some (.seq values))
    (each : List.Forall₂ (fun x v => Spelled (p.expression place Precedence.assignment v) (row x))
      items values) :
    ∃ d, Print.argumentsText p place (.tagged tag fields) = .ok d ∧
      ∀ width, d.chars width = spell (enclosed (separated (items.map row))) := by
  obtain ⟨d, prints, chars⟩ := spelled_commaList each
  refine ⟨d.parenthesized, ?_, fun width => chars_parenthesized (chars width)⟩
  simp only [Print.argumentsText, Value.tagged, Value.field_of_lookup found, prints, ok_bind]
  rfl

theorem spelled_call {callee : List Glyph} {a : Value} (isCallee : fields.lookup "callee" = some a)
    (calleeSpells : Spelled (p.expression place Precedence.call a) callee)
    (found : fields.lookup "arguments" = some (.seq values))
    (each : List.Forall₂ (fun x v => Spelled (p.expression place Precedence.assignment v) (row x))
      items values) :
    SpelledText (Print.expressionText p place (.tagged "CallExpression" fields)) Precedence.call
      (callee ++ enclosed (separated (items.map row))) := by
  obtain ⟨d, calleePrints, calleeChars⟩ := calleeSpells
  obtain ⟨e, prints, chars⟩ := spelled_arguments "CallExpression" found each
  refine ⟨d ++ e, ?_, fun width => by rw [chars_append, calleeChars, chars, spell_append]⟩
  show Print.callText p place (.tagged "CallExpression" fields) >>= _ = _
  have isField : (Value.tagged "CallExpression" fields).field "callee" = .ok a :=
    Value.field_of_lookup isCallee
  simp only [Print.callText, isField, calleePrints, prints, ok_bind]
  rfl

/-- The printer asks the tree of the callee for a call and its text for a parenthesis. -/
theorem spelled_construct {A : Alphabet} {callee : List Glyph} {a : Value} {isCall : Bool}
    (isCallee : fields.lookup "callee" = some a) (calls : Print.isChainOfCall a = .ok isCall)
    (calleeSpells : Spelled (p.expression place Precedence.construction a) callee)
    (valid : ∀ t, .token t ∈ callee → t.isValid A = true)
    (found : fields.lookup "arguments" = some (.seq values))
    (each : List.Forall₂ (fun x v => Spelled (p.expression place Precedence.assignment v) (row x))
      items values) :
    SpelledText (Print.expressionText p place (.tagged "NewExpression" fields)) Precedence.construction
      (.token (.word "new") :: [.blank] ++
        ((if isCall && !opensRow callee then enclosed callee else callee) ++
          enclosed (separated (items.map row)))) := by
  obtain ⟨d, prints, chars⟩ := calleeSpells
  obtain ⟨e, argumentsPrint, argumentChars⟩ := spelled_arguments "NewExpression" found each
  have isField : (Value.tagged "NewExpression" fields).field "callee" = .ok a :=
    Value.field_of_lookup isCallee
  have opens := startsWith_eq valid (chars p.width)
  obtain ⟨f, text, calleeChars⟩ : ∃ f,
      Print.newText p place (.tagged "NewExpression" fields) = .ok (Doc.text "new " ++ f ++ e) ∧
      ∀ width, f.chars width =
        spell (if isCall && !opensRow callee then enclosed callee else callee) := by
    simp only [Print.newText, isField, prints, ok_bind, calls, argumentsPrint, ← opens]
    cases isCall with
    | false => exact ⟨d, rfl, chars⟩
    | true =>
      cases starts : d.startsWith p.width '(' with
      | true => exact ⟨d, by simp [Phrase.inspect, starts], chars⟩
      | false =>
        exact ⟨d.parenthesized, by simp [Phrase.inspect, starts],
          fun width => chars_parenthesized (chars width)⟩
  refine ⟨Doc.text "new " ++ f ++ e, ?_, fun width => ?_⟩
  · show Print.newText p place (.tagged "NewExpression" fields) >>= _ = _
    rw [text]
    rfl
  · simp [chars_append, chars_text, calleeChars, argumentChars]

end Lists

/-- Only literals are numbers before a dot. -/
theorem isAllDigits_other {tag : String} {width : Nat} {phrase : Phrase} (other : tag ≠ "Literal") :
    Print.isAllDigits width (.tagged tag fields) phrase = .ok false := by
  have notLiteral : (Value.tagged tag fields).isTagged "Literal" = .ok false := by
    simp [Value.isTagged, Value.isText, other]
  simp [Print.isAllDigits, notLiteral]

/-- A member by name; an object that is all digits is put in parentheses. -/
theorem spelled_dot {object : List Glyph} {a computed : Value} {property : Fields} {text : String}
    {isNumber : Bool} (isObject : fields.lookup "object" = some a)
    (spells : Spelled (p.expression place Precedence.call a) object)
    (digits : ∀ d : Doc, d.chars p.width = spell object →
      Print.isAllDigits p.width a (.doc d) = .ok isNumber)
    (isComputed : fields.lookup "computed" = some computed) (plain : computed.truthy = false)
    (isProperty : fields.lookup "property" = some (.tagged "Identifier" property))
    (isName : property.lookup "name" = some (.str text)) :
    SpelledText (Print.expressionText p place (.tagged "MemberExpression" fields)) Precedence.member
      ((if isNumber then enclosed object else object) ++
        [.token (.sign "."), .token (.word text)]) := by
  obtain ⟨d, prints, chars⟩ := spells
  have objectChars (width : Nat) : Doc.chars width (if isNumber then d.parenthesized else d) =
      spell (if isNumber then enclosed object else object) := by
    split
    · exact chars_parenthesized (chars width)
    · exact chars width
  refine ⟨(if isNumber then d.parenthesized else d) ++ Doc.text "." ++ Doc.text text, ?_,
    fun width => ?_⟩
  · show Print.memberText p place (.tagged "MemberExpression" fields) >>= _ = _
    simp only [Print.memberText, Value.tagged, Value.field_of_lookup isObject, prints, ok_bind,
      digits d (chars p.width), Value.field_of_lookup isComputed, plain, Value.field_of_lookup isProperty,
      Value.field_of_lookup isName]
    cases isNumber <;> rfl
  · simp [chars_append, chars_text, objectChars]

/-- A key in brackets is spelled without regard to what stands around it. -/
theorem spelled_index {object key : List Glyph} {a b computed : Value} {isNumber : Bool}
    (isObject : fields.lookup "object" = some a)
    (spells : Spelled (p.expression place Precedence.call a) object)
    (digits : ∀ d : Doc, d.chars p.width = spell object →
      Print.isAllDigits p.width a (.doc d) = .ok isNumber)
    (isComputed : fields.lookup "computed" = some computed) (truth : computed.truthy = true)
    (isProperty : fields.lookup "property" = some b)
    (keySpells : Spelled (p.expression place Precedence.sequence b) key) :
    SpelledText (Print.expressionText p place (.tagged "MemberExpression" fields)) Precedence.member
      (object ++ bracketed key) := by
  obtain ⟨d, prints, chars⟩ := spells
  obtain ⟨e, keyPrints, keyChars⟩ := keySpells.shown
  refine ⟨d ++ Doc.text "[" ++ e ++ Doc.text "]", ?_, fun width => ?_⟩
  · show Print.memberText p place (.tagged "MemberExpression" fields) >>= _ = _
    simp only [Print.memberText, Value.tagged, Value.field_of_lookup isObject, prints, ok_bind,
      digits d (chars p.width), Value.field_of_lookup isComputed, truth, Value.field_of_lookup isProperty,
      keyPrints]
    cases isNumber <;> rfl
  · simp [chars_append, chars_text, bracketed, chars, keyChars]

theorem isInOperation_other {tag : String} {fields : Fields} (other : tag ≠ "BinaryExpression") :
    Print.isInOperation (.tagged tag fields) = false := by
  unfold Print.isInOperation
  split
  case h_1 same => simp_all [Value.tagged]
  case h_2 => rfl

/-- Whether a chain has a call in it is asked of the object of a member. -/
theorem isChainOfCall_member {a : Value} (isObject : fields.lookup "object" = some a) :
    Print.isChainOfCall (.tagged "MemberExpression" fields) = Print.isChainOfCall a := by
  simp [Print.isChainOfCall, Value.descend, Print.chainField, Value.isText,
    Value.descendInto_eq, isObject]

/-- The base of a chain says whether it is a call. -/
theorem isChainOfCall_other {tag : String} (notMember : tag ≠ "MemberExpression")
    (notTemplate : tag ≠ "TaggedTemplateExpression") :
    Print.isChainOfCall (.tagged tag fields) = .ok (tag == "CallExpression") := by
  simp [Print.isChainOfCall, Value.descend, Print.chainField, Value.isText, notMember,
    notTemplate, Value.hasTag]

/-! ## Parts of trees -/

/-- A field is less deep than its node. -/
theorem depth_of_field {tag name : String} {fields : Fields} {depth : Nat}
    (reached : (Value.tagged tag fields).depth ≤ depth + 1) (found : fields.lookup name = some v) :
    v.depth ≤ depth := by
  have smaller := Print.depth_le_of_lookup found
  simp only [Value.depth] at reached
  omega

/-- A member of a field is less deep than the node. -/
theorem depth_of_member {tag name : String} {fields : Fields} {values : List Value} {depth : Nat}
    (reached : (Value.tagged tag fields).depth ≤ depth + 1)
    (found : fields.lookup name = some (.seq values)) (member : v ∈ values) : v.depth ≤ depth := by
  have inner := depth_of_field reached found
  have smaller := Print.depth_le_of_mem_items member
  simp only [Value.depth] at inner
  omega

end Rows

end Untangle.Reading
