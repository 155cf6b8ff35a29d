import Untangle.Proofs.Print.Parts

/-!
# Printing expressions

Given a printer for the parts of a node, the text of every well-formed expression is laid out, unless
a line in it cannot be indented. Each kind of node is one lemma: its fields are read in the order in
which its text reads them.

* `functionText_answers`, `property_gives` and `classText_answers` are about what expressions and
  statements share.
* `expressionText_gives` collects the kinds of expressions.
-/

namespace Untangle.Print

open Syntax Reshape

/-! ## Functions, properties and classes -/

section Functions

variable {E : Fault → Prop} {p : Printer} {depth : Nat} {bound level : Int} {tag : String}
  {fields : Fields} {place : Place}

/-- The name of an identifier is a text, so it can be glued to what stands before it. -/
theorem gluedName_answers {v : Value} (part : Part depth bound level ["Identifier"] v) :
    Answers E (gluedName v) := by
  refine part.nameText.bind fun name isText => ?_
  obtain ⟨s, rfl⟩ := isText
  trivial

/-- Parameters and body, which functions, methods and accessors have in common. -/
theorem functionTail_answers (prints : Prints E p depth bound)
    (node : Standing depth bound level tag fields) (declared : fieldsOf tag = functionFields)
    (near : Near level place.level) : Answers E (functionTail p place (.tagged tag fields)) := by
  refine (node.many (by rw [declared]; rfl)).bind fun params isSeq => ?_
  obtain ⟨items, rfl, each, inside⟩ := isSeq
  refine (prints.commaList each inside near).bind fun _ _ => ?_
  refine (node.one (by rw [declared]; rfl)).bind fun body part => ?_
  exact (prints.inner part.fit part.inside near).bind fun _ _ => trivial

/-- A function with its keyword and a name, if it has one. -/
theorem functionText_answers (prints : Prints E p depth bound)
    (node : Standing depth bound level tag fields) (declared : fieldsOf tag = functionFields)
    (near : Near level place.level) : Answers E (functionText p place (.tagged tag fields)) := by
  refine (node.opt (by rw [declared]; rfl)).bind fun name part => ?_
  have keyword : Answers E (functionKeyword (.tagged tag fields)) := trivial
  refine keyword.bind fun _ _ => ?_
  have tail := functionTail_answers prints node declared near
  cases name with
  | none => exact tail.bind fun _ _ => trivial
  | some name => exact (gluedName_answers (part name rfl)).bind fun _ _ => tail.bind fun _ _ => trivial

/-- A key is printed in brackets if it is computed, and on its own otherwise. -/
theorem propertyKey_gives (prints : Prints E p depth bound)
    (node : Standing depth bound level tag fields)
    (declared : (fieldsOf tag).lookup "key" = some Syntax.expression) (near : Near level place.level) :
    Gives E Phrase.IsDoc (propertyKey p place (.tagged tag fields)) := by
  refine (flag_gives tag "computed" fields).bind fun computed _ => ?_
  cases computed with
  | true =>
    refine (node.one declared).bind fun key part => ?_
    exact (prints.shown _ part.fit part.inside near).bind fun _ _ => ⟨_, rfl⟩
  | false =>
    refine (node.one declared).bind fun key part => ?_
    exact prints.phrase _ part.fit part.inside near

theorem methodMarks_part {v : Value} {tags : List String} (part : Part depth bound level tags v) :
    Answers E (methodMarks v) := by
  obtain ⟨tag, fields, rfl, -⟩ := part.standing
  trivial

/-- Only a getter or a setter has an accessor kind. -/
theorem accessorKind_gives (tag : String) (fields : Fields) :
    Gives E (fun kind => kind.isSome = true → isMethod fields = true)
      (accessorKind (.tagged tag fields)) := by
  simp only [accessorKind, Value.optional]
  cases found : fields.lookup "kind" with
  | none => simp [Gives]
  | some v =>
    have known : ∀ kind, v = .str kind → kind = "get" ∨ kind = "set" → isMethod fields = true := by
      rintro kind rfl (rfl | rfl) <;> simp [isMethod, found, Value.isText]
    cases v with
    | str kind =>
      simp only [ok_bind]
      split
      · exact fun _ => known _ rfl (Or.inl (by simp_all))
      · exact fun _ => known _ rfl (Or.inr (by simp_all))
      · simp [Gives]
    | _ => simp [Gives]

/-- The value of a method is a function. -/
theorem Standing.method (node : Standing depth bound level "Property" fields)
    (isMethod : isMethod fields = true) :
    Gives E (Part depth bound level ["FunctionExpression"])
      ((Value.tagged "Property" fields).field "value") := by
  have shaped := node.formed.shaped
  obtain ⟨v, found, fit⟩ := node.formed.required
    (show (fieldsOf "Property").lookup "value" = some Syntax.expression from rfl) rfl
  obtain ⟨tag, inner, rfl, admitted, formed⟩ := fits_one.mp fit
  rw [Value.tagged, Value.field_of_lookup found]
  refine ⟨fits_node.mpr ⟨?_, formed⟩, node.roomy found⟩
  exact List.mem_singleton.mpr (by simpa [isShaped, isMethod, holdsTag, found] using shaped)

/-- The value of a method is a function, printed without its keyword. -/
theorem functionPart_answers (prints : Prints E p depth bound) {v : Value}
    (part : Part depth bound level ["FunctionExpression"] v) (near : Near level place.level) :
    Answers E (functionTail p place v) := by
  obtain ⟨tag, fields, rfl, isFunction, node⟩ := part.standing
  obtain rfl := List.mem_singleton.mp isFunction
  exact functionTail_answers prints node rfl near

/-- A method of a class: its marks, the kind of accessor, its key, and its function. -/
theorem method_answers (prints : Prints E p depth bound)
    (node : Standing depth bound level "MethodDefinition" fields) (near : Near level place.level) :
    Answers E (method p place (.tagged "MethodDefinition" fields)) := by
  refine (flag_gives _ "static" fields).bind fun _ _ => ?_
  refine (propertyKey_gives prints node rfl near).bind fun key isDoc => ?_
  obtain ⟨keyText, rfl⟩ := isDoc
  refine (accessorKind_gives _ fields).bind fun kind _ => ?_
  cases kind with
  | some kind =>
    refine Gives.next (Gives.next ((node.one rfl).bind fun value part => ?_))
    exact (functionPart_answers prints part near).bind fun _ _ => trivial
  | none =>
    refine (node.one rfl).bind fun value part => ?_
    refine (methodMarks_part part).bind fun _ _ => Gives.next ((node.one rfl).bind fun value part => ?_)
    exact (functionPart_answers prints part near).bind fun _ _ => trivial

/-- A property of an object is a spread, a method, an accessor, a shorthand, or a key with a value.
Each reads other fields, so the cases are those of the tag and the flags. -/
theorem property_gives (prints : Prints E p depth bound) {v : Value}
    (part : Part depth bound level ["Property", "SpreadElement", "RestElement"] v)
    (near : Near level place.level) : Gives E Phrase.IsDoc (property p place v) := by
  obtain ⟨tag, fields, rfl, admitted, node⟩ := part.standing
  by_cases isProperty : tag = "Property"
  · subst isProperty
    refine Gives.next ((propertyKey_gives prints node rfl near).bind fun key isDoc => ?_)
    obtain ⟨keyText, rfl⟩ := isDoc
    refine (accessorKind_gives _ fields).bind fun kind accessor => ?_
    cases kind with
    | some kind =>
      refine (node.method (accessor rfl)).bind fun value part => ?_
      exact (functionPart_answers prints part near).bind fun _ _ => ⟨_, rfl⟩
    | none =>
      refine (flag_gives _ "method" fields).bind fun method isSet => ?_
      cases method with
      | true =>
        have isMethod : isMethod fields = true := by simp [isMethod, ← isSet]
        refine (node.method isMethod).bind fun value part => (methodMarks_part part).bind fun _ _ => ?_
        refine Gives.next ((node.method isMethod).bind fun value part => ?_)
        exact (functionPart_answers prints part near).bind fun _ _ => ⟨_, rfl⟩
      | false =>
        refine (flag_gives _ "shorthand" fields).bind fun shorthand _ => ?_
        cases shorthand with
        | true => exact (node.one rfl).bind fun value part => prints.phrase _ part.fit part.inside near
        | false =>
          refine (node.one rfl).bind fun value part => ?_
          exact (prints.shown _ part.fit part.inside near).bind fun _ _ => ⟨_, rfl⟩
  · have other : (Value.tagged tag fields).isTagged "Property" = .ok false := by simp [isProperty]
    have isExpression : tag ∈ expressionTags := by
      simp only [List.mem_cons, List.not_mem_nil, or_false, isProperty, false_or] at admitted
      rcases admitted with rfl | rfl <;> decide
    simp only [property, other, ok_bind]
    exact prints.phrase _ (fits_node.mpr ⟨isExpression, node.formed⟩) part.inside near

/-- The blank after `class` stands only before a name. -/
theorem className_answers (node : Standing depth bound level tag fields)
    (declared : fieldsOf tag = classFields) : Answers E (className (.tagged tag fields)) := by
  refine (node.opt (by rw [declared]; rfl)).bind fun name part => ?_
  cases name with
  | none => trivial
  | some name => exact (gluedName_answers (part name rfl)).bind fun _ _ => trivial

/-- A class extends an expression or nothing. -/
theorem classParent_answers (prints : Prints E p depth bound)
    (node : Standing depth bound level tag fields) (declared : fieldsOf tag = classFields)
    (near : Near level place.level) : Answers E (classParent p place (.tagged tag fields)) := by
  refine (node.opt (by rw [declared]; rfl)).bind fun parent part => ?_
  cases parent with
  | none => trivial
  | some parent =>
    have isExpression := part parent rfl
    exact (prints.glued _ isExpression.fit isExpression.inside near).bind fun _ _ => trivial

/-- The body of a class is a node of its own, so the methods are two nodes below the class. -/
theorem classBody_answers (prints : Prints E p depth bound)
    (node : Standing depth bound place.level tag fields) (declared : fieldsOf tag = classFields) :
    Answers E (classBody p place (.tagged tag fields)) := by
  refine (node.one (by rw [declared]; rfl)).bind fun body part => ?_
  obtain ⟨bodyTag, bodyFields, rfl, isBody, bodyNode⟩ := part.standing
  obtain rfl := List.mem_singleton.mp isBody
  refine (bodyNode.many rfl).bind fun methods isSeq => ?_
  obtain ⟨items, rfl, each, inside⟩ := isSeq
  split
  · trivial
  · refine Gives.next (Gives.bind (Gives.mapM (Q := fun _ => True) fun m member => ?_) fun _ _ => ?_)
    · have methodPart : Part depth bound place.level _ m := ⟨each m member, inside.item member⟩
      obtain ⟨methodTag, methodFields, rfl, isMethod, methodNode⟩ := methodPart.standing
      obtain rfl := List.mem_singleton.mp isMethod
      refine (prints.indent node.within Near.deeper).bind fun _ _ => ?_
      exact (method_answers prints methodNode Near.deeper).bind fun _ _ => trivial
    · exact (prints.line node.within Near.here).bind fun _ _ => trivial

theorem classText_answers (prints : Prints E p depth bound)
    (node : Standing depth bound place.level tag fields) (declared : fieldsOf tag = classFields) :
    Answers E (classText p place (.tagged tag fields)) := by
  refine (className_answers node declared).bind fun _ _ => ?_
  refine (classParent_answers prints node declared Near.here).bind fun _ _ => ?_
  exact (classBody_answers prints node declared).bind fun _ _ => trivial

end Functions

/-! ## Expressions -/

section Expressions

variable {E : Fault → Prop} {p : Printer} {depth : Nat} {bound level : Int} {tag : String}
  {fields : Fields} {place : Place}

/-- A hole in an array is a comma without a text before it; nothing is printed for it. -/
theorem arrayText_answers (prints : Prints E p depth bound)
    (node : Standing depth bound level tag fields)
    (declared : (fieldsOf tag).lookup "elements" = some (.holes expressionTags))
    (near : Near level place.level) : Answers E (arrayText p place (.tagged tag fields)) := by
  obtain ⟨v, found, fit⟩ := node.formed.required declared rfl
  obtain ⟨items, rfl, each⟩ := fits_holes.mp fit
  have inside := node.roomy found
  simp only [arrayText, Value.field_of_lookup found, Value.items, ok_bind]
  refine Gives.bind (Gives.mapM (Q := Phrase.IsDoc) fun item member => ?_) fun phrases docs => ?_
  · rcases fits_maybe.mp (each item member) with rfl | itemFits
    · exact ⟨[], rfl⟩
    · obtain ⟨_, _, rfl, -⟩ := fits_one.mp itemFits
      exact prints.phrase _ itemFits (inside.item member) near
  · refine (joined_answers ", " fun phrase member => ?_).bind fun _ _ => trivial
    split at member
    · rcases List.mem_append.mp member with early | isLast
      · exact docs phrase early
      · exact ⟨[], List.mem_singleton.mp isLast⟩
    · exact docs phrase member

/-- An object with properties takes a line for each of them, one without is a pair of braces. -/
theorem objectText_answers (prints : Prints E p depth bound)
    (node : Standing depth bound place.level "ObjectExpression" fields) :
    Answers E (objectText p place (.tagged "ObjectExpression" fields)) := by
  refine (node.many rfl).bind fun properties isSeq => ?_
  obtain ⟨items, rfl, each, inside⟩ := isSeq
  split
  · trivial
  · refine (prints.line node.within Near.deeper).bind fun line _ => Gives.next ?_
    refine Gives.bind (Gives.mapM (Q := Phrase.IsDoc) fun item member => ?_) fun phrases docs => ?_
    · exact property_gives prints ⟨fits_mono (each item member) (by decide), inside.item member⟩
        Near.deeper
    · refine Gives.bind (Gives.mapM (Q := fun _ => True) fun phrase member => ?_) fun _ _ => ?_
      · obtain ⟨d, rfl⟩ := docs phrase member
        trivial
      · exact (prints.line node.within Near.here).bind fun _ _ => trivial

theorem objectPatternText_answers (prints : Prints E p depth bound)
    (node : Standing depth bound level "ObjectPattern" fields) (near : Near level place.level) :
    Answers E (objectPatternText p place (.tagged "ObjectPattern" fields)) := by
  refine (node.many rfl).bind fun properties isSeq => ?_
  obtain ⟨items, rfl, each, inside⟩ := isSeq
  refine Gives.next (Gives.bind (Gives.mapM (Q := Phrase.IsDoc) fun item member => ?_)
    fun phrases docs => ?_)
  · exact property_gives prints ⟨fits_mono (each item member) (by decide), inside.item member⟩ near
  · exact (joined_answers _ docs).bind fun _ _ => trivial

/-- The body of an arrow function is a block or an expression, and an expression that starts with a
brace is put in parentheses. -/
theorem arrowText_answers (prints : Prints E p depth bound)
    (node : Standing depth bound level "ArrowFunctionExpression" fields)
    (near : Near level place.level) :
    Answers E (arrowText p place (.tagged "ArrowFunctionExpression" fields)) := by
  refine (flag_gives _ "async" fields).bind fun _ _ => ?_
  refine (node.many rfl).bind fun params isSeq => ?_
  obtain ⟨items, rfl, each, inside⟩ := isSeq
  refine (prints.commaList each inside near).bind fun _ _ => ?_
  refine (node.one rfl).bind fun body part => ?_
  obtain ⟨bodyTag, bodyFields, rfl, admitted, formed⟩ := fits_one.mp part.fit
  by_cases isBlock : bodyTag = "BlockStatement"
  · subst isBlock
    refine Gives.next ((prints.inner (fits_node.mpr ⟨by decide, formed⟩) part.inside near).bind ?_)
    exact fun _ _ => trivial
  · have other : (Value.tagged bodyTag bodyFields).isTagged "BlockStatement" = .ok false := by
      simp [isBlock]
    have isExpression : fits Syntax.expression (.tagged bodyTag bodyFields) = true :=
      fits_node.mpr ⟨(List.mem_cons.mp admitted).resolve_left isBlock, formed⟩
    simp only [other, ok_bind]
    refine (prints.phrase _ isExpression part.inside near).bind fun phrase isDoc => ?_
    obtain ⟨d, rfl⟩ := isDoc
    trivial

/-- A chunk of a template is spelled by a text. -/
theorem templateElement_raw (formed : Formed "TemplateElement" fields) :
    ∃ entries raw, fields.lookup "value" = some (.object entries) ∧
      entries.lookup "raw" = some (.str raw) := by
  have shaped := formed.shaped
  simp only [isShaped] at shaped
  split at shaped
  · rename_i entries found
    split at shaped
    · rename_i raw rawIs
      exact ⟨entries, raw, found, rawIs⟩
    · cases shaped
  · cases shaped

/-- By induction on the chunks: a chunk is followed by the expression with its index, if there are
that many. -/
theorem templateParts_gives (prints : Prints E p depth bound) {expressions : List Value}
    (each : ∀ e ∈ expressions, fits Syntax.expression e = true)
    (inside : Inside depth bound level (.seq expressions)) (near : Near level place.level) :
    ∀ (index : Nat) (chunks : List Value), (∀ c ∈ chunks, fits (.one ["TemplateElement"]) c = true) →
      Gives E (∀ phrase ∈ ·, phrase.IsDoc) (templateParts p place (.seq expressions) index chunks)
  | _, [], _ => by simp [templateParts, Gives]
  | index, chunk :: rest, fit => by
    obtain ⟨tag, fields, rfl, isElement, formed⟩ := fits_one.mp (fit chunk (by simp))
    obtain rfl := List.mem_singleton.mp isElement
    obtain ⟨entries, raw, entriesAre, rawIs⟩ := templateElement_raw formed
    -- The spelling and what is inserted after it are texts, and so is the rest.
    have rest : ∀ inserted : List Phrase, (∀ phrase ∈ inserted, phrase.IsDoc) →
        Gives E (∀ phrase ∈ ·, phrase.IsDoc)
          (templateParts p place (.seq expressions) (index + 1) rest >>= fun later =>
            .ok (Phrase.ofValue (.str raw) :: inserted ++ later)) := by
      intro inserted docs
      refine (templateParts_gives prints each inside near (index + 1) rest
        fun c member => fit c (by simp [member])).bind fun later laterDocs => ?_
      intro phrase member
      rcases List.mem_append.mp member with early | isLater
      · rcases List.mem_cons.mp early with rfl | isInserted
        · exact ⟨_, rfl⟩
        · exact docs phrase isInserted
      · exact laterDocs phrase isLater
    simp only [templateParts, Value.field_of_lookup entriesAre, entry, rawIs, memberAt, Value.items,
      ok_bind, pure_ok]
    cases atIndex : expressions[index]? with
    | none => exact rest [] (by simp)
    | some e =>
      have isMember := List.mem_of_getElem? atIndex
      refine (prints.glued _ (each e isMember) (inside.item isMember) near).bind fun _ _ => ?_
      exact rest [_] fun phrase isText => ⟨_, List.mem_singleton.mp isText⟩

theorem templateText_answers (prints : Prints E p depth bound)
    (node : Standing depth bound level "TemplateLiteral" fields) (near : Near level place.level) :
    Answers E (templateText p place (.tagged "TemplateLiteral" fields)) := by
  refine (node.many rfl).bind fun expressions isSeq => ?_
  obtain ⟨items, rfl, each, inside⟩ := isSeq
  refine (node.many rfl).bind fun quasis isSeq => ?_
  obtain ⟨chunks, rfl, eachChunk, -⟩ := isSeq
  refine Gives.next ((templateParts_gives prints each inside near 0 chunks eachChunk).bind ?_)
  exact fun parts docs => (joined_answers "" docs).bind fun _ _ => trivial

/-- The template is printed as an expression, next to its tag. -/
theorem taggedTemplateText_answers (prints : Prints E p depth bound)
    (node : Standing depth bound level "TaggedTemplateExpression" fields)
    (near : Near level place.level) :
    Answers E (taggedTemplateText p place (.tagged "TaggedTemplateExpression" fields)) := by
  refine (node.one rfl).bind fun callee part => ?_
  refine (prints.phrase _ part.fit part.inside near).bind fun phrase isDoc => ?_
  obtain ⟨d, rfl⟩ := isDoc
  refine (node.one rfl).bind fun quasi quasiPart => ?_
  obtain ⟨tag, inner, rfl, isTemplate, template⟩ := quasiPart.standing
  obtain rfl := List.mem_singleton.mp isTemplate
  exact (templateText_answers prints template near).bind fun _ _ => trivial

/-- Between the operator and the operand stands a blank if the operator is a word or the operand
starts with the same sign. -/
theorem unaryText_gives (prints : Prints E p depth bound)
    (node : Standing depth bound level "UnaryExpression" fields) (near : Near level place.level) :
    Gives E Phrase.IsDoc (unaryText p place (.tagged "UnaryExpression" fields)) := by
  refine (node.text rfl).bind fun operator isText => ?_
  obtain ⟨word, rfl⟩ := isText
  refine (node.one rfl).bind fun argument part => ?_
  refine (prints.phrase _ part.fit part.inside near).bind fun phrase isDoc => ?_
  obtain ⟨d, rfl⟩ := isDoc
  simp only [Value.key?, Phrase.ofValue, Phrase.plus, Phrase.inspect, ok_bind]
  split
  · exact ⟨_, rfl⟩
  · split
    · split <;> exact ⟨_, rfl⟩
    · exact ⟨_, rfl⟩

/-- The operator stands before or behind the operand, and the two have different precedences. -/
theorem updateText_gives (prints : Prints E p depth bound)
    (node : Standing depth bound level "UpdateExpression" fields) (near : Near level place.level) :
    Gives E (fun result => result.1.IsDoc)
      (updateText p place (.tagged "UpdateExpression" fields)) := by
  refine (node.bare rfl).bind fun isPrefix _ => ?_
  split
  · refine (node.text rfl).bind fun operator isText => ?_
    obtain ⟨sign, rfl⟩ := isText
    refine (node.one rfl).bind fun argument part => ?_
    refine (prints.phrase _ part.fit part.inside near).bind fun phrase isDoc => ?_
    obtain ⟨d, rfl⟩ := isDoc
    exact ⟨_, rfl⟩
  · refine (node.one rfl).bind fun argument part => ?_
    refine (prints.phrase _ part.fit part.inside near).bind fun phrase isDoc => ?_
    obtain ⟨d, rfl⟩ := isDoc
    refine (node.text rfl).bind fun operator isText => ?_
    obtain ⟨sign, rfl⟩ := isText
    exact ⟨_, rfl⟩

/-- The operator between two operands has a precedence. -/
theorem binaryPrecedence_answers (hasOperator : hasBinaryOperator fields = true) :
    ∃ operator precedence, fields.lookup "operator" = some operator ∧
      binaryPrecedence operator = .ok precedence := by
  unfold hasBinaryOperator at hasOperator
  split at hasOperator
  · rename_i operator found
    obtain ⟨precedence, known⟩ := Option.isSome_iff_exists.mp hasOperator
    exact ⟨_, precedence, found, by simp [binaryPrecedence, Value.key?, known]⟩
  · cases hasOperator

/-- Both operands are printed against the precedence of the operator, which a well-formed operation
has. -/
theorem binaryText_answers (prints : Prints E p depth bound)
    (node : Standing depth bound level tag fields) (declared : fieldsOf tag = operandFields)
    (hasOperator : hasBinaryOperator fields = true) (near : Near level place.level) :
    Answers E (binaryText p place (.tagged tag fields)) := by
  obtain ⟨operator, precedence, found, known⟩ := binaryPrecedence_answers hasOperator
  simp only [binaryText, Value.field_of_lookup found, known, ok_bind]
  refine (node.one (by rw [declared]; rfl)).bind fun left leftPart => ?_
  refine (prints.shown _ leftPart.fit leftPart.inside near).bind fun _ _ => ?_
  refine (node.one (by rw [declared]; rfl)).bind fun right rightPart => ?_
  exact (prints.shown _ rightPart.fit rightPart.inside near).bind fun _ _ => trivial

theorem assignmentText_answers (prints : Prints E p depth bound)
    (node : Standing depth bound level "AssignmentExpression" fields)
    (near : Near level place.level) :
    Answers E (assignmentText p place (.tagged "AssignmentExpression" fields)) := by
  refine (node.one rfl).bind fun left leftPart => ?_
  refine (prints.shown _ leftPart.fit leftPart.inside near).bind fun _ _ => ?_
  refine (node.one rfl).bind fun right rightPart => ?_
  refine (prints.shown _ rightPart.fit rightPart.inside near).bind fun _ _ => ?_
  exact (node.text rfl).bind fun _ _ => trivial

theorem assignmentPatternText_answers (prints : Prints E p depth bound)
    (node : Standing depth bound level "AssignmentPattern" fields) (near : Near level place.level) :
    Answers E (assignmentPatternText p place (.tagged "AssignmentPattern" fields)) := by
  refine (node.one rfl).bind fun left leftPart => ?_
  refine (prints.shown _ leftPart.fit leftPart.inside near).bind fun _ _ => ?_
  refine (node.one rfl).bind fun right rightPart => ?_
  exact (prints.shown _ rightPart.fit rightPart.inside near).bind fun _ _ => trivial

theorem conditionalText_answers (prints : Prints E p depth bound)
    (node : Standing depth bound level "ConditionalExpression" fields)
    (near : Near level place.level) :
    Answers E (conditionalText p place (.tagged "ConditionalExpression" fields)) := by
  refine (node.one rfl).bind fun test testPart => ?_
  refine (prints.shown _ testPart.fit testPart.inside near).bind fun _ _ => ?_
  refine (node.one rfl).bind fun yes yesPart => ?_
  refine (prints.shown _ yesPart.fit yesPart.inside near).bind fun _ _ => ?_
  refine (node.one rfl).bind fun no noPart => ?_
  exact (prints.shown _ noPart.fit noPart.inside near).bind fun _ _ => trivial

/-- The arguments of a call and of a construction. -/
theorem argumentsText_answers (prints : Prints E p depth bound)
    (node : Standing depth bound level tag fields)
    (declared : (fieldsOf tag).lookup "arguments" = some (.many expressionTags))
    (near : Near level place.level) : Answers E (argumentsText p place (.tagged tag fields)) := by
  refine (node.many declared).bind fun arguments isSeq => ?_
  obtain ⟨items, rfl, each, inside⟩ := isSeq
  exact (prints.commaList each inside near).bind fun _ _ => trivial

theorem callText_answers (prints : Prints E p depth bound)
    (node : Standing depth bound level "CallExpression" fields) (near : Near level place.level) :
    Answers E (callText p place (.tagged "CallExpression" fields)) := by
  refine (node.one rfl).bind fun callee part => ?_
  refine (prints.phrase _ part.fit part.inside near).bind fun phrase isDoc => ?_
  obtain ⟨d, rfl⟩ := isDoc
  exact (argumentsText_answers prints node rfl near).bind fun _ _ => trivial

/-- Following a chain of members and templates ends at a node. -/
theorem isChainOfCall_ok {v : Value} (fit : fits Syntax.expression v = true) :
    ∃ b, isChainOfCall v = .ok b := by
  suffices ends : ∃ base, v.descend chainField = .ok base by
    obtain ⟨base, answer⟩ := ends
    exact ⟨base.hasTag "CallExpression", by simp only [isChainOfCall, answer, ok_bind, pure_ok]⟩
  refine descend_ok chainField (fun tag fields _ formed => ?_) v fit
  by_cases isMember : tag = "MemberExpression"
  · subst isMember
    obtain ⟨object, found, objectFits⟩ := formed.required
      (show (fieldsOf "MemberExpression").lookup "object" = some Syntax.expression from rfl) rfl
    exact Or.inr ⟨"object", object, rfl, found, objectFits⟩
  · by_cases isTemplate : tag = "TaggedTemplateExpression"
    · subst isTemplate
      obtain ⟨callee, found, calleeFits⟩ := formed.required (show (fieldsOf
        "TaggedTemplateExpression").lookup "tag" = some Syntax.expression from rfl) rfl
      exact Or.inr ⟨"tag", callee, rfl, found, calleeFits⟩
    · exact Or.inl (by simp [chainField, isText_str, isMember, isTemplate])

/-- What is constructed stands in parentheses if a call is found on the way down to its base. -/
theorem newText_answers (prints : Prints E p depth bound)
    (node : Standing depth bound level "NewExpression" fields) (near : Near level place.level) :
    Answers E (newText p place (.tagged "NewExpression" fields)) := by
  refine (node.one rfl).bind fun callee part => ?_
  refine (prints.phrase _ part.fit part.inside near).bind fun phrase isDoc => ?_
  obtain ⟨d, rfl⟩ := isDoc
  obtain ⟨isChain, chain⟩ := isChainOfCall_ok part.fit
  have arguments := argumentsText_answers prints node rfl near
  simp only [chain, ok_bind, Phrase.inspect, Phrase.glue, pure_ok]
  split
  · exact arguments.bind fun _ _ => trivial
  · exact arguments.bind fun _ _ => trivial

/-- Whether an object is a number without a point is asked of its text, which therefore must be laid
out. -/
theorem isAllDigits_answers {v : Value} {d : Doc} (fit : fits Syntax.expression v = true)
    (width : Nat) : Answers E (isAllDigits width v (.doc d)) := by
  obtain ⟨tag, fields, rfl, -⟩ := fits_one.mp fit
  simp only [isAllDigits, isTagged_tagged, ok_bind]
  split
  · trivial
  · trivial

/-- A member that is not computed is given by a name. -/
theorem member_named (formed : Formed "MemberExpression" fields)
    (notComputed : Value.truthy? (fields.lookup "computed") = false) :
    ∃ property name, fields.lookup "property" = some property ∧
      property.field "name" = .ok (.str name) := by
  have shaped := formed.shaped
  simp only [isShaped, notComputed, Bool.false_or, holdsTag] at shaped
  obtain ⟨property, found, fit⟩ := formed.required
    (show (fieldsOf "MemberExpression").lookup "property" = some Syntax.expression from rfl) rfl
  obtain ⟨tag, inner, rfl, -, innerFormed⟩ := fits_one.mp fit
  obtain rfl : tag = "Identifier" := by simpa [found] using shaped
  obtain ⟨name, nameIs⟩ := named_of_formed innerFormed
  exact ⟨_, name, found, Value.field_of_lookup nameIs⟩

/-- A member is reached by a computed key in brackets or by a name after a dot. -/
theorem memberText_answers (prints : Prints E p depth bound)
    (node : Standing depth bound level "MemberExpression" fields) (near : Near level place.level) :
    Answers E (memberText p place (.tagged "MemberExpression" fields)) := by
  obtain ⟨computed, computedIs, -⟩ := node.formed.required
    (show (fieldsOf "MemberExpression").lookup "computed" = some .bare from rfl) rfl
  refine (node.one rfl).bind fun object part => ?_
  refine (prints.phrase _ part.fit part.inside near).bind fun phrase isDoc => ?_
  obtain ⟨d, rfl⟩ := isDoc
  refine (isAllDigits_answers part.fit p.width).bind fun digits _ => ?_
  simp only [Value.field_of_lookup computedIs, ok_bind, pure_ok]
  cases isComputed : computed.truthy with
  | true =>
    cases digits <;> exact (node.one rfl).bind fun key keyPart =>
      (prints.shown _ keyPart.fit keyPart.inside near).bind fun _ _ => trivial
  | false =>
    obtain ⟨property, name, propertyIs, nameIs⟩ := member_named node.formed
      (by simp [computedIs, Value.truthy?, isComputed])
    cases digits <;> simp [Value.field_of_lookup propertyIs, nameIs, Gives]

/-- A `yield` gives back an expression or nothing. -/
theorem yieldText_answers (prints : Prints E p depth bound)
    (node : Standing depth bound level "YieldExpression" fields) (near : Near level place.level) :
    Answers E (yieldText p place (.tagged "YieldExpression" fields)) := by
  refine (flag_gives _ "delegate" fields).bind fun _ _ => ?_
  refine (node.opt rfl).bind fun argument part => ?_
  cases argument with
  | none => trivial
  | some argument =>
    have isExpression := part argument rfl
    exact (prints.shown _ isExpression.fit isExpression.inside near).bind fun _ _ => trivial

theorem metaPropertyText_answers (node : Standing depth bound level "MetaProperty" fields) :
    Answers E (metaPropertyText (.tagged "MetaProperty" fields)) := by
  refine (node.one rfl).bind fun owner ownerPart => ?_
  refine ownerPart.nameText.bind fun _ _ => ?_
  refine (node.one rfl).bind fun name namePart => ?_
  exact namePart.nameText.bind fun _ _ => trivial

/-- A regular expression is printed from its pattern; the flags may be missing. -/
theorem regexText_answers {entries : Fields} (has : (entries.lookup "pattern").isSome = true) :
    Answers E (regexText (.object entries)) := by
  obtain ⟨pattern, found⟩ := Option.isSome_iff_exists.mp has
  simp only [regexText, entry, found, ok_bind]
  trivial

/-- A literal without a spelling in the program is a regular expression or has a value that can be
written. -/
theorem literalValue_gives
    (hasPattern : (match fields.lookup "regex" with
      | none | some .null => true
      | some (.object entries) => (entries.lookup "pattern").isSome
      | _ => false) = true)
    (hasValue : (match fields.lookup "value" with
      | none | some .null | some (.bool _) | some (.int _) | some (.float _) | some (.str _) => true
      | _ => false) = true)
    (noRaw : (Value.tagged "Literal" fields).optional "raw" = .ok none) :
    Gives E (fun result => result.1.IsDoc) (literalPhrase (.tagged "Literal" fields)) := by
  have spelled : ∃ found text, (Value.tagged "Literal" fields).optional "value" = .ok found ∧
      literalSpelling (found.getD .null) = .ok text := by
    split at hasValue
    · exact ⟨none, _, Value.optional_of_none (by assumption), rfl⟩
    · exact ⟨none, _, Value.optional_of_null (by assumption), rfl⟩
    · exact ⟨_, _, Value.optional_of_lookup (by assumption) (by simp), rfl⟩
    · exact ⟨_, _, Value.optional_of_lookup (by assumption) (by simp), rfl⟩
    · exact ⟨_, _, Value.optional_of_lookup (by assumption) (by simp), rfl⟩
    · exact ⟨_, _, Value.optional_of_lookup (by assumption) (by simp), rfl⟩
    · cases hasValue
  obtain ⟨found, text, valueIs, textIs⟩ := spelled
  simp only [literalPhrase, noRaw, ok_bind]
  split at hasPattern
  · rename_i missing
    simp only [Value.optional_of_none missing, ok_bind, Option.filter_none, valueIs, textIs]
    exact ⟨_, rfl⟩
  · rename_i isNull
    simp only [Value.optional_of_null isNull, ok_bind, Option.filter_none, valueIs, textIs]
    exact ⟨_, rfl⟩
  · rename_i entries regexIs
    have nonempty : (Value.object entries).truthy = true := by
      cases entries with
      | nil => simp at hasPattern
      | cons => rfl
    simp only [Value.optional_of_lookup regexIs (by simp), ok_bind, Option.filter_some, nonempty,
      if_true]
    exact (regexText_answers hasPattern).bind fun _ _ => ⟨_, rfl⟩
  · cases hasPattern

/-- A literal is its spelling, its regular expression or its value, in this order. Only a negative
number holds together less than a primary expression. -/
theorem literalPhrase_gives (formed : Formed "Literal" fields) :
    Gives E (fun result => result.1.IsDoc) (literalPhrase (.tagged "Literal" fields)) := by
  have shaped : isLiteral fields = true := formed.shaped
  simp only [isLiteral, Bool.and_eq_true] at shaped
  obtain ⟨hasPattern, hasSpelling⟩ := shaped
  split at hasSpelling
  · rename_i raw rawIs
    simp only [literalPhrase, Value.optional_of_lookup rawIs (by simp), ok_bind]
    exact ⟨_, rfl⟩
  · rename_i missing
    exact literalValue_gives hasPattern hasSpelling (Value.optional_of_none missing)
  · rename_i isNull
    exact literalValue_gives hasPattern hasSpelling (Value.optional_of_null isNull)
  · cases hasSpelling

/-- The text of an expression, by its tag. -/
theorem expressionText_gives (prints : Prints E p depth bound)
    (node : Standing depth bound place.level tag fields) (isExpression : tag ∈ expressionTags) :
    Gives E (fun result => result.1.IsDoc) (expressionText p place (.tagged tag fields)) := by
  have asDoc : ∀ {x : Except Fault Doc} {own : Precedence}, Answers E x →
      Gives E (fun result : Phrase × Precedence => result.1.IsDoc)
        (x >>= fun d => .ok (Phrase.doc d, own)) := fun answers =>
    answers.bind fun _ _ => ⟨_, rfl⟩
  simp only [expressionTags, List.mem_cons, List.not_mem_nil, or_false] at isExpression
  rcases isExpression with rfl | rfl | rfl | rfl | rfl | rfl | rfl | rfl | rfl | rfl | rfl | rfl |
    rfl | rfl | rfl | rfl | rfl | rfl | rfl | rfl | rfl | rfl | rfl | rfl | rfl | rfl | rfl | rfl | rfl
  · refine Gives.next ((node.text rfl).bind fun name isText => ?_)
    obtain ⟨s, rfl⟩ := isText
    exact ⟨_, rfl⟩
  · exact Gives.next (literalPhrase_gives node.formed)
  · exact ⟨_, rfl⟩
  · exact ⟨_, rfl⟩
  · exact Gives.next (asDoc (arrayText_answers prints node rfl Near.here))
  · exact Gives.next (asDoc (arrayText_answers prints node rfl Near.here))
  · exact Gives.next (asDoc (objectText_answers prints node))
  · exact Gives.next (asDoc (objectPatternText_answers prints node Near.here))
  · exact Gives.next (asDoc (functionText_answers prints node rfl Near.here))
  · exact Gives.next (asDoc (arrowText_answers prints node Near.here))
  · exact Gives.next (asDoc (classText_answers prints node rfl))
  · exact Gives.next (asDoc (templateText_answers prints node Near.here))
  · exact Gives.next (asDoc (taggedTemplateText_answers prints node Near.here))
  · exact Gives.next ((unaryText_gives prints node Near.here).bind fun _ isDoc => isDoc)
  · exact Gives.next (updateText_gives prints node Near.here)
  · exact Gives.next ((binaryText_answers prints node rfl node.formed.shaped Near.here).bind
      fun _ _ => ⟨_, rfl⟩)
  · exact Gives.next ((binaryText_answers prints node rfl node.formed.shaped Near.here).bind
      fun _ _ => ⟨_, rfl⟩)
  · exact Gives.next (asDoc (assignmentText_answers prints node Near.here))
  · exact Gives.next (asDoc (assignmentPatternText_answers prints node Near.here))
  · exact Gives.next (asDoc (conditionalText_answers prints node Near.here))
  · exact Gives.next (asDoc (callText_answers prints node Near.here))
  · exact Gives.next (asDoc (newText_answers prints node Near.here))
  · exact Gives.next (asDoc (memberText_answers prints node Near.here))
  · refine Gives.next ((node.many rfl).bind fun expressions isSeq => ?_)
    obtain ⟨items, rfl, each, inside⟩ := isSeq
    exact asDoc (prints.commaList each inside Near.here)
  · exact Gives.next (asDoc (yieldText_answers prints node Near.here))
  · exact Gives.next ((node.one rfl).bind fun _ part =>
      (prints.glued _ part.fit part.inside Near.here).bind fun _ _ => ⟨_, rfl⟩)
  · exact Gives.next ((node.one rfl).bind fun _ part =>
      (prints.glued _ part.fit part.inside Near.here).bind fun _ _ => ⟨_, rfl⟩)
  · exact Gives.next ((node.one rfl).bind fun _ part =>
      (prints.glued _ part.fit part.inside Near.here).bind fun _ _ => ⟨_, rfl⟩)
  · exact Gives.next (asDoc (metaPropertyText_answers node))

/-- The parentheses that the context asks for leave an answer an answer. -/
theorem expressionPhrase_gives (prints : Prints E p depth bound)
    (node : Standing depth bound place.level tag fields) (isExpression : tag ∈ expressionTags)
    (precedence : Precedence) :
    Gives E Phrase.IsDoc (expressionPhrase p place precedence (.tagged tag fields)) := by
  refine (expressionText_gives prints node isExpression).bind fun result isDoc => ?_
  obtain ⟨phrase, own⟩ := result
  simp only
  split
  · exact ⟨_, rfl⟩
  · exact isDoc

end Expressions

end Untangle.Print
