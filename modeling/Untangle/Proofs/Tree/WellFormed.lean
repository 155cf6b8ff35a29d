import Untangle.Print.Precedence
import Untangle.Proofs.Tree.Fields

/-!
# Well-formed trees

A tree is well-formed when every node has a tag of the syntax, the fields that go with the tag, and
in every field what belongs there. The syntax is one table, `schema`: it says for each tag which
fields a node has and what stands in them. Fields that the table does not mention, such as source
positions, may hold anything in which a walk finds no node. The order of fields is free.

* `Slot` is what a field can hold.
* `fits` tells whether a value may stand in a slot, all the way down.
* `WellFormed` is a program that fits.
-/

namespace Untangle.Syntax

def statementTags : List String := [
  "BlockStatement", "EmptyStatement", "ExpressionStatement", "IfStatement", "LabeledStatement",
  "BreakStatement", "ContinueStatement", "WithStatement", "SwitchStatement", "ReturnStatement",
  "ThrowStatement", "TryStatement", "WhileStatement", "DoWhileStatement", "ForStatement",
  "ForInStatement", "ForOfStatement", "DebuggerStatement", "VariableDeclaration",
  "FunctionDeclaration", "ClassDeclaration"]

/-- The tags of expressions, patterns and what stands among them. -/
def expressionTags : List String := [
  "Identifier", "Literal", "ThisExpression", "Super", "ArrayExpression", "ArrayPattern",
  "ObjectExpression", "ObjectPattern", "FunctionExpression", "ArrowFunctionExpression",
  "ClassExpression", "TemplateLiteral", "TaggedTemplateExpression", "UnaryExpression",
  "UpdateExpression", "BinaryExpression", "LogicalExpression", "AssignmentExpression",
  "AssignmentPattern", "ConditionalExpression", "CallExpression", "NewExpression",
  "MemberExpression", "SequenceExpression", "YieldExpression", "AwaitExpression", "SpreadElement",
  "RestElement", "MetaProperty"]

/-- What a field can hold: something without nodes, a text, one node with one of the given tags,
such a node or null, or a sequence of such nodes, perhaps with holes. A `maybe` field is null where
an `opt` field may also be missing. -/
inductive Slot where
  | bare
  | text
  | one (tags : List String)
  | maybe (tags : List String)
  | opt (tags : List String)
  | many (tags : List String)
  | holes (tags : List String)
  deriving DecidableEq, Repr

namespace Slot

/-- The tags of a single node in the slot. -/
def tags : Slot → List String
  | .one tags | .maybe tags | .opt tags => tags
  | _ => []

/-- Whether null may stand in the slot. -/
def admitsNull : Slot → Bool
  | .bare | .maybe _ | .opt _ => true
  | _ => false

/-- Whether a text may stand in the slot. -/
def admitsText : Slot → Bool
  | .bare | .text => true
  | _ => false

/-- The slot that each member of a sequence fills. -/
def member? : Slot → Option Slot
  | .many tags => some (.one tags)
  | .holes tags => some (.maybe tags)
  | _ => none

/-- Whether a node without the field is incomplete. -/
def isRequired : Slot → Bool
  | .opt _ => false
  | _ => true

end Slot

def statement : Slot := .one statementTags

def expression : Slot := .one expressionTags

def functionFields : List (String × Slot) :=
  [("id", .opt ["Identifier"]), ("params", .many expressionTags), ("body", statement)]

def classFields : List (String × Slot) :=
  [("id", .opt ["Identifier"]), ("superClass", .opt expressionTags), ("body", .one ["ClassBody"])]

/-- The fields of a loop over the members of a value. -/
def forEachFields : List (String × Slot) :=
  [("left", .one ("VariableDeclaration" :: expressionTags)), ("right", expression),
    ("body", statement)]

/-- The fields of an operator between two operands. -/
def operandFields : List (String × Slot) :=
  [("operator", .text), ("left", expression), ("right", expression)]

def statementSchema : List (String × List (String × Slot)) := [
  ("Program", [("body", .many statementTags)]),
  ("BlockStatement", [("body", .many statementTags)]),
  ("EmptyStatement", []),
  ("ExpressionStatement", [("expression", expression)]),
  ("IfStatement",
    [("test", expression), ("consequent", statement), ("alternate", .opt statementTags)]),
  ("LabeledStatement", [("label", .one ["Identifier"]), ("body", statement)]),
  ("BreakStatement", [("label", .opt ["Identifier"])]),
  ("ContinueStatement", [("label", .opt ["Identifier"])]),
  ("WithStatement", [("object", expression), ("body", statement)]),
  ("SwitchStatement", [("discriminant", expression), ("cases", .many ["SwitchCase"])]),
  ("SwitchCase", [("test", .opt expressionTags), ("consequent", .many statementTags)]),
  ("ReturnStatement", [("argument", .opt expressionTags)]),
  ("ThrowStatement", [("argument", expression)]),
  ("TryStatement",
    [("block", statement), ("handler", .opt ["CatchClause"]), ("finalizer", .opt statementTags)]),
  ("CatchClause", [("param", .opt expressionTags), ("body", statement)]),
  ("WhileStatement", [("test", expression), ("body", statement)]),
  ("DoWhileStatement", [("test", expression), ("body", statement)]),
  ("ForStatement",
    [("init", .maybe ("VariableDeclaration" :: expressionTags)), ("test", .maybe expressionTags),
      ("update", .maybe expressionTags), ("body", statement)]),
  ("ForInStatement", forEachFields),
  ("ForOfStatement", forEachFields),
  ("DebuggerStatement", []),
  ("VariableDeclaration", [("declarations", .many ["VariableDeclarator"]), ("kind", .text)]),
  ("VariableDeclarator", [("id", expression), ("init", .opt expressionTags)]),
  ("FunctionDeclaration", functionFields),
  ("ClassDeclaration", classFields),
  ("ClassBody", [("body", .many ["MethodDefinition"])]),
  ("MethodDefinition", [("key", expression), ("value", .one ["FunctionExpression"])])]

def expressionSchema : List (String × List (String × Slot)) := [
  ("Identifier", [("name", .text)]),
  ("Literal", []),
  ("ThisExpression", []),
  ("Super", []),
  ("ArrayExpression", [("elements", .holes expressionTags)]),
  ("ArrayPattern", [("elements", .holes expressionTags)]),
  ("ObjectExpression", [("properties", .many ["Property", "SpreadElement"])]),
  ("ObjectPattern", [("properties", .many ["Property", "RestElement"])]),
  ("Property", [("key", expression), ("value", expression)]),
  ("FunctionExpression", functionFields),
  ("ArrowFunctionExpression",
    [("params", .many expressionTags), ("body", .one ("BlockStatement" :: expressionTags))]),
  ("ClassExpression", classFields),
  ("TemplateLiteral", [("quasis", .many ["TemplateElement"]), ("expressions", .many expressionTags)]),
  ("TemplateElement", [("value", .bare)]),
  ("TaggedTemplateExpression", [("tag", expression), ("quasi", .one ["TemplateLiteral"])]),
  ("UnaryExpression", [("operator", .text), ("argument", expression)]),
  ("UpdateExpression", [("operator", .text), ("argument", expression), ("prefix", .bare)]),
  ("BinaryExpression", operandFields),
  ("LogicalExpression", operandFields),
  ("AssignmentExpression", operandFields),
  ("AssignmentPattern", [("left", expression), ("right", expression)]),
  ("ConditionalExpression",
    [("test", expression), ("consequent", expression), ("alternate", expression)]),
  ("CallExpression", [("callee", expression), ("arguments", .many expressionTags)]),
  ("NewExpression", [("callee", expression), ("arguments", .many expressionTags)]),
  ("MemberExpression", [("object", expression), ("property", expression), ("computed", .bare)]),
  ("SequenceExpression", [("expressions", .many expressionTags)]),
  ("YieldExpression", [("argument", .opt expressionTags)]),
  ("AwaitExpression", [("argument", expression)]),
  ("SpreadElement", [("argument", expression)]),
  ("RestElement", [("argument", expression)]),
  ("MetaProperty", [("meta", .one ["Identifier"]), ("property", .one ["Identifier"])])]

def schema : List (String × List (String × Slot)) :=
  statementSchema ++ expressionSchema

/-- The fields that nodes with a tag have. -/
def fieldsOf (tag : String) : List (String × Slot) :=
  (schema.lookup tag).getD []

/-- The slot of a field; what the syntax does not mention is bare. -/
def slotOf (tag name : String) : Slot :=
  ((fieldsOf tag).lookup name).getD .bare

/-- Whether a literal can be written: by its spelling or else by its value. -/
def isLiteral (fields : Fields) : Bool :=
  let hasPattern := match fields.lookup "regex" with
    | none | some .null => true
    | some (.object entries) => (entries.lookup "pattern").isSome
    | _ => false
  let hasSpelling := match fields.lookup "raw" with
    | some (.str _) => true
    | none | some .null =>
      match fields.lookup "value" with
      | none | some .null | some (.bool _) | some (.int _) | some (.float _) | some (.str _) => true
      | _ => false
    | _ => false
  hasPattern && hasSpelling

/-- Whether an operator is one that stands between two operands. -/
def hasBinaryOperator (fields : Fields) : Bool :=
  match fields.lookup "operator" with
  | some (.str operator) => (Print.Precedence.ofBinary? operator).isSome
  | _ => false

/-- Whether the value of a field is a node with the tag. -/
def holdsTag (fields : Fields) (name tag : String) : Bool :=
  match fields.lookup name with
  | some v => v.hasTag tag
  | none => false

/-- Whether a property is an accessor or a method, whose value is a function. -/
def isMethod (fields : Fields) : Bool :=
  (fields.lookup "kind").any (fun kind => kind.isText "get" || kind.isText "set") ||
    Value.truthy? (fields.lookup "method")

/-- What a node with the tag must have beyond the slots of its fields. -/
def isShaped (tag : String) (fields : Fields) : Bool :=
  match tag with
  | "Literal" => isLiteral fields
  | "BinaryExpression" => hasBinaryOperator fields
  | "LogicalExpression" => hasBinaryOperator fields
  | "SequenceExpression" =>
    match fields.lookup "expressions" with
    | some (.seq items) => !items.isEmpty
    | _ => false
  | "MemberExpression" =>
    Value.truthy? (fields.lookup "computed") || holdsTag fields "property" "Identifier"
  | "Property" => !isMethod fields || holdsTag fields "value" "FunctionExpression"
  | "TemplateElement" =>
    match fields.lookup "value" with
    | some (.object entries) =>
      match entries.lookup "raw" with
      | some (.str _) => true
      | _ => false
    | _ => false
  | _ => true

/-- Whether a node has each of its fields once. -/
def isDistinct (fields : Fields) : Bool :=
  decide (fields.map Prod.fst).Nodup

/-- Whether a node with the tag has every field it must have, and none twice. -/
def isComplete (tag : String) (fields : Fields) : Bool :=
  isDistinct fields &&
    (fieldsOf tag).all fun field => !field.2.isRequired || (fields.lookup field.1).isSome

mutual

/-- Whether a value may stand in a slot. -/
def fits : Slot → Value → Bool
  | slot, .node (.str tag) fields =>
    slot.tags.contains tag && isComplete tag fields && isShaped tag fields && fitFields tag fields
  | slot, .seq items =>
    match slot.member? with
    | some member => fitItems member items
    | none => slot == .bare && (Value.walkItems items).isEmpty
  | slot, .null => slot.admitsNull
  | slot, .str _ => slot.admitsText
  | _, .node _ _ => false
  | slot, _ => slot == .bare

/-- Whether every field of a node with the tag holds what its slot asks for. -/
def fitFields : String → Fields → Bool
  | _, [] => true
  | tag, (name, v) :: rest => fits (slotOf tag name) v && fitFields tag rest

/-- Whether every member of a sequence may stand in the slot. -/
def fitItems : Slot → List Value → Bool
  | _, [] => true
  | slot, v :: rest => fits slot v && fitItems slot rest

end

/-- A node that has every field of its tag, with what belongs there. -/
structure Formed (tag : String) (fields : Fields) : Prop where
  complete : isComplete tag fields = true
  shaped : isShaped tag fields = true
  fitted : fitFields tag fields = true

def WellFormed (v : Value) : Prop :=
  fits (.one ["Program"]) v = true

instance (v : Value) : Decidable (WellFormed v) :=
  inferInstanceAs (Decidable (_ = true))

-- The equations of the three are made here, once for all the proofs that follow.
attribute [local simp] fits fitFields fitItems in
theorem fits_node {slot : Slot} {tag : String} {fields : Fields} :
    fits slot (.node (.str tag) fields) = true ↔ tag ∈ slot.tags ∧ Formed tag fields := by
  simp only [fits, Bool.and_eq_true, List.contains_iff_mem]
  constructor
  · rintro ⟨⟨⟨admitted, complete⟩, shaped⟩, fitted⟩
    exact ⟨admitted, complete, shaped, fitted⟩
  · rintro ⟨admitted, formed⟩
    exact ⟨⟨⟨admitted, formed.complete⟩, formed.shaped⟩, formed.fitted⟩

theorem fits_one {tags : List String} {v : Value} :
    fits (.one tags) v = true ↔
      ∃ tag fields, v = .tagged tag fields ∧ tag ∈ tags ∧ Formed tag fields := by
  constructor
  · intro h
    cases v with
    | node tag fields =>
      cases tag with
      | str tag => exact ⟨tag, fields, rfl, fits_node.mp h⟩
      | _ => simp [fits] at h
    | _ => simp [fits, Slot.admitsNull, Slot.admitsText, Slot.member?] at h
  · rintro ⟨tag, fields, rfl, admitted, formed⟩
    exact fits_node.mpr ⟨admitted, formed⟩

theorem fits_maybe {tags : List String} {v : Value} :
    fits (.maybe tags) v = true ↔ v = .null ∨ fits (.one tags) v = true := by
  cases v with
  | node tag fields => cases tag <;> simp [fits, Slot.tags]
  | _ => simp [fits, Slot.admitsNull, Slot.admitsText, Slot.member?]

theorem fits_opt {tags : List String} {v : Value} :
    fits (.opt tags) v = true ↔ v = .null ∨ fits (.one tags) v = true := by
  cases v with
  | node tag fields => cases tag <;> simp [fits, Slot.tags]
  | _ => simp [fits, Slot.admitsNull, Slot.admitsText, Slot.member?]

theorem fits_text {v : Value} : fits .text v = true ↔ ∃ s, v = .str s := by
  cases v with
  | node tag fields => cases tag <;> simp [fits, Slot.tags]
  | _ => simp [fits, Slot.admitsNull, Slot.admitsText, Slot.member?]

theorem fitItems_iff {slot : Slot} {items : List Value} :
    fitItems slot items = true ↔ ∀ v ∈ items, fits slot v = true := by
  induction items with
  | nil => simp [fitItems]
  | cons v rest ih => simp [fitItems, ih]

theorem fits_many {tags : List String} {v : Value} :
    fits (.many tags) v = true ↔
      ∃ items, v = .seq items ∧ ∀ item ∈ items, fits (.one tags) item = true := by
  cases v with
  | node tag fields => cases tag <;> simp [fits, Slot.tags]
  | _ => simp [fits, Slot.admitsNull, Slot.admitsText, Slot.member?, fitItems_iff]

theorem fits_holes {tags : List String} {v : Value} :
    fits (.holes tags) v = true ↔
      ∃ items, v = .seq items ∧ ∀ item ∈ items, fits (.maybe tags) item = true := by
  cases v with
  | node tag fields => cases tag <;> simp [fits, Slot.tags]
  | _ => simp [fits, Slot.admitsNull, Slot.admitsText, Slot.member?, fitItems_iff]

theorem fits_mono {tags more : List String} {v : Value} (fit : fits (.one tags) v = true)
    (within : ∀ tag ∈ tags, tag ∈ more) : fits (.one more) v = true := by
  obtain ⟨tag, fields, rfl, admitted, formed⟩ := fits_one.mp fit
  exact fits_node.mpr ⟨within tag admitted, formed⟩

theorem fitFields_iff {tag : String} {fields : Fields} :
    fitFields tag fields = true ↔ ∀ field ∈ fields, fits (slotOf tag field.1) field.2 = true := by
  induction fields with
  | nil => simp [fitFields]
  | cons field rest ih =>
    obtain ⟨name, v⟩ := field
    simp [fitFields, ih]

namespace Formed

variable {tag : String} {fields : Fields}

theorem distinct (formed : Formed tag fields) : (fields.map Prod.fst).Nodup :=
  of_decide_eq_true (Bool.and_eq_true _ _ ▸ formed.complete).1

/-- No field that the syntax asks for is missing. -/
theorem present (formed : Formed tag fields) {field : String × Slot} (member : field ∈ fieldsOf tag) :
    (!field.2.isRequired || (fields.lookup field.1).isSome) = true :=
  List.all_eq_true.mp (Bool.and_eq_true _ _ ▸ formed.complete).2 field member

/-- Whatever a well-formed node holds in a field fits there. -/
theorem fits_lookup (formed : Formed tag fields) {name : String} {v : Value}
    (found : fields.lookup name = some v) : fits (slotOf tag name) v = true :=
  fitFields_iff.mp formed.fitted _ (Fields.mem_of_lookup found)

/-- A field that the syntax asks for is there and holds what belongs there. -/
theorem required (formed : Formed tag fields) {name : String} {slot : Slot}
    (declared : (fieldsOf tag).lookup name = some slot) (needed : slot.isRequired = true) :
    ∃ v, fields.lookup name = some v ∧ fits slot v = true := by
  have present := formed.present (Fields.mem_of_lookup declared)
  simp only [needed, Bool.not_true, Bool.false_or, Option.isSome_iff_exists] at present
  obtain ⟨v, found⟩ := present
  have fit := formed.fits_lookup found
  rw [slotOf, declared] at fit
  exact ⟨v, found, fit⟩

/-- A field for a text holds one. -/
theorem text (formed : Formed tag fields) {name : String}
    (declared : (fieldsOf tag).lookup name = some .text) :
    ∃ s, fields.lookup name = some (.str s) := by
  obtain ⟨v, found, fit⟩ := formed.required declared rfl
  obtain ⟨s, rfl⟩ := fits_text.mp fit
  exact ⟨s, found⟩

/-- A field for a sequence of nodes holds one. -/
theorem many (formed : Formed tag fields) {name : String} {tags : List String}
    (declared : (fieldsOf tag).lookup name = some (.many tags)) :
    ∃ items, fields.lookup name = some (.seq items) ∧
      ∀ item ∈ items, fits (.one tags) item = true := by
  obtain ⟨v, found, fit⟩ := formed.required declared rfl
  obtain ⟨items, rfl, each⟩ := fits_many.mp fit
  exact ⟨items, found, each⟩

/-- An optional field is missing, null, or holds what belongs there. -/
theorem optional (formed : Formed tag fields) {name : String} {tags : List String}
    (declared : (fieldsOf tag).lookup name = some (.opt tags)) :
    (Value.tagged tag fields).optional name = .ok none ∨
      ∃ v, fields.lookup name = some v ∧ fits (.one tags) v = true ∧
        (Value.tagged tag fields).optional name = .ok (some v) := by
  cases found : fields.lookup name with
  | none => exact Or.inl (Value.optional_of_none found)
  | some v =>
    have fit := formed.fits_lookup found
    rw [slotOf, declared] at fit
    rcases fits_opt.mp fit with rfl | fit
    · exact Or.inl (Value.optional_of_null found)
    · refine Or.inr ⟨v, rfl, fit, Value.optional_of_lookup found ?_⟩
      obtain ⟨_, _, rfl, _⟩ := fits_one.mp fit
      simp

/-- Another value that belongs in a field may be put there. -/
theorem set (formed : Formed tag fields) {name : String} {v : Value}
    (fit : fits (slotOf tag name) v = true)
    (shaped : isShaped tag (Fields.set name v fields) = true) :
    Formed tag (Fields.set name v fields) := by
  refine ⟨Bool.and_eq_true _ _ ▸ ⟨?_, ?_⟩, shaped, ?_⟩
  · exact decide_eq_true (Fields.nodup_set name v formed.distinct)
  · refine List.all_eq_true.mpr fun field member => ?_
    have present := formed.present member
    by_cases same : field.1 = name
    · simp [same, Fields.lookup_set_self]
    · rwa [Fields.lookup_set_of_ne _ _ same]
  · refine fitFields_iff.mpr fun field member => ?_
    rcases Fields.mem_set member with rfl | member
    · exact fit
    · exact fitFields_iff.mp formed.fitted field member

end Formed

/-- A node in any slot is well-formed. -/
theorem formed_of_fits {slot : Slot} {tag : Value} {fields : Fields}
    (fit : fits slot (.node tag fields) = true) : ∃ name, tag = .str name ∧ Formed name fields := by
  cases tag with
  | str name => exact ⟨name, rfl, (fits_node.mp fit).2⟩
  | _ => simp [fits] at fit

/-- A node among the members of a sequence in any slot is well-formed. -/
theorem formed_of_fits_member {slot : Slot} {items : List Value} {tag : Value} {fields : Fields}
    (fit : fits slot (.seq items) = true) (member : .node tag fields ∈ items) :
    ∃ name, tag = .str name ∧ Formed name fields := by
  simp only [fits] at fit
  split at fit
  · exact formed_of_fits (fitItems_iff.mp fit _ member)
  · simp only [Bool.and_eq_true, List.isEmpty_iff] at fit
    have none := fit.2
    clear fit
    -- A walk would meet the node.
    induction items with
    | nil => simp at member
    | cons head rest ih =>
      simp only [Value.walkItems, List.append_eq_nil_iff] at none
      rcases List.mem_cons.mp member with rfl | member
      · simp [Value.walk] at none
      · exact ih member none.2

/-- A node of the syntax that has everything its tag asks for. -/
def IsFormed (n : Value) : Prop :=
  ∃ tag fields, n = .tagged tag fields ∧ Formed tag fields

mutual

/-- Every node that a walk meets in a well-formed value is well-formed. -/
theorem walk_formed {slot : Slot} : ∀ {v : Value}, fits slot v = true → ∀ n ∈ v.walk, IsFormed n
  | .node tag fields, fit, n, member => by
    cases tag with
    | str tag =>
      have formed := (fits_node.mp fit).2
      rcases List.mem_cons.mp (by simpa [Value.walk] using member) with rfl | member
      · exact ⟨tag, fields, rfl, formed⟩
      · exact walkFields_formed formed.fitted n member
    | _ => simp [fits] at fit
  | .seq items, fit, n, member => by
    simp only [fits] at fit
    split at fit
    · exact walkItems_formed fit n (by simpa [Value.walk] using member)
    · simp only [Bool.and_eq_true, List.isEmpty_iff] at fit
      simp [Value.walk, fit.2] at member
  | .null, _, n, member | .bool _, _, n, member | .int _, _, n, member | .float _, _, n, member
  | .str _, _, n, member | .sealed _, _, n, member | .list _, _, n, member
  | .object _, _, n, member => by simp [Value.walk] at member

theorem walkFields_formed {tag : String} : ∀ {fields : Fields}, fitFields tag fields = true →
    ∀ n ∈ Value.walkFields fields, IsFormed n
  | [], _, n, member => by simp [Value.walkFields] at member
  | (name, v) :: rest, fit, n, member => by
    simp only [fitFields, Bool.and_eq_true] at fit
    rcases List.mem_append.mp (by simpa [Value.walkFields] using member) with member | member
    · exact walk_formed fit.1 n member
    · exact walkFields_formed fit.2 n member

theorem walkItems_formed {slot : Slot} : ∀ {items : List Value}, fitItems slot items = true →
    ∀ n ∈ Value.walkItems items, IsFormed n
  | [], _, n, member => by simp [Value.walkItems] at member
  | v :: rest, fit, n, member => by
    simp only [fitItems, Bool.and_eq_true] at fit
    rcases List.mem_append.mp (by simpa [Value.walkItems] using member) with member | member
    · exact walk_formed fit.1 n member
    · exact walkItems_formed fit.2 n member

end

end Untangle.Syntax
