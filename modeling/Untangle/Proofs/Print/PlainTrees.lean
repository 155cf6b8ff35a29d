import Untangle.Proofs.Print.Brackets
import Untangle.Proofs.Print.Layout
import Untangle.Proofs.Print.Parts

/-!
# Trees with plain texts

The texts that a tree is spelled with are plain if they have no brackets and no blanks: its names, its
literals and the chunks of its templates. The operators of a program and the keywords of its
declarations are plain too, nothing but a comparison has the operator `in`, and the body of a function
expression is a block; trees that no program has may differ.

* `plainTexts` is the condition on the texts of a node, and `usualShape` the one on the rest.
* `isPlain` says both of all nodes of a tree.
* `namesIn` says that something else than a key of a member is called `in`. No program has such a node.
* `Calm` is what is said of a value that is printed in a place, and its lemmas read the fields.
-/

namespace Untangle.Print

/-! ## Plain nodes -/

/-- Whether a name or a spelling has neither brackets nor blanks. -/
def plainWord (v : Value) : Bool :=
  clean v.plainText.toList

def isIn (v : Value) : Bool :=
  v.plainText == "in"

/-- The characters of a literal, if it has a text. -/
def literalChars? (n : Value) : Option (List Char) :=
  match literalPhrase n with
  | .ok (phrase, _) => some (phrase.shown.chars 0)
  | .error _ => none

/-- Whether an operator that touches its operand is a word or is made of signs. -/
def plainOperator : Value → Bool
  | .str operator =>
    Precedence.wordOperators.contains operator ||
      operator.toList.all fun c => !isBracket c && c != ' ' && !c.isAlpha
  | _ => false

/-- Whether the chunk of a template is spelled without brackets and blanks. -/
def plainChunk : Value → Bool
  | .object entries => (entries.lookup "raw").all plainWord
  | _ => true

def plainTexts (tag : Value) (fields : Fields) : Bool :=
  (fields.lookup "name").all plainWord && (fields.lookup "value").all plainChunk &&
    (!tag.isText "Literal" || (literalChars? (.node tag fields)).all clean)

/-- Whether one of the tags stands for a node whose field is right. -/
def fieldUnder (tags : List String) (name : String) (right : Value → Bool) (tag : Value)
    (fields : Fields) : Bool :=
  !tags.any tag.isText || (fields.lookup name).all right

/-- Whether the operators, the keyword or the body of a node are such as programs have. An operator
between operands is set off by blanks, so it may be any plain word but `in`; the operator of a
comparison is looked up, and an `in` there is put in parentheses. -/
def usualShape (tag : Value) (fields : Fields) : Bool :=
  fieldUnder ["UnaryExpression", "UpdateExpression"] "operator" plainOperator tag fields &&
    fieldUnder ["LogicalExpression", "AssignmentExpression"] "operator"
      (fun operator => plainWord operator && !isIn operator) tag fields &&
    fieldUnder ["VariableDeclaration"] "kind" plainWord tag fields &&
    fieldUnder ["FunctionExpression"] "body" (·.hasTag "BlockStatement") tag fields

mutual

/-- Whether a test holds of all nodes of a value. -/
def everyNode (test : Value → Fields → Bool) : Value → Bool
  | .node tag fields => test tag fields && everyNodeUnder test fields
  | .seq items | .list items => everyNodeAmong test items
  | _ => true

/-- Whether a test holds of all nodes of a sequence. -/
def everyNodeAmong (test : Value → Fields → Bool) : List Value → Bool
  | [] => true
  | v :: rest => everyNode test v && everyNodeAmong test rest

/-- Whether a test holds of all nodes under the names. -/
def everyNodeUnder (test : Value → Fields → Bool) : Fields → Bool
  | [] => true
  | (_, v) :: rest => everyNode test v && everyNodeUnder test rest

end

/-- Whether all nodes of a value have plain texts and the usual shape. -/
def isPlain (v : Value) : Bool :=
  everyNode plainTexts v && everyNode usualShape v

/-! ## Names -/

/-- The fields that hold the key of a member, which may be called anything. -/
def isKeyField (name : String) : Bool :=
  name == "property" || name == "key"

/-- Whether a node is a name or a literal that is spelled `in`. -/
def spelledIn (tag : Value) (fields : Fields) : Bool :=
  (fields.lookup "name").any isIn ||
    (tag.isText "Literal" && (literalChars? (.node tag fields)).any (· == "in".toList))

mutual

/-- Whether a node of a value is spelled `in`, keys apart. -/
def namesIn (isKey : Bool) : Value → Bool
  | .node tag fields => (!isKey && spelledIn tag fields) || namesInFields fields
  | .seq items | .list items => namesInItems items
  | _ => false

/-- Whether a node of a sequence is spelled `in`. -/
def namesInItems : List Value → Bool
  | [] => false
  | v :: rest => namesIn false v || namesInItems rest

/-- Whether a node under the names is spelled `in`. -/
def namesInFields : Fields → Bool
  | [] => false
  | (name, v) :: rest => namesIn (isKeyField name) v || namesInFields rest

end

/-! ## Parts of plain nodes -/

theorem everyNodeAmong_eq (test : Value → Fields → Bool) (items : List Value) :
    everyNodeAmong test items = items.all (everyNode test) := by
  induction items with
  | nil => rfl
  | cons v rest ih => rw [everyNodeAmong, ih, List.all_cons]

theorem everyNodeUnder_eq (test : Value → Fields → Bool) (fields : Fields) :
    everyNodeUnder test fields = fields.all fun field => everyNode test field.2 := by
  induction fields with
  | nil => rfl
  | cons field rest ih => rw [everyNodeUnder, ih, List.all_cons]

theorem everyNode_held {test : Value → Fields → Bool} {tag w : Value} {fields : Fields} {name : String}
    (every : everyNode test (.node tag fields) = true) (found : fields.lookup name = some w) :
    everyNode test w = true := by
  simp only [everyNode, everyNodeUnder_eq, Bool.and_eq_true, List.all_eq_true] at every
  exact every.2 _ (Fields.mem_of_lookup found)

theorem everyNode_items {test : Value → Fields → Bool} {v item : Value} {items : List Value}
    (every : everyNode test v = true) (read : v.items = .ok items) (member : item ∈ items) :
    everyNode test item = true := by
  cases v with
  | seq members | list members =>
    obtain rfl := Except.ok.inj read
    simp only [everyNode, everyNodeAmong_eq, List.all_eq_true] at every
    exact every item member
  | str s =>
    obtain rfl := Except.ok.inj read
    obtain ⟨c, -, rfl⟩ := List.mem_map.mp member
    rfl
  | object entries =>
    obtain rfl := Except.ok.inj read
    obtain ⟨entry, -, rfl⟩ := List.mem_map.mp member
    rfl
  | _ => cases read

theorem namesInItems_eq (items : List Value) : namesInItems items = items.any (namesIn false) := by
  induction items with
  | nil => rfl
  | cons v rest ih => rw [namesInItems, ih, List.any_cons]

theorem namesInFields_eq (fields : Fields) :
    namesInFields fields = fields.any fun field => namesIn (isKeyField field.1) field.2 := by
  induction fields with
  | nil => rfl
  | cons field rest ih => rw [namesInFields, ih, List.any_cons]

/-- The value is plain. If it is asked, it also stands in the head of a loop and has no name `in`. -/
structure Calm (asked : Prop) (place : Place) (v : Value) : Prop where
  plain : isPlain v = true
  unnamed : asked → place.noIn = true ∧ namesIn false v = false

section Calm

variable {asked : Prop} {place : Place} {v w n : Value} {name : String}

/-- A value of which nothing is asked. -/
theorem Calm.unasked (plain : isPlain v = true) : Calm False place v :=
  ⟨plain, False.elim⟩

theorem Calm.imp {asked' : Prop} (calm : Calm asked place v) (fewer : asked' → asked) :
    Calm asked' place v :=
  ⟨calm.plain, fun isAsked => calm.unnamed (fewer isAsked)⟩

theorem isPlain_held {tag : Value} {fields : Fields} (plain : isPlain (.node tag fields) = true)
    (found : fields.lookup name = some w) : isPlain w = true := by
  simp only [isPlain, Bool.and_eq_true] at plain ⊢
  exact ⟨everyNode_held plain.1 found, everyNode_held plain.2 found⟩

theorem Calm.held {tag : Value} {fields : Fields} (calm : Calm asked place (.node tag fields))
    (found : fields.lookup name = some w) (other : isKeyField name = false) : Calm asked place w where
  plain := isPlain_held calm.plain found
  unnamed isAsked := by
    obtain ⟨inHead, unnamed⟩ := calm.unnamed isAsked
    simp only [namesIn, namesInFields_eq, Bool.or_eq_false_iff, List.any_eq_false] at unnamed
    have inner := unnamed.2 _ (Fields.mem_of_lookup found)
    rw [other, Bool.not_eq_true] at inner
    exact ⟨inHead, inner⟩

theorem Calm.field (calm : Calm asked place n) (read : n.field name = .ok w)
    (other : isKeyField name = false) : Calm asked place w := by
  obtain ⟨tag, fields, rfl, found⟩ := Value.lookup_of_field read
  exact calm.held found other

theorem Calm.optional (calm : Calm asked place n) (read : n.optional name = .ok (some w))
    (other : isKeyField name = false) : Calm asked place w := by
  obtain ⟨tag, fields, rfl, found⟩ := Value.lookup_of_optional read
  exact calm.held found other

theorem isPlain_field (plain : isPlain n = true) (read : n.field name = .ok w) : isPlain w = true := by
  obtain ⟨tag, fields, rfl, found⟩ := Value.lookup_of_field read
  exact isPlain_held plain found

theorem isPlain_optional (plain : isPlain n = true) (read : n.optional name = .ok (some w)) :
    isPlain w = true := by
  obtain ⟨tag, fields, rfl, found⟩ := Value.lookup_of_optional read
  exact isPlain_held plain found

theorem isPlain_items (plain : isPlain v = true) {items : List Value} (read : v.items = .ok items) :
    ∀ item ∈ items, isPlain item = true := by
  intro item member
  simp only [isPlain, Bool.and_eq_true] at plain ⊢
  exact ⟨everyNode_items plain.1 read member, everyNode_items plain.2 read member⟩

theorem Calm.items (calm : Calm asked place v) {items : List Value} (read : v.items = .ok items) :
    ∀ item ∈ items, Calm asked place item := by
  refine fun item member => ⟨isPlain_items calm.plain read item member, fun isAsked => ?_⟩
  obtain ⟨inHead, unnamed⟩ := calm.unnamed isAsked
  refine ⟨inHead, ?_⟩
  cases v with
  | seq members | list members =>
    obtain rfl := Except.ok.inj read
    simp only [namesIn, namesInItems_eq, List.any_eq_false, Bool.not_eq_true] at unnamed
    exact unnamed item member
  | str s =>
    obtain rfl := Except.ok.inj read
    obtain ⟨c, -, rfl⟩ := List.mem_map.mp member
    rfl
  | object entries =>
    obtain rfl := Except.ok.inj read
    obtain ⟨entry, -, rfl⟩ := List.mem_map.mp member
    rfl
  | _ => cases read

theorem isPlain_memberAt (plain : isPlain v = true) {index : Nat}
    (read : Print.memberAt v index = .ok (some w)) : isPlain w = true := by
  unfold Print.memberAt at read
  split at read
  · split at read <;> cases read
  · cases listed : v.items with
    | error fault =>
      rw [listed] at read
      cases read
    | ok items =>
      rw [listed] at read
      exact isPlain_items plain listed w (List.mem_of_getElem? (Except.ok.inj read))

end Calm

/-! ## Texts of plain nodes -/

section Texts

variable {asked : Prop} {place : Place} {n w : Value} {tag : Value} {fields : Fields}

theorem plainTexts_of_isPlain (plain : isPlain (.node tag fields) = true) :
    plainTexts tag fields = true := by
  simp only [isPlain, everyNode, Bool.and_eq_true] at plain
  exact plain.1.1

theorem usualShape_of_isPlain (plain : isPlain (.node tag fields) = true) :
    usualShape tag fields = true := by
  simp only [isPlain, everyNode, Bool.and_eq_true] at plain
  exact plain.2.1

theorem plainWord_name (plain : isPlain n = true) (read : n.field "name" = .ok w) :
    plainWord w = true := by
  obtain ⟨tag, fields, rfl, found⟩ := Value.lookup_of_field read
  have texts := plainTexts_of_isPlain plain
  simp only [plainTexts, found, Option.all_some, Bool.and_eq_true] at texts
  exact texts.1.1

theorem Calm.name (calm : Calm asked place n) (read : n.field "name" = .ok w) :
    Tidy asked (shownValue w) := by
  refine .clean_word (plainWord_name calm.plain read) fun isAsked same => ?_
  obtain ⟨tag, fields, rfl, found⟩ := Value.lookup_of_field read
  have unnamed := (calm.unnamed isAsked).2
  simp [namesIn, spelledIn, found, isIn, same] at unnamed

/-- The chunk of a template. -/
theorem plainWord_chunk {value : Value} (plain : isPlain n = true) (read : n.field "value" = .ok value)
    (spelled : entry value "raw" = .ok w) : plainWord w = true := by
  obtain ⟨tag, fields, rfl, found⟩ := Value.lookup_of_field read
  have texts := plainTexts_of_isPlain plain
  simp only [plainTexts, found, Option.all_some, Bool.and_eq_true] at texts
  have chunk := texts.1.2
  cases value with
  | object entries =>
    simp only [entry] at spelled
    split at spelled
    · rename_i raw foundRaw
      cases spelled
      simpa [plainChunk, foundRaw] using chunk
    · cases spelled
  | _ => cases spelled

theorem regexText_chars (regex : Value) :
    Ensures (fun d => ∀ width, d.chars width = d.chars 0) (regexText regex) :=
  .after fun _ _ => .after fun _ _ _ => rfl

/-- The text of a literal has no lines to indent. -/
theorem literalPhrase_chars (n : Value) :
    Ensures (fun answer => ∀ width, answer.1.shown.chars width = answer.1.shown.chars 0)
      (literalPhrase n) := by
  refine .after fun raw _ => ?_
  cases raw with
  | some raw => cases raw <;> exact fun _ => rfl
  | none =>
    refine .after fun regex _ => ?_
    split
    · exact (regexText_chars _).bind fun _ same => same
    · exact .after fun _ _ => .after fun _ _ _ => rfl

theorem Calm.literal (calm : Calm asked place (.tagged "Literal" fields)) :
    Ensures (fun answer => Tidy asked answer.1.shown) (literalPhrase (.tagged "Literal" fields)) := by
  have same := literalPhrase_chars (.tagged "Literal" fields)
  have texts := plainTexts_of_isPlain calm.plain
  simp only [plainTexts, Bool.and_eq_true, Bool.or_eq_true, Bool.not_eq_true'] at texts
  have spelled := texts.2.resolve_left (by decide)
  cases printed : literalPhrase (.tagged "Literal" fields) with
  | error fault => trivial
  | ok answer =>
    rw [printed] at same
    rw [literalChars?, printed] at spelled
    have whole : ∀ width, answer.1.shown.chars width =
        (Doc.text (String.ofList (answer.1.shown.chars 0))).chars width := by
      intro width
      rw [chars_text, String.toList_ofList]
      exact same width
    refine Passes.of_chars whole (.clean_word (by simpa using spelled) fun isAsked isIn => ?_)
    have unnamed := (calm.unnamed isAsked).2
    have chars : answer.1.shown.chars 0 = "in".toList := by rw [← isIn, String.toList_ofList]
    simp [namesIn, spelledIn, literalChars?, printed, chars, Value.isText] at unnamed

/-- The field that is asked for under a tag. -/
theorem right_of_fieldUnder {tags : List String} {name : String} {right : Value → Bool} {tag : String}
    (under : fieldUnder tags name right (.str tag) fields = true) (isOne : tag ∈ tags)
    (read : (Value.tagged tag fields).field name = .ok w) : right w = true := by
  obtain ⟨_, _, same, found⟩ := Value.lookup_of_field read
  cases same
  have listed : tags.any (Value.str tag).isText = true :=
    List.any_eq_true.mpr ⟨tag, isOne, by simp [Value.isText]⟩
  simpa [fieldUnder, listed, found] using under

theorem plainOperator_field {tag : String} (plain : isPlain (.tagged tag fields) = true)
    (isOne : tag ∈ ["UnaryExpression", "UpdateExpression"])
    (read : (Value.tagged tag fields).field "operator" = .ok w) : plainOperator w = true := by
  have shape := usualShape_of_isPlain plain
  simp only [usualShape, Bool.and_eq_true] at shape
  exact right_of_fieldUnder shape.1.1.1 isOne read

/-- An operator between operands. -/
theorem between_field {tag : String} (plain : isPlain (.tagged tag fields) = true)
    (isOne : tag ∈ ["LogicalExpression", "AssignmentExpression"])
    (read : (Value.tagged tag fields).field "operator" = .ok w) :
    plainWord w = true ∧ isIn w = false := by
  have shape := usualShape_of_isPlain plain
  simp only [usualShape, Bool.and_eq_true] at shape
  simpa using right_of_fieldUnder shape.1.1.2 isOne read

/-- The keyword of a declaration. -/
theorem plainWord_kind (plain : isPlain (.tagged "VariableDeclaration" fields) = true)
    (read : (Value.tagged "VariableDeclaration" fields).field "kind" = .ok w) : plainWord w = true := by
  have shape := usualShape_of_isPlain plain
  simp only [usualShape, Bool.and_eq_true] at shape
  exact right_of_fieldUnder shape.1.2 (by decide) read

/-- The body of a function expression. -/
theorem block_of_isPlain (plain : isPlain (.tagged "FunctionExpression" fields) = true)
    (read : (Value.tagged "FunctionExpression" fields).field "body" = .ok w) :
    w.hasTag "BlockStatement" = true := by
  have shape := usualShape_of_isPlain plain
  simp only [usualShape, Bool.and_eq_true] at shape
  exact right_of_fieldUnder shape.2 (by decide) read

end Texts

/-! ## Operators -/

theorem next_sign {c : Char} (sign : c.isAlpha = false) (word : Word) : word.next c = .other := by
  cases word with
  | fresh => exact next_fresh fun same => by simp [same] at sign
  | begun => exact next_begun fun same => by simp [same] at sign
  | whole | other => rfl

/-- Signs end every word. -/
theorem foldl_next_signs {cs : List Char} (signs : ∀ c ∈ cs, c.isAlpha = false) (word : Word) :
    cs.foldl Word.next word = word ∨ cs.foldl Word.next word = .other := by
  cases cs with
  | nil => exact Or.inl rfl
  | cons c rest =>
    rw [List.foldl_cons, next_sign (signs c (by simp)), foldl_next_other]
    exact Or.inr rfl

theorem reads_signs {cs : List Char} (isClean : clean cs = true) (signs : ∀ c ∈ cs, c.isAlpha = false)
    {station : Station} (outer : station = .before ∨ station = .after) : Reads station station cs := by
  have outside : ∀ spot ∈ station.spots, ∃ word, spot = .outside word := by
    rcases outer with rfl | rfl <;> simp [Station.spots]
  have other : Spot.outside .other ∈ station.spots := by rcases outer with rfl | rfl <;> decide
  intro spot stands
  obtain ⟨word, rfl⟩ := outside spot stands
  refine ⟨_, ?_, scan_clean isClean word⟩
  rcases foldl_next_signs signs word with same | same
  · rwa [same]
  · rwa [same]

theorem reads_wordOperator {word : String} (isOne : word ∈ Precedence.wordOperators)
    {station : Station} (outer : station = .before ∨ station = .after) :
    Reads station station word.toList := by
  have words : ∀ word ∈ Precedence.wordOperators, Reads .before .before word.toList ∧
      Reads .after .after word.toList := by decide
  rcases outer with rfl | rfl
  · exact (words word isOne).1
  · exact (words word isOne).2

/-- An operator can stand before what is read next and after what was read. -/
theorem operator_passes {asked : Prop} {operator : String} (plain : plainOperator (.str operator) = true)
    {station : Station} (outer : station = .before ∨ station = .after) :
    Passes asked station station (Doc.text operator) := by
  simp only [plainOperator, Bool.or_eq_true, List.contains_iff_mem, List.all_eq_true,
    Bool.and_eq_true, Bool.not_eq_true'] at plain
  rcases plain with word | signs
  · exact .text (reads_wordOperator word outer)
  · have isClean : clean operator.toList = true := by
      refine List.all_eq_true.mpr fun c member => ?_
      simp [signs c member]
    exact .text (reads_signs isClean (fun c member => (signs c member).2) outer)

-- The operators that the language has under these tags.
example : ["+", "-", "!", "~", "typeof", "void", "delete", "++", "--"].all (plainOperator ∘ .str) := by
  decide

end Untangle.Print
