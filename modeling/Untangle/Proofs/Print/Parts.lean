import Untangle.Print.Generate
import Untangle.Proofs.Outcome
import Untangle.Proofs.Reshape.Rules

/-!
# What printing needs

The pieces from which it is shown that well-formed trees can be printed: how much room a value needs,
what is said of a printer for the parts of a node, and what the fields of a well-formed node give.

* `Inside` says that a printer reaches a value and that its lines can be indented.
* `Prints` is what is said of a printer.
* `Standing` is a well-formed node with room for its fields; its lemmas read the fields.
-/

namespace Untangle.Print

open Syntax Reshape

/-- A node whose text is chosen by its tag has that tag. -/
theorem tagged_of_chosenBy {tag : String} {n : Value} (chosen : chosenBy n = .ok tag) :
    ∃ fields, n = .tagged tag fields := by
  cases n with
  | node own fields =>
    cases own with
    | str own =>
      cases chosen
      exact ⟨fields, rfl⟩
    | _ => cases chosen
  | _ => cases chosen

def Phrase.IsDoc (phrase : Phrase) : Prop :=
  ∃ d, phrase = .doc d

/-! ## Room -/

/-- Lines can be indented at the level and one level further in. -/
structure Within (bound level : Int) : Prop where
  nonneg : 0 ≤ level
  wide : level + 1 ≤ bound

/-- The value is no deeper than a printer reaches, and can stand one level further in. -/
structure Inside (depth : Nat) (bound level : Int) (v : Value) : Prop where
  reached : v.depth ≤ depth
  nonneg : 0 ≤ level
  low : level + 1 + v.depth ≤ bound

/-- The parts of a node stand at its own level or one further in. -/
structure Near (level inner : Int) : Prop where
  above : level ≤ inner
  close : inner ≤ level + 1

theorem Near.here {level : Int} : Near level level :=
  ⟨Int.le_refl _, by omega⟩

theorem Near.deeper {level : Int} : Near level (level + 1) :=
  ⟨by omega, Int.le_refl _⟩

theorem depth_le_of_mem_items {v : Value} {items : List Value} (member : v ∈ items) :
    v.depth ≤ Value.depthItems items := by
  induction items with
  | nil => simp at member
  | cons head rest ih =>
    rw [Value.depthItems]
    rcases List.mem_cons.mp member with rfl | later
    · omega
    · have := ih later
      omega

theorem depth_le_of_lookup {name : String} {v : Value} {fields : Fields}
    (found : fields.lookup name = some v) : v.depth ≤ Value.depthEntries fields := by
  have member := Fields.mem_of_lookup found
  clear found
  induction fields with
  | nil => simp at member
  | cons field rest ih =>
    obtain ⟨own, value⟩ := field
    rw [Value.depthEntries]
    rcases List.mem_cons.mp member with same | later
    · cases same
      omega
    · have := ih later
      omega

section Room

variable {depth : Nat} {bound level : Int}

theorem Inside.within {v : Value} (inside : Inside depth bound level v) : Within bound level := by
  obtain ⟨-, nonneg, low⟩ := inside
  exact ⟨nonneg, by omega⟩

theorem Inside.item {items : List Value} {v : Value} (inside : Inside depth bound level (.seq items))
    (member : v ∈ items) : Inside depth bound level v := by
  have smaller := depth_le_of_mem_items member
  obtain ⟨reached, nonneg, low⟩ := inside
  simp only [Value.depth] at reached low
  exact ⟨by omega, nonneg, by omega⟩

/-- What stands in the fields of a node has room. -/
def Roomy (depth : Nat) (bound level : Int) (fields : Fields) : Prop :=
  ∀ {name v}, fields.lookup name = some v → Inside depth bound level v

/-- A node that a printer one level up reaches leaves room for its fields. -/
theorem roomy_of_depth {tag : Value} {fields : Fields}
    (reached : (Value.node tag fields).depth ≤ depth + 1) (nonneg : 0 ≤ level)
    (low : level + (Value.node tag fields).depth ≤ bound) : Roomy depth bound level fields := by
  intro name v found
  have smaller := depth_le_of_lookup found
  simp only [Value.depth] at reached low
  exact ⟨by omega, nonneg, by omega⟩

theorem Inside.fields {tag : Value} {fields : Fields}
    (inside : Inside depth bound level (.node tag fields)) : Roomy depth bound level fields := by
  obtain ⟨reached, nonneg, low⟩ := inside
  exact roomy_of_depth (Nat.le_succ_of_le reached) nonneg (by omega)

end Room

/-! ## Printers -/

/-- The tags of nodes that are printed as statements. -/
def printedTags : List String :=
  "Program" :: "SwitchCase" :: "CatchClause" :: statementTags

/-- A printer that prints what is well-formed up to a depth, where margins up to a bound can be
made. -/
structure Prints (E : Fault → Prop) (p : Printer) (depth : Nat) (bound : Int) : Prop where
  margin : ∀ level, 0 ≤ level → level ≤ bound → Answers E (p.margin level)
  expression : ∀ (place : Place) (precedence : Precedence) (v : Value),
    fits Syntax.expression v = true → v.depth ≤ depth → 0 ≤ place.level →
    place.level + v.depth ≤ bound → Gives E Phrase.IsDoc (p.expression place precedence v)
  statement : ∀ (level : Int) (v : Value), fits (.one printedTags) v = true → v.depth ≤ depth →
    0 ≤ level → level + v.depth ≤ bound → Answers E (p.statement level v)

section Parts

variable {E : Fault → Prop} {p : Printer} {depth : Nat} {bound level : Int} {v : Value}

theorem Prints.phrase (prints : Prints E p depth bound) {place : Place} (precedence : Precedence)
    (fit : fits Syntax.expression v = true) (inside : Inside depth bound level v)
    (near : Near level place.level) : Gives E Phrase.IsDoc (p.expression place precedence v) :=
  prints.expression place precedence v fit inside.reached (Int.le_trans inside.nonneg near.above)
    (by have := inside.low; have := near.close; omega)

theorem Prints.shown (prints : Prints E p depth bound) {place : Place} (precedence : Precedence)
    (fit : fits Syntax.expression v = true) (inside : Inside depth bound level v)
    (near : Near level place.level) : Answers E (p.shown place precedence v) :=
  (prints.phrase precedence fit inside near).bind fun _ _ => trivial

theorem Prints.glued (prints : Prints E p depth bound) {place : Place} (precedence : Precedence)
    (fit : fits Syntax.expression v = true) (inside : Inside depth bound level v)
    (near : Near level place.level) : Answers E (p.glued place precedence v) := by
  refine (prints.phrase precedence fit inside near).bind fun phrase isDoc => ?_
  obtain ⟨d, rfl⟩ := isDoc
  trivial

theorem Prints.printed (prints : Prints E p depth bound) {at' : Int}
    (fit : fits (.one printedTags) v = true) (inside : Inside depth bound level v)
    (near : Near level at') : Answers E (p.statement at' v) :=
  prints.statement at' v fit inside.reached (Int.le_trans inside.nonneg near.above)
    (by have := inside.low; have := near.close; omega)

theorem Prints.inner (prints : Prints E p depth bound) {at' : Int}
    (fit : fits Syntax.statement v = true) (inside : Inside depth bound level v)
    (near : Near level at') : Answers E (p.statement at' v) :=
  prints.printed (fits_mono fit (by decide)) inside near

theorem joined_answers {phrases : List Phrase} (separator : String)
    (docs : ∀ phrase ∈ phrases, phrase.IsDoc) : Answers E (Phrase.joined separator phrases) := by
  refine Gives.bind (Gives.mapM (Q := fun _ => True) fun phrase member => ?_) fun _ _ => trivial
  obtain ⟨d, rfl⟩ := docs phrase member
  trivial

theorem Prints.commaList (prints : Prints E p depth bound) {place : Place} {items : List Value}
    (fit : ∀ item ∈ items, fits Syntax.expression item = true)
    (inside : Inside depth bound level (.seq items)) (near : Near level place.level) :
    Answers E (p.commaList place (.seq items)) := by
  simp only [Printer.commaList, Value.items, ok_bind]
  refine Gives.bind (Gives.mapM fun item member => ?_) fun phrases docs => joined_answers _ docs
  exact prints.phrase _ (fit item member) (inside.item member) near

theorem Prints.indent (prints : Prints E p depth bound) {at' : Int} (within : Within bound level)
    (near : Near level at') : Answers E (p.margin at') :=
  prints.margin at' (Int.le_trans within.nonneg near.above) (Int.le_trans near.close within.wide)

theorem Prints.line (prints : Prints E p depth bound) {at' : Int} (within : Within bound level)
    (near : Near level at') : Answers E (p.line at') :=
  (prints.indent within near).bind fun _ _ => trivial

theorem Prints.statementLines (prints : Prints E p depth bound) {at' : Int} {items : List Value}
    (fit : ∀ item ∈ items, fits Syntax.statement item = true)
    (inside : Inside depth bound level (.seq items)) (near : Near level at') :
    Answers E (p.statementLines at' (.seq items)) := by
  simp only [Printer.statementLines, Value.items, ok_bind]
  refine Gives.bind (Gives.mapM (Q := fun _ => True) fun item member => ?_) fun _ _ => trivial
  refine (prints.indent inside.within near).bind fun _ _ => ?_
  exact (prints.inner (fit item member) (inside.item member) near).bind fun _ _ => trivial

end Parts

/-! ## Fields of nodes -/

/-- A well-formed node with room for what stands in its fields. -/
structure Standing (depth : Nat) (bound level : Int) (tag : String) (fields : Fields) : Prop where
  formed : Formed tag fields
  roomy : Roomy depth bound level fields
  within : Within bound level

/-- A node with one of the tags that has room. -/
structure Part (depth : Nat) (bound level : Int) (tags : List String) (v : Value) : Prop where
  fit : fits (.one tags) v = true
  inside : Inside depth bound level v

section Standing

variable {E : Fault → Prop} {depth : Nat} {bound level : Int} {tag name : String} {fields : Fields}
  {tags : List String}

theorem Part.standing {v : Value} (part : Part depth bound level tags v) :
    ∃ tag fields, v = .tagged tag fields ∧ tag ∈ tags ∧ Standing depth bound level tag fields := by
  obtain ⟨tag, fields, rfl, admitted, formed⟩ := fits_one.mp part.fit
  exact ⟨tag, fields, rfl, admitted, formed, part.inside.fields, part.inside.within⟩

namespace Standing

theorem one (node : Standing depth bound level tag fields)
    (declared : (fieldsOf tag).lookup name = some (.one tags)) :
    Gives E (Part depth bound level tags) ((Value.tagged tag fields).field name) := by
  obtain ⟨v, found, fit⟩ := node.formed.required declared rfl
  rw [Value.tagged, Value.field_of_lookup found]
  exact ⟨fit, node.roomy found⟩

theorem many (node : Standing depth bound level tag fields)
    (declared : (fieldsOf tag).lookup name = some (.many tags)) :
    Gives E (fun v => ∃ items, v = .seq items ∧ (∀ item ∈ items, fits (.one tags) item = true) ∧
      Inside depth bound level (.seq items)) ((Value.tagged tag fields).field name) := by
  obtain ⟨items, found, each⟩ := node.formed.many declared
  rw [Value.tagged, Value.field_of_lookup found]
  exact ⟨items, rfl, each, node.roomy found⟩

theorem opt (node : Standing depth bound level tag fields)
    (declared : (fieldsOf tag).lookup name = some (.opt tags)) :
    Gives E (fun found => ∀ v, found = some v → Part depth bound level tags v)
      ((Value.tagged tag fields).optional name) := by
  rcases node.formed.optional declared with missing | ⟨v, found, fit, answer⟩
  · rw [missing]
    intro v isSome
    cases isSome
  · rw [answer]
    intro _ same
    cases same
    exact ⟨fit, node.roomy found⟩

theorem maybe (node : Standing depth bound level tag fields)
    (declared : (fieldsOf tag).lookup name = some (.maybe tags)) :
    Gives E (fun found => ∀ v, found = some v → Part depth bound level tags v)
      ((Value.tagged tag fields).optional name) := by
  obtain ⟨v, found, fit⟩ := node.formed.required declared rfl
  rcases fits_maybe.mp fit with rfl | fit
  · rw [Value.tagged, Value.optional_of_null found]
    intro v isSome
    cases isSome
  · obtain ⟨_, _, rfl, -⟩ := fits_one.mp fit
    rw [Value.tagged, Value.optional_of_lookup found (by simp)]
    intro _ same
    cases same
    exact ⟨fit, node.roomy found⟩

theorem bare (node : Standing depth bound level tag fields)
    (declared : (fieldsOf tag).lookup name = some .bare) :
    Answers E ((Value.tagged tag fields).field name) := by
  obtain ⟨v, found, -⟩ := node.formed.required declared rfl
  rw [Value.tagged, Value.field_of_lookup found]
  trivial

theorem text (node : Standing depth bound level tag fields)
    (declared : (fieldsOf tag).lookup name = some .text) :
    Gives E (fun v => ∃ s, v = .str s) ((Value.tagged tag fields).field name) := by
  obtain ⟨s, found⟩ := node.formed.text declared
  rw [Value.tagged, Value.field_of_lookup found]
  exact ⟨s, rfl⟩

end Standing

theorem flag_gives (tag name : String) (fields : Fields) :
    Gives E (· = Value.truthy? (fields.lookup name)) (flag (.tagged tag fields) name) := by
  show Value.truthy ((fields.lookup name).getD .null) = _
  cases fields.lookup name <;> rfl

/-- The name of an identifier is a text. -/
theorem Part.nameText {v : Value} (part : Part depth bound level ["Identifier"] v) :
    Gives E (fun v => ∃ s, v = .str s) (v.field "name") := by
  obtain ⟨tag, fields, rfl, isIdentifier, node⟩ := part.standing
  obtain rfl := List.mem_singleton.mp isIdentifier
  exact node.text rfl

end Standing

/-- Following fields from node to node ends if every field that is named holds such a node. -/
theorem descend_ok (next : Value → Fields → Except Fault (Option String)) {tags : List String}
    (goes : ∀ tag fields, tag ∈ tags → Formed tag fields → next (.str tag) fields = .ok none ∨
      ∃ name v, next (.str tag) fields = .ok (some name) ∧ fields.lookup name = some v ∧
        fits (.one tags) v = true) (v : Value) (fit : fits (.one tags) v = true) :
    ∃ base, v.descend next = .ok base := by
  obtain ⟨tag, fields, rfl, admitted, formed⟩ := fits_one.mp fit
  rcases goes tag fields admitted formed with stops | ⟨name, inner, goesOn, found, innerFits⟩
  · exact ⟨.tagged tag fields, by simp [Value.descend, stops]⟩
  · have smaller := @Value.size_lt_of_lookup (.str tag) _ _ _ found
    obtain ⟨base, answer⟩ := descend_ok next goes inner innerFits
    exact ⟨base, by simp [Value.descend, goesOn, Value.descendInto_eq, found, answer]⟩
termination_by v.size

end Untangle.Print
