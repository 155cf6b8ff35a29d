import Untangle.Proofs.Reshape.Rules
import Untangle.Proofs.Tree.Everywhere

/-!
# The declarators of a loop head

A loop declared with `var` keeps the declarators that its test or its update needs, and moves the
others out in front. No initializer may overtake another on the way, so behind a declarator that
stays and has an initializer everything stays.

Section 11 of the specification lists this as correctness of hoisting from loops.

* `Binds` says which names a declaration target binds, and `boundNames_told` that these are listed.
* `Sorted` says what is done with each declarator in turn, `partitionDeclarators_sorted` that a loop
  head is sorted so, and `Partition` what follows for the two lists.
* `hoistDeclarators_partition` says it of a loop, with what becomes of its head. The exception in it
  is a head without any declarators, `hoistDeclarators_emptyHead`.
-/

namespace Untangle.Reshape

open Syntax

/-! ## The names of a target -/

/-- A field is looked up by going through the fields, which is the lookup. -/
theorem boundIn_eq (accept : Value → Except Fault Unit) (tag : Value) (name : String)
    (fields : Fields) :
    Value.boundIn accept tag name fields =
      match fields.lookup name with
      | some v => v.boundNamesWith accept
      | none => .error (.noField tag.plainText name) := by
  induction fields with
  | nil => simp [Value.boundIn]
  | cons field rest ih =>
    obtain ⟨k, v⟩ := field
    by_cases same : k = name
    · subst same
      simp [Value.boundIn]
    · simp only [Value.boundIn, if_neg same, ih, List.lookup_cons, beq_false_of_ne (Ne.symm same)]

theorem boundInElements_eq (accept : Value → Except Fault Unit) {fields : Fields}
    {items : List Value} (found : fields.lookup "elements" = some (.seq items)) :
    Value.boundInElements accept fields = Value.boundByEach accept items := by
  induction fields with
  | nil => simp at found
  | cons field rest ih =>
    obtain ⟨k, v⟩ := field
    by_cases same : k = "elements"
    · subst same
      simp only [List.lookup_cons_self, Option.some.injEq] at found
      subst found
      simp [Value.boundInElements]
    · simp only [List.lookup_cons, beq_false_of_ne (Ne.symm same)] at found
      cases v <;> simp only [Value.boundInElements, if_neg same, ih found]

theorem boundInProperties_eq (accept : Value → Except Fault Unit) {fields : Fields}
    {items : List Value} (found : fields.lookup "properties" = some (.seq items)) :
    Value.boundInProperties accept fields = Value.boundByProperties accept items := by
  induction fields with
  | nil => simp at found
  | cons field rest ih =>
    obtain ⟨k, v⟩ := field
    by_cases same : k = "properties"
    · subst same
      simp only [List.lookup_cons_self, Option.some.injEq] at found
      subst found
      simp [Value.boundInProperties]
    · simp only [List.lookup_cons, beq_false_of_ne (Ne.symm same)] at found
      cases v <;> simp only [Value.boundInProperties, if_neg same, ih found]

/-- The part of a property of an object pattern that binds names. -/
def TargetOf (property target : Value) : Prop :=
  ∃ tag fields, property = .tagged tag fields ∧
    fields.lookup (if tag = "RestElement" then "argument" else "value") = some target

/-- The name is one that the declaration target binds. -/
inductive Binds : Value → String → Prop where
  | identifier {fields : Fields} {name : String} (named : fields.lookup "name" = some (.str name)) :
      Binds (.tagged "Identifier" fields) name
  | element {fields : Fields} {items : List Value} {item : Value} {name : String}
      (elements : fields.lookup "elements" = some (.seq items)) (member : item ∈ items)
      (bound : Binds item name) : Binds (.tagged "ArrayPattern" fields) name
  | property {fields : Fields} {items : List Value} {item target : Value} {name : String}
      (properties : fields.lookup "properties" = some (.seq items)) (member : item ∈ items)
      (targetOf : TargetOf item target) (bound : Binds target name) :
      Binds (.tagged "ObjectPattern" fields) name
  | default {fields : Fields} {target : Value} {name : String}
      (left : fields.lookup "left" = some target) (bound : Binds target name) :
      Binds (.tagged "AssignmentPattern" fields) name
  | rest {fields : Fields} {target : Value} {name : String}
      (argument : fields.lookup "argument" = some target) (bound : Binds target name) :
      Binds (.tagged "RestElement" fields) name

/-- What a target that binds a name has it from. -/
structure BindsFrom (tag : String) (fields : Fields) (name : String) : Prop where
  identifier : tag = "Identifier" → fields.lookup "name" = some (.str name)
  elements : tag = "ArrayPattern" → ∃ items, fields.lookup "elements" = some (.seq items) ∧
    ∃ item ∈ items, Binds item name
  properties : tag = "ObjectPattern" → ∃ items, fields.lookup "properties" = some (.seq items) ∧
    ∃ item ∈ items, ∃ target, TargetOf item target ∧ Binds target name
  left : tag = "AssignmentPattern" → ∃ target, fields.lookup "left" = some target ∧ Binds target name
  argument : tag = "RestElement" → ∃ target, fields.lookup "argument" = some target ∧
    Binds target name

/-- A name that a target binds comes from the field that the kind of target has for it. -/
theorem Binds.source {tag : String} {fields : Fields} {name : String}
    (binds : Binds (.tagged tag fields) name) : BindsFrom tag fields name := by
  cases binds with
  | identifier named => constructor <;> simp [named]
  | element elements member bound => constructor <;> simp [elements]; exact ⟨_, member, bound⟩
  | property properties member targetOf bound =>
    constructor <;> simp [properties]
    exact ⟨_, member, _, targetOf, bound⟩
  | default left bound => constructor <;> simp [left, bound]
  | rest argument bound => constructor <;> simp [argument, bound]

/-- Whoever accepts every text is told the names, in order. -/
def Tells (ask : (Value → Except Fault Unit) → Except Fault (List Value)) (names : List String) :
    Prop :=
  ∀ accept, (∀ name, accept (.str name) = .ok ()) → ask accept = .ok (names.map .str)

/-- What two parts tell one after the other. -/
theorem Tells.append {first second third : (Value → Except Fault Unit) → Except Fault (List Value)}
    {here later : List String} (tellsHere : Tells first here) (tellsLater : Tells second later)
    (both : ∀ accept, third accept = (do return (← first accept) ++ (← second accept))) :
    Tells third (here ++ later) := by
  intro accept lenient
  rw [both, tellsHere accept lenient, tellsLater accept lenient]
  simp

/-- The names that a value binds can be told, and they are these. -/
structure BindsJust (v : Value) (names : List String) : Prop where
  told : Tells (fun accept => v.boundNamesWith accept) names
  bound : ∀ name, name ∈ names ↔ Binds v name

/-- The elements of a pattern bind what each of them binds: by induction on the elements. -/
theorem boundByEach_told {items : List Value}
    (each : ∀ item ∈ items, ∃ names, BindsJust item names) :
    ∃ names, Tells (fun accept => Value.boundByEach accept items) names ∧
      ∀ name, name ∈ names ↔ ∃ item ∈ items, Binds item name := by
  induction items with
  | nil => exact ⟨[], fun _ _ => by simp [Value.boundByEach], by simp⟩
  | cons item rest ih =>
    obtain ⟨here, justHere⟩ := each item (by simp)
    obtain ⟨later, tells, bound⟩ := ih fun other member => each other (by simp [member])
    exact ⟨here ++ later, justHere.told.append tells fun accept => by simp only [Value.boundByEach],
      by simp [justHere.bound, bound]⟩

/-- The part of a property that binds names. -/
theorem property_target {tag : String} {fields : Fields} (formed : Formed tag fields)
    (isProperty : tag ∈ ["Property", "RestElement"]) :
    ∃ name target, fields.lookup name = some target ∧ fits expression target = true ∧
      (∀ other, TargetOf (.tagged tag fields) other ↔ other = target) ∧
      ∀ accept rest, Value.boundByProperties accept (.tagged tag fields :: rest) =
        (do return (← target.boundNamesWith accept) ++ (← Value.boundByProperties accept rest)) := by
  have only {name : String} {target : Value} (targetIs : fields.lookup name = some target)
      (isName : name = if tag = "RestElement" then "argument" else "value") (other : Value) :
      TargetOf (.tagged tag fields) other ↔ other = target := by
    rw [isName] at targetIs
    constructor
    · rintro ⟨_, _, same, otherIs⟩
      cases same
      exact Option.some.inj (otherIs.symm.trans targetIs)
    · rintro rfl
      exact ⟨tag, fields, rfl, targetIs⟩
  simp only [List.mem_cons, List.not_mem_nil, or_false] at isProperty
  rcases isProperty with rfl | rfl
  · obtain ⟨target, targetIs, targetFits⟩ := formed.required
      (show (fieldsOf "Property").lookup "value" = some expression from rfl) rfl
    refine ⟨"value", target, targetIs, targetFits, only targetIs rfl, fun accept rest => ?_⟩
    simp [Value.boundByProperties, boundIn_eq, targetIs]
  · obtain ⟨target, targetIs, targetFits⟩ := formed.required
      (show (fieldsOf "RestElement").lookup "argument" = some expression from rfl) rfl
    refine ⟨"argument", target, targetIs, targetFits, only targetIs rfl, fun accept rest => ?_⟩
    simp [Value.boundByProperties, boundIn_eq, targetIs]

/-- The properties of a pattern bind what their targets bind, which are smaller than the pattern. -/
theorem boundByProperties_told {items : List Value}
    (each : ∀ item ∈ items, fits (.one ["Property", "RestElement"]) item = true)
    (targets : ∀ item ∈ items, ∀ target : Value, target.size < item.size →
      fits expression target = true → ∃ names, BindsJust target names) :
    ∃ names, Tells (fun accept => Value.boundByProperties accept items) names ∧
      ∀ name, name ∈ names ↔ ∃ item ∈ items, ∃ target, TargetOf item target ∧ Binds target name := by
  induction items with
  | nil => exact ⟨[], fun _ _ => by simp [Value.boundByProperties], by simp⟩
  | cons item rest ih =>
    obtain ⟨later, tells, bound⟩ := ih (fun other member => each other (by simp [member]))
      (fun other member => targets other (by simp [member]))
    obtain ⟨tag, fields, rfl, isProperty, formed⟩ := fits_one.mp (each item (by simp))
    obtain ⟨name, target, targetIs, targetFits, only, binds⟩ := property_target formed isProperty
    obtain ⟨here, justHere⟩ := targets (.tagged tag fields) (by simp) target
      (Value.size_lt_of_lookup targetIs) targetFits
    exact ⟨here ++ later, justHere.told.append tells fun accept => binds accept rest,
      by simp [justHere.bound, bound, only]⟩

/-- The tags of targets that bind names. -/
def targetTags : List String :=
  ["Identifier", "ArrayPattern", "ObjectPattern", "AssignmentPattern", "RestElement"]

/-- What is no target binds nothing. -/
theorem bindsJust_other {tag : String} (fields : Fields) (other : tag ∉ targetTags) :
    BindsJust (.tagged tag fields) [] := by
  simp only [targetTags, List.mem_cons, List.not_mem_nil, or_false, not_or] at other
  refine ⟨fun accept _ => ?_, fun name => ?_⟩
  · show Value.boundNamesWith accept (.tagged tag fields) = .ok []
    rw [Value.boundNamesWith]
    all_goals
      intro same
      cases same
      simp at other
  · simp only [List.not_mem_nil, false_iff]
    intro binds
    cases binds <;> simp at other

theorem bindsJust_null : BindsJust .null [] := by
  refine ⟨fun _ _ => by simp [Value.boundNamesWith], fun name => ?_⟩
  simp only [List.not_mem_nil, false_iff]
  rintro ⟨⟩

theorem bindsJust_identifier {fields : Fields} {name : String}
    (nameIs : fields.lookup "name" = some (.str name)) :
    BindsJust (.tagged "Identifier" fields) [name] := by
  refine ⟨fun accept lenient => ?_, fun other => ?_⟩
  · simp [Value.boundNamesWith, Value.field_of_lookup nameIs, lenient]
  · rw [List.mem_singleton]
    constructor
    · rintro rfl
      exact .identifier nameIs
    · intro binds
      have named := nameIs.symm.trans (binds.source.identifier rfl)
      cases named
      rfl

theorem bindsJust_elements {fields : Fields} {items : List Value}
    (elementsAre : fields.lookup "elements" = some (.seq items))
    (each : ∀ item ∈ items, ∃ names, BindsJust item names) :
    ∃ names, BindsJust (.tagged "ArrayPattern" fields) names := by
  obtain ⟨names, tells, bound⟩ := boundByEach_told each
  refine ⟨names, fun accept lenient => ?_, fun name => (bound name).trans ⟨?_, ?_⟩⟩
  · simp only [Value.boundNamesWith, boundInElements_eq accept elementsAre]
    exact tells accept lenient
  · rintro ⟨item, member, binds⟩
    exact .element elementsAre member binds
  · intro binds
    obtain ⟨others, elements, within⟩ := binds.source.elements rfl
    cases elementsAre.symm.trans elements
    exact within

theorem bindsJust_properties {fields : Fields} {items : List Value}
    (itemsAre : fields.lookup "properties" = some (.seq items))
    (each : ∀ item ∈ items, fits (.one ["Property", "RestElement"]) item = true)
    (targets : ∀ item ∈ items, ∀ target : Value, target.size < item.size →
      fits expression target = true → ∃ names, BindsJust target names) :
    ∃ names, BindsJust (.tagged "ObjectPattern" fields) names := by
  obtain ⟨names, tells, bound⟩ := boundByProperties_told each targets
  refine ⟨names, fun accept lenient => ?_, fun name => (bound name).trans ⟨?_, ?_⟩⟩
  · simp only [Value.boundNamesWith, boundInProperties_eq accept itemsAre]
    exact tells accept lenient
  · rintro ⟨item, member, target, targetOf, binds⟩
    exact .property itemsAre member targetOf binds
  · intro binds
    obtain ⟨others, properties, within⟩ := binds.source.properties rfl
    cases itemsAre.symm.trans properties
    exact within

/-- A node that binds what one of its fields binds, as a target with a default and a rest do. -/
theorem bindsJust_through {tag field : String} {fields : Fields} {target : Value} {names : List String}
    (targetIs : fields.lookup field = some target)
    (goesOn : ∀ accept, Value.boundNamesWith accept (.tagged tag fields) =
      Value.boundIn accept (.str tag) field fields)
    (binds : ∀ name, Binds (.tagged tag fields) name ↔ Binds target name)
    (just : BindsJust target names) : BindsJust (.tagged tag fields) names := by
  refine ⟨fun accept lenient => ?_, fun name => (just.bound name).trans (binds name).symm⟩
  simp only [goesOn, boundIn_eq, targetIs]
  exact just.told accept lenient

/-- A target with a default binds what the target does. -/
theorem binds_default {fields : Fields} {target : Value}
    (targetIs : fields.lookup "left" = some target) (name : String) :
    Binds (.tagged "AssignmentPattern" fields) name ↔ Binds target name := by
  refine ⟨fun binds => ?_, .default targetIs⟩
  obtain ⟨other, left, within⟩ := binds.source.left rfl
  cases targetIs.symm.trans left
  exact within

theorem binds_rest {fields : Fields} {target : Value}
    (targetIs : fields.lookup "argument" = some target) (name : String) :
    Binds (.tagged "RestElement" fields) name ↔ Binds target name := by
  refine ⟨fun binds => ?_, .rest targetIs⟩
  obtain ⟨other, argument, within⟩ := binds.source.argument rfl
  cases targetIs.symm.trans argument
  exact within

/-- The names that a well-formed target binds can be told. -/
theorem boundNames_told (v : Value) (fit : fits (.maybe expressionTags) v = true) :
    ∃ names, BindsJust v names := by
  rcases fits_maybe.mp fit with rfl | fit
  · exact ⟨[], bindsJust_null⟩
  obtain ⟨tag, fields, rfl, -, formed⟩ := fits_one.mp fit
  by_cases isTarget : tag ∈ targetTags
  case neg => exact ⟨[], bindsJust_other fields isTarget⟩
  simp only [targetTags, List.mem_cons, List.not_mem_nil, or_false] at isTarget
  rcases isTarget with rfl | rfl | rfl | rfl | rfl
  · obtain ⟨name, nameIs⟩ := named_of_formed formed
    exact ⟨[name], bindsJust_identifier nameIs⟩
  · obtain ⟨elements, elementsAre, elementsFit⟩ := formed.required
      (show (fieldsOf "ArrayPattern").lookup "elements" = some (.holes expressionTags) from rfl) rfl
    obtain ⟨items, rfl, each⟩ := fits_holes.mp elementsFit
    refine bindsJust_elements elementsAre fun item member => ?_
    have smaller := @Value.size_lt_of_lookup_seq (.str "ArrayPattern") _ _ _ _ elementsAre member
    exact boundNames_told item (each item member)
  · obtain ⟨items, itemsAre, each⟩ := formed.many (show (fieldsOf "ObjectPattern").lookup
      "properties" = some (.many ["Property", "RestElement"]) from rfl)
    refine bindsJust_properties itemsAre each fun item member target below targetFits => ?_
    have above := @Value.size_lt_of_lookup_seq (.str "ObjectPattern") _ _ _ _ itemsAre member
    have smaller := Nat.lt_trans below above
    exact boundNames_told target (fits_maybe.mpr (Or.inr targetFits))
  · obtain ⟨target, targetIs, targetFits⟩ := formed.required
      (show (fieldsOf "AssignmentPattern").lookup "left" = some expression from rfl) rfl
    have smaller := @Value.size_lt_of_lookup (.str "AssignmentPattern") _ _ _ targetIs
    obtain ⟨names, just⟩ := boundNames_told target (fits_maybe.mpr (Or.inr targetFits))
    exact ⟨names, bindsJust_through targetIs (fun accept => by simp only [Value.boundNamesWith])
      (binds_default targetIs) just⟩
  · obtain ⟨target, targetIs, targetFits⟩ := formed.required
      (show (fieldsOf "RestElement").lookup "argument" = some expression from rfl) rfl
    have smaller := @Value.size_lt_of_lookup (.str "RestElement") _ _ _ targetIs
    obtain ⟨names, just⟩ := boundNames_told target (fits_maybe.mpr (Or.inr targetFits))
    exact ⟨names, bindsJust_through targetIs (fun accept => by simp only [Value.boundNamesWith])
      (binds_rest targetIs) just⟩
termination_by v.size

theorem bindsOneOf_ok (names : List Value) {target : Value} (fit : fits expression target = true) :
    ∃ b, Rule.bindsOneOf names target = .ok b := by
  obtain ⟨bound, just⟩ := boundNames_told target (fits_maybe.mpr (Or.inr fit))
  simp only [Rule.bindsOneOf, just.told Rule.requireKey fun _ => rfl, ok_bind, pure_ok]
  exact ⟨_, rfl⟩

/-- Whether a target binds one of the names is decided by the names that it binds. -/
theorem bindsOneOf_told (names : List String) {target : Value}
    (fit : fits expression target = true) :
    Rule.bindsOneOf (names.map .str) target = .ok true ↔ ∃ name ∈ names, Binds target name := by
  obtain ⟨bound, just⟩ := boundNames_told target (fits_maybe.mpr (Or.inr fit))
  have asked : target.boundNamesWith Rule.requireKey = .ok (bound.map .str) :=
    just.told Rule.requireKey fun _ => rfl
  simp [Rule.bindsOneOf, asked, ← just.bound, and_comm]

/-! ## The names of a test -/

/-- An identifier with the name stands in the value. -/
def Mentions (v : Value) (name : String) : Prop :=
  ∃ n ∈ v.walk, Named name n

theorem nameKey_named {n : Value} {name : String} (named : Named name n) :
    Rule.nameKey n = .ok (.str name) := by
  obtain ⟨fields, rfl, nameIs⟩ := named
  simp [Rule.nameKey, Value.field_of_lookup nameIs, Rule.requireKey, Value.isKey]

/-- An identifier has one name. -/
theorem Named.unique {n : Value} {name other : String} (named : Named name n)
    (again : Named other n) : name = other := by
  have same := (nameKey_named named).symm.trans (nameKey_named again)
  cases same
  rfl

/-- The names of a list of identifiers. -/
theorem nameKeys_told {nodes : List Value} (each : ∀ n ∈ nodes, ∃ name, Named name n) :
    ∃ names : List String, nodes.mapM Rule.nameKey = .ok (names.map .str) ∧
      ∀ name, name ∈ names ↔ ∃ n ∈ nodes, Named name n := by
  induction nodes with
  | nil => exact ⟨[], rfl, by simp⟩
  | cons n rest ih =>
    obtain ⟨name, named⟩ := each n (by simp)
    obtain ⟨names, told, listed⟩ := ih fun other member => each other (by simp [member])
    refine ⟨name :: names, by simp [List.mapM_cons, nameKey_named named, told], fun other => ?_⟩
    have same : other = name ↔ Named other n :=
      ⟨fun same => same ▸ named, fun again => again.unique named⟩
    simp [listed, same]

/-- The names that well-formed values mention can be told. -/
theorem identifierNames_told {slot : Slot} {values : List Value}
    (fit : fitItems slot values = true) :
    ∃ names : List String, Rule.identifierNames values = .ok (names.map .str) ∧
      ∀ name, name ∈ names ↔ ∃ v ∈ values, Mentions v name := by
  have each : ∀ n ∈ (Value.walkItems values).filter (·.hasTag "Identifier"), ∃ name, Named name n := by
    intro n member
    obtain ⟨walked, isIdentifier⟩ := List.mem_filter.mp member
    obtain ⟨tag, fields, rfl, formed⟩ := walkItems_formed fit n walked
    rw [hasTag_tagged, beq_iff_eq] at isIdentifier
    subst isIdentifier
    obtain ⟨name, nameIs⟩ := named_of_formed formed
    exact ⟨name, fields, rfl, nameIs⟩
  obtain ⟨names, told, listed⟩ := nameKeys_told each
  refine ⟨names, told, fun name => (listed name).trans ⟨?_, ?_⟩⟩
  · rintro ⟨n, member, named⟩
    obtain ⟨v, within, walked⟩ := mem_walkItems (List.mem_filter.mp member).1
    exact ⟨v, within, n, walked, named⟩
  · rintro ⟨v, within, n, walked, named⟩
    refine ⟨n, List.mem_filter.mpr ⟨walkItems_of_mem within walked, ?_⟩, named⟩
    obtain ⟨fields, rfl, -⟩ := named
    rfl

/-! ## Sorting -/

def initialized (declarator : Value) : Bool :=
  match declarator.optional "init" with
  | .ok (some _) => true
  | _ => false

theorem initialized_some {declarator init : Value}
    (found : declarator.optional "init" = .ok (some init)) : initialized declarator = true := by
  simp only [initialized, found]

theorem initialized_none {declarator : Value} (missing : declarator.optional "init" = .ok none) :
    initialized declarator = false := by
  simp only [initialized, missing]

/-- The declarators of a loop head, taken in turn, as those that stay and those that move out. Some
stay for their own sake, and behind an initializer that stays all do. -/
inductive Sorted (stays : Value → Prop) : List Value → List Value → List Value → Prop where
  | nil : Sorted stays [] [] []
  | fixed (declarator : Value) (rest : List Value) (held : stays declarator)
      (hasInit : ∃ init, declarator.optional "init" = .ok (some init)) :
      Sorted stays (declarator :: rest) (declarator :: rest) []
  | bare (declarator : Value) (rest kept moved : List Value) (held : stays declarator)
      (noInit : declarator.optional "init" = .ok none) (after : Sorted stays rest kept moved) :
      Sorted stays (declarator :: rest) (declarator :: kept) moved
  | move (declarator : Value) (rest kept moved : List Value) (free : ¬ stays declarator)
      (after : Sorted stays rest kept moved) :
      Sorted stays (declarator :: rest) kept (declarator :: moved)

/-- What can be said of the two lists whatever the declarators stay for. -/
structure Partition (stays : Value → Prop) (declarators kept moved : List Value) : Prop where
  kept_sublist : kept.Sublist declarators
  moved_sublist : moved.Sublist declarators
  once : (moved ++ kept).Perm declarators
  /-- No initializer overtakes another. -/
  initializers : (moved ++ kept).filter initialized = declarators.filter initialized
  free : ∀ d ∈ moved, ¬ stays d
  held : ∀ before d after, kept = before ++ d :: after →
    stays d ∨ ∃ earlier ∈ before, initialized earlier = true

namespace Sorted

variable {stays : Value → Prop} {declarators kept moved : List Value}

theorem congr {other : Value → Prop} (sorted : Sorted stays declarators kept moved)
    (same : ∀ d ∈ declarators, stays d ↔ other d) : Sorted other declarators kept moved := by
  induction sorted with
  | nil => exact .nil
  | fixed declarator rest held hasInit => exact .fixed _ _ ((same _ (by simp)).mp held) hasInit
  | bare declarator rest kept moved held noInit after ih =>
    exact .bare _ _ _ _ ((same _ (by simp)).mp held) noInit
      (ih fun d member => same d (by simp [member]))
  | move declarator rest kept moved free after ih =>
    exact .move _ _ _ _ (mt (same _ (by simp)).mpr free)
      (ih fun d member => same d (by simp [member]))

/-- What is sorted is parted in two, and no initializer overtakes another: by induction, with a case for
each way to sort the first declarator. -/
theorem partition (sorted : Sorted stays declarators kept moved) :
    Partition stays declarators kept moved := by
  induction sorted with
  | nil => constructor <;> simp
  | fixed declarator rest held hasInit =>
    refine ⟨.refl _, by simp, by simp, by simp, by simp, fun before d after split => ?_⟩
    cases before with
    | nil =>
      cases split
      exact .inl held
    | cons first others =>
      cases split
      obtain ⟨init, found⟩ := hasInit
      exact .inr ⟨_, List.mem_cons_self, initialized_some found⟩
  | bare declarator rest kept moved held noInit after ih =>
    refine ⟨ih.kept_sublist.cons_cons _, ih.moved_sublist.cons _,
      List.perm_middle.trans (ih.once.cons _), ?_, ih.free, fun before d after split => ?_⟩
    · simpa [List.filter_append, List.filter_cons, initialized_none noInit] using ih.initializers
    · cases before with
      | nil =>
        cases split
        exact .inl held
      | cons first others =>
        obtain ⟨rfl, later⟩ := List.cons.inj split
        exact (ih.held others d after later).imp_right fun ⟨earlier, member, hasInit⟩ =>
          ⟨earlier, List.mem_cons_of_mem _ member, hasInit⟩
  | move declarator rest kept moved free after ih =>
    refine ⟨ih.kept_sublist.cons _, ih.moved_sublist.cons_cons _, ih.once.cons _, ?_, ?_, ih.held⟩
    · rw [List.cons_append, List.filter_cons, List.filter_cons, ih.initializers]
    · rw [List.forall_mem_cons]
      exact ⟨free, ih.free⟩

/-- What stays stays again. -/
theorem again (sorted : Sorted stays declarators kept moved) : Sorted stays kept kept [] := by
  induction sorted with
  | nil => exact .nil
  | fixed declarator rest held hasInit => exact .fixed _ _ held hasInit
  | bare declarator rest kept moved held noInit after ih => exact .bare _ _ _ _ held noInit ih
  | move declarator rest kept moved free after ih => exact ih

/-- There is one way to sort. -/
theorem unique {others left : List Value} (sorted : Sorted stays declarators kept moved)
    (another : Sorted stays declarators others left) : kept = others ∧ moved = left := by
  induction sorted generalizing others left with
  | nil =>
    cases another
    exact ⟨rfl, rfl⟩
  | fixed declarator rest held hasInit =>
    cases another with
    | fixed => exact ⟨rfl, rfl⟩
    | bare _ _ _ _ _ noInit => simp [noInit] at hasInit
    | move _ _ _ _ free => exact absurd held free
  | bare declarator rest kept moved held noInit after ih =>
    cases another with
    | fixed _ _ _ hasInit => simp [noInit] at hasInit
    | bare _ _ _ _ _ _ later =>
      obtain ⟨rfl, rfl⟩ := ih later
      exact ⟨rfl, rfl⟩
    | move _ _ _ _ free => exact absurd held free
  | move declarator rest kept moved free after ih =>
    cases another with
    | fixed _ _ held => exact absurd held free
    | bare _ _ _ _ held => exact absurd held free
    | move _ _ _ _ _ later =>
      obtain ⟨rfl, rfl⟩ := ih later
      exact ⟨rfl, rfl⟩

end Sorted

theorem partitionDeclarators_initialized (names declarators : List Value) :
    Rule.partitionDeclarators names true declarators = .ok (declarators, []) := by
  induction declarators with
  | nil => rfl
  | cons declarator rest ih => simp [Rule.partitionDeclarators, ih]

/-- The declarators of a well-formed head are sorted by the names that they bind. -/
theorem partitionDeclarators_sorted (names : List Value) {declarators : List Value}
    (fit : ∀ d ∈ declarators, fits (.one ["VariableDeclarator"]) d = true) :
    ∃ kept moved, Rule.partitionDeclarators names false declarators = .ok (kept, moved) ∧
      Sorted (fun d => ∃ target, d.field "id" = .ok target ∧
        Rule.bindsOneOf names target = .ok true) declarators kept moved := by
  induction declarators with
  | nil => exact ⟨[], [], rfl, .nil⟩
  | cons declarator rest ih =>
    obtain ⟨kept, moved, restIs, sorted⟩ := ih fun d member => fit d (by simp [member])
    obtain ⟨tag, fields, rfl, isDeclarator, formed⟩ := fits_one.mp (fit declarator (by simp))
    rw [List.mem_singleton] at isDeclarator
    subst isDeclarator
    obtain ⟨target, targetIs, targetFits⟩ := formed.required
      (show (fieldsOf "VariableDeclarator").lookup "id" = some expression from rfl) rfl
    have read := @Value.field_of_lookup (.str "VariableDeclarator") _ _ _ targetIs
    obtain ⟨binds, bindsIs⟩ := bindsOneOf_ok names targetFits
    cases binds with
    | false =>
      refine ⟨kept, _ :: moved, ?_, .move _ _ _ _ ?_ sorted⟩
      · simp [Rule.partitionDeclarators, read, bindsIs, restIs]
      · simp [read, bindsIs]
    | true =>
      rcases formed.optional (show (fieldsOf "VariableDeclarator").lookup "init" =
        some (.opt expressionTags) from rfl) with missing | ⟨init, -, -, found⟩
      · refine ⟨_ :: kept, moved, ?_, .bare _ _ _ _ ⟨target, read, bindsIs⟩ missing sorted⟩
        simp [Rule.partitionDeclarators, read, bindsIs, restIs, missing]
      · refine ⟨_ :: rest, [], ?_, .fixed _ _ ⟨target, read, bindsIs⟩ ⟨init, found⟩⟩
        simp [Rule.partitionDeclarators, read, bindsIs, found, partitionDeclarators_initialized]

/-- The declarators that stay stay again. -/
theorem partitionDeclarators_again (names : List Value) {declarators kept moved : List Value}
    (fit : ∀ d ∈ declarators, fits (.one ["VariableDeclarator"]) d = true)
    (partitioned : Rule.partitionDeclarators names false declarators = .ok (kept, moved)) :
    Rule.partitionDeclarators names false kept = .ok (kept, []) := by
  obtain ⟨_, _, asked, sorted⟩ := partitionDeclarators_sorted names fit
  cases partitioned.symm.trans asked
  have keptFit : ∀ d ∈ kept, fits (.one ["VariableDeclarator"]) d = true :=
    fun d member => fit d (sorted.partition.kept_sublist.subset member)
  obtain ⟨_, _, askedAgain, sortedAgain⟩ := partitionDeclarators_sorted names keptFit
  obtain ⟨rfl, rfl⟩ := sortedAgain.unique sorted.again
  exact askedAgain

/-! ## Loop heads -/

/-- The declarators of a loop head as those that stay and those that move out. Those that move
overtake only declarators without an initializer. -/
inductive Splits : List Value → List Value → List Value → Prop where
  | nil : Splits [] [] []
  | rest (declarators : List Value) : Splits declarators declarators []
  | bare (declarator : Value) (rest kept moved : List Value)
      (noInit : declarator.optional "init" = .ok none) (after : Splits rest kept moved) :
      Splits (declarator :: rest) (declarator :: kept) moved
  | move (declarator : Value) (rest kept moved : List Value) (after : Splits rest kept moved) :
      Splits (declarator :: rest) kept (declarator :: moved)

namespace Splits

variable {declarators kept moved : List Value}

theorem mem_kept (splits : Splits declarators kept moved) {d : Value} (member : d ∈ kept) :
    d ∈ declarators := by
  induction splits with
  | nil => simp at member
  | rest declarators => exact member
  | bare declarator rest kept moved noInit after ih =>
    rcases List.mem_cons.mp member with rfl | member
    · simp
    · exact List.mem_cons_of_mem _ (ih member)
  | move declarator rest kept moved after ih => exact List.mem_cons_of_mem _ (ih member)

theorem mem_moved (splits : Splits declarators kept moved) {d : Value} (member : d ∈ moved) :
    d ∈ declarators := by
  induction splits with
  | nil => simp at member
  | rest declarators => simp at member
  | bare declarator rest kept moved noInit after ih => exact List.mem_cons_of_mem _ (ih member)
  | move declarator rest kept moved after ih =>
    rcases List.mem_cons.mp member with rfl | member
    · simp
    · exact List.mem_cons_of_mem _ (ih member)

end Splits

theorem Sorted.splits {stays : Value → Prop} {declarators kept moved : List Value}
    (sorted : Sorted stays declarators kept moved) : Splits declarators kept moved := by
  induction sorted with
  | nil => exact .nil
  | fixed declarator rest held hasInit => exact .rest _
  | bare declarator rest kept moved held noInit after ih => exact .bare _ _ _ _ noInit ih
  | move declarator rest kept moved free after ih => exact .move _ _ _ _ ih

/-- A loop with its declarators split: those that move are declared in front of it, and a loop that
keeps none starts with nothing. -/
def hoistedFrom (n init : Value) (kept moved : List Value) : List Value :=
  if moved.isEmpty then [n]
  else [Value.variableDeclaration moved (.str "var"),
    n.withField "init" (if kept.isEmpty then .null else init.withField "declarations" (.seq kept))]

/-- The declarators of a loop head, split by the names that the test and the update refer to. -/
structure HeadSplit (fields initFields : Fields) (declarators kept moved : List Value) : Prop where
  declared : initFields.lookup "declarations" = some (.seq declarators)
  each : ∀ d ∈ declarators, fits (.one ["VariableDeclarator"]) d = true
  partitioned : ∃ test update names, fields.lookup "test" = some test ∧
    fields.lookup "update" = some update ∧ Rule.identifierNames [test, update] = .ok names ∧
    Rule.partitionDeclarators names false declarators = .ok (kept, moved)

theorem HeadSplit.splits {fields initFields : Fields} {declarators kept moved : List Value}
    (split : HeadSplit fields initFields declarators kept moved) : Splits declarators kept moved := by
  obtain ⟨_, _, names, -, -, -, partitioned⟩ := split.partitioned
  obtain ⟨_, _, asked, sorted⟩ := partitionDeclarators_sorted names split.each
  cases partitioned.symm.trans asked
  exact sorted.splits

/-- Once the head is split, the rule answers with the declarations before the loop and the loop that
is left. -/
theorem HeadSplit.hoists {fields initFields : Fields} {declarators kept moved : List Value}
    (split : HeadSplit fields initFields declarators kept moved) :
    Rule.hoistDeclarators (.tagged "ForStatement" fields)
        (.tagged "VariableDeclaration" initFields) =
      .ok (hoistedFrom (.tagged "ForStatement" fields)
        (.tagged "VariableDeclaration" initFields) kept moved) := by
  obtain ⟨test, update, names, testIs, updateIs, namesAre, partitioned⟩ := split.partitioned
  simp only [Rule.hoistDeclarators, Value.field_of_lookup testIs, Value.field_of_lookup updateIs,
    ok_bind, namesAre, Value.field_of_lookup split.declared, Value.items, partitioned, hoistedFrom,
    pure_ok]
  split <;> rfl

theorem loop_parts {fields : Fields} (formed : Formed "ForStatement" fields) :
    ∃ test update, fields.lookup "test" = some test ∧ fields.lookup "update" = some update ∧
      fitItems (.maybe expressionTags) [test, update] = true := by
  obtain ⟨test, testIs, testFits⟩ := formed.required
    (show (fieldsOf "ForStatement").lookup "test" = some (.maybe expressionTags) from rfl) rfl
  obtain ⟨update, updateIs, updateFits⟩ := formed.required
    (show (fieldsOf "ForStatement").lookup "update" = some (.maybe expressionTags) from rfl) rfl
  exact ⟨test, update, testIs, updateIs, by simp [fitItems, testFits, updateFits]⟩

/-- Every well-formed loop with a declaration in its head is split in some way. -/
theorem headSplit_exists {fields initFields : Fields} (formed : Formed "ForStatement" fields)
    (initFormed : Formed "VariableDeclaration" initFields) :
    ∃ declarators kept moved, HeadSplit fields initFields declarators kept moved := by
  obtain ⟨test, update, testIs, updateIs, bothFit⟩ := loop_parts formed
  obtain ⟨declarators, declaratorsAre, each⟩ := initFormed.many (show (fieldsOf
    "VariableDeclaration").lookup "declarations" = some (.many ["VariableDeclarator"]) from rfl)
  obtain ⟨names, namesAre, -⟩ := identifierNames_told bothFit
  obtain ⟨kept, moved, partitioned, -⟩ := partitionDeclarators_sorted (names.map .str) each
  exact ⟨declarators, kept, moved, declaratorsAre, each, test, update, _, testIs, updateIs,
    namesAre, partitioned⟩

theorem hoistDeclarators_spec {fields initFields : Fields} (formed : Formed "ForStatement" fields)
    (initFormed : Formed "VariableDeclaration" initFields) :
    ∃ declarators kept moved, initFields.lookup "declarations" = some (.seq declarators) ∧
      (∀ d ∈ declarators, fits (.one ["VariableDeclarator"]) d = true) ∧
      Splits declarators kept moved ∧
      Rule.hoistDeclarators (.tagged "ForStatement" fields)
          (.tagged "VariableDeclaration" initFields) =
        .ok (hoistedFrom (.tagged "ForStatement" fields)
          (.tagged "VariableDeclaration" initFields) kept moved) := by
  obtain ⟨declarators, kept, moved, split⟩ := headSplit_exists formed initFormed
  exact ⟨declarators, kept, moved, split.declared, split.each, split.splits, split.hoists⟩

/-! ## What stays in a head -/

def Declares (declarator : Value) (name : String) : Prop :=
  ∃ target, declarator.field "id" = .ok target ∧ Binds target name

/-- The declarator binds a name that the test or the update of its loop mentions. -/
def Needed (test update declarator : Value) : Prop :=
  ∃ name, Declares declarator name ∧ (Mentions test name ∨ Mentions update name)

theorem declarator_target {declarator : Value}
    (fit : fits (.one ["VariableDeclarator"]) declarator = true) :
    ∃ target, declarator.field "id" = .ok target ∧ fits expression target = true := by
  obtain ⟨tag, fields, rfl, isDeclarator, formed⟩ := fits_one.mp fit
  rw [List.mem_singleton] at isDeclarator
  subst isDeclarator
  obtain ⟨target, targetIs, targetFits⟩ := formed.required
    (show (fieldsOf "VariableDeclarator").lookup "id" = some expression from rfl) rfl
  exact ⟨target, Value.field_of_lookup targetIs, targetFits⟩

/-- A declarator is needed if it binds a name that the test or the update mentions. -/
theorem needed_iff {names : List String} {test update declarator : Value}
    (listed : ∀ name, name ∈ names ↔ Mentions test name ∨ Mentions update name)
    (fit : fits (.one ["VariableDeclarator"]) declarator = true) :
    (∃ target, declarator.field "id" = .ok target ∧
      Rule.bindsOneOf (names.map .str) target = .ok true) ↔ Needed test update declarator := by
  obtain ⟨target, read, targetFits⟩ := declarator_target fit
  simp [Needed, Declares, read, bindsOneOf_told names targetFits, listed, and_comm]

/-- The declarators of a well-formed loop are sorted by what its test and its update mention. -/
theorem HeadSplit.sorted {fields initFields : Fields} {declarators kept moved : List Value}
    (split : HeadSplit fields initFields declarators kept moved)
    (formed : Formed "ForStatement" fields) :
    ∃ test update, fields.lookup "test" = some test ∧ fields.lookup "update" = some update ∧
      Sorted (Needed test update) declarators kept moved := by
  obtain ⟨test, update, testIs, updateIs, bothFit⟩ := loop_parts formed
  obtain ⟨_, _, _, sameTest, sameUpdate, namesAre, partitioned⟩ := split.partitioned
  cases testIs.symm.trans sameTest
  cases updateIs.symm.trans sameUpdate
  obtain ⟨names, told, listed⟩ := identifierNames_told bothFit
  cases namesAre.symm.trans told
  obtain ⟨_, _, asked, sorted⟩ := partitionDeclarators_sorted (names.map .str) split.each
  cases partitioned.symm.trans asked
  refine ⟨test, update, testIs, updateIs, sorted.congr fun d member => ?_⟩
  exact needed_iff (fun name => by simp [listed]) (split.each d member)

/-- If nothing is moved, everything is kept. -/
theorem Partition.kept_of_none {stays : Value → Prop} {declarators kept : List Value}
    (partition : Partition stays declarators kept []) : kept = declarators :=
  partition.kept_sublist.eq_of_length partition.once.length_eq

/-- The head that is left to a loop. -/
def keptInit (init : Value) (kept moved : List Value) : Value :=
  if kept.isEmpty && !moved.isEmpty then .null else init.withField "declarations" (.seq kept)

/-- The declarations that go before a loop. -/
def movedBefore (moved : List Value) : List Value :=
  if moved.isEmpty then [] else [Value.variableDeclaration moved (.str "var")]

theorem hoistedFrom_eq {stays : Value → Prop} {fields initFields : Fields}
    {declarators kept moved : List Value} (partition : Partition stays declarators kept moved)
    (initIs : fields.lookup "init" = some (.tagged "VariableDeclaration" initFields))
    (declared : initFields.lookup "declarations" = some (.seq declarators)) :
    hoistedFrom (.tagged "ForStatement" fields) (.tagged "VariableDeclaration" initFields) kept moved =
      movedBefore moved ++ [(Value.tagged "ForStatement" fields).withField "init"
        (keptInit (.tagged "VariableDeclaration" initFields) kept moved)] := by
  cases moved with
  | nil =>
    cases partition.kept_of_none
    simp [hoistedFrom, movedBefore, keptInit, Value.withField_lookup declared,
      Value.withField_lookup initIs]
  | cons d rest => simp [hoistedFrom, movedBefore, keptInit]

/-- The head of a loop becomes empty if something is moved and nothing is kept. -/
theorem keptInit_null {init : Value} {fields : Fields} (kept moved : List Value)
    (isNode : init = .tagged "VariableDeclaration" fields) :
    keptInit init kept moved = .null ↔ kept = [] ∧ moved ≠ [] := by
  subst isNode
  cases kept <;> cases moved <;> simp [keptInit, Value.withField]

/-- The loop stands alone if nothing is moved. -/
theorem movedBefore_only {moved : List Value} {n loop : Value} (same : moved = [] → loop = n) :
    movedBefore moved ++ [loop] = [n] ↔ moved = [] := by
  cases moved with
  | nil => simp [movedBefore, same]
  | cons d rest => simp [movedBefore]

/-- The names that are collected from a target are those that it binds. -/
theorem boundNames_binds {target : Value} (fit : fits expression target = true) :
    ∃ names : List String, target.boundNames = .ok (names.map .str) ∧
      ∀ name, name ∈ names ↔ Binds target name := by
  obtain ⟨names, just⟩ := boundNames_told target (fits_maybe.mpr (Or.inr fit))
  exact ⟨names, just.told _ fun _ => rfl, just.bound⟩

/-- A loop head is split in two, and nothing that the loop needs is lost. What moves out is declared
before the loop, what stays is left in its head, and no initializer overtakes another. A head that had
declarators and keeps none is removed, and a loop of which none moves is left as it is. -/
theorem hoistDeclarators_partition {fields initFields : Fields} {declarators : List Value}
    (formed : Formed "ForStatement" fields)
    (initIs : fields.lookup "init" = some (.tagged "VariableDeclaration" initFields))
    (declared : initFields.lookup "declarations" = some (.seq declarators)) :
    ∃ test update kept moved before init,
      fields.lookup "test" = some test ∧ fields.lookup "update" = some update ∧
      (∀ d ∈ declarators, ∃ target, ∃ names : List String, d.field "id" = .ok target ∧
        target.boundNames = .ok (names.map .str) ∧ ∀ name, name ∈ names ↔ Declares d name) ∧
      Partition (Needed test update) declarators kept moved ∧
      Rule.hoistDeclarators (.tagged "ForStatement" fields)
          (.tagged "VariableDeclaration" initFields) =
        .ok (before ++ [(Value.tagged "ForStatement" fields).withField "init" init]) ∧
      before = (if moved = [] then [] else [Value.variableDeclaration moved (.str "var")]) ∧
      (kept ≠ [] → init = (Value.tagged "VariableDeclaration" initFields).withField "declarations"
        (.seq kept)) ∧
      (init = .null ↔ kept = [] ∧ declarators ≠ []) ∧
      (before ++ [(Value.tagged "ForStatement" fields).withField "init" init] =
        [.tagged "ForStatement" fields] ↔ moved = []) := by
  have initFormed := (fits_node.mp (formed.fits_lookup initIs)).2
  obtain ⟨_, kept, moved, split⟩ := headSplit_exists formed initFormed
  cases declared.symm.trans split.declared
  obtain ⟨test, update, testIs, updateIs, sorted⟩ := split.sorted formed
  have partition := sorted.partition
  have hoists := split.hoists.trans (congrArg _ (hoistedFrom_eq partition initIs declared))
  refine ⟨test, update, kept, moved, _, _, testIs, updateIs, fun d member => ?_, partition, hoists,
    ?_, fun some => ?_, ?_, movedBefore_only fun none => ?_⟩
  · obtain ⟨target, read, targetFits⟩ := declarator_target (split.each d member)
    obtain ⟨names, told, bound⟩ := boundNames_binds targetFits
    exact ⟨target, names, read, told, fun name => by simp [Declares, read, bound]⟩
  · simp [movedBefore]
  · simp [keptInit, some]
  · rw [keptInit_null kept moved rfl]
    refine and_congr_right fun none => not_congr ?_
    have together := partition.once
    rw [none, List.append_nil] at together
    exact ⟨fun empty => (empty ▸ together).nil_eq.symm, fun empty => (empty ▸ together).eq_nil⟩
  · subst none
    cases partition.kept_of_none
    simp [keptInit, Value.withField_lookup declared, Value.withField_lookup initIs]

/-- A loop with an empty body that declares the variables and goes on while the test holds. -/
def varLoop (declarators : List Value) (test : Value) : Fields :=
  [("init", Value.variableDeclaration declarators (.str "var")), ("test", test), ("update", .null),
    ("body", .tagged "EmptyStatement" [])]

def declaratorOf (target init : Value) : Value :=
  .tagged "VariableDeclarator" [("id", target), ("init", init)]

def namedOf (name : String) : Value :=
  Value.identifier (.str name)

/-- The declarators of `var k = 1, i, [j, , ...more] = i, n = k`. -/
def mixedDeclarators : List Value :=
  [declaratorOf (namedOf "k") (Value.literal (.int 1) .null), declaratorOf (namedOf "i") .null,
    declaratorOf (.tagged "ArrayPattern" [("elements", .seq [namedOf "j", .null,
      .tagged "RestElement" [("argument", namedOf "more")]])]) (namedOf "i"),
    declaratorOf (namedOf "n") (namedOf "k")]

/-- The rest of an array pattern is needed, and what follows stays with it. -/
theorem hoistDeclarators_partition_mixed :
    Rule.partitionDeclarators [.str "more"] false mixedDeclarators =
        .ok (mixedDeclarators.drop 2, mixedDeclarators.take 2) ∧
      ∃ kept moved before init,
        Partition (Needed (namedOf "more") .null) mixedDeclarators kept moved ∧
        Rule.hoistDeclarators (.tagged "ForStatement" (varLoop mixedDeclarators (namedOf "more")))
            (Value.variableDeclaration mixedDeclarators (.str "var")) =
          .ok (before ++ [(Value.tagged "ForStatement" (varLoop mixedDeclarators
            (namedOf "more"))).withField "init" init]) ∧
        (init = .null ↔ kept = [] ∧ mixedDeclarators ≠ []) := by
  refine ⟨rfl, ?_⟩
  have fit : fits statement (.tagged "ForStatement" (varLoop mixedDeclarators (namedOf "more"))) =
      true := by decide
  obtain ⟨test, update, kept, moved, before, init, testIs, updateIs, -, partition, hoists, -, -,
    emptied, -⟩ := hoistDeclarators_partition (fits_node.mp fit).2 rfl rfl
  cases testIs
  cases updateIs
  exact ⟨kept, moved, before, init, partition, hoists, emptied⟩

/-- A head without any declarators keeps none and yet stays as it is. -/
theorem hoistDeclarators_emptyHead :
    fits statement (.tagged "ForStatement" (varLoop [] .null)) = true ∧
      Rule.partitionDeclarators [] false [] = .ok ([], []) ∧
      Rule.hoistDeclarators (.tagged "ForStatement" (varLoop [] .null))
          (Value.variableDeclaration [] (.str "var")) =
        .ok [.tagged "ForStatement" (varLoop [] .null)] ∧
      (Value.tagged "ForStatement" (varLoop [] .null)).field "init" ≠ .ok .null := by
  refine ⟨by decide, rfl, rfl, fun read => ?_⟩
  cases read

end Untangle.Reshape
