import Mathlib.Algebra.Ring.Nat
import Untangle.Proofs.Outcome
import Untangle.Proofs.Reshape.Unfolding

/-!
# Packings and what reads of a tree

Comma sequences, conditionals and short circuits are the expressions that rules take apart: the
packings. Their number in a value, well-formed or not, is what bounds how deep the rules call each
other. The number adds up over fields and members, and a replaced field exchanges its share.

Reading a tree may fail in many ways, but never because a depth is used up: only the engine has one.

* `packs` counts packings; `packs_withField` and `packs_distinct` are its two laws.
* `Shallow` says that a reading does not run out of depth, and there is a lemma for each reader.
-/

namespace Untangle.Reshape

/-! ## The number of packings -/

/-- Whether a tag is one of a packed expression. -/
def isPackedTag (tag : Value) : Bool :=
  packedTags.any tag.isText

mutual

/-- The number of packings in a value. Plain lists count: a rule may go through one. -/
def packs : Value → Nat
  | .node tag fields => (isPackedTag tag).toNat + packsFields fields
  | .seq items | .list items => packsItems items
  | _ => 0

def packsItems : List Value → Nat
  | [] => 0
  | v :: rest => packs v + packsItems rest

def packsFields : Fields → Nat
  | [] => 0
  | (_, v) :: rest => packs v + packsFields rest

end

mutual

/-- A packing is a node, so there are no more packings than nodes. This bounds the depth of the
engine by the size of a tree. -/
theorem packs_le_size : (v : Value) → packs v ≤ v.size
  | .node tag fields => by
    have parts := packsFields_le_size fields
    have one := Bool.toNat_le (isPackedTag tag)
    simp only [packs, Value.size]
    omega
  | .seq items | .list items => by
    have parts := packsItems_le_size items
    simp only [packs, Value.size]
    omega
  | .null | .bool _ | .int _ | .float _ | .str _ | .sealed _ | .object _ => by simp [packs]

theorem packsItems_le_size : (items : List Value) → packsItems items ≤ Value.sizeItems items
  | [] => Nat.le_refl _
  | v :: rest => Nat.add_le_add (packs_le_size v) (packsItems_le_size rest)

theorem packsFields_le_size : (fields : Fields) → packsFields fields ≤ Value.sizeEntries fields
  | [] => Nat.le_refl _
  | (_, v) :: rest => Nat.add_le_add (packs_le_size v) (packsFields_le_size rest)

end

@[simp] theorem packs_null : packs .null = 0 := rfl

@[simp] theorem packsItems_nil : packsItems [] = 0 := rfl

@[simp] theorem packsItems_cons (v : Value) (rest : List Value) :
    packsItems (v :: rest) = packs v + packsItems rest := rfl

@[simp] theorem packsItems_append (front back : List Value) :
    packsItems (front ++ back) = packsItems front + packsItems back := by
  induction front with
  | nil => simp
  | cons v rest ih => simp [ih, Nat.add_assoc]

/-- Characters and keys are texts, in which nothing is packed. -/
theorem packsItems_texts {α : Type} (text : α → String) (items : List α) :
    packsItems (items.map fun item => .str (text item)) = 0 := by
  induction items with
  | nil => rfl
  | cons item rest ih => simpa [packs] using ih

/-- Exchanging the value of a field exchanges its packings. -/
theorem packsFields_set {name : String} {old : Value} {fields : Fields} (new : Value)
    (found : fields.lookup name = some old) :
    packsFields (Fields.set name new fields) + packs old = packsFields fields + packs new := by
  induction fields with
  | nil => simp at found
  | cons field rest ih =>
    obtain ⟨k, v⟩ := field
    by_cases same : k = name
    · subst same
      obtain rfl : v = old := by simpa using found
      simp only [Fields.set, if_pos, packsFields]
      omega
    · rw [List.lookup_cons, beq_false_of_ne (Ne.symm same)] at found
      have later := ih found
      simp only [Fields.set, if_neg same, packsFields]
      omega

/-- What stands under distinct names adds up to no more than the whole. -/
theorem packs_distinct (names : List String) (distinct : names.Nodup) (fields : Fields) :
    (names.map fun name => packs ((fields.lookup name).getD .null)).sum ≤ packsFields fields := by
  induction names generalizing fields with
  | nil => simp
  | cons name rest ih =>
    obtain ⟨fresh, distinct⟩ := List.nodup_cons.mp distinct
    cases found : fields.lookup name with
    | none => simpa [found] using ih distinct fields
    | some v =>
      -- The other names read the same once this field is emptied.
      have others := ih distinct (Fields.set name .null fields)
      have unread : (rest.map fun other =>
            packs (((Fields.set name .null fields).lookup other).getD .null)) =
          rest.map fun other => packs ((fields.lookup other).getD .null) := by
        refine List.map_congr_left fun other member => ?_
        rw [Fields.lookup_set_of_ne _ _ (ne_of_mem_of_not_mem member fresh)]
      have exchanged := packsFields_set .null found
      rw [unread] at others
      simp only [List.map_cons, List.sum_cons, found, Option.getD_some, packs_null] at exchanged ⊢
      omega

/-- A field has at most the packings of its node, and one less if the node is a packing itself. -/
theorem packs_le_of_lookup (tag : Value) {name : String} {v : Value} {fields : Fields}
    (found : fields.lookup name = some v) :
    packs v + (isPackedTag tag).toNat ≤ packs (.node tag fields) := by
  have part := packs_distinct [name] (by simp) fields
  simp only [List.map_cons, found, Option.getD_some, List.map_nil, List.sum_cons, List.sum_nil] at part
  simp only [packs]
  omega

/-! ## Readers -/

/-- The reading does not run out of depth. -/
abbrev Shallow {α : Type} (x : Except Fault α) : Prop :=
  Answers (· ≠ .tooDeep) x

section Readers

variable {α β : Type}

/-- What a reading gives is what it gives. -/
theorem Shallow.exact {x : Except Fault α} (shallow : Shallow x) :
    Gives (· ≠ .tooDeep) (fun a => x = .ok a) x := by
  cases x with
  | ok a => rfl
  | error fault => exact shallow

theorem Shallow.bind {x : Except Fault α} {f : α → Except Fault β} (first : Shallow x)
    (next : ∀ a, Shallow (f a)) : Shallow (x >>= f) :=
  Gives.bind first fun a _ => next a

theorem Shallow.map {x : Except Fault α} (first : Shallow x) (f : α → β) : Shallow (x.map f) := by
  cases x with
  | ok a => trivial
  | error fault => exact first

/-- By induction on the list. -/
theorem Shallow.mapM {f : α → Except Fault β} {items : List α} (each : ∀ item, Shallow (f item)) :
    Shallow (items.mapM f) :=
  (Gives.mapM (Q := fun _ => True) fun item _ => each item).imp fun _ _ => trivial

theorem Shallow.ite {condition : Prop} [Decidable condition] {x y : Except Fault α}
    (yes : Shallow x) (no : Shallow y) : Shallow (if condition then x else y) := by
  split
  · exact yes
  · exact no

theorem Shallow.pure (a : α) : Shallow (Pure.pure a : Except Fault α) :=
  trivial

theorem Shallow.throw {fault : Fault} (other : fault ≠ .tooDeep) :
    Shallow (throw fault : Except Fault α) :=
  other

end Readers

section Values

variable (v : Value) (name : String)

theorem tag_shallow : Shallow v.tag := by
  cases v <;> simp [Value.tag, Gives]

theorem isTagged_shallow : Shallow (v.isTagged name) :=
  (tag_shallow v).bind fun _ => .pure _

theorem key?_shallow : Shallow v.key? := by
  unfold Value.key?
  split
  · trivial
  · exact .ite trivial (by simp [Gives])

theorem field_shallow : Shallow (v.field name) := by
  unfold Value.field
  split
  · split <;> simp [Gives]
  · simp [Gives]

theorem optional_shallow : Shallow (v.optional name) := by
  unfold Value.optional
  split
  · split <;> trivial
  · simp [Gives]

theorem items_shallow : Shallow v.items := by
  cases v <;> simp [Value.items, Gives]

theorem leadingAndLast_shallow : Shallow v.leadingAndLast := by
  unfold Value.leadingAndLast
  split
  all_goals first
    | (dsimp only; split <;> simp [Gives])
    | simp [Gives]

theorem isStatement_shallow : Shallow v.isStatement := by
  refine (tag_shallow v).bind fun tag => ?_
  split
  · exact .pure _
  · exact .throw nofun

theorem isIdentifier_shallow (named : Value) : Shallow (v.isIdentifier named) := by
  unfold Value.isIdentifier
  split
  · exact .pure _
  · refine (isTagged_shallow v "Identifier").bind fun identifier => .ite (.pure _) ?_
    exact .ite (.pure _) ((field_shallow v "name").bind fun _ => .pure _)

end Values

/-- Going down a chain of nodes asks for no depth: it ends with the tree. -/
theorem descend_shallow {next : Value → Fields → Except Fault (Option String)}
    (each : ∀ tag fields, Shallow (next tag fields)) (v : Value) : Shallow (v.descend next) := by
  induction size : v.size using Nat.strongRecOn generalizing v with
  | ind _ ih =>
    subst size
    cases v with
    | node tag fields =>
      rw [Value.descend]
      have step := each tag fields
      cases answer : next tag fields with
      | error fault =>
        rw [answer] at step
        exact step
      | ok goal =>
        cases goal with
        | none => trivial
        | some name =>
          simp only [Value.descendInto_eq]
          cases found : fields.lookup name with
          | none => simp [Gives]
          | some part => exact ih _ (Value.size_lt_of_lookup found) part rfl
    | _ => simp [Value.descend, Gives]

section Bound

variable {accept : Value → Except Fault Unit}

theorem boundByScalars_shallow (v : Value) : Shallow v.boundByScalars := by
  have members := items_shallow v
  unfold Value.boundByScalars
  split
  · trivial
  · simp [Gives]
  · rename_i fault failed
    rw [failed] at members
    exact members

mutual

/-- Neither does looking for the names that a target binds, by induction on the target. -/
theorem boundNamesWith_shallow (each : ∀ name, Shallow (accept name)) :
    (v : Value) → Shallow (v.boundNamesWith accept)
  | .node tag fields => by
    rw [Value.boundNamesWith.eq_def]
    split
    · trivial
    · exact (field_shallow _ _).bind fun name => (each name).bind fun _ => .pure _
    · rename_i same
      cases same
      exact boundInElements_shallow each fields
    · rename_i same
      cases same
      exact boundInProperties_shallow each fields
    · rename_i same
      cases same
      exact boundIn_shallow each _ _ fields
    · rename_i same
      cases same
      exact boundIn_shallow each _ _ fields
    · trivial
    · simp [Gives]
  | .null | .bool _ | .int _ | .float _ | .str _ | .sealed _ | .seq _ | .list _ | .object _ => by
    simp [Value.boundNamesWith, Gives]

theorem boundIn_shallow (each : ∀ name, Shallow (accept name)) (tag : Value) (name : String) :
    (fields : Fields) → Shallow (Value.boundIn accept tag name fields)
  | [] => by simp [Value.boundIn, Gives]
  | (k, v) :: rest => by
    rw [Value.boundIn]
    split
    · exact boundNamesWith_shallow each v
    · exact boundIn_shallow each tag name rest

theorem boundInElements_shallow (each : ∀ name, Shallow (accept name)) :
    (fields : Fields) → Shallow (Value.boundInElements accept fields)
  | [] => by simp [Value.boundInElements, Gives]
  | (k, v) :: rest => by
    have later := boundInElements_shallow each rest
    cases v <;> simp only [Value.boundInElements] <;> split
    all_goals first
      | exact later
      | exact boundByScalars_shallow _
      | exact boundByEach_shallow each _

theorem boundInProperties_shallow (each : ∀ name, Shallow (accept name)) :
    (fields : Fields) → Shallow (Value.boundInProperties accept fields)
  | [] => by simp [Value.boundInProperties, Gives]
  | (k, v) :: rest => by
    have later := boundInProperties_shallow each rest
    cases v <;> simp only [Value.boundInProperties] <;> split
    all_goals first
      | exact later
      | exact boundByScalars_shallow _
      | exact boundByProperties_shallow each _

theorem boundByEach_shallow (each : ∀ name, Shallow (accept name)) :
    (items : List Value) → Shallow (Value.boundByEach accept items)
  | [] => by simp [Value.boundByEach, Gives]
  | v :: rest => by
    rw [Value.boundByEach]
    exact (boundNamesWith_shallow each v).bind fun _ =>
      (boundByEach_shallow each rest).bind fun _ => .pure _

theorem boundByProperties_shallow (each : ∀ name, Shallow (accept name)) :
    (items : List Value) → Shallow (Value.boundByProperties accept items)
  | [] => by simp [Value.boundByProperties, Gives]
  | .node tag fields :: rest => by
    have later := boundByProperties_shallow each rest
    rw [Value.boundByProperties.eq_def]
    split
    · trivial
    · rename_i same
      cases same
      exact (boundIn_shallow each _ _ fields).bind fun _ => later.bind fun _ => .pure _
    · rename_i same
      cases same
      exact (boundIn_shallow each _ _ fields).bind fun _ => later.bind fun _ => .pure _
    · simp [Gives]
  | .null :: _ | .bool _ :: _ | .int _ :: _ | .float _ :: _ | .str _ :: _ | .sealed _ :: _
  | .seq _ :: _ | .list _ :: _ | .object _ :: _ => by
    simp [Value.boundByProperties, Gives]

end

end Bound

/-! ## What readings find -/

theorem field_of_optional {v w : Value} {name : String} (read : v.optional name = .ok (some w)) :
    v.field name = .ok w := by
  obtain ⟨tag, fields, rfl, found⟩ := Value.lookup_of_optional read
  exact Value.field_of_lookup found

/-- Setting one field leaves the others. -/
theorem field_withField_of_ne {v w : Value} {name other : String} (x : Value) (differs : other ≠ name)
    (read : v.field other = .ok w) : (v.withField name x).field other = .ok w := by
  obtain ⟨tag, fields, rfl, found⟩ := Value.lookup_of_field read
  exact Value.field_of_lookup ((Fields.lookup_set_of_ne x fields differs).trans found)

def IsNode (v : Value) : Prop :=
  ∃ tag fields, v = .node tag fields

theorem IsNode.tagged (tag : String) (fields : Fields) : IsNode (.tagged tag fields) :=
  ⟨_, _, rfl⟩

theorem IsNode.withField {v : Value} (isNode : IsNode v) (name : String) (value : Value) :
    IsNode (v.withField name value) := by
  obtain ⟨tag, fields, rfl⟩ := isNode
  exact ⟨_, _, rfl⟩

theorem isNode_of_tag {v tag : Value} (read : v.tag = .ok tag) : ∃ fields, v = .node tag fields := by
  cases v with
  | node _ fields => exact ⟨fields, by simpa [Value.tag] using read⟩
  | _ => simp [Value.tag] at read

/-- Only a node can be asked for its tag. -/
theorem isTagged_found {v : Value} {name : String} {b : Bool} (read : v.isTagged name = .ok b) :
    IsNode v ∧ v.hasTag name = b := by
  cases v with
  | node tag fields => exact ⟨⟨tag, fields, rfl⟩, Except.ok.inj read⟩
  | _ => cases read

theorem isNode_of_field {v w : Value} {name : String} (read : v.field name = .ok w) : IsNode v := by
  obtain ⟨tag, fields, rfl, -⟩ := Value.lookup_of_field read
  exact ⟨tag, fields, rfl⟩

/-- A part of a node has no more packings than the node, and fewer if the node is a packing. -/
theorem packs_field {v w : Value} {name : String} (read : v.field name = .ok w) :
    packs w ≤ packs v := by
  obtain ⟨tag, fields, rfl, found⟩ := Value.lookup_of_field read
  have := packs_le_of_lookup tag found
  omega

/-- A replaced field exchanges what it holds. -/
theorem packs_withField {v old : Value} {name : String} (new : Value)
    (read : v.field name = .ok old) :
    packs (v.withField name new) + packs old = packs v + packs new := by
  obtain ⟨tag, fields, rfl, found⟩ := Value.lookup_of_field read
  have exchanged := packsFields_set new found
  simp only [Value.withField, packs]
  omega

/-- A node with the tag of a packing counts as one. -/
theorem isPackedTag_of_hasTag {tag : Value} {fields : Fields} {name : String}
    (named : (Value.node tag fields).hasTag name = true) (member : name ∈ packedTags) :
    (isPackedTag tag).toNat = 1 := by
  have packed : isPackedTag tag = true := List.any_eq_true.mpr ⟨name, member, named⟩
  rw [packed]
  rfl

/-- A part of a packing has fewer packings. -/
theorem packs_field_packed {v w : Value} {name kind : String} (read : v.field name = .ok w)
    (named : v.hasTag kind = true) (member : kind ∈ packedTags) : packs w < packs v := by
  obtain ⟨tag, fields, rfl, found⟩ := Value.lookup_of_field read
  have packed := isPackedTag_of_hasTag named member
  have := packs_le_of_lookup tag found
  omega

/-- Taking the members out of a sequence loses no packing and makes none. -/
theorem packs_items {v : Value} {items : List Value} (read : v.items = .ok items) :
    packsItems items ≤ packs v := by
  cases v with
  | seq members | list members =>
    obtain rfl : members = items := by simpa [Value.items] using read
    exact Nat.le_refl _
  | str s =>
    obtain rfl := Except.ok.inj read
    simp [packsItems_texts]
  | object entries =>
    obtain rfl := Except.ok.inj read
    simp [packsItems_texts]
  | _ => simp [Value.items] at read

/-- Neither does setting the last member apart. -/
theorem packs_leadingAndLast {v last : Value} {leading : List Value}
    (read : v.leadingAndLast = .ok (leading, last)) : packsItems leading + packs last ≤ packs v := by
  have ofSequence : ∀ members : List Value, (Value.seq members).leadingAndLast = .ok (leading, last) →
      packsItems leading + packs last = packsItems members := by
    intro members answer
    cases found : members.getLast? with
    | none => simp [Value.leadingAndLast, found] at answer
    | some final =>
      obtain ⟨rfl, rfl⟩ : members.dropLast = leading ∧ final = last := by
        simpa [Value.leadingAndLast, found] using answer
      obtain ⟨front, rfl⟩ := List.getLast?_eq_some_iff.mp found
      simp
  cases v with
  | seq members | list members => exact Nat.le_of_eq (ofSequence members read)
  | str s =>
    -- a text is taken apart as the sequence of its characters
    have none := ofSequence _ read
    rw [packsItems_texts] at none
    simp only [packs]
    omega
  | _ => simp [Value.leadingAndLast] at read

/-- The nodes, which have no more packings than that. -/
structure Holds (bound : Nat) (nodes : List Value) : Prop where
  each : ∀ n ∈ nodes, IsNode n
  few : packsItems nodes ≤ bound

theorem Holds.one {bound : Nat} {n : Value} (isNode : IsNode n) (few : packs n ≤ bound) :
    Holds bound [n] :=
  ⟨by simpa using isNode, by simpa using few⟩

/-- Nodes that were made from disjoint parts of a tree share its packings. -/
theorem Holds.append {front back : Nat} {before after : List Value} (first : Holds front before)
    (second : Holds back after) : Holds (front + back) (before ++ after) := by
  refine ⟨fun n member => ?_, ?_⟩
  · exact (List.mem_append.mp member).elim (first.each n) (second.each n)
  · have := first.few
    have := second.few
    simp only [packsItems_append]
    omega

theorem Holds.mono {bound more : Nat} {nodes : List Value} (holds : Holds bound nodes)
    (le : bound ≤ more) : Holds more nodes :=
  ⟨holds.each, Nat.le_trans holds.few le⟩

/-! ## What the rules read -/

namespace Rule

theorem hasElse_shallow (n : Value) : Shallow (hasElse n) :=
  (isTagged_shallow n _).bind fun _ =>
    .ite ((optional_shallow n _).bind fun _ => .pure _) (.pure _)

theorem endsWithoutElse_shallow (n : Value) : Shallow (endsWithoutElse n) := by
  refine Shallow.bind (descend_shallow (fun tag fields => ?_) n) fun _ => .pure _
  refine .ite ?_ (.pure _)
  split <;> exact .pure _

theorem isConstant_shallow (n : Value) : Shallow (isConstant n) := by
  refine Shallow.bind (descend_shallow (fun tag fields => ?_) n) fun _ => .pure _
  refine .ite ?_ (.pure _)
  split
  · exact (key?_shallow _).bind fun _ => .ite (.pure _) (.pure _)
  · exact .throw nofun

theorem isReversed_shallow (left right : Value) : Shallow (isReversed left right) := by
  refine (isIdentifier_shallow left _).bind fun _ => .ite (.pure _) ?_
  refine (isIdentifier_shallow left _).bind fun leftIsName => ?_
  have others : ∀ rightIsName : Bool, Shallow (if rightIsName = true then pure true
      else do if ← isConstant left then return !(← isConstant right) else return false) :=
    fun _ => .ite (.pure _) <| (isConstant_shallow left).bind fun _ =>
      .ite ((isConstant_shallow right).bind fun _ => .pure _) (.pure _)
  cases leftIsName
  · exact (isIdentifier_shallow right _).bind others
  · exact others false

/-- Turning a comparison round keeps its operands. -/
theorem turnComparison_holds (n : Value) :
    Gives (· ≠ .tooDeep) (fun turned => Holds (packs n) [turned]) (turnComparison n) := by
  refine (field_shallow n _).exact.bind fun operator readOperator => ?_
  have kept : Holds (packs n) [n] := .one (isNode_of_field readOperator) (Nat.le_refl _)
  refine Gives.bind ((key?_shallow operator).bind fun _ => .pure _) fun turned _ => ?_
  split
  · exact kept
  · refine (field_shallow n _).exact.bind fun left readLeft => ?_
    refine (field_shallow n _).exact.bind fun right readRight => ?_
    refine (isReversed_shallow left right).exact.bind fun reversed _ => ?_
    cases reversed
    · exact kept
    · rename_i operator' _
      have first := packs_withField (.str operator') readOperator
      have readLeft : (n.withField "operator" (.str operator')).field "left" = .ok left :=
        field_withField_of_ne _ (by decide) readLeft
      have second := packs_withField right readLeft
      have readRight : ((n.withField "operator" (.str operator')).withField "left" right).field
          "right" = .ok right :=
        field_withField_of_ne _ (by decide) (field_withField_of_ne _ (by decide) readRight)
      have third := packs_withField left readRight
      have text : packs (.str operator') = 0 := rfl
      exact .one (((isNode_of_field readOperator).withField _ _).withField _ _ |>.withField _ _)
        (by omega)

/-- A folded constant has no packings at all. -/
theorem evaluateUnary_holds (n : Value) :
    Gives (· ≠ .tooDeep) (fun folded => Holds (packs n) [folded]) (evaluateUnary n) := by
  refine (field_shallow n _).exact.bind fun argument read => ?_
  have kept : Holds (packs n) [n] := .one (isNode_of_field read) (Nat.le_refl _)
  refine (isTagged_shallow argument _).exact.bind fun isLiteral _ => ?_
  cases isLiteral
  · exact kept
  · refine (field_shallow n _).exact.bind fun operator _ => ?_
    split
    · refine (optional_shallow argument _).exact.bind fun value _ => ?_
      split
      · exact .one (.tagged _ _) (Nat.zero_le _)
      · exact kept
    · split
      · exact .one (.tagged _ _) (Nat.zero_le _)
      · exact kept

theorem requireKey_shallow (name : Value) : Shallow (requireKey name) :=
  .ite trivial (.throw nofun)

theorem identifierNames_shallow (values : List Value) : Shallow (identifierNames values) :=
  .mapM fun n => (field_shallow n _).bind fun name => (requireKey_shallow name).bind fun _ => .pure _

theorem bindsOneOf_shallow (names : List Value) (target : Value) :
    Shallow (bindsOneOf names target) :=
  (boundNamesWith_shallow requireKey_shallow target).bind fun _ => .pure _

/-- Declarators are sorted out, none is added. -/
theorem partitionDeclarators_gives (names : List Value) (initialized : Bool)
    (declarators : List Value) : Gives (· ≠ .tooDeep)
      (fun parts => packsItems parts.1 + packsItems parts.2 = packsItems declarators)
      (partitionDeclarators names initialized declarators) := by
  induction declarators generalizing initialized with
  | nil => cases initialized <;> rfl
  | cons declarator rest ih =>
    have stays : ∀ more, Gives (· ≠ .tooDeep)
        (fun parts => packsItems parts.1 + packsItems parts.2 = packsItems (declarator :: rest))
        (partitionDeclarators names more rest >>= fun parts =>
          return (declarator :: parts.1, parts.2)) := by
      refine fun more => (ih more).bind fun parts sorted => ?_
      simp only [Gives, Pure.pure, Except.pure, packsItems_cons]
      omega
    cases initialized
    · refine (field_shallow declarator _).exact.bind fun target _ => ?_
      refine (bindsOneOf_shallow names target).exact.bind fun binds _ => ?_
      cases binds
      · refine (ih false).bind fun parts sorted => ?_
        simp only [Gives, Pure.pure, Except.pure, packsItems_cons]
        omega
      · exact (optional_shallow declarator _).exact.bind fun init _ => stays init.isSome
    · exact stays true

/-- The declarators that are moved before a loop and those that are kept are the ones that were
there. -/
theorem hoistDeclarators_holds {n init : Value} (read : n.field "init" = .ok init) :
    Gives (· ≠ .tooDeep) (Holds (packs n)) (hoistDeclarators n init) := by
  refine (field_shallow n _).exact.bind fun test _ => ?_
  refine (field_shallow n _).exact.bind fun update _ => ?_
  refine (identifierNames_shallow _).exact.bind fun names _ => ?_
  refine (field_shallow init _).exact.bind fun list readList => ?_
  refine (items_shallow list).exact.bind fun declarators listed => ?_
  refine (partitionDeclarators_gives _ _ _).bind fun (kept, hoisted) sorted => ?_
  have isNode := isNode_of_field read
  have exchanged := fun new => packs_withField new read
  have exchanged' := packs_withField (.seq kept) readList
  have within := packs_items listed
  have part := packs_field readList
  simp only [packs] at sorted exchanged' ⊢
  split
  · exact .one isNode (Nat.le_refl _)
  · have declared : packs (Value.variableDeclaration hoisted (.str "var")) = packsItems hoisted := by
      simp [Value.variableDeclaration, packs, packsFields, isPackedTag, packedTags, Value.isText]
    have front : Holds (packsItems hoisted) [Value.variableDeclaration hoisted (.str "var")] :=
      .one (.tagged _ _) (Nat.le_of_eq declared)
    refine Holds.mono (front.append (.one (isNode.withField _ _) (Nat.le_refl _))) ?_
    split
    · have := exchanged .null
      simp only [packs] at this ⊢
      omega
    · have := exchanged (init.withField "declarations" (.seq kept))
      omega

theorem isVarDeclaration_shallow (init : Value) : Shallow (isVarDeclaration init) :=
  (isTagged_shallow init _).bind fun _ => .ite ((field_shallow init _).bind fun _ => .pure _) (.pure _)

theorem isLoop_shallow (n : Value) : Shallow (isLoop n) := by
  refine Shallow.bind (descend_shallow (fun _ _ => ?_) n) fun inner => ?_
  · exact .ite (.pure _) (.pure _)
  · exact (tag_shallow inner).bind fun tag => (key?_shallow tag).bind fun _ => .pure _

theorem jumpsTo_shallow (label n : Value) : Shallow (jumpsTo label n) := by
  refine (isTagged_shallow n _).bind fun _ => .ite ?_ (.pure _)
  exact (optional_shallow n _).bind fun _ => isIdentifier_shallow _ _

theorem anyJumpsTo_shallow (label : Value) (nodes : List Value) : Shallow (anyJumpsTo label nodes) := by
  induction nodes with
  | nil => exact .pure _
  | cons n rest ih => exact (jumpsTo_shallow label n).bind fun _ => .ite (.pure _) ih

theorem canLeave_shallow (label n : Value) : Shallow (canLeave label n) := by
  refine (isTagged_shallow n _).bind fun declares => ?_
  have leaves : ∀ plain : Bool, Shallow (if plain = true then
      do return !(← anyJumpsTo label n.walk) else return false) :=
    fun _ => .ite ((anyJumpsTo_shallow label _).bind fun _ => .pure _) (.pure _)
  cases declares
  · exact leaves _
  · exact (field_shallow n _).bind fun kind => leaves _

/-- The question whether a statement may leave its label can be answered for nodes only. -/
theorem isNode_of_canLeave {label n : Value} {leaves : Bool} (read : canLeave label n = .ok leaves) :
    IsNode n := by
  cases n with
  | node tag fields => exact ⟨tag, fields, rfl⟩
  | _ => cases read

/-- Statements that may all leave their label are nodes. -/
theorem allCanLeave_gives (n : Value) (statements : List Value) :
    Gives (· ≠ .tooDeep) (fun leave => leave = true → ∀ s ∈ statements, IsNode s)
      (allCanLeave n statements) := by
  induction statements with
  | nil => exact nofun
  | cons statement rest ih =>
    refine (field_shallow n _).exact.bind fun label _ => ?_
    refine (field_shallow label _).exact.bind fun name _ => ?_
    refine (canLeave_shallow name statement).exact.bind fun leaves read => ?_
    cases leaves
    · exact nofun
    · exact ih.imp fun leave others yes => by simpa using ⟨isNode_of_canLeave read, others yes⟩

/-- What leaves a labelled block are nodes, and they and the loop are all of it. -/
theorem leavingBefore_gives (n body : Value) : Gives (· ≠ .tooDeep)
    (fun answer => ∀ leading last, answer = some (leading, last) →
      (∀ s ∈ leading, IsNode s) ∧ packsItems leading + packs last ≤ packs body)
    (leavingBefore n body) := by
  refine (isTagged_shallow body _).exact.bind fun isBlock _ => ?_
  cases isBlock
  · exact nofun
  · refine (field_shallow body _).exact.bind fun statements read => ?_
    refine ((items_shallow statements).map _).exact.bind fun length _ => ?_
    split
    · exact nofun
    · refine (leadingAndLast_shallow statements).exact.bind fun (leading, last) split => ?_
      refine (isLoop_shallow last).exact.bind fun loops _ => ?_
      cases loops
      · exact nofun
      · refine (allCanLeave_gives n leading).bind fun leave nodes => ?_
        cases leave
        · exact nofun
        · rintro _ _ ⟨⟩
          have part := packs_field read
          have parts := packs_leadingAndLast split
          exact ⟨nodes rfl, by omega⟩

/-- The members of a comma sequence have fewer packings than the sequence. -/
theorem packs_splitSequence {v last : Value} {leading : List Value}
    (isSequence : v.hasTag "SequenceExpression" = true)
    (read : splitSequence v = .ok (leading, last)) :
    packsItems leading + packs last < packs v := by
  cases found : v.field "expressions" with
  | error fault => simp [splitSequence, found, bind, Except.bind] at read
  | ok members =>
    have part := packs_field_packed found isSequence (by decide)
    have split : members.leadingAndLast = .ok (leading, last) := by
      simpa [splitSequence, found, bind, Except.bind] using read
    have parts := packs_leadingAndLast split
    omega

/-- Splitting a comma sequence follows its last operand, so it ends with the tree. -/
theorem splitSequence_shallow (n : Value) : Shallow (splitSequence n) :=
  (field_shallow n _).bind fun members => leadingAndLast_shallow members

end Rule

end Untangle.Reshape
