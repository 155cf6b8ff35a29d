import Untangle.Proofs.Reshape.Yields
import Untangle.Proofs.Tree.Fields
import Untangle.Reshape.Rule.Elementary
import Untangle.Reshape.Traversal

/-!
# Every node is visited once

Under rules that keep their node, reshaping changes nothing, so its counts show where it has been: they
agree with a walk through the tree, node for node. The two recursions differ in their order, in that
reshaping looks for nodes only directly in a field or in a sequence in a field, and in what they do
with a tag that cannot be looked up, which only reshaping refuses.

* `Counted` is how the counts change when nodes are visited.
* `Tours` is a computation that visits nodes and keeps what it was given.
* `tours_reshape` is the induction over trees, and `reshapeAnew_visits` the statement about whole runs,
  after whatever has been counted before.
-/

namespace Untangle.Reshape

/-! ## Counts -/

namespace Hits

/-- The names under which something was counted. -/
def names (hits : Hits) : List String :=
  hits.map Prod.fst

theorem count_nil (name : String) : count [] name = 0 := rfl

theorem count_cons (k name : String) (n : Nat) (rest : Hits) :
    count ((k, n) :: rest) name = if name = k then n else count rest name := by
  unfold count
  rw [List.lookup_cons]
  by_cases same : name = k
  · simp [same]
  · simp [same, beq_false_of_ne same]

theorem count_bump (name other : String) (hits : Hits) :
    (bump name hits).count other = hits.count other + if other = name then 1 else 0 := by
  induction hits with
  | nil =>
    rw [bump, count_cons, count_nil]
    split <;> rfl
  | cons use rest ih =>
    obtain ⟨k, n⟩ := use
    unfold bump
    split
    · rename_i same
      subst same
      rw [count_cons, count_cons]
      split
      · rfl
      · rfl
    · rename_i differs
      rw [count_cons, count_cons, ih]
      split
      · rename_i same
        subst same
        rw [if_neg differs, Nat.add_zero]
      · rfl

theorem mem_names_bump {name other : String} {hits : Hits} :
    other ∈ (bump name hits).names ↔ other = name ∨ other ∈ hits.names := by
  induction hits with
  | nil => simp [bump, names]
  | cons use rest ih =>
    obtain ⟨k, n⟩ := use
    unfold bump
    split
    · rename_i same
      simp [names, same]
    · simp only [names, List.map_cons, List.mem_cons] at ih ⊢
      rw [ih]
      grind

theorem nodup_bump {name : String} {hits : Hits} (distinct : hits.names.Nodup) :
    (bump name hits).names.Nodup := by
  induction hits with
  | nil => simp [bump, names]
  | cons use rest ih =>
    obtain ⟨k, n⟩ := use
    unfold bump
    split
    · exact distinct
    · rename_i differs
      obtain ⟨absent, rest⟩ := List.nodup_cons.mp distinct
      refine List.nodup_cons.mpr ⟨fun member => ?_, ih rest⟩
      rcases mem_names_bump.mp member with same | member
      · exact differs same
      · exact absent member

end Hits

def Registry.hasRule (r : Registry) (tag : String) : Bool :=
  (r.nodeRules.lookup tag).isSome

/-- How the counts change by a visit to each of the nodes, in whatever order: each tag with a rule is
counted once for each node that has it, and no other name appears. -/
structure Counted (r : Registry) (nodes : List Value) (before after : Hits) : Prop where
  count : ∀ tag, after.count tag =
    before.count tag + if r.hasRule tag then nodes.countP (·.hasTag tag) else 0
  names : ∀ tag, tag ∈ after.names ↔
    tag ∈ before.names ∨ r.hasRule tag = true ∧ ∃ n ∈ nodes, n.hasTag tag = true
  nodup : before.names.Nodup → after.names.Nodup

namespace Counted

variable {r : Registry}

theorem nothing (hits : Hits) : Counted r [] hits hits where
  count tag := by simp
  names tag := by simp
  nodup := id

theorem append {first second : List Value} {before between after : Hits}
    (one : Counted r first before between) (two : Counted r second between after) :
    Counted r (first ++ second) before after where
  count tag := by
    rw [two.count, one.count, List.countP_append]
    split <;> omega
  names tag := by
    rw [two.names, one.names]
    simp only [List.mem_append, or_and_right, exists_or, and_or_left, or_assoc]
  nodup distinct := two.nodup (one.nodup distinct)

theorem perm {nodes others : List Value} {before after : Hits} (same : nodes.Perm others)
    (counted : Counted r nodes before after) : Counted r others before after where
  count tag := by rw [counted.count, same.countP_eq]
  names tag := by simp only [counted.names, same.mem_iff]
  nodup := counted.nodup

/-- A visit to a node without a rule is not counted. -/
theorem idle {n : Value} (hits : Hits) (noRule : ∀ tag, n.hasTag tag = true → r.hasRule tag = false) :
    Counted r [n] hits hits where
  count tag := by
    cases tagged : n.hasTag tag with
    | true => simp [noRule tag tagged]
    | false => simp [tagged]
  names tag := by
    have none : ¬ (r.hasRule tag = true ∧ ∃ m ∈ [n], m.hasTag tag = true) := by
      rintro ⟨ruled, m, member, tagged⟩
      rw [List.mem_singleton.mp member] at tagged
      rw [noRule tag tagged] at ruled
      cases ruled
    simp only [none, or_false]
  nodup := id

/-- A visit to a node with a rule counts once more under its tag. -/
theorem bump {tag : String} (fields : Fields) (hits : Hits) (ruled : r.hasRule tag = true) :
    Counted r [.tagged tag fields] hits (hits.bump tag) where
  count other := by
    rw [Hits.count_bump]
    by_cases same : other = tag
    · subst same
      simp [ruled, Value.hasTag, Value.isText]
    · simp [same, Ne.symm same, Value.hasTag, Value.isText]
  names other := by
    rw [Hits.mem_names_bump]
    constructor
    · rintro (rfl | member)
      · exact .inr ⟨ruled, _, List.mem_singleton_self _, by simp [Value.hasTag, Value.isText]⟩
      · exact .inl member
    · rintro (member | ⟨-, n, single, tagged⟩)
      · exact .inr member
      · rw [List.mem_singleton.mp single] at tagged
        have same : tag = other := by simpa [Value.hasTag, Value.isText] using tagged
        exact .inl same.symm
  nodup := Hits.nodup_bump

end Counted

/-! ## Tours -/

/-- Whether the tag of a node can be looked up among the rules. -/
def isFindable : Value → Bool
  | .node tag _ => tag.isKey
  | _ => true

/-- A computation that visits the nodes and ends with the given value, if every node it comes to can
be looked up, and is refused otherwise. -/
structure Tours {α : Type} (r : Registry) (nodes : List Value) (m : ReshapeM α) (a : α) : Prop where
  ends : nodes.all isFindable = true →
    ∀ before, ∃ after, m.run.run before = (.ok a, after) ∧ Counted r nodes before after
  refused : nodes.all isFindable = false → ∀ before, (m.run.run before).1 = .error .wrongKind

namespace Tours

variable {α β : Type} {r : Registry}

theorem pure (a : α) : Tours r [] (Pure.pure a) a where
  ends _ before := ⟨before, rfl, .nothing before⟩
  refused none := by cases none

theorem bind {m : ReshapeM α} {f : α → ReshapeM β} {a : α} {b : β} {first second : List Value}
    (one : Tours r first m a) (two : Tours r second (f a) b) :
    Tours r (first ++ second) (m >>= f) b where
  ends findable before := by
    rw [List.all_append, Bool.and_eq_true] at findable
    obtain ⟨between, starts, counted⟩ := one.ends findable.1 before
    obtain ⟨after, goesOn, more⟩ := two.ends findable.2 between
    refine ⟨after, ?_, counted.append more⟩
    rw [run_bind, starts]
    exact goesOn
  refused unfindable before := by
    rw [run_bind]
    cases start : first.all isFindable with
    | true =>
      obtain ⟨between, starts, -⟩ := one.ends start before
      rw [starts]
      exact two.refused (by simpa [List.all_append, start] using unfindable) between
    | false =>
      have fault := one.refused start before
      cases run : m.run.run before with
      | mk result after =>
        rw [run] at fault
        obtain rfl : result = .error .wrongKind := fault
        rfl

/-- A last step that visits nothing. -/
theorem map {m : ReshapeM α} {a : α} {nodes : List Value} (one : Tours r nodes m a) (f : α → β) :
    Tours r nodes (m >>= fun x => Pure.pure (f x)) (f a) := by
  have both := one.bind (f := fun x => Pure.pure (f x)) (.pure (f a))
  rwa [List.append_nil] at both

theorem perm {m : ReshapeM α} {a : α} {nodes others : List Value} (same : nodes.Perm others)
    (tours : Tours r nodes m a) : Tours r others m a where
  ends findable before := by
    obtain ⟨after, run, counted⟩ := tours.ends (same.all_eq.trans findable) before
    exact ⟨after, run, counted.perm same⟩
  refused unfindable := tours.refused (same.all_eq.trans unfindable)

/-- A step that only reads a tree, followed by the rest of the tour. -/
theorem lift_bind {read : Except Fault α} {f : α → ReshapeM β} {a : α} {b : β} {nodes : List Value}
    (answers : read = .ok a) (next : Tours r nodes (f a) b) :
    Tours r nodes ((liftM read : ReshapeM α) >>= f) b := by
  subst answers
  exact next

end Tours

/-! ## Rules that keep their node -/

/-- A rule that gives back the node it is given. -/
def Rule.Keeps (rule : Rule) : Prop :=
  ∀ e n, rule.run e n = Pure.pure [n]

variable {r : Registry}

/-- A value that is no text is found under no name. -/
theorem key?_other {tag : Value} (notText : ∀ name, tag ≠ .str name) :
    tag.key? = if tag.isKey then .ok none else .error .wrongKind := by
  cases tag with
  | str name => exact absurd rfl (notText name)
  | _ => rfl

/-- The three ways to look a tag up: it is no key, it has no rule, or it has one. -/
theorem nodeRule?_cases (r : Registry) (tag : Value) :
    (tag.isKey = false ∧ r.nodeRule? tag = .error .wrongKind) ∨
    (tag.isKey = true ∧ r.nodeRule? tag = .ok none ∧
      ∀ name, tag.isText name = true → r.hasRule name = false) ∨
    ∃ name rule, tag = .str name ∧ (name, rule) ∈ r.nodeRules ∧ r.hasRule name = true ∧
      r.nodeRule? tag = .ok (some (name, rule)) := by
  by_cases isText : ∃ name, tag = .str name
  · obtain ⟨name, rfl⟩ := isText
    have looked : r.nodeRule? (.str name) = .ok ((r.nodeRules.lookup name).map (name, ·)) := rfl
    cases found : r.nodeRules.lookup name with
    | none =>
      refine .inr (.inl ⟨rfl, by rw [looked, found]; rfl, fun other same => ?_⟩)
      have named : name = other := by simpa [Value.isText] using same
      rw [Registry.hasRule, ← named, found]
      rfl
    | some rule =>
      refine .inr (.inr ⟨name, rule, rfl, Fields.mem_of_lookup found, ?_, ?_⟩)
      · rw [Registry.hasRule, found]
        rfl
      · rw [looked, found]
        rfl
  · have notText : ∀ name, tag ≠ .str name := fun name same => isText ⟨name, same⟩
    have looked : r.nodeRule? tag = tag.key?.map fun key => r.nodeRules.rule? key := by
      unfold Registry.nodeRule?
      cases tag.key? <;> rfl
    rw [looked, key?_other notText]
    cases tag.isKey with
    | false => exact .inl ⟨rfl, rfl⟩
    | true =>
      refine .inr (.inl ⟨rfl, rfl, fun name same => ?_⟩)
      cases tag with
      | str other => exact absurd rfl (notText other)
      | _ => cases same

theorem tours_settle (keeps : ∀ entry ∈ r.nodeRules, entry.2.Keeps) (tag : Value) (fields : Fields)
    (depth : Nat) :
    Tours r [.node tag fields] ((r.engine (depth + 1)).settle (.node tag fields))
      [.node tag fields] := by
  show Tours r _ (Engine.settleAbove r (r.engine depth) (.node tag fields)) _
  apply Tours.lift_bind (show (Value.node tag fields).tag = .ok tag from rfl)
  rcases nodeRule?_cases r tag with ⟨noKey, answer⟩ | ⟨isKey, answer, noRule⟩ |
    ⟨name, rule, rfl, member, ruled, answer⟩
  · rw [answer]
    refine ⟨fun findable => ?_, fun _ before => rfl⟩
    rw [List.all_cons, isFindable, noKey] at findable
    cases findable
  · apply Tours.lift_bind answer
    refine ⟨fun _ before => ⟨before, rfl, .idle before noRule⟩, fun unfindable => ?_⟩
    rw [List.all_cons, isFindable, isKey] at unfindable
    cases unfindable
  · apply Tours.lift_bind answer
    refine ⟨fun _ before => ⟨before.bump name, ?_, .bump fields before ruled⟩, fun unfindable => ?_⟩
    · have kept : rule.run (r.engine depth) (.tagged name fields) = pure [.tagged name fields] :=
        keeps _ member _ _
      show (hit name >>= fun _ => rule.run (r.engine depth) (.tagged name fields)).run.run before = _
      rw [kept]
      rfl
    · cases unfindable

/-! ## Trees -/

def isSequence : Value → Bool
  | .seq _ => true
  | _ => false

/-- Whether no sequence in a field has a sequence as its member. -/
def isUnnestedField : Value → Bool
  | .seq items => items.all fun item => !isSequence item
  | _ => true

/-- Whether no sequence in the fields of a node has a sequence as its member. -/
def isUnnested : Value → Bool
  | .node _ fields => fields.all fun field => isUnnestedField field.2
  | _ => true

/-- A node is visited after the nodes in its fields, and walked before them. -/
theorem tours_node (keeps : ∀ entry ∈ r.nodeRules, entry.2.Keeps) (tag : Value) {fields : Fields}
    {depth : Nat}
    (inner : Tours r (Value.walkFields fields) (reshapeFields (r.engine (depth + 1)) fields) fields) :
    Tours r (Value.node tag fields).walk (reshape (r.engine (depth + 1)) (.node tag fields))
      [.node tag fields] := by
  rw [reshape, Value.walk]
  exact (inner.bind (tours_settle keeps tag fields depth)).perm (List.perm_append_singleton _ _)

mutual

theorem tours_fields (keeps : ∀ entry ∈ r.nodeRules, entry.2.Keeps) (depth : Nat) :
    ∀ fields : Fields, (∀ field ∈ fields, isUnnestedField field.2 = true) →
      (∀ n ∈ Value.walkFields fields, isUnnested n = true) →
      Tours r (Value.walkFields fields) (reshapeFields (r.engine (depth + 1)) fields) fields
  | [], _, _ => by
    rw [reshapeFields]
    exact .pure []
  | (name, .node tag inner) :: rest, here, flat => by
    simp only [Value.walkFields, Value.walk, List.mem_append, List.mem_cons] at flat
    have node := flat _ (.inl (.inl rfl))
    have inside := tours_fields keeps depth inner
      (fun field member => List.all_eq_true.mp node field member)
      (fun n member => flat n (.inl (.inr member)))
    have later := tours_fields keeps depth rest
      (fun field member => here field (List.mem_cons_of_mem _ member))
      (fun n member => flat n (.inr member))
    rw [reshapeFields, Value.walkFields]
    exact (tours_node keeps tag inside).bind (later.map _)
  | (name, .seq items) :: rest, here, flat => by
    simp only [Value.walkFields, Value.walk, List.mem_append] at flat
    have noSequence := List.all_eq_true.mp (here _ List.mem_cons_self)
    have inside := tours_items keeps depth items (fun item member => by simpa using noSequence item member)
      (fun n member => flat n (.inl member))
    have later := tours_fields keeps depth rest
      (fun field member => here field (List.mem_cons_of_mem _ member))
      (fun n member => flat n (.inr member))
    rw [reshapeFields, Value.walkFields, Value.walk]
    exact inside.bind (later.map _)
  | (name, .null) :: rest, here, flat | (name, .bool _) :: rest, here, flat
  | (name, .int _) :: rest, here, flat | (name, .float _) :: rest, here, flat
  | (name, .str _) :: rest, here, flat | (name, .sealed _) :: rest, here, flat
  | (name, .list _) :: rest, here, flat | (name, .object _) :: rest, here, flat => by
    simp only [Value.walkFields, Value.walk, List.nil_append] at flat
    have later := tours_fields keeps depth rest
      (fun field member => here field (List.mem_cons_of_mem _ member)) flat
    simp only [reshapeFields, Value.walkFields, Value.walk, List.nil_append]
    exact later.map _

theorem tours_items (keeps : ∀ entry ∈ r.nodeRules, entry.2.Keeps) (depth : Nat) :
    ∀ items : List Value, (∀ item ∈ items, isSequence item = false) →
      (∀ n ∈ Value.walkItems items, isUnnested n = true) →
      Tours r (Value.walkItems items) (reshapeItems (r.engine (depth + 1)) items) items
  | [], _, _ => by
    rw [reshapeItems]
    exact .pure []
  | .node tag fields :: rest, here, flat => by
    simp only [Value.walkItems, Value.walk, List.mem_append, List.mem_cons] at flat
    have node := flat _ (.inl (.inl rfl))
    have inside := tours_fields keeps depth fields
      (fun field member => List.all_eq_true.mp node field member)
      (fun n member => flat n (.inl (.inr member)))
    have later := tours_items keeps depth rest
      (fun item member => here item (List.mem_cons_of_mem _ member))
      (fun n member => flat n (.inr member))
    rw [reshapeItems, Value.walkItems]
    exact (tours_node keeps tag inside).bind (later.map _)
  | .seq items :: rest, here, _ => by
    cases here _ List.mem_cons_self
  | .null :: rest, here, flat | .bool _ :: rest, here, flat | .int _ :: rest, here, flat
  | .float _ :: rest, here, flat | .str _ :: rest, here, flat | .sealed _ :: rest, here, flat
  | .list _ :: rest, here, flat | .object _ :: rest, here, flat => by
    simp only [Value.walkItems, Value.walk, List.nil_append] at flat
    have later := tours_items keeps depth rest
      (fun item member => here item (List.mem_cons_of_mem _ member)) flat
    simp only [reshapeItems, Value.walkItems, Value.walk, List.nil_append]
    exact later.map _

end

theorem tours_reshapeTree (keeps : ∀ entry ∈ r.nodeRules, entry.2.Keeps) {tag : Value}
    {fields : Fields} (flat : ∀ n ∈ (Value.node tag fields).walk, isUnnested n = true) :
    Tours r (Value.node tag fields).walk (reshapeTree r (.node tag fields)) (.node tag fields) := by
  obtain ⟨depth, enough⟩ : ∃ d, Registry.depthFor (Value.node tag fields).size = d + 1 :=
    ⟨_, (Nat.sub_add_cancel (by unfold Registry.depthFor; omega)).symm⟩
  simp only [Value.walk, List.mem_cons] at flat
  have inside := tours_fields keeps depth fields
    (fun field member => List.all_eq_true.mp (flat _ (.inl rfl)) field member)
    (fun n member => flat n (.inr member))
  have single : Tours r [] ((r.engine (depth + 1)).asOne [.node tag fields]) (.node tag fields) :=
    .pure _
  have whole := (tours_node keeps tag inside).bind single
  rwa [List.append_nil, ← reshapeTreeWith, ← enough, ← Registry.engineFor, ← reshapeTree] at whole

/-- Rules that keep their node leave every tree as it is in which no sequence is a member of a
sequence. Each tag with a rule is then counted once for each node of a walk that has it, and nothing
else is counted, whatever was counted before. Only a tag that cannot be looked up is refused. -/
theorem reshapeAnew_visits (keeps : ∀ entry ∈ r.nodeRules, entry.2.Keeps) {tag : Value}
    {fields : Fields} (flat : ∀ n ∈ (Value.node tag fields).walk, isUnnested n = true) (before : Hits) :
    ((Value.node tag fields).walk.all isFindable = true →
      ∃ after, (reshapeAnew r (.node tag fields)).run.run before = (.ok (.node tag fields), after) ∧
        (∀ v, r.hasRule v = true →
          after.count v = (Value.node tag fields).walk.countP (·.hasTag v)) ∧
        (∀ v, v ∈ after.names ↔
          r.hasRule v = true ∧ ∃ n ∈ (Value.node tag fields).walk, n.hasTag v = true) ∧
        after.names.Nodup) ∧
    ((Value.node tag fields).walk.all isFindable = false →
      ((reshapeAnew r (.node tag fields)).run.run before).1 = .error .wrongKind) := by
  have anew : (reshapeAnew r (.node tag fields)).run.run before =
      (reshapeTree r (.node tag fields)).run.run [] := rfl
  have tours := tours_reshapeTree keeps flat
  rw [anew]
  refine ⟨fun findable => ?_, fun unfindable => tours.refused unfindable []⟩
  obtain ⟨after, run, counted⟩ := tours.ends findable []
  refine ⟨after, run, fun v ruled => ?_, fun v => ?_, counted.nodup List.nodup_nil⟩
  · rw [counted.count, Hits.count_nil, if_pos ruled, Nat.zero_add]
  · rw [counted.names]
    simp [Hits.names]

/-- A registry that keeps the nodes with the given tags. -/
def keeping (tags : List String) : Registry where
  nodeRules := tags.map fun tag => (tag, Rule.same)
  unpackRules := []

theorem keeping_keeps (tags : List String) : ∀ entry ∈ (keeping tags).nodeRules, entry.2.Keeps := by
  intro entry member
  obtain ⟨tag, -, rfl⟩ := List.mem_map.mp member
  exact fun _ _ => rfl

/-- An array with a hole, a number and an object among its names: the object hides a name. -/
theorem reshapeAnew_visits_array :
    let a := Value.identifier (.str "a")
    let fields : Fields :=
      [("elements", .seq [a, .null, .int 5, a]), ("extra", .object [("hidden", a)])]
    ∃ after, (reshapeAnew (keeping ["Identifier", "Literal"]) (.tagged "ArrayExpression" fields)).run.run
        [("Literal", 3), ("Program", 1)] = (.ok (.tagged "ArrayExpression" fields), after) ∧
      after.count "Identifier" = 2 ∧ "Literal" ∉ after.names ∧ "Program" ∉ after.names := by
  intro a fields
  obtain ⟨visits, -⟩ := reshapeAnew_visits (keeping_keeps ["Identifier", "Literal"])
    (show ∀ n ∈ (Value.tagged "ArrayExpression" fields).walk, isUnnested n = true by decide)
    [("Literal", 3), ("Program", 1)]
  obtain ⟨after, run, counts, names, -⟩ := visits (by decide)
  refine ⟨after, run, (counts "Identifier" rfl).trans (by decide), ?_, ?_⟩
  · rw [names]
    decide
  · rw [names]
    decide

/-- A node with an object for a tag cannot be looked up, so it is not left as it is. -/
theorem reshapeAnew_refuses_objectTag :
    let tree := Value.node (.object [("a", .int 1)]) []
    (∀ entry ∈ (keeping ["Identifier"]).nodeRules, entry.2.Keeps) ∧
      (∀ n ∈ tree.walk, isUnnested n = true) ∧
      ((reshapeAnew (keeping ["Identifier"]) tree).run.run []).1 = .error .wrongKind :=
  ⟨keeping_keeps _, by decide, rfl⟩

end Untangle.Reshape
