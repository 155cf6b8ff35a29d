import Untangle.Proofs.Reshape.Adequacy
import Untangle.Proofs.Reshape.Packings

/-!
# The depth of a tree is enough

Reshaping ends on every tree, well-formed or not, with a node or with a fault that is about the tree.
The rules call each other without a bound of their own, but each call goes to fewer packings or, with
as many, to a rule that asks for less: unpacking takes a packing off, wrapping in a block only
unpacks, and a branch or a return is settled again only without the packing in its head. Five levels
for each packing are enough, and no rule adds one.

* `Concur` says that two computations are one that does not run out of depth.
* `Covers` says that of what two engines do with values of few packings; `covers` gets it from depths.
* `prettify_terminates` is the statement about whole trees.
-/

namespace Untangle.Reshape

/-! ## Computations at two depths -/

/-- The computations are the same one, which ends with a value like this or with a fault other than
that of a depth used up. -/
structure Concur {α : Type} (P : α → Prop) (m m' : ReshapeM α) : Prop where
  same : m = m'
  ends : ∀ hits, Gives (· ≠ .tooDeep) P (m.run.run hits).1

namespace Concur

variable {α β : Type} {P : α → Prop} {Q : β → Prop}

theorem pure {a : α} (holds : P a) : Concur P (Pure.pure a) (Pure.pure a) :=
  ⟨rfl, fun _ => holds⟩

theorem throw {fault : Fault} (other : fault ≠ .tooDeep) :
    Concur P (throw fault : ReshapeM α) (throw fault) :=
  ⟨rfl, fun _ => other⟩

theorem hit (name : String) : Concur (fun _ => True) (Reshape.hit name) (Reshape.hit name) :=
  ⟨rfl, fun _ => trivial⟩

/-- The second computations have to concur only on what the first ones give. -/
theorem bind {m m' : ReshapeM α} {f f' : α → ReshapeM β} (first : Concur P m m')
    (next : ∀ a, P a → Concur Q (f a) (f' a)) : Concur Q (m >>= f) (m' >>= f') := by
  obtain ⟨rfl, ends⟩ := first
  have goes : ∀ hits, (m >>= f).run.run hits = (m >>= f').run.run hits ∧
      Gives (· ≠ .tooDeep) Q ((m >>= f).run.run hits).1 := by
    intro hits
    have ended := ends hits
    simp only [run_bind]
    cases outcome : m.run.run hits with
    | mk result after =>
      rw [outcome] at ended
      cases result with
      | error fault => exact ⟨rfl, ended⟩
      | ok a =>
        have later := next a ended
        exact ⟨congrArg (fun c => c.run.run after) later.same, later.ends after⟩
  exact ⟨funext fun hits => (goes hits).1, fun hits => (goes hits).2⟩

theorem imp {P' : α → Prop} {m m' : ReshapeM α} (concur : Concur P m m') (weaker : ∀ a, P a → P' a) :
    Concur P' m m' :=
  ⟨concur.same, fun hits => (concur.ends hits).imp weaker⟩

/-- A reading of the tree, which is the same at every depth. -/
theorem read {x : Except Fault α} (gives : Gives (· ≠ .tooDeep) P x) :
    Concur P (liftM x) (liftM x) :=
  ⟨rfl, fun _ => gives⟩

/-- A reading of the tree, followed by the rest of the computation. -/
theorem reading {x : Except Fault α} {f f' : α → ReshapeM β} (shallow : Shallow x)
    (next : ∀ a, x = .ok a → Concur Q (f a) (f' a)) :
    Concur Q ((liftM x : ReshapeM α) >>= f) ((liftM x : ReshapeM α) >>= f') :=
  (read shallow.exact).bind next

theorem ite {condition : Prop} [Decidable condition] {x x' y y' : ReshapeM α}
    (yes : condition → Concur P x x') (no : ¬ condition → Concur P y y') :
    Concur P (if condition then x else y) (if condition then x' else y') := by
  split
  · exact yes ‹_›
  · exact no ‹_›

end Concur

/-! ## Engines at two depths -/

/-- What two engines do is the same and does not run out of depth: for fewer than `wide` packings
all but the rules of nodes, and those for fewer than `narrow`. -/
structure Covers (wide narrow : Nat) (e e' : Engine) : Prop where
  unpacks : e.unpacks = e'.unpacks ∧ ∀ tag, Shallow (e.unpacks tag)
  unpack : ∀ v, packs v < wide → Concur (Holds (packs v)) (e.unpack v) (e'.unpack v)
  asOne : ∀ nodes bound, Holds bound nodes → packsItems nodes < wide →
    Concur (fun n => Holds bound [n]) (e.asOne nodes) (e'.asOne nodes)
  enclose : ∀ nodes bound, Holds bound nodes → packsItems nodes < wide →
    Concur (fun n => Holds bound [n]) (e.enclose nodes) (e'.enclose nodes)
  settle : ∀ v, packs v < narrow → Concur (Holds (packs v)) (e.settle v) (e'.settle v)

/-- What unpacks one value after the other goes by what unpacks each. -/
theorem unpackAll_concur {wide : Nat} {e e' : Engine}
    (unpack : ∀ v, packs v < wide → Concur (Holds (packs v)) (e.unpack v) (e'.unpack v))
    {values : List Value} (few : packsItems values < wide) :
    Concur (Holds (packsItems values)) (e.unpackAll values) (e'.unpackAll values) := by
  have each : Concur (fun results => Holds (packsItems values) results.flatten)
      (values.mapM e.unpack) (values.mapM e'.unpack) := by
    induction values with
    | nil => exact .pure ⟨by simp, by simp⟩
    | cons v rest ih =>
      simp only [packsItems_cons] at few
      rw [List.mapM_cons, List.mapM_cons]
      refine (unpack v (by omega)).bind fun first holds => ?_
      refine (ih (by omega)).bind fun results others => .pure ?_
      simpa using holds.append others
  exact each.bind fun results holds => .pure holds

/-- A statement list stays one node. -/
theorem statementList_concur {wide : Nat} {e e' : Engine}
    (unpack : ∀ v, packs v < wide → Concur (Holds (packs v)) (e.unpack v) (e'.unpack v))
    {v : Value} (few : packs v < wide) :
    Concur (fun nodes => ∃ n, nodes = [n] ∧ Holds (packs v) [n]) (Rule.statementList e v)
      (Rule.statementList e' v) := by
  refine .reading (field_shallow v _) fun members read => ?_
  refine .reading (items_shallow members) fun items listed => ?_
  have part := packs_field read
  have within := packs_items listed
  refine (unpackAll_concur unpack (by omega)).bind fun body holds => .pure ⟨_, rfl, .one ?_ ?_⟩
  · exact (isNode_of_field read).withField _ _
  · have exchanged := packs_withField (.seq body) read
    have fewer := holds.few
    simp only [packs] at exchanged
    omega

namespace Covers

variable {wide narrow : Nat} {e e' : Engine}

/-- Unpacking an expression into one statement. -/
theorem unpackOne (covers : Covers wide narrow e e') {v : Value} (few : packs v < wide) :
    Concur (fun n => Holds (packs v) [n]) (Rule.unpackOne e v) (Rule.unpackOne e' v) :=
  (covers.unpack v few).bind fun nodes holds =>
    covers.asOne nodes _ holds (Nat.lt_of_le_of_lt holds.few few)

/-- Braces add no packing. -/
theorem blockUnless (covers : Covers wide narrow e e') {n : Value} {bound : Nat}
    (holds : Holds bound [n]) (few : bound < wide) (keep : Bool) :
    Concur (fun n => Holds bound [n]) (Rule.blockUnless e keep n) (Rule.blockUnless e' keep n) := by
  cases keep
  · exact covers.enclose [n] bound holds (Nat.lt_of_le_of_lt holds.few few)
  · exact .pure holds

end Covers

/-! ## Rules at two depths -/

/-- The parts of a packing stand apart from each other and from the packing. -/
theorem packs_apart {v : Value} {kind : String} (parts : List (String × Value))
    (named : v.hasTag kind = true) (member : kind ∈ packedTags)
    (distinct : (parts.map Prod.fst).Nodup) (read : ∀ part ∈ parts, v.field part.1 = .ok part.2) :
    (parts.map fun part => packs part.2).sum < packs v := by
  cases v with
  | node tag fields =>
    have packed := isPackedTag_of_hasTag named member
    have apart := packs_distinct _ distinct fields
    have found : (parts.map Prod.fst).map (fun name => packs ((fields.lookup name).getD .null)) =
        parts.map fun part => packs part.2 := by
      rw [List.map_map]
      refine List.map_congr_left fun part isPart => ?_
      obtain ⟨_, _, same, found⟩ := Value.lookup_of_field (read part isPart)
      cases same
      simp [found]
    rw [found] at apart
    simp only [packs]
    omega
  | _ => cases named

/-- New nodes of the rules have the packings of their parts; those that follow are alike. -/
theorem packs_ifStatement (test consequent alternate : Value) :
    packs (Value.ifStatement test consequent alternate) =
      packs test + packs consequent + packs alternate := by
  simp [Value.ifStatement, packs, packsFields, isPackedTag, packedTags, Value.isText]
  omega

theorem packs_returnStatement (argument : Value) :
    packs (Value.returnStatement argument) = packs argument := by
  simp [Value.returnStatement, packs, packsFields, isPackedTag, packedTags, Value.isText]

theorem packs_expressionStatement (expression : Value) :
    packs (Value.expressionStatement expression) = packs expression := by
  simp [Value.expressionStatement, packs, packsFields, isPackedTag, packedTags, Value.isText]

theorem packs_blockStatement (nodes : List Value) :
    packs (Value.blockStatement nodes) = packsItems nodes := by
  simp [Value.blockStatement, packs, packsFields, isPackedTag, packedTags, Value.isText]

theorem packs_unaryExpression (operator : String) (argument : Value) :
    packs (Value.unaryExpression (.str operator) argument) = packs argument := by
  simp [Value.unaryExpression, packs, packsFields, isPackedTag, packedTags, Value.isText]

/-- A branch made from a conditional has fewer packings than the conditional. -/
theorem packs_branch {v test consequent alternate yes no : Value}
    (conditional : v.hasTag "ConditionalExpression" = true) (readTest : v.field "test" = .ok test)
    (readConsequent : v.field "consequent" = .ok consequent)
    (readAlternate : v.field "alternate" = .ok alternate) (holdsYes : Holds (packs consequent) [yes])
    (holdsNo : Holds (packs alternate) [no]) : packs (Value.ifStatement test yes no) < packs v := by
  have apart := packs_apart [("test", test), ("consequent", consequent), ("alternate", alternate)]
    conditional (by decide) (by simp) (by simp_all)
  have fewYes := holdsYes.few
  have fewNo := holdsNo.few
  simp only [List.map_cons, List.map_nil, List.sum_cons, List.sum_nil, packsItems_cons,
    packsItems_nil] at apart fewYes fewNo
  rw [packs_ifStatement]
  omega

namespace Covers

section Unpacking

variable {n : Nat} {e e' : Engine} {v : Value}

/-- The operands of a comma sequence have one packing less than the sequence, so both engines have
the depth for them. -/
theorem unpackSequence (covers : Covers n n e e')
    (isSequence : v.hasTag "SequenceExpression" = true) (few : packs v ≤ n) :
    Concur (Holds (packs v)) (Rule.unpackSequence e v) (Rule.unpackSequence e' v) := by
  refine .reading (field_shallow v _) fun members read => ?_
  refine .reading (items_shallow members) fun items listed => ?_
  have smaller := packs_field_packed read isSequence (by decide)
  have within := packs_items listed
  exact (unpackAll_concur covers.unpack (by omega)).imp fun nodes holds => holds.mono (by omega)

/-- The test and the branches of a conditional share its packings, less the conditional itself. -/
theorem unpackConditional (covers : Covers n n e e')
    (conditional : v.hasTag "ConditionalExpression" = true) (few : packs v ≤ n) :
    Concur (Holds (packs v)) (Rule.unpackConditional e v) (Rule.unpackConditional e' v) := by
  refine .reading (field_shallow v _) fun consequent readConsequent => ?_
  have smaller := packs_field_packed readConsequent conditional (by decide)
  refine (covers.unpackOne (by omega)).bind fun yes holdsYes => ?_
  refine .reading (field_shallow v _) fun alternate readAlternate => ?_
  have smaller' := packs_field_packed readAlternate conditional (by decide)
  refine (covers.unpackOne (by omega)).bind fun no holdsNo => ?_
  refine .reading (isTagged_shallow yes _) fun _ _ => ?_
  refine (covers.blockUnless holdsYes (by omega) _).bind fun yes holdsYes => ?_
  refine .reading (Rule.hasElse_shallow no) fun _ _ => ?_
  refine (covers.blockUnless holdsNo (by omega) _).bind fun no holdsNo => ?_
  refine .reading (field_shallow v _) fun test readTest => ?_
  have apart := packs_branch conditional readTest readConsequent readAlternate holdsYes holdsNo
  exact (covers.settle _ (by omega)).imp fun nodes holds => holds.mono (by omega)

/-- The right operand is unpacked, the left one negated for `||`. One packing less is left for both.
-/
theorem unpackLogical (covers : Covers n n e e') (isLogical : v.hasTag "LogicalExpression" = true)
    (few : packs v ≤ n) :
    Concur (Holds (packs v)) (Rule.unpackLogical e v) (Rule.unpackLogical e' v) := by
  refine .reading (field_shallow v _) fun operator _ => .ite (fun _ => ?_) fun _ => ?_
  · refine .reading (field_shallow v _) fun right readRight => ?_
    have smaller := packs_field_packed readRight isLogical (by decide)
    refine (covers.unpackOne (by omega)).bind fun consequent holds => ?_
    refine .reading (field_shallow v _) fun left readLeft => ?_
    have apart := packs_apart [("left", left), ("right", right)] isLogical (by decide) (by simp)
      (by simp_all)
    simp only [List.map_cons, List.map_nil, List.sum_cons, List.sum_nil] at apart
    have branch : ∀ test, packs test ≤ packs left → Concur (Holds (packs v))
        (e.settle (Value.ifStatement test consequent .null))
        (e'.settle (Value.ifStatement test consequent .null)) := by
      intro test noMore
      have fewer := holds.few
      have made := packs_ifStatement test consequent .null
      simp only [packsItems_cons, packsItems_nil, packs_null] at fewer made
      exact (covers.settle _ (by omega)).imp fun nodes holds => holds.mono (by omega)
    refine .ite (fun _ => ?_) fun _ => ?_
    · have made := packs_unaryExpression "!" left
      refine (covers.settle _ (by omega)).bind fun nodes holds => ?_
      refine (covers.asOne nodes _ holds (Nat.lt_of_le_of_lt holds.few (by omega))).bind ?_
      intro test holds
      have fewer := holds.few
      simp only [packsItems_cons, packsItems_nil] at fewer
      exact branch test (by omega)
    · exact (Concur.pure (P := fun test => packs test ≤ packs left) (Nat.le_refl _)).bind branch
  · exact .pure (.one (.tagged _ _) (Nat.le_of_eq (packs_expressionStatement v)))

end Unpacking

section Settling

variable {n : Nat} {e e' : Engine} {v : Value}

/-- A statement has the packings of its expression, and the engines are asked for that expression.
-/
theorem expressionStatement (covers : Covers (n + 1) n e e') (few : packs v ≤ n) :
    Concur (Holds (packs v)) (Rule.expressionStatement e v) (Rule.expressionStatement e' v) := by
  refine .reading (field_shallow v _) fun expression read => ?_
  refine .reading (tag_shallow expression) fun tag _ => ?_
  have part := packs_field read
  rw [← covers.unpacks.1]
  refine .reading (covers.unpacks.2 tag) fun _ _ => .ite (fun _ => ?_) fun _ => ?_
  · exact (covers.unpack expression (by omega)).imp fun nodes holds => holds.mono part
  · exact .pure (.one (isNode_of_field read) (Nat.le_refl _))

/-- A comma in a field moves out in front, and what is left is handled by the rest of the rule. -/
theorem commaSplit (covers : Covers (n + 1) n e e') {name : String} {part : Value}
    (read : v.field name = .ok part) (isSequence : part.hasTag "SequenceExpression" = true)
    (few : packs v ≤ n) {rest rest' : Value → ReshapeM (List Value)}
    (next : ∀ w, IsNode w → packs w < packs v → Concur (Holds (packs w)) (rest w) (rest' w)) :
    Concur (Holds (packs v))
      (do
        let (leading, last) ← Rule.splitSequence part
        let before ← e.unpackAll leading
        return before ++ (← rest (v.withField name last)))
      (do
        let (leading, last) ← Rule.splitSequence part
        let before ← e'.unpackAll leading
        return before ++ (← rest' (v.withField name last))) := by
  refine .reading (Rule.splitSequence_shallow part) fun (leading, last) split => ?_
  have fewer := Rule.packs_splitSequence isSequence split
  have whole := packs_field read
  have exchanged := packs_withField last read
  refine (unpackAll_concur covers.unpack (by omega)).bind fun before holds => ?_
  refine (next _ ((isNode_of_field read).withField _ _) (by omega)).bind fun after holds' => .pure ?_
  exact (holds.append holds').mono (by omega)

/-- A branch that is missing stays missing. -/
theorem unpackBranch (covers : Covers (n + 1) n e e') (few : packs v ≤ n) {name : String}
    {branch : Option Value} (read : v.optional name = .ok branch) :
    Concur (Option.Rel (fun before after => Holds (packs before) [after]) branch)
      (Rule.unpackBranch e branch) (Rule.unpackBranch e' branch) := by
  cases branch with
  | none => exact .pure .none
  | some before =>
    have part := packs_field (field_of_optional read)
    exact (covers.unpackOne (by omega)).bind fun after holds => .pure (.some holds)

/-- The two branches share the packings of the statement. -/
theorem unpackBranches (covers : Covers (n + 1) n e e') (few : packs v ≤ n) :
    Concur (Holds (packs v)) (Rule.unpackBranches e v) (Rule.unpackBranches e' v) := by
  refine .reading (optional_shallow v _) fun consequent readConsequent => ?_
  refine (covers.unpackBranch few readConsequent).bind fun yes kept => ?_
  refine .reading (optional_shallow v _) fun alternate readAlternate => ?_
  refine (covers.unpackBranch few readAlternate).bind fun no kept' => ?_
  cases kept with
  | none => exact .throw nofun
  | @some before yes holds =>
    have read := field_of_optional readConsequent
    have part := packs_field read
    have isNode := isNode_of_field read
    cases kept' with
    | none =>
      have exchanged := packs_withField yes read
      have fewer := holds.few
      simp only [packsItems_cons, packsItems_nil] at fewer
      exact .pure (.one (isNode.withField _ _) (by omega))
    | @some before' no holds' =>
      refine .reading (Rule.endsWithoutElse_shallow yes) fun _ _ => ?_
      refine (covers.blockUnless holds (by omega) _).bind fun yes holds => ?_
      have exchanged := packs_withField yes read
      have readAlternate : (v.withField "consequent" yes).field "alternate" = .ok before' :=
        field_withField_of_ne _ (by decide) (field_of_optional readAlternate)
      have exchanged' := packs_withField no readAlternate
      have fewer := holds.few
      have fewer' := holds'.few
      simp only [packsItems_cons, packsItems_nil] at fewer fewer'
      exact .pure (.one ((isNode.withField _ _).withField _ _) (by omega))

/-- The operands before the test and the branches share the packings of the statement. -/
theorem ifStatement (covers : Covers (n + 1) n e e') (few : packs v ≤ n) :
    Concur (Holds (packs v)) (Rule.ifStatement e v) (Rule.ifStatement e' v) := by
  refine .reading (field_shallow v _) fun test read => ?_
  refine .reading (isTagged_shallow test _) fun isSequence tagged => .ite (fun yes => ?_) fun _ => ?_
  · refine covers.commaSplit read ((isTagged_found tagged).2.trans yes) few fun w _ smaller => ?_
    exact covers.settle w (by omega)
  · exact covers.unpackBranches few

theorem switchStatement (covers : Covers (n + 1) n e e') (few : packs v ≤ n) :
    Concur (Holds (packs v)) (Rule.switchStatement e v) (Rule.switchStatement e' v) := by
  refine .reading (field_shallow v _) fun discriminant read => ?_
  refine .reading (isTagged_shallow discriminant _) fun isSequence tagged =>
    .ite (fun yes => ?_) fun _ => .pure (.one (isNode_of_field read) (Nat.le_refl _))
  exact covers.commaSplit read ((isTagged_found tagged).2.trans yes) few
    fun w isNode _ => .pure (.one isNode (Nat.le_refl _))

theorem returnOne (covers : Covers (n + 1) n e e') {argument : Value} (few : packs argument < n) :
    Concur (fun one => Holds (packs argument) [one]) (Rule.returnOne e argument)
      (Rule.returnOne e' argument) := by
  have made := packs_returnStatement argument
  refine (covers.settle _ (by omega)).bind fun nodes holds => ?_
  rw [made] at holds
  exact covers.asOne nodes _ holds (Nat.lt_of_le_of_lt holds.few (by omega))

/-- Each branch is returned, with one packing less. -/
theorem returnConditional (covers : Covers (n + 1) n e e')
    (conditional : v.hasTag "ConditionalExpression" = true) (few : packs v ≤ n) :
    Concur (Holds (packs v)) (Rule.returnConditional e v) (Rule.returnConditional e' v) := by
  refine .reading (field_shallow v _) fun consequent readConsequent => ?_
  have smaller := packs_field_packed readConsequent conditional (by decide)
  refine (covers.returnOne (by omega)).bind fun yes holdsYes => ?_
  refine .reading (field_shallow v _) fun alternate readAlternate => ?_
  have smaller' := packs_field_packed readAlternate conditional (by decide)
  refine (covers.returnOne (by omega)).bind fun no holdsNo => ?_
  refine (covers.enclose _ _ holdsYes (Nat.lt_of_le_of_lt holdsYes.few (by omega))).bind ?_
  intro yes holdsYes
  refine .reading (Rule.hasElse_shallow no) fun _ _ => ?_
  refine (covers.blockUnless holdsNo (by omega) _).bind fun no holdsNo => ?_
  refine .reading (field_shallow v _) fun test readTest => ?_
  have apart := packs_branch conditional readTest readConsequent readAlternate holdsYes holdsNo
  exact (covers.settle _ (by omega)).imp fun nodes holds => holds.mono (by omega)

/-- The argument is split first, and then returned by the kind of its last operand. -/
theorem returnStatement (covers : Covers (n + 1) n e e') (isNode : IsNode v) (few : packs v ≤ n) :
    Concur (Holds (packs v)) (Rule.returnStatement e v) (Rule.returnStatement e' v) := by
  have kept : Concur (Holds (packs v)) (pure [v]) (pure [v]) := .pure (.one isNode (Nat.le_refl _))
  refine .reading (optional_shallow v _) fun argument read => ?_
  cases argument with
  | none => exact kept
  | some argument =>
    have read := field_of_optional read
    refine .reading (isTagged_shallow argument _) fun isSequence tagged =>
      .ite (fun yes => ?_) fun _ => .ite (fun conditional => ?_) fun _ => kept
    · refine covers.commaSplit read ((isTagged_found tagged).2.trans yes) few fun w _ smaller => ?_
      exact covers.settle w (by omega)
    · have part := packs_field read
      exact (covers.returnConditional conditional (by omega)).imp fun nodes holds => holds.mono part

/-- The head of a loop is taken apart, its body is not. -/
theorem forStatement (covers : Covers (n + 1) n e e') (few : packs v ≤ n) :
    Concur (Holds (packs v)) (Rule.forStatement e v) (Rule.forStatement e' v) := by
  refine .reading (field_shallow v _) fun init read => ?_
  have kept : Concur (Holds (packs v)) (pure [v]) (pure [v]) :=
    .pure (.one (isNode_of_field read) (Nat.le_refl _))
  split
  · exact kept
  · refine .reading (Rule.isVarDeclaration_shallow init) fun _ _ =>
      .ite (fun _ => ?_) fun _ => .ite (fun isSequence => ?_) fun _ => kept
    · exact .read (Rule.hoistDeclarators_holds read)
    · exact covers.commaSplit read isSequence few fun w isNode _ => .pure (.one isNode (Nat.le_refl _))

end Settling

end Covers

/-! Some rules ask the engine for nothing. -/

theorem unpackPlain_concur (e e' : Engine) (v : Value) :
    Concur (Holds (packs v)) (Rule.unpackPlain e v) (Rule.unpackPlain e' v) :=
  .pure (.one (.tagged _ _) (Nat.le_of_eq (packs_expressionStatement v)))

/-- Whether the label goes further in is asked without an engine. -/
theorem labeledStatement_concur (e e' : Engine) (v : Value) :
    Concur (Holds (packs v)) (Rule.labeledStatement e v) (Rule.labeledStatement e' v) := by
  refine .reading (field_shallow v _) fun body read => ?_
  refine (Concur.read (Rule.leavingBefore_gives v body)).bind fun answer leaves => ?_
  have isNode := isNode_of_field read
  cases answer with
  | none => exact .pure (.one isNode (Nat.le_refl _))
  | some split =>
    obtain ⟨leading, last⟩ := split
    obtain ⟨nodes, parts⟩ := leaves leading last rfl
    have exchanged := packs_withField last read
    have front : Holds (packsItems leading) leading := ⟨nodes, Nat.le_refl _⟩
    exact .pure ((front.append (.one (isNode.withField _ _) (Nat.le_refl _))).mono (by omega))

theorem binaryExpression_concur (e e' : Engine) (v : Value) :
    Concur (Holds (packs v)) (Rule.binaryExpression e v) (Rule.binaryExpression e' v) :=
  (Concur.read (Rule.turnComparison_holds v)).bind fun _ holds => .pure holds

theorem unaryExpression_concur (e e' : Engine) (v : Value) :
    Concur (Holds (packs v)) (Rule.unaryExpression e v) (Rule.unaryExpression e' v) :=
  (Concur.read (Rule.evaluateUnary_holds v)).bind fun _ holds => .pure holds

/-! ## Depths -/

/-- A rule that is found was entered under the text of the tag. -/
theorem rule?_found {rules : RuleMap} {off : List String} {tag : Value} {name : String} {rule : Rule}
    (looked : (tag.key? >>= fun key => pure
      (RuleMap.rule? (rules.filter fun entry => !off.contains entry.1) key)) =
        Except.ok (some (name, rule))) :
    tag = .str name ∧ (name, rule) ∈ rules := by
  cases read : tag.key? with
  | error fault =>
    rw [read] at looked
    cases looked
  | ok key =>
    rw [read] at looked
    cases key with
    | none => cases looked
    | some own =>
      obtain ⟨_, found, same⟩ := Option.map_eq_some_iff.mp (Except.ok.inj looked)
      cases same
      refine ⟨?_, (List.mem_filter.mp (Fields.mem_of_lookup found)).1⟩
      unfold Value.key? at read
      split at read
      · simpa using read
      · split at read <;> simp at read

section Depths

variable {off : List String} {n : Nat} {e e' : Engine}

/-- Unpacking by rules that run with engines that agree on fewer packings. -/
theorem unpackAbove_concur (covers : Covers n n e e') {v : Value} (few : packs v ≤ n) :
    Concur (Holds (packs v)) (Engine.unpackAbove (Registry.builtin.without off) e v)
      (Engine.unpackAbove (Registry.builtin.without off) e' v) := by
  refine .reading (tag_shallow v) fun tag read => ?_
  obtain ⟨fields, rfl⟩ := isNode_of_tag read
  refine .reading ((key?_shallow tag).bind fun _ => .pure _) fun found looked => ?_
  cases found with
  | none =>
    refine .reading (isStatement_shallow _) fun _ _ => .ite (fun _ => ?_) fun _ => ?_
    · exact .pure (.one ⟨tag, fields, rfl⟩ (Nat.le_refl _))
    · exact .pure (.one (.tagged _ _) (Nat.le_of_eq (packs_expressionStatement _)))
  | some entry =>
    obtain ⟨name, rule⟩ := entry
    obtain ⟨rfl, isRule⟩ := rule?_found looked
    refine (Concur.hit _).bind fun _ _ => ?_
    simp only [Registry.builtin, Rule.unpackRules, List.mem_cons, Prod.mk.injEq, List.not_mem_nil,
      or_false] at isRule
    rcases isRule with ⟨rfl, rfl⟩ | ⟨rfl, rfl⟩ | ⟨rfl, rfl⟩ | ⟨rfl, rfl⟩ | ⟨rfl, rfl⟩
    · exact covers.unpackSequence rfl few
    · exact covers.unpackConditional rfl few
    · exact covers.unpackLogical rfl few
    · exact unpackPlain_concur e e' _
    · exact unpackPlain_concur e e' _

/-- The rule of a block, which only unpacks. -/
theorem settleAbove_block
    (unpack : ∀ v, packs v ≤ n → Concur (Holds (packs v)) (e.unpack v) (e'.unpack v))
    {nodes : List Value} (few : packsItems nodes ≤ n) :
    Concur (fun results => ∃ one, results = [one] ∧ Holds (packsItems nodes) [one])
      (Engine.settleAbove (Registry.builtin.without off) e (Value.blockStatement nodes))
      (Engine.settleAbove (Registry.builtin.without off) e' (Value.blockStatement nodes)) := by
  have made := packs_blockStatement nodes
  refine .reading (tag_shallow _) fun tag read => ?_
  cases read
  refine .reading ((key?_shallow _).bind fun _ => .pure _) fun found looked => ?_
  cases found with
  | none => exact .pure ⟨_, rfl, .one (.tagged _ _) (Nat.le_of_eq made)⟩
  | some entry =>
    obtain ⟨name, rule⟩ := entry
    obtain ⟨same, isRule⟩ := rule?_found looked
    cases same
    refine (Concur.hit _).bind fun _ _ => ?_
    obtain rfl : rule = { name := "statement list", run := Rule.statementList } := by
      simpa [Registry.builtin, builtinNodeRules] using isRule
    rw [← made]
    exact statementList_concur (fun v less => unpack v (Nat.le_of_lt_succ less)) (by omega)

/-- The rule of any node, given engines that agree on as many packings. -/
theorem settleAbove_concur (covers : Covers (n + 1) n e e') {v : Value} (few : packs v ≤ n) :
    Concur (Holds (packs v)) (Engine.settleAbove (Registry.builtin.without off) e v)
      (Engine.settleAbove (Registry.builtin.without off) e' v) := by
  refine .reading (tag_shallow v) fun tag read => ?_
  obtain ⟨fields, rfl⟩ := isNode_of_tag read
  have isNode : IsNode (.node tag fields) := ⟨tag, fields, rfl⟩
  refine .reading ((key?_shallow tag).bind fun _ => .pure _) fun found looked => ?_
  cases found with
  | none => exact .pure (.one isNode (Nat.le_refl _))
  | some entry =>
    obtain ⟨name, rule⟩ := entry
    obtain ⟨rfl, isRule⟩ := rule?_found looked
    refine (Concur.hit _).bind fun _ _ => ?_
    have list : ∀ v, packs v ≤ n →
        Concur (Holds (packs v)) (Rule.statementList e v) (Rule.statementList e' v) :=
      fun v few => (statementList_concur covers.unpack (by omega)).imp
        fun nodes ⟨one, same, holds⟩ => same ▸ holds
    simp only [Registry.builtin, builtinNodeRules, List.mem_cons, Prod.mk.injEq, List.not_mem_nil,
      or_false] at isRule
    rcases isRule with ⟨rfl, rfl⟩ | ⟨rfl, rfl⟩ | ⟨rfl, rfl⟩ | ⟨rfl, rfl⟩ | ⟨rfl, rfl⟩ | ⟨rfl, rfl⟩ |
      ⟨rfl, rfl⟩ | ⟨rfl, rfl⟩ | ⟨rfl, rfl⟩ | ⟨rfl, rfl⟩
    · exact covers.expressionStatement few
    · exact list _ few
    · exact list _ few
    · exact covers.ifStatement few
    · exact covers.switchStatement few
    · exact covers.forStatement few
    · exact labeledStatement_concur e e' _
    · exact covers.returnStatement isNode few
    · exact binaryExpression_concur e e' _
    · exact unaryExpression_concur e e' _

/-- Unpacking takes one level more than what its rules ask for. -/
theorem unpack_of_covers {depth depth' : Nat}
    (covers : Covers n n (engineWithout off depth) (engineWithout off depth')) (v : Value)
    (few : packs v ≤ n) : Concur (Holds (packs v)) ((engineWithout off (depth + 1)).unpack v)
      ((engineWithout off (depth' + 1)).unpack v) :=
  unpackAbove_concur covers few

/-- Wrapping in a block takes two levels more than unpacking, one for the block and its rule. -/
theorem enclose_of_covers {depth depth' bound : Nat}
    (covers : Covers n n (engineWithout off depth) (engineWithout off depth')) {nodes : List Value}
    (holds : Holds bound nodes) (few : packsItems nodes ≤ n) :
    Concur (fun one => Holds bound [one]) ((engineWithout off (depth + 3)).enclose nodes)
      ((engineWithout off (depth' + 3)).enclose nodes) := by
  have wrapped : Concur (fun one => Holds bound [one])
      ((engineWithout off (depth + 2)).settle (Value.blockStatement nodes) >>=
        (engineWithout off (depth + 2)).asOne)
      ((engineWithout off (depth' + 2)).settle (Value.blockStatement nodes) >>=
        (engineWithout off (depth' + 2)).asOne) := by
    refine (settleAbove_block (unpack_of_covers covers) few).bind fun results single => ?_
    obtain ⟨one, rfl, block⟩ := single
    exact .pure (block.mono holds.few)
  show Concur _ (Engine.encloseAbove _ nodes) (Engine.encloseAbove _ nodes)
  unfold Engine.encloseAbove
  split
  · exact .reading (isTagged_shallow _ _) fun _ _ => .ite (fun _ => .pure holds) fun _ => wrapped
  · exact wrapped

/-- Settling the statements that a rule made, and putting them into one. -/
theorem asOne_of_covers {depth depth' bound : Nat}
    (covers : Covers n n (engineWithout off depth) (engineWithout off depth')) {nodes : List Value}
    (holds : Holds bound nodes) (few : packsItems nodes ≤ n) :
    Concur (fun one => Holds bound [one]) ((engineWithout off (depth + 4)).asOne nodes)
      ((engineWithout off (depth' + 4)).asOne nodes) := by
  show Concur _ (Engine.asOneAbove _ nodes) (Engine.asOneAbove _ nodes)
  unfold Engine.asOneAbove
  split
  · exact .pure holds
  · exact enclose_of_covers covers holds few

/-- Which tags are unpacked does not depend on the depth of the engine. -/
theorem unpacks_of_depth (off : List String) (depth depth' : Nat) :
    (engineWithout off depth).unpacks = (engineWithout off depth').unpacks ∧
      ∀ tag, Shallow ((engineWithout off depth).unpacks tag) := by
  have same : ∀ depth, (engineWithout off depth).unpacks = (Registry.builtin.without off).unpacks := by
    intro depth
    cases depth <;> rfl
  refine ⟨(same depth).trans (same depth').symm, fun tag => ?_⟩
  rw [same]
  exact Shallow.bind ((key?_shallow tag).bind fun _ => .pure _) fun _ => .pure _

/-- Engines agree on values with fewer packings than a fifth of their depths. -/
theorem covers_of_depth (off : List String) {n depth depth' : Nat} (deep : 5 * n ≤ depth)
    (deep' : 5 * n ≤ depth') : Covers n n (engineWithout off depth) (engineWithout off depth') := by
  induction n generalizing depth depth' with
  | zero =>
    exact ⟨unpacks_of_depth off depth depth', fun _ few => absurd few (Nat.not_lt_zero _),
      fun _ _ _ few => absurd few (Nat.not_lt_zero _), fun _ _ _ few => absurd few (Nat.not_lt_zero _),
      fun _ few => absurd few (Nat.not_lt_zero _)⟩
  | succ n ih =>
    -- Four levels carry all but the rules of nodes over to one more packing, the fifth those.
    have wide : ∀ {depth depth'}, 5 * n + 4 ≤ depth → 5 * n + 4 ≤ depth' →
        Covers (n + 1) n (engineWithout off depth) (engineWithout off depth') := by
      intro depth depth' deep deep'
      obtain ⟨low, rfl⟩ := Nat.exists_eq_add_of_le' (Nat.le_trans (Nat.le_add_left 4 _) deep)
      obtain ⟨low', rfl⟩ := Nat.exists_eq_add_of_le' (Nat.le_trans (Nat.le_add_left 4 _) deep')
      exact {
        unpacks := unpacks_of_depth off _ _
        unpack := fun v few => unpack_of_covers (ih (by omega) (by omega)) v (by omega)
        asOne := fun nodes bound holds few =>
          asOne_of_covers (ih (by omega) (by omega)) holds (by omega)
        enclose := fun nodes bound holds few =>
          have less : Covers n n (engineWithout off (low + 1)) (engineWithout off (low' + 1)) :=
            ih (by omega) (by omega)
          enclose_of_covers less holds (by omega)
        settle := (ih (by omega) (by omega)).settle }
    obtain ⟨low, rfl⟩ : ∃ low, depth = low + 1 := ⟨depth - 1, by omega⟩
    obtain ⟨low', rfl⟩ : ∃ low, depth' = low + 1 := ⟨depth' - 1, by omega⟩
    have above : Covers (n + 1) n (engineWithout off (low + 1)) (engineWithout off (low' + 1)) :=
      wide (by omega) (by omega)
    have below : Covers (n + 1) n (engineWithout off low) (engineWithout off low') :=
      wide (by omega) (by omega)
    exact { above with settle := fun v few => settleAbove_concur below (by omega) }

end Depths

/-! ## Whole trees -/

section Trees

variable {e e' : Engine} {n : Nat}

mutual

/-- Reshaping a node, its fields and their members. -/
theorem reshape_concur (covers : Covers n n e e') :
    (v : Value) → packs v < n → Concur (Holds (packs v)) (reshape e v) (reshape e' v)
  | .node tag fields, few => by
    rw [reshape, reshape]
    simp only [packs] at few
    refine (reshapeFields_concur covers fields (by omega)).bind fun parts noMore => ?_
    have less : packs (.node tag parts) ≤ packs (.node tag fields) := by
      simp only [packs]
      omega
    simp only [packs] at less ⊢
    refine (covers.settle (.node tag parts) (by simp only [packs]; omega)).imp fun nodes holds => ?_
    exact holds.mono less
  | .null, _ | .bool _, _ | .int _, _ | .float _, _ | .str _, _ | .sealed _, _ | .seq _, _
  | .list _, _ | .object _, _ => .throw nofun

/-- Every field is reshaped with the packings that the others leave: by induction on the fields. -/
theorem reshapeFields_concur (covers : Covers n n e e') :
    (fields : Fields) → packsFields fields < n →
      Concur (fun parts => packsFields parts ≤ packsFields fields) (reshapeFields e fields)
        (reshapeFields e' fields)
  | [], _ => .pure (Nat.le_refl _)
  | (name, .seq items) :: rest, few => by
    simp only [packsFields, packs] at few ⊢
    rw [reshapeFields, reshapeFields]
    refine (reshapeItems_concur covers items (by omega)).bind fun members noMore => ?_
    refine (reshapeFields_concur covers rest (by omega)).bind fun parts noMore' => .pure ?_
    simp only [packsFields, packs]
    omega
  | (name, .node tag fields) :: rest, few => by
    simp only [packsFields] at few ⊢
    rw [reshapeFields, reshapeFields]
    refine (reshape_concur covers (.node tag fields) (by omega)).bind fun nodes holds => ?_
    have noMore := holds.few
    refine (covers.asOne nodes _ holds (by omega)).bind fun one single => ?_
    refine (reshapeFields_concur covers rest (by omega)).bind fun parts noMore' => .pure ?_
    have noMore := single.few
    simp only [packsFields, packsItems_cons, packsItems_nil] at noMore ⊢
    omega
  | (name, .null) :: rest, few | (name, .bool _) :: rest, few | (name, .int _) :: rest, few
  | (name, .float _) :: rest, few | (name, .str _) :: rest, few | (name, .sealed _) :: rest, few
  | (name, .list _) :: rest, few | (name, .object _) :: rest, few => by
    simp only [packsFields] at few ⊢
    simp only [reshapeFields]
    refine (reshapeFields_concur covers rest (by omega)).bind fun parts noMore => .pure ?_
    simp only [packsFields]
    omega

/-- The same for the members of a sequence. -/
theorem reshapeItems_concur (covers : Covers n n e e') :
    (items : List Value) → packsItems items < n →
      Concur (fun members => packsItems members ≤ packsItems items) (reshapeItems e items)
        (reshapeItems e' items)
  | [], _ => .pure (Nat.le_refl _)
  | .node tag fields :: rest, few => by
    simp only [packsItems_cons] at few ⊢
    rw [reshapeItems, reshapeItems]
    refine (reshape_concur covers (.node tag fields) (by omega)).bind fun nodes holds => ?_
    refine (reshapeItems_concur covers rest (by omega)).bind fun members noMore => .pure ?_
    have noMore' := holds.few
    simp only [packsItems_append]
    omega
  | .null :: rest, few | .bool _ :: rest, few | .int _ :: rest, few | .float _ :: rest, few
  | .str _ :: rest, few | .sealed _ :: rest, few | .seq _ :: rest, few | .list _ :: rest, few
  | .object _ :: rest, few => by
    simp only [packsItems_cons] at few ⊢
    simp only [reshapeItems]
    refine (reshapeItems_concur covers rest (by omega)).bind fun members noMore => .pure ?_
    simp only [packsItems_cons]
    omega

end

/-- A tree with fewer packings than the engine has depth is reshaped alike by every deeper engine.
-/
theorem reshapeTreeWith_concur (covers : Covers n n e e') {tree : Value} (few : packs tree < n) :
    Concur IsNode (reshapeTreeWith e tree) (reshapeTreeWith e' tree) := by
  refine (reshape_concur covers tree few).bind fun nodes holds => ?_
  have noMore := holds.few
  exact (covers.asOne nodes _ holds (by omega)).imp fun one single => single.each one (by simp)

end Trees

/-- Reshaping by the built-in rules, perhaps without some, ends on every tree with a node or with a
fault that is not about depth, and more depth than the tree is given changes neither that outcome
nor the count of rule uses. -/
theorem prettify_terminates (off : List String) (tree : Value) :
    (∀ extra hits,
      (reshapeTreeWith (engineWithout off (Registry.depthFor tree.size + extra)) tree).run.run hits =
        (reshapeTree (Registry.builtin.without off) tree).run.run hits) ∧
    ((∃ tag fields, prettify (Registry.builtin.without off) tree = .ok (.node tag fields)) ∨
      ∃ fault, fault ≠ .tooDeep ∧ prettify (Registry.builtin.without off) tree = .error fault) := by
  have small := packs_le_size tree
  have concur : ∀ extra, Concur IsNode
      (reshapeTreeWith (engineWithout off (Registry.depthFor tree.size + extra)) tree)
      (reshapeTree (Registry.builtin.without off) tree) := by
    intro extra
    refine reshapeTreeWith_concur (n := packs tree + 1) (covers_of_depth off ?_ ?_) (by omega)
    all_goals
      unfold Registry.depthFor
      omega
  refine ⟨fun extra hits => congrArg (fun m => m.run.run hits) (concur extra).same, ?_⟩
  have ends := (concur 0).ends []
  rw [(concur 0).same] at ends
  cases outcome : prettify (Registry.builtin.without off) tree with
  | ok result =>
    rw [show ((reshapeTree (Registry.builtin.without off) tree).run.run []).1 = .ok result from outcome]
      at ends
    obtain ⟨tag, fields, rfl⟩ := ends
    exact Or.inl ⟨tag, fields, rfl⟩
  | error fault =>
    rw [show ((reshapeTree (Registry.builtin.without off) tree).run.run []).1 = .error fault from
      outcome] at ends
    exact Or.inr ⟨fault, ends, rfl⟩

end Untangle.Reshape
