import Untangle.Proofs.Reshape.Kinds
import Untangle.Proofs.Reshape.Yields

/-!
# The engine answers with the closed form

On well-formed trees the engine of the built-in rules, perhaps without some, ends without a fault
and with the nodes that `Untangle.Proofs.Reshape.Unfolding` describes, once its depth exceeds the
nesting of packed expressions by a few levels. That nesting is never more than the size of the tree
and no rule adds to it, so the depth that the tree is given is enough.

* `unpack_yields`, `settle_yields` and `reshape_yields` are the three parts of the engine.
* `prettify_eq` is the statement about whole programs.
-/

namespace Untangle.Reshape

open Syntax

/-- The engine of the built-in rules without some. -/
abbrev engineWithout (off : List String) (depth : Nat) : Engine :=
  (Registry.builtin.without off).engine depth

variable {off : List String}

/-! ## Rules by their tags -/

/-- A tag that was removed or never had a rule has none. -/
theorem rule?_none {rules : RuleMap} {tag : String}
    (missing : off.contains tag = true ∨ rules.lookup tag = none) :
    RuleMap.rule? (rules.filter fun entry => !off.contains entry.1) (some tag) = none := by
  simp only [RuleMap.rule?, Option.bind_some, lookup_filter_tags]
  rcases missing with removed | missing
  · rw [if_pos removed]
    rfl
  · rw [missing, ite_self]
    rfl

theorem rule?_some {rules : RuleMap} {tag : String} {rule : Rule}
    (present : ¬ off.contains tag = true) (found : rules.lookup tag = some rule) :
    RuleMap.rule? (rules.filter fun entry => !off.contains entry.1) (some tag) =
      some (tag, rule) := by
  simp only [RuleMap.rule?, Option.bind_some, lookup_filter_tags, if_neg present, found,
    Option.map_some]

/-- A tag without a rule leaves its nodes alone. -/
theorem settle_of_none {tag : String} (fields : Fields) (depth : Nat)
    (missing : off.contains tag = true ∨ builtinNodeRules.lookup tag = none) :
    Yields ((engineWithout off (depth + 1)).settle (.tagged tag fields)) [.tagged tag fields] := by
  have none : (Registry.builtin.without off).nodeRule? (.str tag) = .ok none :=
    congrArg Except.ok (rule?_none missing)
  apply Yields.lift_bind (tag_tagged tag fields)
  apply Yields.lift_bind none
  exact .pure _

/-- A rule runs with the engine below. -/
theorem settle_of_rule {tag : String} {fields : Fields} {depth : Nat} {rule : Rule}
    {nodes : List Value} (present : ¬ off.contains tag = true)
    (found : builtinNodeRules.lookup tag = some rule)
    (runs : Yields (rule.run (engineWithout off depth) (.tagged tag fields)) nodes) :
    Yields ((engineWithout off (depth + 1)).settle (.tagged tag fields)) nodes := by
  have some : (Registry.builtin.without off).nodeRule? (.str tag) = .ok (some (tag, rule)) :=
    congrArg Except.ok (rule?_some present found)
  apply Yields.lift_bind (tag_tagged tag fields)
  apply Yields.lift_bind some
  exact (Yields.hit tag).bind runs

/-- What an expression without a rule becomes in the place of a statement. -/
theorem unpack_of_none {tag : String} (fields : Fields) (depth : Nat)
    (missing : off.contains tag = true ∨ Rule.unpackRules.lookup tag = none) :
    Yields ((engineWithout off (depth + 1)).unpack (.tagged tag fields))
      [asStatement (.tagged tag fields)] := by
  have none : (Registry.builtin.without off).unpackRule? (.str tag) = .ok none :=
    congrArg Except.ok (rule?_none missing)
  apply Yields.lift_bind (tag_tagged tag fields)
  apply Yields.lift_bind none
  apply Yields.lift_bind (show (Value.tagged tag fields).isStatement =
    .ok (Value.isStatementTag tag) from rfl)
  simp only [asStatement]
  split
  · exact .pure _
  · exact .pure _

theorem unpack_of_rule {tag : String} {fields : Fields} {depth : Nat} {rule : Rule}
    {nodes : List Value} (present : ¬ off.contains tag = true)
    (found : Rule.unpackRules.lookup tag = some rule)
    (runs : Yields (rule.run (engineWithout off depth) (.tagged tag fields)) nodes) :
    Yields ((engineWithout off (depth + 1)).unpack (.tagged tag fields)) nodes := by
  have some : (Registry.builtin.without off).unpackRule? (.str tag) = .ok (some (tag, rule)) :=
    congrArg Except.ok (rule?_some present found)
  apply Yields.lift_bind (tag_tagged tag fields)
  apply Yields.lift_bind some
  exact (Yields.hit ("loose:" ++ tag)).bind runs

/-! ## Statements and blocks -/

theorem statement_no_rule : ∀ tag ∈ statementTags,
    Rule.unpackRules.lookup tag = none ∧ Value.isStatementTag tag = true := by
  decide +kernel

/-- A statement stays as it is. -/
theorem unpack_statement {s : Value} (fit : fits statement s = true) (depth : Nat) :
    Yields ((engineWithout off (depth + 1)).unpack s) [s] := by
  obtain ⟨tag, fields, rfl, admitted, -⟩ := fits_one.mp fit
  obtain ⟨missing, isStatement⟩ := statement_no_rule tag admitted
  have answer := @unpack_of_none off tag fields depth (Or.inr missing)
  simpa [asStatement, isStatement] using answer

theorem unpackAll_yields {depth : Nat} {parts : List Value}
    (each : ∀ part ∈ parts, Yields ((engineWithout off depth).unpack part) (unpacked off part)) :
    Yields ((engineWithout off depth).unpackAll parts) (parts.flatMap (unpacked off)) := by
  rw [List.flatMap_def]
  exact (Yields.mapM each).bind (.pure _)

theorem unpackAll_statements {depth : Nat} {nodes : List Value}
    (fit : ∀ n ∈ nodes, fits statement n = true) :
    Yields ((engineWithout off (depth + 1)).unpackAll nodes) nodes := by
  have same : (nodes.map fun n => [n]).flatten = nodes := by
    induction nodes with
    | nil => rfl
    | cons n rest ih => simpa using ih fun m member => fit m (by simp [member])
  have each : Yields (nodes.mapM (engineWithout off (depth + 1)).unpack) (nodes.map fun n => [n]) :=
    Yields.mapM fun n member => unpack_statement (fit n member) depth
  have answer : Yields ((engineWithout off (depth + 1)).unpackAll nodes)
      (nodes.map fun n => [n]).flatten := each.bind (.pure _)
  rwa [same] at answer

/-- A program or a block of statements stays as it is. -/
theorem statementList_yields {tag : String} {fields : Fields} {depth : Nat} {nodes : List Value}
    (bodyIs : fields.lookup "body" = some (.seq nodes))
    (fit : ∀ n ∈ nodes, fits statement n = true) :
    Yields (Rule.statementList (engineWithout off (depth + 1)) (.tagged tag fields))
      [.tagged tag fields] := by
  apply Yields.lift_bind (Value.field_of_lookup bodyIs)
  apply Yields.lift_bind (show (Value.seq nodes).items = .ok nodes from rfl)
  apply (unpackAll_statements fit).bind
  rw [Value.withField_lookup bodyIs]
  exact .pure _

theorem settle_block {nodes : List Value} (fit : ∀ n ∈ nodes, fits statement n = true)
    (depth : Nat) :
    Yields ((engineWithout off (depth + 2)).settle (Value.blockStatement nodes))
      [Value.blockStatement nodes] := by
  by_cases removed : off.contains "BlockStatement" = true
  · exact settle_of_none _ _ (Or.inl removed)
  · exact settle_of_rule removed rfl (statementList_yields rfl fit)

theorem asOne_single (n : Value) (depth : Nat) :
    Yields ((engineWithout off (depth + 1)).asOne [n]) n :=
  .pure n

theorem enclose_yields {n : Value} (fit : fits statement n = true) (depth : Nat) :
    Yields ((engineWithout off (depth + 3)).enclose [n]) (enclosed n) := by
  obtain ⟨tag, fields, rfl, -⟩ := fits_one.mp fit
  apply Yields.lift_bind (isTagged_tagged tag "BlockStatement" fields)
  unfold enclosed
  rw [hasTag_tagged]
  split
  · exact .pure _
  · exact (settle_block (by simpa using fit) depth).bind (asOne_single _ _)

theorem asOne_yields {nodes : List Value} (fit : ∀ n ∈ nodes, fits statement n = true)
    (depth : Nat) :
    Yields ((engineWithout off (depth + 4)).asOne nodes) (one nodes) := by
  unfold one
  split
  · exact asOne_single _ _
  · rename_i several
    show Yields (Engine.asOneAbove _ nodes) _
    cases nodes with
    | nil => exact (settle_block fit depth).bind (asOne_single _ _)
    | cons first rest =>
      cases rest with
      | nil => exact absurd rfl (several first)
      | cons second rest => exact (settle_block fit depth).bind (asOne_single _ _)

theorem blockUnless_yields {n : Value} (fit : fits statement n = true) (keep : Bool) (depth : Nat) :
    Yields (Rule.blockUnless (engineWithout off (depth + 3)) keep n)
      (if keep then n else enclosed n) := by
  cases keep with
  | true => exact .pure n
  | false => exact enclose_yields fit depth

/-! ## Packed expressions -/

/-- The packings inside one another in an expression are fewer than the number. -/
def PackedWithin : Nat → Value → Prop
  | 0, _ => False
  | n + 1, v => ∀ part ∈ (packing v).parts, PackedWithin n part

theorem PackedWithin.mono {n m : Nat} {v : Value} (within : PackedWithin n v) (le : n ≤ m) :
    PackedWithin m v := by
  induction n generalizing m v with
  | zero => exact within.elim
  | succ n ih =>
    cases m with
    | zero => omega
    | succ m => exact fun part member => ih (within part member) (by omega)

/-- Packings are not nested more often than the expression has parts. -/
theorem packedWithin_size (v : Value) : PackedWithin v.size v := by
  have pos := v.size_pos
  cases h : v.size with
  | zero => omega
  | succ n =>
    intro part member
    have smaller := size_lt_of_mem_parts rfl member
    exact (packedWithin_size part).mono (by omega)
termination_by v.size

/-- What is said of the engine about unpacking expressions of bounded nesting. -/
def Unpacks (off : List String) (n : Nat) : Prop :=
  ∀ v depth, fits expression v = true → PackedWithin n v → n + 5 ≤ depth →
    Yields ((engineWithout off depth).unpack v) (unpacked off v)

/-- A well-formed expression is a comma sequence, which has a last member, or it is none. -/
theorem comma_cases {v : Value} (fit : fits expression v = true) :
    (∃ leading last, packing v = .comma (leading ++ [last]) ∧
      v.isTagged "SequenceExpression" = .ok true ∧ Rule.splitSequence v = .ok (leading, last)) ∨
    ((∀ items, packing v ≠ .comma items) ∧ v.isTagged "SequenceExpression" = .ok false) := by
  obtain ⟨tag, fields, rfl, -, formed⟩ := fits_one.mp fit
  by_cases isSequence : tag = "SequenceExpression"
  · subst isSequence
    obtain ⟨items, itemsAre, -⟩ := formed.many (show (fieldsOf "SequenceExpression").lookup
      "expressions" = some (.many expressionTags) from rfl)
    have packs : packing (.tagged "SequenceExpression" fields) = .comma items := by
      simp [packing, itemsAre]
    cases ends : items.getLast? with
    | none => exact absurd (List.getLast?_eq_none_iff.mp ends) (packing_comma_ne_nil fit packs)
    | some last =>
      obtain ⟨leading, rfl⟩ := List.getLast?_eq_some_iff.mp ends
      refine Or.inl ⟨leading, last, packs, rfl, ?_⟩
      simp [Rule.splitSequence, Value.field_of_lookup itemsAre, Value.leadingAndLast]
  · refine Or.inr ⟨fun items packs => ?_, by simp [isSequence]⟩
    have shape := packs ▸ packed (.tagged tag fields)
    cases shape with
    | comma => exact isSequence rfl

/-! ## Branches -/

theorem braced_withTest (n test : Value) (fields : Fields) :
    braced n (Fields.set "test" test fields) = braced n fields := by
  simp only [braced, Fields.lookup_set_of_ne _ _ (show "consequent" ≠ "test" by decide),
    Fields.lookup_set_of_ne _ _ (show "alternate" ≠ "test" by decide)]

theorem settledIf_comma {fields : Fields} {test last : Value} {leading : List Value}
    (testIs : fields.lookup "test" = some test) (packs : packing test = .comma (leading ++ [last])) :
    settledIf off (.tagged "IfStatement" fields) fields = leading.flatMap (unpacked off) ++
      settledIf off (.tagged "IfStatement" (Fields.set "test" last fields))
        (Fields.set "test" last fields) := by
  simp only [settledIf, testIs, commaSplit_comma packs, Fields.lookup_set_self, List.flatMap_append,
    List.append_assoc, Value.withField, Fields.set_set, braced_withTest]

theorem settledIf_plain {fields : Fields} {test : Value}
    (testIs : fields.lookup "test" = some test) (packs : ∀ items, packing test ≠ .comma items) :
    settledIf off (.tagged "IfStatement" fields) fields =
      [braced (.tagged "IfStatement" fields) fields] := by
  simp only [settledIf, testIs, commaSplit_plain packs, List.flatMap_nil, List.nil_append,
    Value.withField_lookup testIs]

/-- A branch that is a statement stays one. -/
theorem unpackOne_statement {s : Value} (fit : fits statement s = true) (depth : Nat) :
    Yields (Rule.unpackOne (engineWithout off (depth + 1)) s) s :=
  (unpack_statement fit depth).bind (asOne_single s depth)

/-- A branch without an else needs no block. -/
theorem braced_without {tag : String} {fields : Fields} (n : Value)
    (missing : (Value.tagged tag fields).optional "alternate" = .ok none) : braced n fields = n := by
  unfold braced
  cases fields.lookup "consequent" with
  | none => rfl
  | some consequent =>
    cases alternateIs : fields.lookup "alternate" with
    | none => rfl
    | some alternate => cases alternate <;> simp_all [Value.optional]

theorem braced_with {fields : Fields} {consequent alternate : Value} (n : Value) {b : Bool}
    (consequentIs : fields.lookup "consequent" = some consequent)
    (alternateIs : fields.lookup "alternate" = some alternate)
    (alternateFits : fits statement alternate = true)
    (ends : Rule.endsWithoutElse consequent = .ok b) :
    braced n fields = if b then n.withField "consequent" (enclosed consequent) else n := by
  obtain ⟨_, _, rfl, -⟩ := fits_one.mp alternateFits
  simp only [braced, consequentIs, alternateIs, ends]
  cases b <;> rfl

theorem unpackBranches_yields {fields : Fields} (formed : Formed "IfStatement" fields)
    (depth : Nat) :
    Yields (Rule.unpackBranches (engineWithout off (depth + 3)) (.tagged "IfStatement" fields))
      [braced (.tagged "IfStatement" fields) fields] := by
  obtain ⟨consequent, consequentIs, consequentFits⟩ := formed.required
    (show (fieldsOf "IfStatement").lookup "consequent" = some statement from rfl) rfl
  have present : consequent ≠ .null := by
    obtain ⟨_, _, rfl, -⟩ := fits_one.mp consequentFits
    simp
  have whole := @Value.withField_lookup (.str "IfStatement") _ _ _ consequentIs
  apply Yields.lift_bind (Value.optional_of_lookup consequentIs present)
  apply ((unpackOne_statement consequentFits _).map some).bind
  rcases formed.optional
    (show (fieldsOf "IfStatement").lookup "alternate" = some (.opt statementTags) from rfl) with
    missing | ⟨alternate, alternateIs, alternateFits, found⟩
  · apply Yields.lift_bind missing
    apply (Yields.pure none).bind
    rw [braced_without _ missing]
    show Yields (Pure.pure [(Value.tagged "IfStatement" fields).withField "consequent" consequent]) _
    rw [whole]
    exact .pure _
  · apply Yields.lift_bind found
    apply ((unpackOne_statement alternateFits _).map some).bind
    obtain ⟨b, ends⟩ := endsWithoutElse_ok consequent consequentFits
    rw [braced_with _ consequentIs alternateIs alternateFits ends]
    apply Yields.lift_bind ends
    apply (blockUnless_yields consequentFits (!b) depth).bind
    cases b with
    | false =>
      have same := @Value.withField_lookup (.str "IfStatement") _ _ _ alternateIs
      simp only [Bool.not_false, if_true, whole, same]
      exact .pure _
    | true =>
      have same : (Fields.set "consequent" (enclosed consequent) fields).lookup "alternate" =
          some alternate := by
        rw [Fields.lookup_set_of_ne _ _ (by decide), alternateIs]
      simp only [Bool.not_true, Bool.false_eq_true, if_false, if_true, Value.withField,
        Fields.set_lookup same]
      exact .pure _

theorem settleIf_yields {n : Nat} (present : ¬ off.contains "IfStatement" = true)
    (unpacks : ∀ m < n, Unpacks off m) {fields : Fields} {test : Value} {depth : Nat}
    (formed : Formed "IfStatement" fields) (testIs : fields.lookup "test" = some test)
    (within : PackedWithin n test) (deep : n + 5 ≤ depth) :
    Yields ((engineWithout off depth).settle (.tagged "IfStatement" fields))
      (settledIf off (.tagged "IfStatement" fields) fields) := by
  -- Each comma at the end of the test takes one level, of the engine as of the nesting.
  induction n generalizing fields test depth with
  | zero => exact within.elim
  | succ n ih =>
    obtain ⟨depth, rfl⟩ : ∃ d, depth = d + 1 := ⟨depth - 1, by omega⟩
    have testFits : fits expression test = true := formed.fits_lookup testIs
    apply settle_of_rule present rfl
    apply Yields.lift_bind (Value.field_of_lookup testIs)
    rcases comma_cases testFits with ⟨leading, last, packs, isComma, splits⟩ | ⟨packs, notComma⟩
    · have parts := packs ▸ packing_fits testFits
      have inner : ∀ part ∈ leading ++ [last], PackedWithin n part := by
        intro part member
        exact within part (by rw [packs]; exact member)
      apply Yields.lift_bind isComma
      apply Yields.lift_bind splits
      rw [settledIf_comma testIs packs]
      have rest : Formed "IfStatement" (Fields.set "test" last fields) :=
        formed.set (parts last (by simp [Packing.parts])) rfl
      apply Yields.bind (unpackAll_yields fun part member =>
        unpacks n (by omega) part depth (parts part (by simp [Packing.parts, member]))
          (inner part (by simp [member])) (by omega))
      apply Yields.bind (ih (fun m below => unpacks m (by omega)) rest
        (Fields.lookup_set_self _ _ _) (inner last (by simp)) (by omega))
      exact .pure _
    · apply Yields.lift_bind notComma
      rw [settledIf_plain testIs packs]
      obtain ⟨depth, rfl⟩ : ∃ d, depth = d + 3 := ⟨depth - 3, by omega⟩
      exact unpackBranches_yields formed depth

theorem endsWithoutElse_other {tag : String} (fields : Fields) (other : tag ≠ "IfStatement") :
    Rule.endsWithoutElse (.tagged tag fields) = .ok false := by
  simp [Rule.endsWithoutElse, Value.descend, other]

/-- A block takes no else. -/
theorem endsWithoutElse_enclosed {n : Value} (fit : fits statement n = true) :
    Rule.endsWithoutElse (enclosed n) = .ok false := by
  obtain ⟨tag, fields, same, isBlock, -⟩ := fits_one.mp (enclosed_fits fit)
  rw [List.mem_singleton] at isBlock
  rw [same, isBlock]
  exact endsWithoutElse_other fields (by decide)

theorem endsWithoutElse_guarded {n : Value} (fit : fits statement n = true) :
    Rule.endsWithoutElse (guarded n) = .ok false := by
  unfold guarded
  split
  · exact endsWithoutElse_enclosed fit
  · rename_i notIf
    obtain ⟨tag, fields, rfl, -⟩ := fits_one.mp fit
    exact endsWithoutElse_other fields (by simpa using notIf)

/-- A branch that a rule has built: only the comma in its test is left to settle. -/
theorem settleBuiltIf_yields {n : Nat} (unpacks : ∀ m < n, Unpacks off m)
    {test consequent alternate : Value} {depth : Nat} (testFits : fits expression test = true)
    (consequentFits : fits statement consequent = true)
    (alternateFits : fits (.opt statementTags) alternate = true)
    (calm : alternate = .null ∨ Rule.endsWithoutElse consequent = .ok false)
    (within : PackedWithin n test) (deep : n + 5 ≤ depth) :
    Yields ((engineWithout off depth).settle (Value.ifStatement test consequent alternate))
      ((hoisted off test).1.flatMap (unpacked off) ++
        [Value.ifStatement (hoisted off test).2 consequent alternate]) := by
  have formed := (fits_node.mp (fits_ifStatement testFits consequentFits alternateFits)).2
  by_cases removed : off.contains "IfStatement" = true
  · obtain ⟨depth, rfl⟩ : ∃ d, depth = d + 1 := ⟨depth - 1, by omega⟩
    rw [hoisted, if_pos removed]
    exact settle_of_none _ _ (Or.inl removed)
  · have answer := settleIf_yields removed unpacks formed rfl within deep
    have same : settledIf off (Value.ifStatement test consequent alternate)
        [("test", test), ("consequent", consequent), ("alternate", alternate)] =
        (hoisted off test).1.flatMap (unpacked off) ++
          [Value.ifStatement (hoisted off test).2 consequent alternate] := by
      rw [hoisted, if_neg removed]
      show _ ++ [braced (Value.ifStatement (commaSplit test).2 consequent alternate) _] = _
      rcases calm with rfl | calm
      · rw [braced_without _ (@Value.optional_of_null (.str "IfStatement") _ _ rfl)]
      · rcases fits_opt.mp alternateFits with rfl | alternateFits
        · rw [braced_without _ (@Value.optional_of_null (.str "IfStatement") _ _ rfl)]
        · rw [braced_with _ rfl rfl alternateFits calm]
          rfl
    rw [← same]
    exact answer

/-! ## Expressions in the place of statements -/

theorem hasElse_eq {n : Value} (fit : fits statement n = true) :
    Rule.hasElse n = .ok (isElseIf n) := by
  obtain ⟨tag, fields, rfl, -, formed⟩ := fits_one.mp fit
  by_cases isIf : tag = "IfStatement"
  · subst isIf
    cases found : fields.lookup "alternate" with
    | none => simp [Rule.hasElse, Value.optional_of_none found, isElseIf, found]
    | some no => cases no <;> simp [Rule.hasElse, Value.optional, isElseIf, found, Value.isNull]
  · have no : isElseIf (.tagged tag fields) = false := by
      unfold isElseIf
      split
      · rename_i same
        cases same
        exact absurd rfl isIf
      · rfl
    simp [Rule.hasElse, isIf, no]

theorem unpackOne_yields {v : Value} {depth : Nat} (fit : fits expression v = true)
    (unpacks : Yields ((engineWithout off (depth + 4)).unpack v) (unpacked off v)) :
    Yields (Rule.unpackOne (engineWithout off (depth + 4)) v) (one (unpacked off v)) :=
  unpacks.bind (asOne_yields (unpacked_fits off fit).each depth)

theorem unpacking_present {tag : String} (fields : Fields) (present : ¬ off.contains tag = true) :
    unpacking off (.tagged tag fields) = packing (.tagged tag fields) := by
  simp only [unpacking, if_neg present]

theorem unpackSequence_yields {n depth : Nat} (unpacks : Unpacks off n) {fields : Fields}
    (fit : fits expression (.tagged "SequenceExpression" fields) = true)
    (present : ¬ off.contains "SequenceExpression" = true)
    (within : PackedWithin (n + 1) (.tagged "SequenceExpression" fields)) (deep : n + 5 ≤ depth) :
    Yields (Rule.unpackSequence (engineWithout off depth) (.tagged "SequenceExpression" fields))
      (unpacked off (.tagged "SequenceExpression" fields)) := by
  obtain ⟨items, itemsAre, each⟩ := (fits_node.mp fit).2.many (show (fieldsOf
    "SequenceExpression").lookup "expressions" = some (.many expressionTags) from rfl)
  have packs : packing (.tagged "SequenceExpression" fields) = .comma items := by
    simp [packing, itemsAre]
  rw [unpacked_comma ((unpacking_present fields present).trans packs)]
  apply Yields.lift_bind (Value.field_of_lookup itemsAre)
  apply Yields.lift_bind (show (Value.seq items).items = .ok items from rfl)
  exact unpackAll_yields fun item member =>
    unpacks item depth (each item member) (within item (by rw [packs]; exact member)) deep

theorem unpackConditional_yields {n depth : Nat} (below : ∀ m < n, Unpacks off m)
    (unpacks : Unpacks off n) {fields : Fields}
    (fit : fits expression (.tagged "ConditionalExpression" fields) = true)
    (present : ¬ off.contains "ConditionalExpression" = true)
    (within : PackedWithin (n + 1) (.tagged "ConditionalExpression" fields))
    (deep : n + 5 ≤ depth) :
    Yields (Rule.unpackConditional (engineWithout off depth)
      (.tagged "ConditionalExpression" fields))
      (unpacked off (.tagged "ConditionalExpression" fields)) := by
  have formed := (fits_node.mp fit).2
  obtain ⟨test, testIs, testFits⟩ := formed.required
    (show (fieldsOf "ConditionalExpression").lookup "test" = some expression from rfl) rfl
  obtain ⟨yes, yesIs, yesFits⟩ := formed.required
    (show (fieldsOf "ConditionalExpression").lookup "consequent" = some expression from rfl) rfl
  obtain ⟨no, noIs, noFits⟩ := formed.required
    (show (fieldsOf "ConditionalExpression").lookup "alternate" = some expression from rfl) rfl
  have packs : packing (.tagged "ConditionalExpression" fields) = .choice test yes no := by
    simp [packing, testIs, yesIs, noIs]
  have inner : ∀ part ∈ [test, yes, no], PackedWithin n part :=
    fun part member => within part (by rw [packs]; exact member)
  have yesOne := one_fits (unpacked_fits off yesFits).each
  have noOne := one_fits (unpacked_fits off noFits).each
  rw [unpacked_choice ((unpacking_present fields present).trans packs)]
  obtain ⟨shallow, rfl⟩ : ∃ d, depth = d + 4 := ⟨depth - 4, by omega⟩
  apply Yields.lift_bind (Value.field_of_lookup yesIs)
  apply Yields.bind (unpackOne_yields yesFits (unpacks yes _ yesFits (inner yes (by simp)) deep))
  apply Yields.lift_bind (Value.field_of_lookup noIs)
  apply Yields.bind (unpackOne_yields noFits (unpacks no _ noFits (inner no (by simp)) deep))
  have isTagged : (one (unpacked off yes)).isTagged "IfStatement" =
      .ok ((one (unpacked off yes)).hasTag "IfStatement") := by
    obtain ⟨_, _, same, -⟩ := fits_one.mp yesOne
    rw [same]
    rfl
  apply Yields.lift_bind isTagged
  apply Yields.bind (blockUnless_yields yesOne _ (shallow + 1))
  have guards : (if !(one (unpacked off yes)).hasTag "IfStatement" then one (unpacked off yes)
      else enclosed (one (unpacked off yes))) = guarded (one (unpacked off yes)) := by
    unfold guarded
    cases (one (unpacked off yes)).hasTag "IfStatement" <;> rfl
  rw [guards]
  apply Yields.lift_bind (hasElse_eq noOne)
  apply Yields.bind (blockUnless_yields noOne _ (shallow + 1))
  apply Yields.lift_bind (Value.field_of_lookup testIs)
  exact settleBuiltIf_yields below testFits (guarded_fits yesOne)
    (fits_opt.mpr (Or.inr (elseForm_fits noOne))) (Or.inr (endsWithoutElse_guarded yesOne))
    (inner test (by simp)) deep

/-- A negation that a rule has built is settled in one step. -/
theorem settleNegation_yields {v : Value} (fit : fits expression v = true) (depth : Nat) :
    Yields ((engineWithout off (depth + 1)).settle (Value.unaryExpression (.str "!") v))
      [negated off v] := by
  simp only [negated]
  by_cases removed : off.contains "UnaryExpression" = true
  · rw [if_pos removed]
    exact settle_of_none _ _ (Or.inl removed)
  · rw [if_neg removed]
    obtain ⟨n, answer, -⟩ := evaluateUnary_folds (formed_unary fit)
    rw [Value.unaryExpression, answer]
    exact settle_of_rule removed rfl (Yields.lift_bind answer (.pure _))

/-- A negation is nothing that moves out of a test. -/
theorem packing_negated (off : List String) {v : Value} (fit : fits expression v = true) :
    packing (negated off v) = .plain := by
  have folds := negated_folds off fit
  generalize negated off v = n at folds ⊢
  cases folds <;> rfl

theorem hoisted_negated (off : List String) {v : Value} (fit : fits expression v = true) :
    hoisted off (negated off v) = ([], negated off v) := by
  unfold hoisted
  split
  · rfl
  · exact commaSplit_plain (by simp [packing_negated off fit])

theorem unpackLogical_yields {n depth : Nat} (below : ∀ m < n, Unpacks off m)
    (unpacks : Unpacks off n) {fields : Fields}
    (fit : fits expression (.tagged "LogicalExpression" fields) = true)
    (present : ¬ off.contains "LogicalExpression" = true)
    (within : PackedWithin (n + 1) (.tagged "LogicalExpression" fields))
    (deep : n + 5 ≤ depth) :
    Yields (Rule.unpackLogical (engineWithout off depth) (.tagged "LogicalExpression" fields))
      (unpacked off (.tagged "LogicalExpression" fields)) := by
  obtain ⟨operator, left, right, operatorIs, leftIs, leftFits, rightIs, rightFits⟩ :=
    operand_fields (fits_node.mp fit).2 rfl
  have rightOne := one_fits (unpacked_fits off rightFits).each
  have unpacksAs := unpacking_present fields present
  obtain ⟨shallow, rfl⟩ : ∃ d, depth = d + 4 := ⟨depth - 4, by omega⟩
  have noElse : fits (.opt statementTags) .null = true := rfl
  apply Yields.lift_bind (Value.field_of_lookup operatorIs)
  by_cases isAnd : operator = "&&"
  · subst isAnd
    have packs : packing (.tagged "LogicalExpression" fields) = .guard left right := by
      simp [packing, operatorIs, leftIs, rightIs]
    have inner : ∀ part ∈ [left, right], PackedWithin n part :=
      fun part member => within part (by rw [packs]; exact member)
    rw [unpacked_guard (unpacksAs.trans packs)]
    apply Yields.lift_bind (Value.field_of_lookup rightIs)
    apply Yields.bind
      (unpackOne_yields rightFits (unpacks right _ rightFits (inner right (by simp)) deep))
    apply Yields.lift_bind (Value.field_of_lookup leftIs)
    apply Yields.bind (.pure left)
    exact settleBuiltIf_yields below leftFits rightOne noElse (Or.inl rfl) (inner left (by simp)) deep
  · by_cases isOr : operator = "||"
    · subst isOr
      have packs : packing (.tagged "LogicalExpression" fields) = .fallback left right := by
        simp [packing, operatorIs, leftIs, rightIs]
      have inner : PackedWithin n right := within right (by simp [packs, Packing.parts])
      rw [unpacked_fallback (unpacksAs.trans packs)]
      apply Yields.lift_bind (Value.field_of_lookup rightIs)
      apply Yields.bind (unpackOne_yields rightFits (unpacks right _ rightFits inner deep))
      apply Yields.lift_bind (Value.field_of_lookup leftIs)
      apply Yields.bind (settleNegation_yields leftFits (shallow + 3))
      apply Yields.bind (asOne_single (negated off left) (shallow + 3))
      have plain : PackedWithin n (negated off left) := by
        cases n with
        | zero => exact inner.elim
        | succ n => simp [PackedWithin, packing_negated off leftFits, Packing.parts]
      have answer := settleBuiltIf_yields below (negated_fits off leftFits) rightOne noElse
        (Or.inl rfl) plain deep
      rw [hoisted_negated off leftFits] at answer
      exact answer
    · have packs : packing (.tagged "LogicalExpression" fields) = .plain := by
        simp only [packing, operatorIs, leftIs, rightIs]
        split <;> simp_all
      rw [unpacked_plain (unpacksAs.trans packs), asStatement_expression fit]
      simp only [isText_str, isAnd, isOr, beq_iff_eq, Bool.or_eq_true, or_self, if_false]
      exact .pure _

theorem packedTags_unpacked : ∀ tag ∈ packedTags, tag ∈ unpackedTags := by
  decide

theorem unpackRules_lookup_none {tag : String} (other : tag ∉ unpackedTags) :
    Rule.unpackRules.lookup tag = none := by
  refine List.lookup_eq_none_iff.mpr fun rule member => ?_
  have listed : ∀ rule ∈ Rule.unpackRules, rule.1 ∈ unpackedTags := by
    simp [Rule.unpackRules, unpackedTags]
  have differs : tag ≠ rule.1 := fun same => other (same ▸ listed rule member)
  simpa using differs

/-- The engine unpacks well-formed expressions. -/
theorem unpacks_all (off : List String) (n : Nat) : Unpacks off n := by
  induction n using Nat.strongRecOn with
  | ind n below =>
    intro v depth fit within deep
    cases n with
    | zero => exact within.elim
    | succ n =>
      obtain ⟨depth, rfl⟩ : ∃ d, depth = d + 1 := ⟨depth - 1, by omega⟩
      have unpacks := below n (by omega)
      have further : ∀ m < n, Unpacks off m := fun m less => below m (by omega)
      obtain ⟨tag, fields, rfl, admitted, -⟩ := fits_one.mp fit
      by_cases removed : off.contains tag = true
      · have plain : unpacking off (.tagged tag fields) = .plain := by
          simp only [unpacking, if_pos removed]
        rw [unpacked_plain plain]
        exact unpack_of_none fields depth (Or.inl removed)
      · by_cases hasRule : tag ∈ unpackedTags
        · simp only [unpackedTags, List.mem_cons, List.not_mem_nil, or_false] at hasRule
          rcases hasRule with rfl | rfl | rfl | rfl | rfl
          · exact unpack_of_rule removed rfl
              (unpackSequence_yields unpacks fit removed within (by omega))
          · exact unpack_of_rule removed rfl
              (unpackConditional_yields further unpacks fit removed within (by omega))
          · exact unpack_of_rule removed rfl
              (unpackLogical_yields further unpacks fit removed within (by omega))
          · rw [unpacked_plain (unpacking_present fields removed), asStatement_expression fit]
            exact unpack_of_rule removed rfl (.pure _)
          · rw [unpacked_plain (unpacking_present fields removed), asStatement_expression fit]
            exact unpack_of_rule removed rfl (.pure _)
        · have notPacked := packing_other fields fun isPacked => hasRule (packedTags_unpacked _ isPacked)
          rw [unpacked_plain ((unpacking_present fields removed).trans notPacked)]
          exact unpack_of_none fields depth (Or.inr (unpackRules_lookup_none hasRule))

/-! ## Returns -/

theorem choice_cases {v : Value} (fit : fits expression v = true) :
    (∃ test yes no, packing v = .choice test yes no ∧ v.hasTag "ConditionalExpression" = true ∧
      v.field "test" = .ok test ∧ v.field "consequent" = .ok yes ∧ v.field "alternate" = .ok no) ∨
    ((∀ test yes no, packing v ≠ .choice test yes no) ∧
      v.hasTag "ConditionalExpression" = false) := by
  obtain ⟨tag, fields, rfl, -, formed⟩ := fits_one.mp fit
  by_cases isConditional : tag = "ConditionalExpression"
  · subst isConditional
    obtain ⟨test, testIs, -⟩ := formed.required
      (show (fieldsOf "ConditionalExpression").lookup "test" = some expression from rfl) rfl
    obtain ⟨yes, yesIs, -⟩ := formed.required
      (show (fieldsOf "ConditionalExpression").lookup "consequent" = some expression from rfl) rfl
    obtain ⟨no, noIs, -⟩ := formed.required
      (show (fieldsOf "ConditionalExpression").lookup "alternate" = some expression from rfl) rfl
    exact Or.inl ⟨test, yes, no, by simp [packing, testIs, yesIs, noIs], rfl,
      Value.field_of_lookup testIs, Value.field_of_lookup yesIs, Value.field_of_lookup noIs⟩
  · refine Or.inr ⟨fun test yes no packs => ?_, by simp [isConditional]⟩
    have shape := packs ▸ packed (.tagged tag fields)
    cases shape with
    | choice => exact isConditional rfl

theorem withArgument_withArgument (fields : Fields) (v : Value) :
    (Value.tagged "ReturnStatement" (Fields.set "argument" v fields)).withField "argument" =
      (Value.tagged "ReturnStatement" fields).withField "argument" := by
  funext w
  simp only [Value.withField, Fields.set_set]

theorem withArgument_returnStatement (v : Value) :
    (Value.returnStatement v).withField "argument" = Value.returnStatement := by
  funext w
  simp [Value.withField, Value.returnStatement, Fields.set]

theorem returnOne_yields {part : Value} {depth : Nat} (fit : fits expression part = true)
    (returns : Yields ((engineWithout off (depth + 4)).settle (Value.returnStatement part))
      (returned off Value.returnStatement part)) :
    Yields (Rule.returnOne (engineWithout off (depth + 4)) part)
        (one (returned off Value.returnStatement part)) ∧
      fits statement (one (returned off Value.returnStatement part)) = true := by
  have each := (returned_fits off fit _ fun _ => fits_returnStatement).each
  exact ⟨returns.bind (asOne_yields each depth), one_fits each⟩

/-- A returned conditional becomes a branch, given what its sides become when they are returned. -/
theorem returnConditional_yields {n depth : Nat} {argument test yes no : Value} (rebuild : Value → Value)
    (argumentFits : fits expression argument = true) (within : PackedWithin (n + 1) argument)
    (packs : packing argument = .choice test yes no) (testIs : argument.field "test" = .ok test)
    (yesIs : argument.field "consequent" = .ok yes) (noIs : argument.field "alternate" = .ok no)
    (returns : ∀ part, fits expression part = true → PackedWithin n part →
      Yields ((engineWithout off depth).settle (Value.returnStatement part))
        (returned off Value.returnStatement part))
    (deep : n + 5 ≤ depth) :
    Yields (Rule.returnConditional (engineWithout off depth) argument)
      (returned off rebuild argument) := by
  obtain ⟨shallow, rfl⟩ : ∃ d, depth = d + 4 := ⟨depth - 4, by omega⟩
  have parts := packs ▸ packing_fits argumentFits
  have inner : ∀ part ∈ [test, yes, no], PackedWithin n part :=
    fun part member => within part (by rw [packs]; exact member)
  have returnsOne (part : Value) (member : part ∈ [test, yes, no]) :=
    returnOne_yields (parts part member) (returns part (parts part member) (inner part member))
  obtain ⟨yesReturns, yesOne⟩ := returnsOne yes (by simp)
  obtain ⟨noReturns, noOne⟩ := returnsOne no (by simp)
  have plain : commaSplit argument = ([], argument) := commaSplit_plain (by simp [packs])
  rw [returned_choice _ (by rw [plain]; exact packs), plain]
  apply Yields.lift_bind yesIs
  apply Yields.bind yesReturns
  apply Yields.lift_bind noIs
  apply Yields.bind noReturns
  apply Yields.bind (enclose_yields yesOne (shallow + 1))
  apply Yields.lift_bind (hasElse_eq noOne)
  apply Yields.bind (blockUnless_yields noOne _ (shallow + 1))
  apply Yields.lift_bind testIs
  exact settleBuiltIf_yields (fun m _ => unpacks_all off m) (parts test (by simp [Packing.parts]))
    (fits_statement_of_block (enclosed_fits yesOne))
    (fits_opt.mpr (Or.inr (elseForm_fits noOne)))
    (Or.inr (endsWithoutElse_enclosed yesOne)) (inner test (by simp)) (by omega)

theorem settleReturn_yields {n : Nat} (present : ¬ off.contains "ReturnStatement" = true)
    {fields : Fields} {argument : Value} {depth : Nat} (formed : Formed "ReturnStatement" fields)
    (argumentIs : fields.lookup "argument" = some argument)
    (argumentFits : fits expression argument = true) (within : PackedWithin n argument)
    (deep : n + 5 ≤ depth) :
    Yields ((engineWithout off depth).settle (.tagged "ReturnStatement" fields))
      (returned off ((Value.tagged "ReturnStatement" fields).withField "argument") argument) := by
  induction n generalizing fields argument depth with
  | zero => exact within.elim
  | succ n ih =>
    obtain ⟨depth, rfl⟩ : ∃ d, depth = d + 1 := ⟨depth - 1, by omega⟩
    have notNull : argument ≠ .null := by
      obtain ⟨_, _, rfl, -⟩ := fits_one.mp argumentFits
      simp
    apply settle_of_rule present rfl
    apply Yields.lift_bind (Value.optional_of_lookup argumentIs notNull)
    rcases comma_cases argumentFits with ⟨leading, last, packs, isComma, splits⟩ | ⟨packs, notComma⟩
    · have parts := packs ▸ packing_fits argumentFits
      have inner : ∀ part ∈ leading ++ [last], PackedWithin n part :=
        fun part member => within part (by rw [packs]; exact member)
      have lastFits := parts last (by simp [Packing.parts])
      have rest : Formed "ReturnStatement" (Fields.set "argument" last fields) :=
        formed.set (fits_opt.mpr (Or.inr lastFits)) rfl
      apply Yields.lift_bind isComma
      apply Yields.lift_bind splits
      have returns := ih rest (Fields.lookup_set_self _ _ _) lastFits (inner last (by simp))
        (show n + 5 ≤ depth by omega)
      rw [withArgument_withArgument] at returns
      rw [returned_comma _ packs]
      apply Yields.bind (unpackAll_yields fun part member =>
        unpacks_all off n part depth (parts part (by simp [Packing.parts, member]))
          (inner part (by simp [member])) (by omega))
      exact returns.bind (.pure _)
    · apply Yields.lift_bind notComma
      rcases choice_cases argumentFits with
        ⟨test, yes, no, choice, isChoice, testIs, yesIs, noIs⟩ | ⟨noChoice, notChoice⟩
      · rw [isChoice, if_pos rfl]
        refine returnConditional_yields _ argumentFits within choice testIs yesIs noIs
          (fun part partFits partWithin => ?_) (show n + 5 ≤ depth by omega)
        have returns := ih (fits_node.mp (fits_returnStatement partFits)).2 rfl partFits partWithin
          (show n + 5 ≤ depth by omega)
        rwa [← Value.returnStatement, withArgument_returnStatement] at returns
      · rw [notChoice, if_neg (by simp), returned_plain _ (by rwa [commaSplit_plain packs]),
          commaSplit_plain packs, Value.withField_lookup argumentIs]
        exact .pure _

/-! ## Nodes with finished children -/

theorem engine_unpacks {v : Value} (fit : fits expression v = true) (depth : Nat) :
    ∃ tag, v.tag = .ok tag ∧ (engineWithout off depth).unpacks tag = .ok (unpacks off v) := by
  obtain ⟨tag, fields, rfl, -⟩ := fits_one.mp fit
  refine ⟨.str tag, rfl, ?_⟩
  have registry : (engineWithout off depth).unpacks = (Registry.builtin.without off).unpacks := by
    cases depth <;> rfl
  rw [registry]
  show Except.ok (RuleMap.rule? (Rule.unpackRules.filter fun entry => !off.contains entry.1)
    (some tag)).isSome = .ok (unpackedTags.contains tag && !off.contains tag)
  by_cases removed : off.contains tag = true
  · rw [rule?_none (Or.inl removed), removed]
    simp
  · by_cases hasRule : tag ∈ unpackedTags
    · have found : ∃ rule, Rule.unpackRules.lookup tag = some rule := by
        simp only [unpackedTags, List.mem_cons, List.not_mem_nil, or_false] at hasRule
        rcases hasRule with rfl | rfl | rfl | rfl | rfl <;> exact ⟨_, rfl⟩
      obtain ⟨rule, found⟩ := found
      rw [rule?_some removed found, List.contains_iff_mem.mpr hasRule, Bool.not_eq_true _ |>.mp removed]
      rfl
    · rw [rule?_none (Or.inr (unpackRules_lookup_none hasRule))]
      simp [hasRule]

/-- Moving a comma sequence out of the field of a node. -/
theorem commaHoist_yields {n depth : Nat} {v : Value} (node : Value) (name : String)
    (fit : fits expression v = true) (within : PackedWithin n v) (deep : n + 5 ≤ depth)
    (isComma : Bool) (answer : v.isTagged "SequenceExpression" = .ok isComma) :
    Yields (if isComma = true then do
        let (leading, last) ← liftM (Rule.splitSequence v)
        let before ← (engineWithout off depth).unpackAll leading
        return before ++ [node.withField name last]
      else return [node])
      (commaHoisted off node name v) := by
  rcases comma_cases fit with ⟨leading, last, packs, isTrue, splits⟩ | ⟨packs, isFalse⟩
  · obtain rfl : true = isComma := by simpa [isTrue] using answer
    have parts := packs ▸ packing_fits fit
    have leadingFit : ∀ part ∈ leading, Yields ((engineWithout off depth).unpack part)
        (unpacked off part) := fun part member =>
      (unpacks_all off n part depth (parts part (by simp [Packing.parts, member]))
        (by
          cases n with
          | zero => exact within.elim
          | succ n =>
            exact (within part (by rw [packs]; simp [Packing.parts, member])).mono (by omega)) deep)
    rw [commaHoisted_comma node name packs]
    apply Yields.lift_bind splits
    apply Yields.bind (unpackAll_yields leadingFit)
    exact .pure _
  · obtain rfl : false = isComma := by simpa [isFalse] using answer
    rw [commaHoisted_plain node name packs]
    exact .pure _

theorem forStatement_yields {n depth : Nat} {fields : Fields} (formed : Formed "ForStatement" fields)
    (within : ∀ v, fields.lookup "init" = some v → PackedWithin n v)
    (deep : n + 5 ≤ depth) :
    Yields (Rule.forStatement (engineWithout off depth) (.tagged "ForStatement" fields))
      (settledFor off (.tagged "ForStatement" fields) fields) := by
  obtain ⟨init, initIs, initFits⟩ := formed.required (show (fieldsOf "ForStatement").lookup "init" =
    some (.maybe ("VariableDeclaration" :: expressionTags)) from rfl) rfl
  simp only [settledFor, initIs]
  apply Yields.lift_bind (Value.field_of_lookup initIs)
  rcases fits_maybe.mp initFits with rfl | initFits
  · exact .pure _
  · obtain ⟨tag, inner, rfl, admitted, initFormed⟩ := fits_one.mp initFits
    rcases List.mem_cons.mp admitted with rfl | isExpression
    · obtain ⟨kind, kindIs⟩ := initFormed.text
        (show (fieldsOf "VariableDeclaration").lookup "kind" = some .text from rfl)
      obtain ⟨declarators, kept, moved, -, -, -, hoists⟩ := hoistDeclarators_spec formed initFormed
      have isVarIs : isVar (.tagged "VariableDeclaration" inner) = (kind == "var") := by
        simp [isVar, kindIs]
      have asked : Rule.isVarDeclaration (.tagged "VariableDeclaration" inner) =
          .ok (kind == "var") := by
        simp [Rule.isVarDeclaration, Value.field_of_lookup kindIs]
      rw [isVarIs]
      apply Yields.lift_bind asked
      split
      · rw [hoists]
        exact Yields.lift rfl
      · exact .pure _
    · have fit : fits expression (.tagged tag inner) = true :=
        fits_node.mpr ⟨isExpression, initFormed⟩
      have differs : tag ≠ "VariableDeclaration" := by
        rintro rfl
        exact absurd isExpression (by decide)
      have asked : Rule.isVarDeclaration (.tagged tag inner) = .ok false := by
        simp [Rule.isVarDeclaration, differs]
      have notVar : isVar (.tagged tag inner) = false := by
        unfold isVar
        split
        · rename_i same
          cases same
          exact absurd rfl differs
        · rfl
      rw [notVar, if_neg (by simp)]
      apply Yields.lift_bind asked
      rw [if_neg (by simp)]
      exact commaHoist_yields _ "init" fit (within _ initIs) deep _ rfl

theorem labeledStatement_yields (e : Engine) {fields : Fields}
    (formed : Formed "LabeledStatement" fields) :
    Yields (Rule.labeledStatement e (.tagged "LabeledStatement" fields))
      (settledLabel (.tagged "LabeledStatement" fields) fields) := by
  obtain ⟨label, target, body, targetIs, named, bodyIs, bodyFits⟩ := label_fields formed
  obtain ⟨found, answer, -⟩ := leavingBefore_spec targetIs named bodyFits
  simp only [settledLabel, bodyIs, answer]
  apply Yields.lift_bind (Value.field_of_lookup bodyIs)
  apply Yields.lift_bind answer
  cases found with
  | none => exact .pure _
  | some parts => exact .pure _

theorem expressionStatement_yields {n depth : Nat} {fields : Fields}
    (formed : Formed "ExpressionStatement" fields)
    (within : ∀ v, fields.lookup "expression" = some v → PackedWithin n v) (deep : n + 5 ≤ depth) :
    Yields (Rule.expressionStatement (engineWithout off depth) (.tagged "ExpressionStatement" fields))
      (settledExpression off (.tagged "ExpressionStatement" fields) fields) := by
  obtain ⟨v, vIs, vFits⟩ := formed.required
    (show (fieldsOf "ExpressionStatement").lookup "expression" = some expression from rfl) rfl
  obtain ⟨inner, tagIs, unpacksIs⟩ := @engine_unpacks off _ vFits depth
  apply Yields.lift_bind (Value.field_of_lookup vIs)
  apply Yields.lift_bind tagIs
  apply Yields.lift_bind unpacksIs
  simp only [settledExpression, vIs]
  split
  · exact unpacks_all off n v depth vFits (within _ vIs) deep
  · exact .pure _

theorem switchStatement_yields {n depth : Nat} {fields : Fields}
    (formed : Formed "SwitchStatement" fields)
    (within : ∀ v, fields.lookup "discriminant" = some v → PackedWithin n v) (deep : n + 5 ≤ depth) :
    Yields (Rule.switchStatement (engineWithout off depth) (.tagged "SwitchStatement" fields))
      (settledSwitch off (.tagged "SwitchStatement" fields) fields) := by
  obtain ⟨v, vIs, vFits⟩ := formed.required
    (show (fieldsOf "SwitchStatement").lookup "discriminant" = some expression from rfl) rfl
  obtain ⟨isComma, answer⟩ : ∃ b, v.isTagged "SequenceExpression" = .ok b := by
    obtain ⟨_, _, rfl, -⟩ := fits_one.mp vFits
    exact ⟨_, rfl⟩
  apply Yields.lift_bind (Value.field_of_lookup vIs)
  apply Yields.lift_bind answer
  simp only [settledSwitch, vIs]
  exact commaHoist_yields _ "discriminant" vFits (within _ vIs) deep _ answer

/-- A return without an argument stays, any other goes by its argument. -/
theorem settleAnyReturn_yields {n depth : Nat} {fields : Fields}
    (present : ¬ off.contains "ReturnStatement" = true) (formed : Formed "ReturnStatement" fields)
    (within : ∀ v, fields.lookup "argument" = some v → PackedWithin n v) (deep : n + 5 ≤ depth) :
    Yields ((engineWithout off (depth + 1)).settle (.tagged "ReturnStatement" fields))
      (settledReturn off (.tagged "ReturnStatement" fields) fields) := by
  cases found : fields.lookup "argument" with
  | none =>
    simp only [settledReturn, found]
    exact settle_of_rule present rfl (Yields.lift_bind (Value.optional_of_none found) (.pure _))
  | some argument =>
    rcases fits_opt.mp (formed.fits_lookup found) with rfl | argumentFits
    · simp only [settledReturn, found]
      exact settle_of_rule present rfl (Yields.lift_bind (Value.optional_of_null found) (.pure _))
    · have returns := settleReturn_yields present formed found argumentFits (within _ found)
        (show n + 5 ≤ depth + 1 by omega)
      obtain ⟨_, _, rfl, -⟩ := fits_one.mp argumentFits
      simp only [settledReturn, found]
      exact returns

/-- The engine applies the rule of a well-formed node as the closed form does. -/
theorem settle_yields {n depth : Nat} {tag : String} {fields : Fields} (formed : Formed tag fields)
    (within : ∀ name v, fields.lookup name = some v → PackedWithin n v)
    (deep : n + 6 ≤ depth) :
    Yields ((engineWithout off depth).settle (.tagged tag fields)) (settled off (.tagged tag fields)) := by
  obtain ⟨depth, rfl⟩ : ∃ d, depth = d + 1 := ⟨depth - 1, by omega⟩
  simp only [settled]
  by_cases removed : off.contains tag = true
  · rw [if_pos removed]
    exact settle_of_none _ _ (Or.inl removed)
  rw [if_neg removed]
  unfold settledBy
  split
  · exact settle_of_rule removed rfl
      (expressionStatement_yields formed (fun v => within "expression" v) (by omega))
  · obtain ⟨test, testIs, testFits⟩ := formed.required
      (show (fieldsOf "IfStatement").lookup "test" = some expression from rfl) rfl
    exact settleIf_yields removed (fun m _ => unpacks_all off m) formed testIs
      (within _ _ testIs) (by omega)
  · exact settle_of_rule removed rfl
      (switchStatement_yields formed (fun v => within "discriminant" v) (by omega))
  · exact settle_of_rule removed rfl
      (forStatement_yields formed (fun v => within "init" v) (by omega))
  · exact settle_of_rule removed rfl (labeledStatement_yields (engineWithout off depth) formed)
  · exact settleAnyReturn_yields removed formed (fun v => within "argument" v) (by omega)
  · obtain ⟨turned, answer, -⟩ := turnComparison_turns formed
    rw [answer]
    exact settle_of_rule removed rfl (Yields.lift_bind answer (.pure _))
  · obtain ⟨folded, answer, -⟩ := evaluateUnary_folds formed
    rw [answer]
    exact settle_of_rule removed rfl (Yields.lift_bind answer (.pure _))
  · rename_i notExpression notIf notSwitch notFor notLabel notReturn notBinary notUnary
    by_cases isList : tag = "Program" ∨ tag = "BlockStatement"
    · have declared : (fieldsOf tag).lookup "body" = some (.many statementTags) := by
        rcases isList with rfl | rfl <;> rfl
      obtain ⟨nodes, bodyIs, each⟩ := formed.many declared
      obtain ⟨depth, rfl⟩ : ∃ d, depth = d + 1 := ⟨depth - 1, by omega⟩
      rcases isList with rfl | rfl
      · exact settle_of_rule removed rfl (statementList_yields bodyIs each)
      · exact settle_of_rule removed rfl (statementList_yields bodyIs each)
    · refine settle_of_none _ _ (Or.inr (List.lookup_eq_none_iff.mpr fun rule member => ?_))
      simp only [builtinNodeRules, List.mem_cons, List.not_mem_nil, or_false] at member
      rcases member with rfl | rfl | rfl | rfl | rfl | rfl | rfl | rfl | rfl | rfl <;> simp_all

/-! ## Whole trees -/

theorem expression_not_split : ∀ tag ∈ expressionTags, tag ∉ splitTags := by
  decide

/-- An expression is reshaped into one node. -/
theorem reshaped_expression (off : List String) {v : Value} (fit : fits expression v = true) :
    reshaped off v = [reshapedField off v] := by
  obtain ⟨tag, fields, rfl, admitted, formed⟩ := fits_one.mp fit
  obtain ⟨n, same⟩ := (reshaped_fits off formed).single (expression_not_split tag admitted)
  show reshaped off (.tagged tag fields) = [one (reshaped off (.tagged tag fields))]
  rw [same]
  rfl

theorem reshapedItems_expressions (off : List String) {items : List Value}
    (each : ∀ item ∈ items, fits expression item = true) :
    reshapedItems off items = items.map (reshapedField off) := by
  rw [reshapedItems_eq]
  induction items with
  | nil => rfl
  | cons item rest ih =>
    rw [List.flatMap_cons, reshaped_expression off (each item (by simp)),
      ih fun other member => each other (by simp [member])]
    rfl

/-- Packed expressions have no rule of their own. -/
theorem packed_not_settled : ∀ tag ∈ packedTags, tag ∉ settledTags := by
  decide

/-- Nothing that is not packed becomes packed. -/
theorem outcomes_not_packed {tag other : String} (notPacked : tag ∉ packedTags)
    (outcome : other ∈ outcomes tag) : other ∉ packedTags := by
  unfold outcomes at outcome
  split at outcome
  · have statements : ∀ t ∈ statementTags, t ∉ packedTags := by decide
    exact statements other outcome
  · split at outcome
    · have folded : ∀ t ∈ ["UnaryExpression", "Literal", "Identifier"], t ∉ packedTags := by decide
      exact folded other outcome
    · rwa [List.mem_singleton.mp outcome]

/-- A reshaped expression is packed as it was, with its parts reshaped. -/
theorem packing_reshapedField {slot : Slot} {v : Value} (fit : fits slot v = true) :
    packing (reshapedField off v) = (packing v).map (reshapedField off) := by
  cases v with
  | node tag fields =>
    cases tag with
    | str tag =>
      have formed := (fits_node.mp fit).2
      by_cases isPacked : tag ∈ packedTags
      · rw [reshapedField_other off fields (packed_not_settled tag isPacked)]
        simp only [packedTags, List.mem_cons, List.not_mem_nil, or_false] at isPacked
        rcases isPacked with rfl | rfl | rfl
        · obtain ⟨items, itemsAre, each⟩ := formed.many (show (fieldsOf "SequenceExpression").lookup
            "expressions" = some (.many expressionTags) from rfl)
          simp only [packing, lookup_reshapedFields, itemsAre, Option.map_some, reshapedField,
            reshapedItems_expressions off each, Packing.map]
        · obtain ⟨test, testIs, -⟩ := formed.required
            (show (fieldsOf "ConditionalExpression").lookup "test" = some expression from rfl) rfl
          obtain ⟨yes, yesIs, -⟩ := formed.required (show (fieldsOf
            "ConditionalExpression").lookup "consequent" = some expression from rfl) rfl
          obtain ⟨no, noIs, -⟩ := formed.required (show (fieldsOf
            "ConditionalExpression").lookup "alternate" = some expression from rfl) rfl
          simp only [packing, lookup_reshapedFields, testIs, yesIs, noIs, Option.map_some, Packing.map]
        · obtain ⟨operator, left, right, operatorIs, leftIs, -, rightIs, -⟩ :=
            operand_fields formed rfl
          simp only [packing, lookup_reshapedFields, operatorIs, leftIs, rightIs, Option.map_some,
            reshapedField]
          split <;> simp_all [Packing.map]
      · obtain ⟨other, inner, same, among, -⟩ := fits_one.mp (reshaped_fits off formed).one_fits
        have plain : packing (reshapedField off (.tagged tag fields)) = .plain := by
          show packing (one (reshaped off (.tagged tag fields))) = .plain
          rw [same]
          exact packing_other inner (outcomes_not_packed isPacked among)
        rw [plain, packing_other fields isPacked]
        rfl
    | _ => simp [fits] at fit
  | _ => rfl

/-- Reshaping does not nest packings deeper. -/
theorem packedWithin_reshaped {n : Nat} {slot : Slot} {v : Value} (fit : fits slot v = true)
    (within : PackedWithin n v) : PackedWithin n (reshapedField off v) := by
  induction n generalizing slot v with
  | zero => exact within.elim
  | succ n ih =>
    intro part member
    rw [packing_reshapedField fit, Packing.parts_map] at member
    obtain ⟨original, among, rfl⟩ := List.mem_map.mp member
    exact ih (packing_fits fit original among) (within original among)

theorem reshapeItems_yields {e : Engine} {items : List Value}
    (each : ∀ tag fields, .node tag fields ∈ items →
      Yields (reshape e (.node tag fields)) (reshaped off (.node tag fields))) :
    Yields (reshapeItems e items) (reshapedItems off items) := by
  induction items with
  | nil =>
    rw [reshapeItems]
    exact .pure _
  | cons item rest ih =>
    have later := ih fun tag fields member => each tag fields (by simp [member])
    cases item with
    | node tag fields =>
      rw [reshapeItems]
      apply Yields.bind (each tag fields (by simp))
      exact later.bind (.pure _)
    | _ =>
      simp only [reshapeItems]
      exact later.bind (.pure _)

theorem reshapeFields_yields {e : Engine} {fields : Fields}
    (nodes : ∀ name tag inner, (name, .node tag inner) ∈ fields →
      Yields (reshape e (.node tag inner)) (reshaped off (.node tag inner)) ∧
      Yields (e.asOne (reshaped off (.node tag inner))) (one (reshaped off (.node tag inner))))
    (sequences : ∀ name items, (name, .seq items) ∈ fields →
      Yields (reshapeItems e items) (reshapedItems off items)) :
    Yields (reshapeFields e fields) (reshapedFields off fields) := by
  induction fields with
  | nil =>
    rw [reshapeFields]
    exact .pure _
  | cons field rest ih =>
    obtain ⟨name, v⟩ := field
    have later := ih (fun name tag inner member => nodes name tag inner (by simp [member]))
      (fun name items member => sequences name items (by simp [member]))
    cases v with
    | node tag inner =>
      obtain ⟨here, single⟩ := nodes name tag inner (by simp)
      rw [reshapeFields]
      apply Yields.bind here
      apply Yields.bind single
      exact later.bind (.pure _)
    | seq items =>
      rw [reshapeFields]
      apply Yields.bind (sequences name items (by simp))
      exact later.bind (.pure _)
    | _ =>
      simp only [reshapeFields]
      exact later.bind (.pure _)

/-- What takes the place of a node is made into one without the engine running out of depth. -/
theorem asOne_outcome {tag : String} {nodes : List Value} (outcome : Outcome tag nodes)
    (depth : Nat) : Yields ((engineWithout off (depth + 4)).asOne nodes) (one nodes) := by
  by_cases splits : tag ∈ splitTags
  · have each := outcome.each
    rw [outcomes, if_pos (List.contains_iff_mem.mpr splits)] at each
    exact asOne_yields each depth
  · obtain ⟨n, rfl⟩ := outcome.single splits
    exact asOne_single n _

/-- The engine reshapes a well-formed node as the closed form does, if its depth exceeds the size of
the node by a few levels. -/
theorem reshape_yields {depth : Nat} {tag : String} (fields : Fields) (formed : Formed tag fields)
    (deep : (Value.tagged tag fields).size + 6 ≤ depth) :
    Yields (reshape (engineWithout off depth) (.tagged tag fields))
      (reshaped off (.tagged tag fields)) := by
  have total : (Value.tagged tag fields).size = Value.sizeEntries fields + 1 := by
    simp [Value.size]
  have fitted := fitFields_iff.mp formed.fitted
  -- A smaller well-formed node is reshaped, and what takes its place can be made one node.
  have below : ∀ {name inner}, Formed name inner →
      (Value.tagged name inner).size ≤ Value.sizeEntries fields →
      Yields (reshape (engineWithout off depth) (.tagged name inner))
        (reshaped off (.tagged name inner)) ∧
      Yields ((engineWithout off depth).asOne (reshaped off (.tagged name inner)))
        (one (reshaped off (.tagged name inner))) := by
    intro name inner innerFormed smaller
    have descends : Value.sizeEntries inner < Value.sizeEntries fields := by
      simp only [Value.size] at smaller
      omega
    refine ⟨reshape_yields inner innerFormed (by omega), ?_⟩
    obtain ⟨shallow, rfl⟩ : ∃ d, depth = d + 4 := ⟨depth - 4, by omega⟩
    exact asOne_outcome (reshaped_fits off innerFormed) shallow
  rw [reshape]
  apply Yields.bind (@reshapeFields_yields off _ _ ?_ ?_)
  · refine settle_yields (n := (Value.tagged tag fields).size)
      (reshapedFields_formed off fields formed) (fun name v found => ?_) deep
    rw [lookup_reshapedFields] at found
    obtain ⟨original, originalIs, rfl⟩ := Option.map_eq_some_iff.mp found
    have smaller := @Value.size_lt_of_lookup (.str tag) _ _ _ originalIs
    exact packedWithin_reshaped (formed.fits_lookup originalIs)
      ((packedWithin_size original).mono (Nat.le_of_lt smaller))
  · intro name inner innerFields member
    obtain ⟨text, rfl, innerFormed⟩ := formed_of_fits (fitted _ member)
    exact below innerFormed (Value.size_le_of_mem_fields member)
  · intro name items member
    refine reshapeItems_yields fun inner innerFields among => ?_
    obtain ⟨text, rfl, innerFormed⟩ := formed_of_fits_member (fitted _ member) among
    have outer := Value.size_le_of_mem_fields member
    have inside := Value.size_le_of_mem_items among
    refine (below innerFormed ?_).1
    simp only [Value.size] at outer inside ⊢
    omega
termination_by Value.sizeEntries fields

/-- The built-in rules, perhaps without some, turn a well-formed node into what the closed form
says. -/
theorem prettify_eq (off : List String) {tag : String} {fields : Fields}
    (formed : Formed tag fields) :
    prettify (Registry.builtin.without off) (.tagged tag fields) =
      .ok (one (reshaped off (.tagged tag fields))) := by
  have deep : (Value.tagged tag fields).size + 6 ≤
      Registry.depthFor (Value.tagged tag fields).size := by
    unfold Registry.depthFor
    omega
  obtain ⟨shallow, enough⟩ : ∃ d, Registry.depthFor (Value.tagged tag fields).size = d + 4 :=
    ⟨Registry.depthFor (Value.tagged tag fields).size - 4, by unfold Registry.depthFor; omega⟩
  have reshapes := @reshape_yields off _ tag fields formed deep
  have single := @asOne_outcome off tag _ (reshaped_fits off formed) shallow
  rw [← enough] at single
  exact reshapes.bind single []

/-- A well-formed program becomes one program again, which is well-formed. -/
theorem prettify_program (off : List String) {program : Value} (formed : WellFormed program) :
    ∃ fields, program = .tagged "Program" fields ∧ Formed "Program" fields ∧
      reshaped off program = [.tagged "Program" (reshapedFields off fields)] ∧
      prettify (Registry.builtin.without off) program =
        .ok (.tagged "Program" (reshapedFields off fields)) ∧
      WellFormed (.tagged "Program" (reshapedFields off fields)) := by
  obtain ⟨tag, fields, rfl, isProgram, programFormed⟩ := fits_one.mp formed
  obtain rfl := List.mem_singleton.mp isProgram
  have whole : reshaped off (.tagged "Program" fields) =
      [.tagged "Program" (reshapedFields off fields)] := reshaped_other off _ (by decide)
  have answer := prettify_eq off programFormed
  rw [whole] at answer
  exact ⟨fields, rfl, programFormed, whole, answer,
    fits_node.mpr ⟨by decide, reshapedFields_formed off fields programFormed⟩⟩

/-- Removing no rule leaves all of them. -/
theorem without_nil : Registry.builtin.without [] = Registry.builtin := by
  simp [Registry.without, Registry.builtin]

end Untangle.Reshape
