import Untangle.Proofs.Tree.WellFormed
import Untangle.Reshape.Builtin

/-!
# What reshaping makes of a tree

The rules in closed form: plain functions from a node to the nodes that take its place, with no
engine, no depth and no count. Rules that test for a comma or a packed expression do so through
`packing`, so each of the functions below looks at a node once. The parameter `off` lists the tags
whose rules have been removed.

* `unpacked` is what an expression in the place of a statement becomes.
* `returned` is what a return becomes.
* `settled` is what a node with finished children becomes, and `reshaped` a whole node.

That the engine answers with these is `Untangle.Proofs.Reshape.Adequacy`.
-/

namespace Untangle.Reshape

/-- The forms of a packed expression: a comma sequence, a conditional, `test && body`,
`test || body`, or none of these. -/
inductive Packing where
  | comma (items : List Value)
  | choice (test yes no : Value)
  | guard (test body : Value)
  | fallback (test body : Value)
  | plain

def packing : Value → Packing
  | .node (.str "SequenceExpression") fields =>
    match fields.lookup "expressions" with
    | some (.seq items) => .comma items
    | _ => .plain
  | .node (.str "ConditionalExpression") fields =>
    match fields.lookup "test", fields.lookup "consequent", fields.lookup "alternate" with
    | some test, some yes, some no => .choice test yes no
    | _, _, _ => .plain
  | .node (.str "LogicalExpression") fields =>
    match fields.lookup "operator", fields.lookup "left", fields.lookup "right" with
    | some (.str "&&"), some left, some right => .guard left right
    | some (.str "||"), some left, some right => .fallback left right
    | _, _, _ => .plain
  | _ => .plain

/-- The nodes behind each packing, for reading it back. -/
inductive Packed : Value → Packing → Prop where
  | comma (fields : Fields) (items : List Value)
      (found : fields.lookup "expressions" = some (.seq items)) :
      Packed (.tagged "SequenceExpression" fields) (.comma items)
  | choice (fields : Fields) (test yes no : Value) (testIs : fields.lookup "test" = some test)
      (yesIs : fields.lookup "consequent" = some yes)
      (noIs : fields.lookup "alternate" = some no) :
      Packed (.tagged "ConditionalExpression" fields) (.choice test yes no)
  | guard (fields : Fields) (test body : Value)
      (operatorIs : fields.lookup "operator" = some (.str "&&"))
      (testIs : fields.lookup "left" = some test) (bodyIs : fields.lookup "right" = some body) :
      Packed (.tagged "LogicalExpression" fields) (.guard test body)
  | fallback (fields : Fields) (test body : Value)
      (operatorIs : fields.lookup "operator" = some (.str "||"))
      (testIs : fields.lookup "left" = some test) (bodyIs : fields.lookup "right" = some body) :
      Packed (.tagged "LogicalExpression" fields) (.fallback test body)
  | plain (v : Value) : Packed v .plain

/-- Every expression is packed in the way that `packing` finds. -/
theorem packed (v : Value) : Packed v (packing v) := by
  unfold packing
  split
  · split
    · exact .comma _ _ (by assumption)
    · exact .plain _
  · split
    · exact .choice _ _ _ _ (by assumption) (by assumption) (by assumption)
    · exact .plain _
  · split
    · exact .guard _ _ _ (by assumption) (by assumption) (by assumption)
    · exact .fallback _ _ _ (by assumption) (by assumption) (by assumption)
    · exact .plain _
  · exact .plain _

def packedTags : List String :=
  ["SequenceExpression", "ConditionalExpression", "LogicalExpression"]

/-- Other nodes are not packed. -/
theorem packing_other {tag : String} (fields : Fields) (other : tag ∉ packedTags) :
    packing (.tagged tag fields) = .plain := by
  generalize packs : packing (.tagged tag fields) = p
  have shape := packs ▸ packed (.tagged tag fields)
  cases shape with
  | plain => rfl
  | _ => exact absurd (by decide) other

def Packing.parts : Packing → List Value
  | .comma items => items
  | .choice test yes no => [test, yes, no]
  | .guard test body | .fallback test body => [test, body]
  | .plain => []

def Packing.map (f : Value → Value) : Packing → Packing
  | .comma items => .comma (items.map f)
  | .choice test yes no => .choice (f test) (f yes) (f no)
  | .guard test body => .guard (f test) (f body)
  | .fallback test body => .fallback (f test) (f body)
  | .plain => .plain

theorem Packing.parts_map (f : Value → Value) (p : Packing) : (p.map f).parts = p.parts.map f := by
  cases p <;> rfl

/-- The parts of a packing are smaller, so unpacking ends. -/
theorem Packed.size_lt {v part : Value} {p : Packing} (h : Packed v p) (member : part ∈ p.parts) :
    part.size < v.size := by
  cases h with
  | comma fields items found => exact Value.size_lt_of_lookup_seq found member
  | choice fields test yes no testIs yesIs noIs =>
    simp only [Packing.parts, List.mem_cons, List.not_mem_nil, or_false] at member
    rcases member with rfl | rfl | rfl
    · exact Value.size_lt_of_lookup testIs
    · exact Value.size_lt_of_lookup yesIs
    · exact Value.size_lt_of_lookup noIs
  | guard fields test body operatorIs testIs bodyIs
  | fallback fields test body operatorIs testIs bodyIs =>
    simp only [Packing.parts, List.mem_cons, List.not_mem_nil, or_false] at member
    rcases member with rfl | rfl
    · exact Value.size_lt_of_lookup testIs
    · exact Value.size_lt_of_lookup bodyIs
  | plain => simp [Packing.parts] at member

theorem size_lt_of_mem_parts {v part : Value} {p : Packing} (h : packing v = p)
    (member : part ∈ p.parts) : part.size < v.size :=
  Packed.size_lt (h ▸ packed v) member

/-- A comma sequence as the expressions before its last one, and that one. A sequence at the end is
taken apart as well. -/
def commaSplit (v : Value) : List Value × Value :=
  match _h : packing v with
  | .comma items =>
    match _last : items.getLast? with
    | some final => (items.dropLast ++ (commaSplit final).1, (commaSplit final).2)
    | none => ([], v)
  | _ => ([], v)
termination_by v.size
decreasing_by
  all_goals exact size_lt_of_mem_parts _h (List.mem_of_getLast? _last)

/-- What a comma sequence is split into is smaller, but for the last operand of none. -/
theorem commaSplit_size (v : Value) :
    (∀ part ∈ (commaSplit v).1, part.size < v.size) ∧ (commaSplit v).2.size ≤ v.size := by
  fun_induction commaSplit v with
  | case1 v items h final last ih =>
    have smaller := size_lt_of_mem_parts h (List.mem_of_getLast? last)
    refine ⟨fun part member => ?_, Nat.le_of_lt (Nat.lt_of_le_of_lt ih.2 smaller)⟩
    rcases List.mem_append.mp member with member | member
    · exact size_lt_of_mem_parts h (List.dropLast_subset _ member)
    · exact Nat.lt_trans (ih.1 part member) smaller
  | case2 v items h last => simp
  | case3 v h => simp

/-- Splitting goes on in the last operand. -/
theorem commaSplit_comma {v last : Value} {leading : List Value}
    (packs : packing v = .comma (leading ++ [last])) :
    commaSplit v = (leading ++ (commaSplit last).1, (commaSplit last).2) := by
  rw [commaSplit]
  split
  · rename_i items same
    obtain rfl : leading ++ [last] = items := by simpa [packs] using same
    split
    · rename_i final ends
      obtain rfl : last = final := by simpa using ends
      rw [List.dropLast_concat]
    · rename_i ends
      simp at ends
  · rename_i other
    exact absurd packs (other _)

/-- Anything else is its own last operand. -/
theorem commaSplit_plain {v : Value} (packs : ∀ items, packing v ≠ .comma items) :
    commaSplit v = ([], v) := by
  rw [commaSplit]
  split <;> simp_all

/-- How an expression is packed, if the rule for its tag is there. -/
def unpacking (off : List String) : Value → Packing
  | .node (.str tag) fields =>
    if off.contains tag then .plain else packing (.node (.str tag) fields)
  | _ => .plain

/-- What a rule unpacks is packed in that way, whichever rules are switched off. -/
theorem packing_of_unpacking {off : List String} {v : Value} {p : Packing}
    (h : unpacking off v = p) (packs : p ≠ .plain) : packing v = p := by
  unfold unpacking at h
  split at h
  · split at h
    · exact absurd h.symm packs
    · exact h
  · exact absurd h.symm packs

theorem size_lt_of_unpacking {off : List String} {v part : Value} {p : Packing}
    (h : unpacking off v = p) (member : part ∈ p.parts) : part.size < v.size := by
  refine size_lt_of_mem_parts (packing_of_unpacking h ?_) member
  rintro rfl
  simp [Packing.parts] at member

/-- What a branch tests, after the expressions that move out in front of it. -/
def hoisted (off : List String) (test : Value) : List Value × Value :=
  if off.contains "IfStatement" then ([], test) else commaSplit test

/-- Operands that are moved before a test are smaller than the test. -/
theorem hoisted_size (off : List String) (test : Value) :
    ∀ part ∈ (hoisted off test).1, part.size < test.size := by
  unfold hoisted
  split
  · simp
  · exact (commaSplit_size test).1

/-- One statement for several: a single one is that one, others become a block. -/
def one : List Value → Value
  | [n] => n
  | nodes => Value.blockStatement nodes

/-- Statements in a block; a block stays as it is. -/
def enclosed (n : Value) : Value :=
  if n.hasTag "BlockStatement" then n else Value.blockStatement [n]

/-- A statement that no `else` after it can belong to: a branch is put in a block. -/
def guarded (n : Value) : Value :=
  if n.hasTag "IfStatement" then enclosed n else n

/-- Whether a statement is a branch with an else. -/
def isElseIf : Value → Bool
  | .node (.str "IfStatement") fields => (fields.lookup "alternate").any fun v => !v.isNull
  | _ => false

/-- A statement as the else of a branch: another branch with an else goes on as it is. -/
def elseForm (n : Value) : Value :=
  if isElseIf n then n else enclosed n

/-- What a rule answers, or the node itself where it refuses. -/
def orSelf (n : Value) : Except Fault (List Value) → List Value
  | .ok nodes => nodes
  | .error _ => [n]

def negated (off : List String) (v : Value) : Value :=
  let negation := Value.unaryExpression (.str "!") v
  if off.contains "UnaryExpression" then negation
  else one (orSelf negation ((Rule.evaluateUnary negation).map fun n => [n]))

def asStatement : Value → Value
  | .node (.str tag) fields =>
    if Value.isStatementTag tag then .node (.str tag) fields
    else Value.expressionStatement (.node (.str tag) fields)
  | v => v

/-- The statements that an expression in the place of a statement becomes. -/
def unpacked (off : List String) (v : Value) : List Value :=
  match _h : unpacking off v with
  | .comma items => items.attach.flatMap fun item => unpacked off item.1
  | .choice test yes no =>
    (hoisted off test).1.attach.flatMap (fun item => unpacked off item.1) ++
      [Value.ifStatement (hoisted off test).2 (guarded (one (unpacked off yes)))
        (elseForm (one (unpacked off no)))]
  | .guard test body =>
    (hoisted off test).1.attach.flatMap (fun item => unpacked off item.1) ++
      [Value.ifStatement (hoisted off test).2 (one (unpacked off body)) .null]
  | .fallback test body => [Value.ifStatement (negated off test) (one (unpacked off body)) .null]
  | .plain => [asStatement v]
termination_by v.size
decreasing_by
  · exact size_lt_of_unpacking _h item.2
  · exact Nat.lt_trans (hoisted_size off test _ item.2)
      (size_lt_of_unpacking _h (by simp [Packing.parts]))
  · exact size_lt_of_unpacking _h (by simp [Packing.parts])
  · exact size_lt_of_unpacking _h (by simp [Packing.parts])
  · exact Nat.lt_trans (hoisted_size off test _ item.2)
      (size_lt_of_unpacking _h (by simp [Packing.parts]))
  · exact size_lt_of_unpacking _h (by simp [Packing.parts])
  · exact size_lt_of_unpacking _h (by simp [Packing.parts])

/-- Unpacking, case by case: a comma sequence becomes the statements of its operands. -/
theorem unpacked_comma {off : List String} {v : Value} {items : List Value}
    (h : unpacking off v = .comma items) : unpacked off v = items.flatMap (unpacked off) := by
  rw [unpacked]
  split <;> simp_all

/-- A conditional becomes a branch, after the operands that go before its test. -/
theorem unpacked_choice {off : List String} {v test yes no : Value}
    (h : unpacking off v = .choice test yes no) :
    unpacked off v = (hoisted off test).1.flatMap (unpacked off) ++
      [Value.ifStatement (hoisted off test).2 (guarded (one (unpacked off yes)))
        (elseForm (one (unpacked off no)))] := by
  rw [unpacked]
  split <;> simp_all

/-- The operator `&&` becomes a branch without an alternate. -/
theorem unpacked_guard {off : List String} {v test body : Value}
    (h : unpacking off v = .guard test body) :
    unpacked off v = (hoisted off test).1.flatMap (unpacked off) ++
      [Value.ifStatement (hoisted off test).2 (one (unpacked off body)) .null] := by
  rw [unpacked]
  split <;> simp_all

/-- The operator `||` becomes a branch on the negation, and nothing goes before its test. -/
theorem unpacked_fallback {off : List String} {v test body : Value}
    (h : unpacking off v = .fallback test body) :
    unpacked off v =
      [Value.ifStatement (negated off test) (one (unpacked off body)) .null] := by
  rw [unpacked]
  split <;> simp_all

/-- Anything else is a statement as it stands. -/
theorem unpacked_plain {off : List String} {v : Value} (h : unpacking off v = .plain) :
    unpacked off v = [asStatement v] := by
  rw [unpacked]
  split <;> simp_all

/-- Induction along the unpacking of an expression. -/
theorem unpacked_induction (off : List String) {motive : Value → Prop}
    (comma : ∀ v items, unpacking off v = .comma items → (∀ item ∈ items, motive item) → motive v)
    (choice : ∀ v test yes no, unpacking off v = .choice test yes no →
      (∀ part ∈ (hoisted off test).1, motive part) → motive yes → motive no → motive v)
    (guard : ∀ v test body, unpacking off v = .guard test body →
      (∀ part ∈ (hoisted off test).1, motive part) → motive body → motive v)
    (fallback : ∀ v test body, unpacking off v = .fallback test body → motive body → motive v)
    (plain : ∀ v, unpacking off v = .plain → motive v) (v : Value) : motive v := by
  induction v using unpacked.induct off with
  | case1 v items packs ih => exact comma v items packs fun item member => ih ⟨item, member⟩
  | case2 v test yes no packs ihParts ihYes ihNo =>
    exact choice v test yes no packs (fun part member => ihParts ⟨part, member⟩) ihYes ihNo
  | case3 v test body packs ihParts ihBody =>
    exact guard v test body packs (fun part member => ihParts ⟨part, member⟩) ihBody
  | case4 v test body packs ihBody => exact fallback v test body packs ihBody
  | case5 v packs => exact plain v packs

/-- The statements that a return becomes; `rebuild` gives the return of what is left of the
argument. -/
def returned (off : List String) (rebuild : Value → Value) (argument : Value) : List Value :=
  (commaSplit argument).1.flatMap (unpacked off) ++
    match _h : packing (commaSplit argument).2 with
    | .choice test yes no =>
      (hoisted off test).1.flatMap (unpacked off) ++
        [Value.ifStatement (hoisted off test).2
          (enclosed (one (returned off Value.returnStatement yes)))
          (elseForm (one (returned off Value.returnStatement no)))]
    | _ => [rebuild (commaSplit argument).2]
termination_by argument.size
decreasing_by
  all_goals
    refine Nat.lt_of_lt_of_le (size_lt_of_mem_parts _h ?_) (commaSplit_size argument).2
    simp [Packing.parts]

/-- A return of a conditional becomes a branch with two returns. -/
theorem returned_choice {off : List String} {argument test yes no : Value}
    (rebuild : Value → Value) (packs : packing (commaSplit argument).2 = .choice test yes no) :
    returned off rebuild argument = (commaSplit argument).1.flatMap (unpacked off) ++
      ((hoisted off test).1.flatMap (unpacked off) ++
        [Value.ifStatement (hoisted off test).2
          (enclosed (one (returned off Value.returnStatement yes)))
          (elseForm (one (returned off Value.returnStatement no)))]) := by
  rw [returned]
  split <;> simp_all

/-- Anything else is returned after the statements before it. -/
theorem returned_plain {off : List String} {argument : Value} (rebuild : Value → Value)
    (packs : ∀ test yes no, packing (commaSplit argument).2 ≠ .choice test yes no) :
    returned off rebuild argument =
      (commaSplit argument).1.flatMap (unpacked off) ++ [rebuild (commaSplit argument).2] := by
  rw [returned]
  split <;> simp_all

/-- A comma sequence is returned by its last operand. -/
theorem returned_comma {off : List String} {argument last : Value} {leading : List Value}
    (rebuild : Value → Value) (packs : packing argument = .comma (leading ++ [last])) :
    returned off rebuild argument =
      leading.flatMap (unpacked off) ++ returned off rebuild last := by
  rw [returned, returned, commaSplit_comma packs]
  simp only [List.flatMap_append, List.append_assoc]

/-- Induction along the conditionals that are returned. -/
theorem returned_induction {motive : Value → Prop}
    (choice : ∀ v test yes no, packing (commaSplit v).2 = .choice test yes no →
      motive yes → motive no → motive v)
    (plain : ∀ v, (∀ test yes no, packing (commaSplit v).2 ≠ .choice test yes no) → motive v)
    (v : Value) : motive v := by
  induction h : v.size using Nat.strongRecOn generalizing v with
  | ind n ih =>
    subst h
    cases packs : packing (commaSplit v).2 with
    | choice test yes no =>
      have smaller : ∀ part ∈ (Packing.choice test yes no).parts, part.size < v.size :=
        fun part member => Nat.lt_of_lt_of_le (size_lt_of_mem_parts packs member) (commaSplit_size v).2
      exact choice v test yes no packs
        (ih _ (smaller yes (by simp [Packing.parts])) yes rfl)
        (ih _ (smaller no (by simp [Packing.parts])) no rfl)
    | _ => exact plain v (by simp [packs])

/-- Moves all but the last expression of a comma sequence out in front of the node that holds it in
the named field. -/
def commaHoisted (off : List String) (n : Value) (name : String) (v : Value) : List Value :=
  match packing v with
  | .comma items =>
    match items.getLast? with
    | some last => items.dropLast.flatMap (unpacked off) ++ [n.withField name last]
    | none => [n]
  | _ => [n]

/-- Operands before the last one become statements before the node. -/
theorem commaHoisted_comma {off : List String} {v last : Value} {leading : List Value} (n : Value)
    (name : String) (packs : packing v = .comma (leading ++ [last])) :
    commaHoisted off n name v = leading.flatMap (unpacked off) ++ [n.withField name last] := by
  simp only [commaHoisted, packs, List.getLast?_concat, List.dropLast_concat]

theorem commaHoisted_plain {off : List String} {v : Value} (n : Value) (name : String)
    (packs : ∀ items, packing v ≠ .comma items) : commaHoisted off n name v = [n] := by
  unfold commaHoisted
  split
  · rename_i items same
    exact absurd same (packs items)
  · rfl

/-- The tags of expressions that a rule unpacks. -/
def unpackedTags : List String :=
  ["SequenceExpression", "ConditionalExpression", "LogicalExpression", "AssignmentExpression",
    "CallExpression"]

/-- Whether an expression has a rule for the place of a statement. -/
def unpacks (off : List String) : Value → Bool
  | .node (.str tag) _ => unpackedTags.contains tag && !off.contains tag
  | _ => false

/-- A branch whose consequent cannot capture its else. -/
def braced (n : Value) (fields : Fields) : Value :=
  match fields.lookup "consequent", fields.lookup "alternate" with
  | some _, none | some _, some .null => n
  | some consequent, some _ =>
    match Rule.endsWithoutElse consequent with
    | .ok true => n.withField "consequent" (enclosed consequent)
    | _ => n
  | _, _ => n

def settledExpression (off : List String) (n : Value) (fields : Fields) : List Value :=
  match fields.lookup "expression" with
  | some v => if unpacks off v then unpacked off v else [n]
  | none => [n]

def settledIf (off : List String) (n : Value) (fields : Fields) : List Value :=
  match fields.lookup "test" with
  | some test =>
    (commaSplit test).1.flatMap (unpacked off) ++
      [braced (n.withField "test" (commaSplit test).2) fields]
  | none => [n]

def settledSwitch (off : List String) (n : Value) (fields : Fields) : List Value :=
  match fields.lookup "discriminant" with
  | some v => commaHoisted off n "discriminant" v
  | none => [n]

/-- Whether a loop starts with a declaration of variables. -/
def isVar : Value → Bool
  | .node (.str "VariableDeclaration") fields => (fields.lookup "kind").any (·.isText "var")
  | _ => false

def settledFor (off : List String) (n : Value) (fields : Fields) : List Value :=
  match fields.lookup "init" with
  | some v =>
    if isVar v then orSelf n (Rule.hoistDeclarators n v) else commaHoisted off n "init" v
  | none => [n]

def settledLabel (n : Value) (fields : Fields) : List Value :=
  match fields.lookup "body" with
  | some body =>
    match Rule.leavingBefore n body with
    | .ok (some (leading, last)) => leading ++ [n.withField "body" last]
    | _ => [n]
  | none => [n]

def settledReturn (off : List String) (n : Value) (fields : Fields) : List Value :=
  match fields.lookup "argument" with
  | none | some .null => [n]
  | some argument => returned off (n.withField "argument") argument

/-- What a node with the tag becomes by its rule. -/
def settledBy (off : List String) (tag : String) (n : Value) (fields : Fields) : List Value :=
  match tag with
  | "ExpressionStatement" => settledExpression off n fields
  | "IfStatement" => settledIf off n fields
  | "SwitchStatement" => settledSwitch off n fields
  | "ForStatement" => settledFor off n fields
  | "LabeledStatement" => settledLabel n fields
  | "ReturnStatement" => settledReturn off n fields
  | "BinaryExpression" => orSelf n ((Rule.turnComparison n).map fun turned => [turned])
  | "UnaryExpression" => orSelf n ((Rule.evaluateUnary n).map fun folded => [folded])
  | _ => [n]

/-- What a node becomes whose children are in final form. -/
def settled (off : List String) : Value → List Value
  | .node (.str tag) fields =>
    if off.contains tag then [.node (.str tag) fields]
    else settledBy off tag (.node (.str tag) fields) fields
  | v => [v]

/-- The tags of nodes that a rule changes. -/
def settledTags : List String :=
  ["ExpressionStatement", "IfStatement", "SwitchStatement", "ForStatement", "LabeledStatement",
    "ReturnStatement", "BinaryExpression", "UnaryExpression"]

/-- Other nodes stay as they are. -/
theorem settled_other (off : List String) {tag : String} (fields : Fields)
    (other : tag ∉ settledTags) : settled off (.tagged tag fields) = [.tagged tag fields] := by
  simp only [settled]
  split
  · rfl
  · unfold settledBy
    split
    all_goals first | rfl | exact absurd (by decide) other

mutual

def reshapedFields (off : List String) : Fields → Fields
  | [] => []
  | (name, v) :: rest => (name, reshapedField off v) :: reshapedFields off rest

def reshapedField (off : List String) : Value → Value
  | .seq items => .seq (reshapedItems off items)
  | .node tag fields => one (settled off (.node tag (reshapedFields off fields)))
  | v => v

def reshapedItems (off : List String) : List Value → List Value
  | [] => []
  | .node tag fields :: rest =>
    settled off (.node tag (reshapedFields off fields)) ++ reshapedItems off rest
  | item :: rest => item :: reshapedItems off rest

end

/-- The nodes that take the place of a node. -/
def reshaped (off : List String) : Value → List Value
  | .node tag fields => settled off (.node tag (reshapedFields off fields))
  | v => [v]

/-- A node without a rule keeps its tag, and its fields are reshaped. -/
theorem reshapedField_other (off : List String) {tag : String} (fields : Fields)
    (other : tag ∉ settledTags) :
    reshapedField off (.tagged tag fields) = .tagged tag (reshapedFields off fields) := by
  rw [reshapedField, settled_other off _ other]
  rfl

theorem reshaped_other (off : List String) {tag : String} (fields : Fields)
    (other : tag ∉ settledTags) :
    reshaped off (.tagged tag fields) = [.tagged tag (reshapedFields off fields)] :=
  settled_other off _ other

/-- The members of a sequence become statements one by one. -/
theorem reshapedItems_eq (off : List String) (items : List Value) :
    reshapedItems off items = items.flatMap (reshaped off) := by
  induction items with
  | nil => rfl
  | cons item rest ih => cases item <;> simp [reshapedItems, reshaped, ih]

theorem reshapedFields_eq (off : List String) (fields : Fields) :
    reshapedFields off fields = fields.map fun field => (field.1, reshapedField off field.2) := by
  induction fields with
  | nil => rfl
  | cons field rest ih => simp [reshapedFields, ih]

/-- Reshaping changes what fields hold, not which fields there are. -/
theorem lookup_reshapedFields (off : List String) (name : String) (fields : Fields) :
    (reshapedFields off fields).lookup name = (fields.lookup name).map (reshapedField off) := by
  induction fields with
  | nil => rfl
  | cons field rest ih =>
    obtain ⟨k, v⟩ := field
    simp only [reshapedFields, List.lookup_cons]
    split
    · rfl
    · exact ih

end Untangle.Reshape
