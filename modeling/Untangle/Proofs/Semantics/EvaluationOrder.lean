import Untangle.Proofs.Reshape.Comparisons
import Untangle.Proofs.Semantics.Expressions

/-!
# The order of evaluation in comparisons

Turning a comparison round evaluates its operands in the other order. What that can change is settled
here for arbitrary operands, in a semantics where calls may change the store. An operand that moves is
a constant, `undefined` or a name. Constants and `undefined` may be evaluated at any time. A name may
be read early, which never changes what is done, only what is compared: it then has the value from
before the other operand was evaluated.

* `Host.eval` evaluates every tree; what the language does not cover is left to the host.
* `ReadsEarly` is the situation in which another value is read.
* `turnComparison_keeps_outcome` compares a comparison with what the rule makes of it.
-/

namespace Untangle.Semantics

open Reshape Syntax

/-- A world in which calls may change the store. A call sees the store, so `respond` stands in the
place of `answer`; it gives what the call answers and the store after it. All expressions that are
not given a meaning below may do anything. -/
structure Host extends World where
  respond : State → String → List Datum → Except Datum Datum × (String → Datum)
  other : Value → Run Datum

def Host.call (h : Host) (callee : String) (arguments : List Datum) : Run Datum := fun st =>
  let (answer, store) := h.respond st callee arguments
  (answer, { store, trace := st.trace ++ [(callee, arguments)] })

def identifierName? : Value → Option String
  | .node (.str "Identifier") fields =>
    match fields.lookup "name" with
    | some (.str x) => some x
    | _ => none
  | _ => none

/-- Runs one computation after another and gives all values. -/
def Run.inTurn : List (Run Datum) → Run (List Datum)
  | [] => .give []
  | r :: rest => r.andThen fun d => (inTurn rest).andThen fun ds => .give (d :: ds)

/-- Evaluates a node of which the fields do the given things; a field with several members does one
thing for each. -/
def Host.evalNode (h : Host) (tag : String) (fields : Fields)
    (parts : List (String × List (Run Datum))) : Run Datum :=
  match tag with
  | "Identifier" =>
    match identifierName? (.tagged tag fields) with
    | some x => fun st => (.ok (st.read x), st)
    | none => h.other (.tagged tag fields)
  | "Literal" => .give (h.literalOf fields)
  | "UnaryExpression" =>
    match fields.lookup "operator", parts.lookup "argument" with
    | some (.str operator), some [argument] =>
      if operator = "delete" then h.other (.tagged tag fields)
      else argument.andThen fun d => .give (h.unaryOf operator d)
    | _, _ => h.other (.tagged tag fields)
  | "BinaryExpression" =>
    match fields.lookup "operator", parts.lookup "left", parts.lookup "right" with
    | some (.str operator), some [left], some [right] =>
      left.andThen fun a => right.andThen fun b st => (h.binary operator a b, st)
    | _, _, _ => h.other (.tagged tag fields)
  | "AssignmentExpression" =>
    match fields.lookup "operator", (fields.lookup "left").bind identifierName?,
        parts.lookup "right" with
    | some (.str "="), some x, some [value] => value.andThen fun d st => (.ok d, st.assign x d)
    | _, _, _ => h.other (.tagged tag fields)
  | "CallExpression" =>
    match (fields.lookup "callee").bind identifierName?, fields.lookup "arguments",
        parts.lookup "arguments" with
    | some callee, some (.seq items), some arguments =>
      if items.any (·.hasTag "SpreadElement") then h.other (.tagged tag fields)
      else (Run.inTurn arguments).andThen (h.call callee)
    | _, _, _ => h.other (.tagged tag fields)
  | "LogicalExpression" =>
    match fields.lookup "operator", parts.lookup "left", parts.lookup "right" with
    | some (.str "&&"), some [left], some [right] =>
      left.andThen fun d => if d.truthy then right else .give d
    | some (.str "||"), some [left], some [right] =>
      left.andThen fun d => if d.truthy then .give d else right
    | _, _, _ => h.other (.tagged tag fields)
  | "ConditionalExpression" =>
    match parts.lookup "test", parts.lookup "consequent", parts.lookup "alternate" with
    | some [test], some [yes], some [no] => test.andThen fun d => if d.truthy then yes else no
    | _, _, _ => h.other (.tagged tag fields)
  | "SequenceExpression" =>
    match parts.lookup "expressions" with
    | some items => (Run.inTurn items).andThen fun ds => .give (ds.getLast?.getD .undefined)
    | none => h.other (.tagged tag fields)
  | _ => h.other (.tagged tag fields)

mutual

/-- Evaluates a tree, from left to right. -/
def Host.eval (h : Host) : Value → Run Datum
  | .node (.str tag) fields => h.evalNode tag fields (h.evalFields fields)
  | v => h.other v

def Host.evalFields (h : Host) : Fields → List (String × List (Run Datum))
  | [] => []
  | (name, .seq items) :: rest => (name, h.evalItems items) :: h.evalFields rest
  | (name, v) :: rest => (name, [h.eval v]) :: h.evalFields rest

def Host.evalItems (h : Host) : List Value → List (Run Datum)
  | [] => []
  | v :: rest => h.eval v :: h.evalItems rest

end

/-! ## What operands do -/

section

variable (h : Host)

theorem lookup_evalFields {name : String} {fields : Fields} {v : Value}
    (found : fields.lookup name = some v) (single : ∀ items, v ≠ .seq items) :
    (h.evalFields fields).lookup name = some [h.eval v] := by
  induction fields with
  | nil => simp at found
  | cons field rest ih =>
    obtain ⟨key, w⟩ := field
    by_cases same : name = key
    · subst same
      simp only [List.lookup_cons, beq_self_eq_true, Option.some.injEq] at found
      subst found
      rw [Host.evalFields]
      · simp
      · exact single
    · have differs : (name == key) = false := beq_false_of_ne same
      simp only [List.lookup_cons, differs] at found
      cases w <;> simp only [Host.evalFields, List.lookup_cons, differs, ih found]

theorem not_seq_of_fits {v : Value} (fit : fits expression v = true) (items : List Value) :
    v ≠ .seq items := by
  obtain ⟨tag, fields, rfl, -⟩ := fits_one.mp fit
  simp

/-- The operands of a comparison are evaluated one after the other. -/
theorem eval_comparison {fields : Fields} {operator : String} {left right : Value}
    (formed : Formed "BinaryExpression" fields)
    (operatorIs : fields.lookup "operator" = some (.str operator))
    (leftIs : fields.lookup "left" = some left) (rightIs : fields.lookup "right" = some right) :
    h.eval (.tagged "BinaryExpression" fields) =
      (h.eval left).andThen fun a => (h.eval right).andThen fun b st =>
        (h.binary operator a b, st) := by
  have leftRuns := lookup_evalFields h leftIs (not_seq_of_fits (formed.fits_lookup leftIs))
  have rightRuns := lookup_evalFields h rightIs (not_seq_of_fits (formed.fits_lookup rightIs))
  rw [Value.tagged, Host.eval]
  simp only [Host.evalNode, operatorIs, leftRuns, rightRuns]

theorem eval_named {x : String} {v : Value} (named : Named x v) :
    h.eval v = fun st => (.ok (st.read x), st) := by
  obtain ⟨fields, rfl, nameIs⟩ := named
  rw [Value.tagged, Host.eval]
  simp only [Host.evalNode, Value.tagged, identifierName?, nameIs]

theorem eval_undefined {v : Value} (named : Named "undefined" v) :
    h.eval v = .give .undefined := by
  rw [eval_named h named]
  rfl

/-- A constant has a value of its own and does nothing. -/
theorem eval_still {v : Value} (constant : Constant v) : ∃ d, h.eval v = .give d := by
  induction constant with
  | literal fields =>
    exact ⟨h.literalOf fields, by rw [Value.tagged, Host.eval]; rfl⟩
  | unary fields operator argument operatorIs isPlain argumentIs inner ih =>
    obtain ⟨d, still⟩ := ih
    have single : ∀ items, argument ≠ .seq items := by
      rintro items rfl
      cases inner
    have kept : operator ≠ "delete" := by
      rintro rfl
      exact absurd isPlain (by decide)
    refine ⟨h.unaryOf operator d, ?_⟩
    rw [Value.tagged, Host.eval]
    simp only [Host.evalNode, operatorIs, lookup_evalFields h argumentIs single, if_neg kept, still]
    rfl

end

/-! ## Two operands in either order -/

section

variable (h : Host) {operator mirrored : String}

/-- Evaluates one operand after the other and compares their values. -/
def Host.compare (operator : String) (first second : Run Datum) : Run Datum :=
  first.andThen fun a => second.andThen fun b st => (h.binary operator a b, st)

/-- Something with a value of its own may be evaluated before or after the other operand. -/
theorem compare_give_left (mirrors : Rule.comparisonTable.lookup operator = some mirrored)
    (d : Datum) (r : Run Datum) :
    h.compare mirrored r (.give d) = h.compare operator (.give d) r := by
  funext st
  simp only [Host.compare, Run.andThen, Run.give]
  cases r st with
  | mk result after =>
    cases result with
    | error thrown => rfl
    | ok b => simp only [binary_mirrored h.toWorld mirrors]

theorem compare_give_right (mirrors : Rule.comparisonTable.lookup operator = some mirrored)
    (r : Run Datum) (d : Datum) :
    h.compare mirrored (.give d) r = h.compare operator r (.give d) :=
  (compare_give_left h (mirrored_back mirrors) d r).symm

/-- A name that is read before the other operand is evaluated has the value from before that. -/
theorem compare_read (mirrors : Rule.comparisonTable.lookup operator = some mirrored) (x : String)
    (r : Run Datum) (st : State) :
    h.compare mirrored (fun st => (.ok (st.read x), st)) r st =
      h.compare operator r (.give (st.read x)) st := by
  simp only [Host.compare, Run.andThen, Run.give]
  cases r st with
  | mk result after =>
    cases result with
    | error thrown => rfl
    | ok b => simp only [binary_mirrored h.toWorld mirrors]

/-- The value of an operand does not matter for the state after a comparison. -/
theorem compare_state (r : Run Datum) (x : String) (d : Datum) (st : State) :
    (h.compare operator r (.give d) st).2 =
      (h.compare operator r (fun st => (.ok (st.read x), st)) st).2 := by
  simp only [Host.compare, Run.andThen, Run.give]
  cases r st with
  | mk result after => cases result <;> rfl

/-- It is the value that would have been read after it, if the other operand leaves the name alone. -/
theorem compare_read_late (r : Run Datum) (x : String) (st : State)
    (leaves : ∀ d after, r st = (.ok d, after) → after.read x = st.read x) :
    h.compare operator r (.give (st.read x)) st =
      h.compare operator r (fun st => (.ok (st.read x), st)) st := by
  simp only [Host.compare, Run.andThen, Run.give]
  cases outcome : r st with
  | mk result after =>
    cases result with
    | error thrown => rfl
    | ok d => simp only [leaves d after outcome]

end

/-- Turned round, the comparison reads another value from this state: its right operand is a name, its
left operand is not, and evaluating that one changes what the name stands for. -/
def ReadsEarly (h : Host) (left right : Value) (st : State) : Prop :=
  ∃ x, Named x right ∧ x ≠ "undefined" ∧ (¬ ∃ name, Named name left) ∧
    ∃ d after, h.eval left st = (.ok d, after) ∧ after.read x ≠ st.read x

/-- Operands that change places are compared to the same effect, and to the same outcome unless a name
is read early. -/
theorem compare_reversed (h : Host) {operator mirrored : String} {left right : Value}
    (mirrors : Rule.comparisonTable.lookup operator = some mirrored)
    (reverses : Reverses left right) (st : State) :
    (h.compare mirrored (h.eval right) (h.eval left) st).2 =
        (h.compare operator (h.eval left) (h.eval right) st).2 ∧
      (¬ ReadsEarly h left right st → h.compare mirrored (h.eval right) (h.eval left) st =
        h.compare operator (h.eval left) (h.eval right) st) := by
  rcases reverses with undefined | ⟨unnamed, x, named⟩ | ⟨constant, -⟩
  · rw [eval_undefined h undefined, compare_give_left h mirrors]
    exact ⟨rfl, fun _ => rfl⟩
  · by_cases isUndefined : x = "undefined"
    · subst isUndefined
      rw [eval_undefined h named, compare_give_right h mirrors]
      exact ⟨rfl, fun _ => rfl⟩
    · rw [eval_named h named, compare_read h mirrors]
      refine ⟨compare_state h .., fun late => compare_read_late h _ x st ?_⟩
      intro d after outcome
      apply Classical.byContradiction
      intro changes
      exact late ⟨x, named, isUndefined, unnamed, d, after, outcome, changes⟩
  · obtain ⟨d, still⟩ := eval_still h constant
    rw [still, compare_give_left h mirrors]
    exact ⟨rfl, fun _ => rfl⟩

/-- What the rule for comparisons gives ends in the same state as the comparison, with the same store
and the same calls, and it gives the same value or throws the same, except perhaps where a name is
read early. -/
theorem turnComparison_keeps_outcome (h : Host) {n left right : Value}
    (fit : fits expression n = true) (compares : Compares left right n) :
    ∃ m, Rule.turnComparison n = .ok m ∧ ∀ st,
      (h.eval m st).2 = (h.eval n st).2 ∧
      (¬ ReadsEarly h left right st → h.eval m st = h.eval n st) := by
  obtain ⟨fields, operator, mirrored, rfl, operatorIs, mirrors, leftIs, rightIs⟩ := compares
  have formed : Formed "BinaryExpression" fields := (fits_node.mp fit).2
  by_cases reverses : Reverses left right
  · obtain ⟨answer, changed⟩ :=
      turnComparison_exchanges formed operatorIs mirrors leftIs rightIs reverses
    obtain ⟨newOperator, newLeft, newRight⟩ := @lookup_exchanged fields mirrored left right
    refine ⟨_, answer, fun st => ?_⟩
    rw [eval_comparison h formed operatorIs leftIs rightIs,
      eval_comparison h changed newOperator newLeft newRight]
    exact compare_reversed h mirrors reverses st
  · exact ⟨_, turnComparison_stays formed leftIs rightIs reverses, fun st => ⟨rfl, fun _ => rfl⟩⟩

/-! ## A host whose calls change the store -/

/-- `true` comes after everything else. -/
def rank : Datum → Nat
  | .bool true => 1
  | _ => 0

/-- Compares by rank, and for equality. -/
def ranked (operator : String) (a b : Datum) : Bool :=
  match operator with
  | "<" => rank a < rank b
  | ">" => rank b < rank a
  | "<=" => rank a ≤ rank b
  | ">=" => rank b ≤ rank a
  | "==" | "===" => a == b
  | "!=" | "!==" => a != b
  | _ => false

/-- Every call sets `x` and answers nothing. -/
def settingHost : Host where
  answer _ _ _ := .ok .undefined
  unary _ d := d
  binary operator a b := .ok (.bool (ranked operator a b))
  literal _ := .null
  symmetric := by
    intro operator member a b
    simp only [List.mem_cons, List.not_mem_nil, or_false] at member
    rcases member with rfl | rfl | rfl | rfl <;> simp [ranked, Bool.beq_comm, bne]
  mirrored _ _ := rfl
  mirroredOrEqual _ _ := rfl
  respond st _ _ := (.ok .undefined, (st.assign "x" (.bool true)).store)
  other _ := .give .undefined

def callOfF : Value :=
  .tagged "CallExpression" [("callee", Value.identifier (.str "f")), ("arguments", .seq [])]

/-- In `5 > f()` the call comes first after the exchange, which makes no difference. -/
theorem turnComparison_keeps_outcome_call :
    let five := Value.tagged "Literal" [("value", .int 5)]
    let before := Value.tagged "BinaryExpression"
      [("operator", .str ">"), ("left", five), ("right", callOfF)]
    let after := Value.tagged "BinaryExpression"
      [("operator", .str "<"), ("left", callOfF), ("right", five)]
    Rule.turnComparison before = .ok after ∧
      ∀ st, settingHost.eval after st = settingHost.eval before st := by
  intro five before after
  have turns : Rule.turnComparison before = .ok after := by
    rfl
  have compares : Compares five callOfF before :=
    ⟨_, ">", "<", rfl, rfl, rfl, rfl, rfl⟩
  obtain ⟨m, answer, same⟩ := turnComparison_keeps_outcome settingHost (by decide) compares
  rw [turns] at answer
  cases answer
  refine ⟨turns, fun st => (same st).2 ?_⟩
  rintro ⟨x, ⟨fields, isName, -⟩, -⟩
  simp [callOfF] at isName

/-- In `f() >= x` the exchange makes the name be read before the call that sets it. -/
theorem turnComparison_reads_early :
    let before := Value.tagged "BinaryExpression"
      [("operator", .str ">="), ("left", callOfF), ("right", Value.identifier (.str "x"))]
    let after := Value.tagged "BinaryExpression"
      [("operator", .str "<="), ("left", Value.identifier (.str "x")), ("right", callOfF)]
    let st : State := { store := fun _ => .undefined, trace := [] }
    fits expression before = true ∧ Rule.turnComparison before = .ok after ∧
      (settingHost.eval before st).1 = .ok (.bool false) ∧
      (settingHost.eval after st).1 = .ok (.bool true) :=
  ⟨by decide, rfl, rfl, rfl⟩

end Untangle.Semantics
