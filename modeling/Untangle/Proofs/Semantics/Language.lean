import Untangle.Number.Binary64
import Untangle.Tree.Value

/-!
# A language of statements and its meaning

The part of the language on which reshaping is shown to keep the meaning: names, literals, calls of
names, assignments to names, operators, short circuits, conditionals and comma sequences; branches,
returns, `var` declarations, loops, labels and jumps.

Expressions are evaluated from left to right over a state, which is the store and the calls made so
far. What operators do is left to a `World`, and so is what each call answers: a value or something
thrown, depending on all calls before it. A statement ends with a completion. Every loop may go
round at most `fuel` times, so running a statement always ends, perhaps without an answer.

* `Expr.eval` and `Stmt.exec` give the meaning.
* The laws at the end turn statements about runs into equations between behaviours.
-/

namespace Untangle.Semantics

/-- The values of programs. -/
inductive Datum where
  | undefined
  | null
  | bool (b : Bool)
  | number (x : Binary64)
  | text (s : String)
  | object (id : Nat)
  deriving DecidableEq, Repr

/-- Whether a value counts as true in a test. -/
def Datum.truthy : Datum → Bool
  | .undefined | .null => false
  | .bool b => b
  | .number x => !x.isZero && x != .nan
  | .text s => !s.isEmpty
  | .object _ => true

/-- The calls made so far, the first one first. -/
abbrev Trace := List (String × List Datum)

/-- What the language leaves open: the answer to each call, which may be something thrown, the
operators, and the literals that are neither null, truth value, number nor text. A comparison says
the same from the other side. -/
structure World where
  answer : Trace → String → List Datum → Except Datum Datum
  unary : String → Datum → Datum
  binary : String → Datum → Datum → Except Datum Datum
  literal : Fields → Datum
  symmetric : ∀ operator ∈ ["==", "===", "!=", "!=="], ∀ a b, binary operator a b = binary operator b a
  mirrored : ∀ a b, binary "<" a b = binary ">" b a
  mirroredOrEqual : ∀ a b, binary "<=" a b = binary ">=" b a

/-- The store and the calls made so far. -/
structure State where
  store : String → Datum
  trace : Trace

def State.assign (st : State) (name : String) (d : Datum) : State :=
  { st with store := fun other => if other = name then d else st.store other }

/-! ## Expressions -/

/-- Expressions. A comma sequence is given by what comes before its last expression, and that. -/
inductive Expr where
  | name (x : String)
  | literal (fields : Fields)
  | call (callee : String) (arguments : List Expr)
  | assign (target : String) (value : Expr)
  | unary (operator : String) (argument : Expr)
  | binary (operator : String) (left right : Expr)
  | both (left right : Expr)
  | either (left right : Expr)
  | choice (test yes no : Expr)
  | comma (leading : List Expr) (last : Expr)

/-- A computation that gives a value or throws, and a state in either case. -/
abbrev Run (α : Type) := State → Except Datum α × State

/-- Gives a value and leaves the state. -/
def Run.give {α : Type} (a : α) : Run α :=
  fun st => (.ok a, st)

/-- One computation after another; nothing follows what was thrown. -/
def Run.andThen {α β : Type} (first : Run α) (next : α → Run β) : Run β := fun st =>
  match first st with
  | (.ok a, st) => next a st
  | (.error thrown, st) => (.error thrown, st)

def World.literalOf (w : World) (fields : Fields) : Datum :=
  match fields.lookup "value" with
  | some (.bool b) => .bool b
  | some (.int i) => .number (.ofRatio (i < 0) i.natAbs 1)
  | some (.float x) => .number x
  | some (.str s) => .text s
  | none | some .null => if (fields.lookup "regex").isSome then w.literal fields else .null
  | _ => w.literal fields

/-- The value of a name; `undefined` is always the value of that name. -/
def State.read (st : State) (x : String) : Datum :=
  if x = "undefined" then .undefined else st.store x

def World.unaryOf (w : World) (operator : String) (d : Datum) : Datum :=
  if operator = "!" then .bool (!d.truthy)
  else if operator = "void" then .undefined
  else w.unary operator d

def World.call (w : World) (callee : String) (arguments : List Datum) : Run Datum := fun st =>
  (w.answer st.trace callee arguments, { st with trace := st.trace ++ [(callee, arguments)] })

mutual

def Expr.eval (w : World) : Expr → Run Datum
  | .name x => fun st => (.ok (st.read x), st)
  | .literal fields => .give (w.literalOf fields)
  | .call callee arguments => (evalAll w arguments).andThen (w.call callee)
  | .assign target value =>
    (value.eval w).andThen fun d st => (.ok d, st.assign target d)
  | .unary operator argument => (argument.eval w).andThen fun d => .give (w.unaryOf operator d)
  | .binary operator left right =>
    (left.eval w).andThen fun a => (right.eval w).andThen fun b st => (w.binary operator a b, st)
  | .both left right => (left.eval w).andThen fun d => if d.truthy then right.eval w else .give d
  | .either left right => (left.eval w).andThen fun d => if d.truthy then .give d else right.eval w
  | .choice test yes no =>
    (test.eval w).andThen fun d => if d.truthy then yes.eval w else no.eval w
  | .comma leading last => (evalAll w leading).andThen fun _ => last.eval w

def evalAll (w : World) : List Expr → Run (List Datum)
  | [] => .give []
  | e :: rest => (e.eval w).andThen fun d => (evalAll w rest).andThen fun ds => .give (d :: ds)

end

/-! ## Statements -/

/-- What comes before the first test of a loop. -/
inductive Start where
  | nothing
  | declare (declarators : List (String × Option Expr))
  | expression (e : Expr)

/-- Statements. A `loop` is a loop with a head; a loop with nothing but a test starts with nothing
and has no update. -/
inductive Stmt where
  | expression (e : Expr)
  | block (body : List Stmt)
  | empty
  | when (test : Expr) (yes : Stmt)
  | choose (test : Expr) (yes no : Stmt)
  | leave
  | give (e : Expr)
  | declare (declarators : List (String × Option Expr))
  | loop (start : Start) (test update : Option Expr) (body : Stmt)
  | repeat (test : Expr) (body : Stmt)
  | label (name : String) (body : Stmt)
  | break (label : Option String)
  | continue (label : Option String)

inductive Completion where
  | normal
  | give (d : Datum)
  | break (label : Option String)
  | continue (label : Option String)
  | throw (d : Datum)
  deriving DecidableEq, Repr

/-- What a statement does: it ends with a completion and a state, or there was not enough fuel. -/
abbrev Behaviour := State → Option (Completion × State)

namespace Behaviour

/-- Does nothing. -/
def skip : Behaviour :=
  fun st => some (.normal, st)

/-- Ends with a completion. -/
def stop (c : Completion) : Behaviour :=
  fun st => some (c, st)

/-- Goes on with a value, or ends with what was thrown. -/
def after {α : Type} (r : Run α) (next : α → Behaviour) : Behaviour := fun st =>
  match r st with
  | (.ok a, st) => next a st
  | (.error thrown, st) => some (.throw thrown, st)

/-- One behaviour and then, if it ended normally, another. -/
def seq (first next : Behaviour) : Behaviour := fun st =>
  match first st with
  | some (.normal, st) => next st
  | other => other

/-- Ends normally where a jump out of the label was the end. -/
def leaving (label : String) (b : Behaviour) : Behaviour := fun st =>
  match b st with
  | some (.break (some other), st) =>
    if other = label then some (.normal, st) else some (.break (some other), st)
  | other => other

end Behaviour

open Behaviour

/-- Whether a loop under the labels goes on after its body has ended so. -/
def Completion.goesOn (labels : List String) : Completion → Bool
  | .normal | .continue none => true
  | .continue (some label) => labels.contains label
  | _ => false

/-- What a loop ends with when its body has ended so. -/
def Completion.ofLoop : Completion → Completion
  | .break none => .normal
  | c => c

/-- Evaluates the test of a loop; a loop without a test goes on. -/
def evalTest (w : World) : Option Expr → Run Bool
  | none => .give true
  | some e => (e.eval w).andThen fun d => .give d.truthy

/-- Evaluates an expression for what it does. -/
def effect (w : World) : Option Expr → Behaviour
  | none => skip
  | some e => after (e.eval w) fun _ => skip

/-- Goes round a loop, at most the given number of times. -/
def iterate (w : World) (labels : List String) (test update : Option Expr) (body : Behaviour) :
    Nat → Behaviour
  | 0 => fun _ => none
  | n + 1 => after (evalTest w test) fun goes =>
    if goes then fun st =>
      match body st with
      | none => none
      | some (c, st) =>
        if c.goesOn labels then seq (effect w update) (iterate w labels test update body n) st
        else some (c.ofLoop, st)
    else skip

/-- Declares variables; one with an initializer gets its value. -/
def declareAll (w : World) : List (String × Option Expr) → Behaviour
  | [] => skip
  | (_, none) :: rest => declareAll w rest
  | (x, some e) :: rest =>
    seq (after (e.eval w) fun d st => some (.normal, st.assign x d)) (declareAll w rest)

/-- Does what comes before the first test of a loop. -/
def Start.run (w : World) : Start → Behaviour
  | .nothing => skip
  | .declare declarators => declareAll w declarators
  | .expression e => effect w (some e)

mutual

/-- Runs a statement that stands under the labels. -/
def Stmt.exec (w : World) (fuel : Nat) : Stmt → List String → Behaviour
  | .expression e, _ => effect w (some e)
  | .block body, _ => execAll w fuel body
  | .empty, _ => skip
  | .when test yes, _ => after (test.eval w) fun d => if d.truthy then yes.exec w fuel [] else skip
  | .choose test yes no, _ =>
    after (test.eval w) fun d => if d.truthy then yes.exec w fuel [] else no.exec w fuel []
  | .leave, _ => stop (.give .undefined)
  | .give e, _ => after (e.eval w) fun d => stop (.give d)
  | .declare declarators, _ => declareAll w declarators
  | .loop start test update body, labels =>
    seq (start.run w) (iterate w labels test update (body.exec w fuel []) fuel)
  | .repeat test body, labels => iterate w labels (some test) none (body.exec w fuel []) fuel
  | .label name body, labels => leaving name (body.exec w fuel (name :: labels))
  | .break label, _ => stop (.break label)
  | .continue label, _ => stop (.continue label)

def execAll (w : World) (fuel : Nat) : List Stmt → Behaviour
  | [] => skip
  | s :: rest => seq (s.exec w fuel []) (execAll w fuel rest)

end

/-! ## Laws of behaviours -/

namespace Behaviour

variable {α β : Type}

@[simp] theorem skip_seq (b : Behaviour) : seq skip b = b := rfl

@[simp] theorem seq_skip (b : Behaviour) : seq b skip = b := by
  funext st
  simp only [seq]
  split
  · rename_i ended
    rw [ended]
    rfl
  · rfl

/-- Behaviours are run one after the other, however they are grouped. -/
theorem seq_assoc (a b c : Behaviour) : seq (seq a b) c = seq a (seq b c) := by
  funext st
  simp only [seq]
  cases a st with
  | none => rfl
  | some ended =>
    obtain ⟨completion, st⟩ := ended
    cases completion <;> rfl

/-- What follows an evaluation follows what is done with its value. -/
theorem seq_after (r : Run α) (next : α → Behaviour) (b : Behaviour) :
    seq (after r next) b = after r fun a => seq (next a) b := by
  funext st
  simp only [seq, after]
  cases r st with
  | mk result st => cases result <;> rfl

theorem after_give (a : α) (next : α → Behaviour) : after (.give a) next = next a := rfl

/-- One evaluation after another. -/
theorem after_andThen (r : Run α) (f : α → Run β) (next : β → Behaviour) :
    after (r.andThen f) next = after r fun a => after (f a) next := by
  funext st
  simp only [after, Run.andThen]
  cases r st with
  | mk result st => cases result <;> rfl

end Behaviour

/-- Statements of two lists, one list after the other. -/
theorem execAll_append (w : World) (fuel : Nat) (first rest : List Stmt) :
    execAll w fuel (first ++ rest) = seq (execAll w fuel first) (execAll w fuel rest) := by
  induction first with
  | nil => rfl
  | cons s more ih => simp only [List.cons_append, execAll, ih, seq_assoc]

theorem execAll_single (w : World) (fuel : Nat) (s : Stmt) :
    execAll w fuel [s] = s.exec w fuel [] := by
  simp only [execAll, seq_skip]

end Untangle.Semantics
