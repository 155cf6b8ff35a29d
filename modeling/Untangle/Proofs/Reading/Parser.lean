import Untangle.Proofs.Reading.Tokens

/-!
# A parser for expressions

The expression grammar of the language, level by level: comma sequences, assignments, conditionals,
the levels of the operators that group to the left, powers, which group to the right and take no
unary expression as their base, unary expressions, increments, calls, members and constructions, and
primary expressions. After `new` stands what is called and then its arguments: the first argument list
that is met outside of brackets belongs to the last `new` that has none yet.

Parsers are built by depth. A parser for one more level of nesting calls the one below wherever the
grammar goes round: inside of brackets, after a prefix operator, and on the right of what groups to
the right.

* `Term` is what is read.
* `Reader.ofDepth` is the parser for a depth of nesting.
* `read` reads a text, all of it or nothing.
-/

namespace Untangle.Reading

/-- An expression. A hole stands only among the elements of an array. -/
inductive Term where
  | name (text : String)
  | number (value : Nat)
  | hole
  | unary (operator : String) (argument : Term)
  | update (operator : String) (isPrefix : Bool) (target : Term)
  | binary (operator : String) (left right : Term)
  | assign (operator : String) (target value : Term)
  | conditional (test consequent alternate : Term)
  | sequence (items : List Term)
  | call (callee : Term) (arguments : List Term)
  | construct (callee : Term) (arguments : List Term)
  | dot (object : Term) (property : String)
  | index (object key : Term)
  | array (elements : List Term)

/-- What holds of an expression if it holds of its parts holds of every expression. -/
@[induction_eliminator]
theorem Term.induction {motive : Term → Prop} (name : ∀ text, motive (.name text))
    (number : ∀ value, motive (.number value)) (hole : motive .hole)
    (unary : ∀ operator e, motive e → motive (.unary operator e))
    (update : ∀ operator isPrefix e, motive e → motive (.update operator isPrefix e))
    (binary : ∀ operator left right, motive left → motive right →
      motive (.binary operator left right))
    (assign : ∀ operator target value, motive target → motive value →
      motive (.assign operator target value))
    (conditional : ∀ test consequent alternate, motive test → motive consequent →
      motive alternate → motive (.conditional test consequent alternate))
    (sequence : ∀ items, (∀ e ∈ items, motive e) → motive (.sequence items))
    (call : ∀ callee items, motive callee → (∀ e ∈ items, motive e) → motive (.call callee items))
    (construct : ∀ callee items, motive callee → (∀ e ∈ items, motive e) →
      motive (.construct callee items))
    (dot : ∀ object property, motive object → motive (.dot object property))
    (index : ∀ object key, motive object → motive key → motive (.index object key))
    (array : ∀ items, (∀ e ∈ items, motive e) → motive (.array items)) (t : Term) : motive t := by
  refine @Term.rec motive (fun items => ∀ e ∈ items, motive e) name number hole unary update binary
    assign conditional sequence call construct dot index array (by simp)
    (fun first rest holds others => ?_) t
  intro e member
  rcases List.mem_cons.mp member with rfl | member
  · exact holds
  · exact others e member

def Term.isTarget : Term → Bool
  | .name _ | .dot _ _ | .index _ _ => true
  | _ => false

/-- Words that are no names. -/
def reserved : List String :=
  ["break", "case", "catch", "class", "const", "continue", "debugger", "default", "delete", "do",
    "else", "enum", "export", "extends", "false", "finally", "for", "function", "if", "import", "in",
    "instanceof", "new", "null", "return", "super", "switch", "this", "throw", "true", "try", "typeof",
    "var", "void", "while", "with"]

def wordyOperators : List String :=
  ["typeof", "void", "delete", "in", "instanceof"]

def unaryOperators : List String :=
  ["-", "+", "!", "~", "typeof", "void", "delete"]

def updateOperators : List String :=
  ["++", "--"]

def assignOperators : List String :=
  ["=", "+=", "-=", "*=", "/=", "%=", "**=", "<<=", ">>=", ">>>=", "&=", "|=", "^="]

/-- The operators that group to the left, level by level, the loosest first. -/
def ladder : List (List String) :=
  [["||"], ["&&"], ["|"], ["^"], ["&"], ["==", "!=", "===", "!=="],
    ["<", ">", "<=", ">=", "in", "instanceof"], ["<<", ">>", ">>>"], ["+", "-"], ["*", "/", "%"]]

/-- Reads something off the front of the tokens. -/
abbrev Parser (α : Type) := List Token → Option (α × List Token)

/-- The operator that a token is: a sign, or one of the operators that are words. -/
def Token.operator? : Token → Option String
  | .word text => if wordyOperators.contains text then some text else none
  | .sign text => if wordyOperators.contains text then none else some text
  | .number _ => none

/-- One of the operators, off the front. -/
def operator? (operators : List String) : Parser String
  | [] => none
  | token :: rest => (token.operator?.filter operators.contains).map (·, rest)

def sign? (sign : String) : List Token → Option (List Token)
  | [] => none
  | token :: rest => if token = .sign sign then some rest else none

/-- The parsers to which the grammar goes round. -/
structure Reader where
  expression : Parser Term
  assignment : Parser Term
  exponent : Parser Term
  unary : Parser Term

/-- One or more items with commas between them, as many as the number allows. -/
def listed {α : Type} (item : Parser α) : Nat → Parser (List α)
  | 0, _ => none
  | n + 1, tokens => do
    let (first, rest) ← item tokens
    match sign? "," rest with
    | none => return ([first], rest)
    | some rest =>
      let (items, rest) ← listed item n rest
      return (first :: items, rest)

/-- The arguments of a call after the opening parenthesis. -/
def arguments {α : Type} (item : Parser α) : Parser (List α) := fun tokens =>
  match sign? ")" tokens with
  | some rest => return ([], rest)
  | none => do
    let (items, rest) ← listed item (tokens.length + 1) tokens
    let rest ← sign? ")" rest
    return (items, rest)

/-- The elements of an array after the opening bracket. A comma without an element before it leaves a
hole, and a comma at the end leaves nothing. -/
def elements (item : Parser Term) : Nat → Parser (List Term)
  | 0, _ => none
  | n + 1, tokens =>
    match sign? "]" tokens, sign? "," tokens with
    | some rest, _ => return ([], rest)
    | none, some rest => do
      let (items, rest) ← elements item n rest
      return (.hole :: items, rest)
    | none, none => do
      let (first, rest) ← item tokens
      match sign? "," rest with
      | some rest =>
        let (items, rest) ← elements item n rest
        return (first :: items, rest)
      | none =>
        let rest ← sign? "]" rest
        return ([first], rest)

/-- Counts the words `new` at the front. -/
def news : List Token → Nat × List Token
  | .word "new" :: rest => ((news rest).1 + 1, (news rest).2)
  | tokens => (0, tokens)

/-- Constructions without arguments. -/
def bare : Nat → Term → Term
  | 0, t => t
  | waiting + 1, t => bare waiting (.construct t [])

section Levels

variable (r : Reader)

def primary : Parser Term
  | .word text :: rest => if reserved.contains text then none else some (.name text, rest)
  | .number value :: rest => some (.number value, rest)
  | .sign "(" :: rest => do
    let (t, rest) ← r.expression rest
    let rest ← sign? ")" rest
    return (t, rest)
  | .sign "[" :: rest => do
    let (items, rest) ← elements r.assignment (rest.length + 1) rest
    return (.array items, rest)
  | _ => none

/-- Members and argument lists after what has been read, where some `new` are waiting for theirs. -/
def suffixes : Nat → Nat → Term → Parser Term
  | n + 1, waiting, t, .sign "." :: .word text :: rest => suffixes n waiting (.dot t text) rest
  | n + 1, waiting, t, .sign "[" :: rest => do
    let (key, rest) ← r.expression rest
    let rest ← sign? "]" rest
    suffixes n waiting (.index t key) rest
  | n + 1, 0, t, .sign "(" :: rest => do
    let (items, rest) ← arguments r.assignment rest
    suffixes n 0 (.call t items) rest
  | n + 1, waiting + 1, t, .sign "(" :: rest => do
    let (items, rest) ← arguments r.assignment rest
    suffixes n waiting (.construct t items) rest
  | _, waiting, t, tokens => some (bare waiting t, tokens)

/-- Calls, members and constructions, where some `new` are waiting already. -/
def callOrMember (waiting : Nat) : Parser Term := fun tokens => do
  let (t, rest) ← primary r (news tokens).2
  suffixes r rest.length (waiting + (news tokens).1) t rest

/-- An increment or a decrement of a target, before or after it. -/
def update : Parser Term := fun tokens =>
  match operator? updateOperators tokens with
  | some (operator, rest) => do
    let (t, rest) ← r.unary rest
    if t.isTarget then return (.update operator true t, rest) else none
  | none => do
    let (t, rest) ← callOrMember r 0 tokens
    match operator? updateOperators rest with
    | some (operator, rest) => if t.isTarget then return (.update operator false t, rest) else none
    | none => return (t, rest)

def unary : Parser Term := fun tokens =>
  match operator? unaryOperators tokens with
  | some (operator, rest) => do
    let (t, rest) ← r.unary rest
    return (.unary operator t, rest)
  | none => update r tokens

/-- A power; its base is no unary expression. -/
def exponent : Parser Term := fun tokens =>
  match operator? unaryOperators tokens with
  | some _ => unary r tokens
  | none => do
    let (base, rest) ← update r tokens
    match sign? "**" rest with
    | none => return (base, rest)
    | some rest =>
      let (t, rest) ← r.exponent rest
      return (.binary "**" base t, rest)

/-- What follows on one level of operators, grouped to the left. -/
def chain (operand : Parser Term) (operators : List String) : Nat → Term → Parser Term
  | 0, t, tokens => some (t, tokens)
  | n + 1, t, tokens =>
    match operator? operators tokens with
    | none => some (t, tokens)
    | some (operator, rest) => do
      let (right, rest) ← operand rest
      chain operand operators n (.binary operator t right) rest

/-- The levels of operators on top of each other, the loosest first. -/
def tower (base : Parser Term) : List (List String) → Parser Term
  | [] => base
  | operators :: tighter => fun tokens => do
    let (t, rest) ← tower base tighter tokens
    chain (tower base tighter) operators rest.length t rest

def conditional : Parser Term := fun tokens => do
  let (test, rest) ← tower (exponent r) ladder tokens
  match sign? "?" rest with
  | none => return (test, rest)
  | some rest =>
    let (consequent, rest) ← r.assignment rest
    let rest ← sign? ":" rest
    let (alternate, rest) ← r.assignment rest
    return (.conditional test consequent alternate, rest)

def assignment : Parser Term := fun tokens => do
  let (t, rest) ← conditional r tokens
  match operator? assignOperators rest with
  | none => return (t, rest)
  | some (operator, rest) =>
    if t.isTarget then
      let (value, rest) ← r.assignment rest
      return (.assign operator t value, rest)
    else none

/-- An expression; several with commas between them are a sequence. -/
def expression : Parser Term := fun tokens => do
  let (items, rest) ← listed (assignment r) (tokens.length + 1) tokens
  match items with
  | [t] => return (t, rest)
  | items => return (.sequence items, rest)

end Levels

/-- The parsers for one more level of nesting. -/
def Reader.above (r : Reader) : Reader where
  expression := Reading.expression r
  assignment := Reading.assignment r
  exponent := Reading.exponent r
  unary := Reading.unary r

def Reader.ofDepth : Nat → Reader
  | 0 => ⟨fun _ => none, fun _ => none, fun _ => none, fun _ => none⟩
  | depth + 1 => (ofDepth depth).above

/-- Reads all of a text as one expression. -/
def read (A : Alphabet) (text : String) : Option Term := do
  let tokens ← lex A text.toList
  let (t, rest) ← expression (Reader.ofDepth tokens.length) tokens
  if rest.isEmpty then return t else none

end Untangle.Reading
