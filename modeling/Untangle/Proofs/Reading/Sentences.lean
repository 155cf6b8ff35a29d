import Untangle.Proofs.Reading.Parser

/-!
# A parser for statements

The grammar of branches, loops, scopes, labels, blocks and expressions that stand as statements. An
`else` belongs to the nearest `if` before it that has none, so a branch takes it as soon as its
consequent has been read.

The first expression of a loop head holds no `in` outside of brackets, and it must not look like a
declaration. Line ends count as blanks: none of these statements ends without a sign.

* `Sentence` is what is read.
* `Sentence.isOpen` says that an `else` after a statement would be taken by a branch inside it, and
  `Sentence.braced` puts such a statement in a block of its own wherever an `else` follows.
* `sentence` is the parser for a depth of nesting.
* `readStatement` reads a text, all of it or nothing.
-/

namespace Untangle.Reading

/-! ## Statements -/

/-- A declared name, with its initial value if it has one. -/
structure Declarator where
  name : String
  init : Option Term

/-- What stands first in the head of a loop. -/
inductive Head where
  | expression (t : Term)
  | declaration (kind : String) (declared : List Declarator)

/-- What an expression in parentheses guards: a loop, or the scope of a body. -/
inductive Guard where
  | loop
  | scope
  deriving DecidableEq, Repr

def Guard.keyword : Guard → String
  | .loop => "while"
  | .scope => "with"

/-- What a loop goes through: the keys of a value or its members. -/
inductive Each where
  | key
  | member
  deriving DecidableEq, Repr

def Each.keyword : Each → String
  | .key => "in"
  | .member => "of"

inductive Sentence where
  | empty
  | expression (t : Term)
  | block (body : List Sentence)
  | ifThen (test : Term) (consequent : Sentence)
  | ifElse (test : Term) (consequent alternate : Sentence)
  | guarded (kind : Guard) (guard : Term) (body : Sentence)
  | doWhile (body : Sentence) (test : Term)
  | forLoop (init : Option Head) (test update : Option Term) (body : Sentence)
  | forEach (each : Each) (left : Head) (right : Term) (body : Sentence)
  | labeled (label : String) (body : Sentence)

/-- What holds of a statement if it holds of its parts holds of every statement. -/
@[induction_eliminator]
theorem Sentence.induction {motive : Sentence → Prop} (empty : motive .empty)
    (expression : ∀ t, motive (.expression t))
    (block : ∀ body, (∀ s ∈ body, motive s) → motive (.block body))
    (ifThen : ∀ test consequent, motive consequent → motive (.ifThen test consequent))
    (ifElse : ∀ test consequent alternate, motive consequent → motive alternate →
      motive (.ifElse test consequent alternate))
    (guarded : ∀ kind guard body, motive body → motive (.guarded kind guard body))
    (doWhile : ∀ body test, motive body → motive (.doWhile body test))
    (forLoop : ∀ init test update body, motive body → motive (.forLoop init test update body))
    (forEach : ∀ each left right body, motive body → motive (.forEach each left right body))
    (labeled : ∀ label body, motive body → motive (.labeled label body)) (s : Sentence) :
    motive s := by
  refine @Sentence.rec motive (fun body => ∀ s ∈ body, motive s) empty expression block ifThen ifElse
    guarded doWhile forLoop forEach labeled (by simp) (fun first rest holds others => ?_) s
  intro s member
  rcases List.mem_cons.mp member with rfl | member
  · exact holds
  · exact others s member

/-- Whether an `else` after the statement would belong to a branch inside it. -/
def Sentence.isOpen : Sentence → Bool
  | .ifThen _ _ => true
  | .ifElse _ _ alternate => alternate.isOpen
  | .guarded _ _ body | .forLoop _ _ _ body | .forEach _ _ _ body | .labeled _ body => body.isOpen
  | .empty | .expression _ | .block _ | .doWhile _ _ => false

mutual

/-- The statement with a block around every consequent that would take the `else` after it. -/
def Sentence.braced : Sentence → Sentence
  | .empty => .empty
  | .expression t => .expression t
  | .block body => .block (bracedAll body)
  | .ifThen test consequent => .ifThen test consequent.braced
  | .ifElse test consequent alternate =>
    .ifElse test (if consequent.isOpen then .block [consequent.braced] else consequent.braced)
      alternate.braced
  | .guarded kind guard body => .guarded kind guard body.braced
  | .doWhile body test => .doWhile body.braced test
  | .forLoop init test update body => .forLoop init test update body.braced
  | .forEach each left right body => .forEach each left right body.braced
  | .labeled label body => .labeled label body.braced

def bracedAll : List Sentence → List Sentence
  | [] => []
  | s :: rest => s.braced :: bracedAll rest

end

/-- The blocks around consequents leave open what was open. -/
@[simp] theorem isOpen_braced (s : Sentence) : s.braced.isOpen = s.isOpen := by
  induction s with
  | ifElse _ _ _ _ ih | guarded _ _ _ ih | forLoop _ _ _ _ ih | forEach _ _ _ _ ih | labeled _ _ ih =>
    simpa only [Sentence.braced, Sentence.isOpen] using ih
  | empty | expression | block | ifThen | doWhile => rfl

/-! ## Heads of loops -/

/-- Whether the token opens something inside of which `in` is an operator: a bracket, or the middle of
a conditional. -/
def Token.nests : Token → Bool
  | .sign text => ["(", "[", "?"].contains text
  | _ => false

def Token.unnests : Token → Bool
  | .sign text => [")", "]", ":"].contains text
  | _ => false

/-- How deep what follows the token is nested. -/
def Token.nesting (depth : Nat) (token : Token) : Nat :=
  if token.nests then depth + 1 else if token.unnests then depth - 1 else depth

/-- The tokens before the first `in` that is not nested, and those from there on. The word after a dot
is the name of a property. -/
def beforeIn : Nat → List Token → List Token × List Token
  | _, [] => ([], [])
  | depth, .sign "." :: .word property :: rest =>
    let (before, after) := beforeIn depth rest
    (.sign "." :: .word property :: before, after)
  | depth, token :: rest =>
    if depth = 0 ∧ token = .word "in" then ([], token :: rest)
    else
      let (before, after) := beforeIn (token.nesting depth) rest
      (token :: before, after)

def withoutIn {α : Type} (parser : Parser α) : Parser α := fun tokens => do
  let (before, after) := beforeIn 0 tokens
  let (x, rest) ← parser before
  return (x, rest ++ after)

def declarationKinds : List String :=
  ["var", "let", "const"]

/-- The kind of a declaration, off the front of one. -/
def declarationKind? : Parser String
  | .word kind :: .word name :: rest =>
    if declarationKinds.contains kind && !reserved.contains name then some (kind, .word name :: rest)
    else none
  | _ => none

/-- Whether the tokens start like a declaration of what a bracketed pattern binds. -/
def opensPattern : List Token → Bool
  | .word "let" :: .sign "[" :: _ => true
  | _ => false

/-- Whether the tokens start in a way in which the target of a loop over members must not. -/
def clashesWithOf : List Token → Bool
  | .word "let" :: _ => true
  | .word "async" :: .word "of" :: _ => true
  | _ => false

/-- Whether a loop can set what stands first in its head to each key or member. A `var` of a loop over
keys may have an initial value. -/
def Head.isLeft (each : Each) : Head → Bool
  | .expression t => t.isTarget
  | .declaration kind [declarator] => declarator.init.isNone || (each == .key && kind == "var")
  | .declaration _ _ => false

def Head.isDeclaration : Head → Bool
  | .expression _ => false
  | .declaration _ _ => true

def word? (word : String) : List Token → Option (List Token)
  | [] => none
  | token :: rest => if token = .word word then some rest else none

section Levels

variable (r : Reader)

def declarator : Parser Declarator
  | .word name :: rest =>
    if reserved.contains name then none
    else
      match sign? "=" rest with
      | none => some (⟨name, none⟩, rest)
      | some rest => do
        let (value, rest) ← assignment r rest
        return (⟨name, some value⟩, rest)
  | _ => none

/-- One or more declarators with commas between them, as many as the number allows. -/
def declarators : Nat → Parser (List Declarator)
  | 0, _ => none
  | n + 1, tokens => do
    let (first, rest) ← declarator r tokens
    match sign? "," rest with
    | none => return ([first], rest)
    | some rest =>
      let (others, rest) ← declarators n rest
      return (first :: others, rest)

/-- What stands first in the head of a loop. -/
def loopHead : Parser Head := fun tokens =>
  match declarationKind? tokens with
  | some (kind, rest) => do
    let (declared, rest) ← declarators r (rest.length + 1) rest
    return (.declaration kind declared, rest)
  | none =>
    if opensPattern tokens then none
    else do
      let (t, rest) ← expression r tokens
      return (.expression t, rest)

/-- An expression in parentheses. -/
def guard : Parser Term := fun tokens => do
  let rest ← sign? "(" tokens
  let (t, rest) ← expression r rest
  let rest ← sign? ")" rest
  return (t, rest)

/-- An expression that may be missing, and the sign after it. -/
def optionalBefore (sign : String) : Parser (Option Term) := fun tokens =>
  match sign? sign tokens with
  | some rest => return (none, rest)
  | none => do
    let (t, rest) ← expression r tokens
    let rest ← sign? sign rest
    return (some t, rest)

/-! ## Levels of statements -/

variable (item : Parser Sentence)

/-- The statements of a block after the opening brace. -/
def sentences : Nat → Parser (List Sentence)
  | 0, _ => none
  | n + 1, tokens =>
    match sign? "\x7d" tokens with
    | some rest => return ([], rest)
    | none => do
      let (first, rest) ← item tokens
      let (others, rest) ← sentences n rest
      return (first :: others, rest)

/-- A branch after its keyword; an `else` after the consequent is its own. -/
def branch : Parser Sentence := fun tokens => do
  let (test, rest) ← guard r tokens
  let (consequent, rest) ← item rest
  match word? "else" rest with
  | none => return (.ifThen test consequent, rest)
  | some rest =>
    let (alternate, rest) ← item rest
    return (.ifElse test consequent alternate, rest)

/-- A body guarded by an expression, after the keyword. -/
def guarded (kind : Guard) : Parser Sentence := fun tokens => do
  let (t, rest) ← guard r tokens
  let (body, rest) ← item rest
  return (.guarded kind t body, rest)

/-- A loop with its test at the end, after the keyword. -/
def doWhile : Parser Sentence := fun tokens => do
  let (body, rest) ← item tokens
  let rest ← word? "while" rest
  let (test, rest) ← guard r rest
  let rest ← sign? ";" rest
  return (.doWhile body test, rest)

def forLoop (init : Option Head) : Parser Sentence := fun tokens => do
  let (test, rest) ← optionalBefore r ";" tokens
  let (update, rest) ← optionalBefore r ")" rest
  let (body, rest) ← item rest
  return (.forLoop init test update body, rest)

/-- A loop over keys or members after its keyword. -/
def forEach (each : Each) (left : Head) : Parser Sentence := fun tokens => do
  let (right, rest) ← match each with
    | .key => expression r tokens
    | .member => assignment r tokens
  let rest ← sign? ")" rest
  let (body, rest) ← item rest
  return (.forEach each left right body, rest)

/-- A loop with a head, after the keyword. -/
def headedLoop : Parser Sentence := fun tokens => do
  let tokens ← sign? "(" tokens
  match sign? ";" tokens with
  | some rest => forLoop r item none rest
  | none =>
    let (head, rest) ← withoutIn (loopHead r) tokens
    match rest with
    | .sign ";" :: rest => forLoop r item (some head) rest
    | .word "in" :: rest => if head.isLeft .key then forEach r item .key head rest else none
    | .word "of" :: rest =>
      if head.isLeft .member && (head.isDeclaration || !clashesWithOf tokens) then
        forEach r item .member head rest
      else none
    | _ => none

def label? : Parser String
  | .word text :: .sign ":" :: rest => if reserved.contains text then none else some (text, rest)
  | _ => none

/-- An expression as a statement, or a statement with a label. -/
def otherSentence : Parser Sentence := fun tokens =>
  match label? tokens with
  | some (label, rest) => do
    let (body, rest) ← item rest
    return (.labeled label body, rest)
  | none =>
    if opensPattern tokens then none
    else do
      let (t, rest) ← expression r tokens
      let rest ← sign? ";" rest
      return (.expression t, rest)

/-- A statement whose parts are statements of the level below. -/
def sentenceAbove : Parser Sentence
  | .sign ";" :: rest => some (.empty, rest)
  | .sign "\x7b" :: rest => do
    let (body, rest) ← sentences item (rest.length + 1) rest
    return (.block body, rest)
  | .word "if" :: rest => branch r item rest
  | .word "while" :: rest => guarded r item .loop rest
  | .word "with" :: rest => guarded r item .scope rest
  | .word "do" :: rest => doWhile r item rest
  | .word "for" :: rest => headedLoop r item rest
  | tokens => otherSentence r item tokens

end Levels

def sentence (r : Reader) : Nat → Parser Sentence
  | 0 => fun _ => none
  | depth + 1 => sentenceAbove r (sentence r depth)

def oneLine (chars : List Char) : List Char :=
  chars.map fun c => if c = '\n' then ' ' else c

/-- Reads all of a text as one statement. -/
def readStatement (A : Alphabet) (text : String) : Option Sentence := do
  let tokens ← lex A (oneLine text.toList)
  let (s, rest) ← sentence (Reader.ofDepth tokens.length) tokens.length tokens
  if rest.isEmpty then return s else none

end Untangle.Reading
