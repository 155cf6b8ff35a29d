import Untangle.Proofs.Reading.Parsing
import Untangle.Proofs.Reading.Sentences

/-!
# Heads of loops

What stands first in the head of a loop is written as one row, and the parser reads that row back
where `in` is no operator. Two things could go wrong: an expression could be taken for a declaration,
and an `in` in the row could be taken for the one of the head.

* `Term.onset` says how the tokens of an expression start.
* `Term.isSealed` says that every `in` of an expression in a loop head is nested.
* `Head.row` is the row of a head and `Head.operand` says that it can be read token by token.
* `withoutIn_loopHead` says that it is read back.
-/

namespace Untangle.Reading

open Print (Precedence)

/-! ## How expressions start -/

/-- The words other than names with which an expression may start. -/
def leadingWords : List String :=
  "new" :: wordyOperators

/-- If the first token is a word, it is one with which an expression may start, or a name after which an
expression goes on. -/
def Onset (tokens : List Token) : Prop :=
  ∀ word more, tokens = .word word :: more →
    word ∈ leadingWords ∨ word ∉ reserved ∧ ∀ next ∈ more.head?, next.bond?.isSome = true

section Onset

variable {A : Alphabet} {noIn : Bool} {t : Term}

theorem onset_sign (text : String) (more : List Token) : Onset (.sign text :: more) := by
  intro word rest same
  cases same

/-- How an expression starts does not change if an operator follows it. -/
theorem Onset.append {tokens : List Token} (onset : Onset tokens) (nonempty : tokens ≠ []) {next : Token}
    (bond : next.bond?.isSome = true) (more : List Token) : Onset (tokens ++ next :: more) := by
  intro word rest same
  cases tokens with
  | nil => exact absurd rfl nonempty
  | cons first tail =>
    rw [List.cons_append, List.cons.injEq] at same
    obtain ⟨rfl, rfl⟩ := same
    refine (onset word tail rfl).imp id fun ⟨notReserved, goesOn⟩ => ⟨notReserved, fun other isNext => ?_⟩
    cases tail with
    | nil =>
      obtain rfl : next = other := by simpa using isNext
      exact bond
    | cons second tail => exact goesOn other isNext

theorem Onset.tokensAt (onset : Onset (t.tokens noIn)) (p : Precedence) :
    Onset (t.tokensAt noIn p) := by
  obtain loose | ⟨-, same⟩ := tokensAt_eq noIn p t
  · rw [loose]
    exact onset_sign _ _
  · rw [same]
    exact onset

theorem tokensAt_ne_nil (formed : t.isFormed A = true) (p : Precedence) : t.tokensAt noIn p ≠ [] := by
  have starts : StartsOperand (t.tokensAt noIn p) := startsOperand_tokensAt formed p
  obtain ⟨token, more, same, -⟩ := starts
  simp [same]

/-- What follows an expression in a place. -/
theorem Onset.placed (onset : Onset (t.tokens noIn)) (formed : t.isFormed A = true) (p : Precedence)
    {next : Token} (bond : next.bond?.isSome = true) (more : List Token) :
    Onset (t.tokensAt noIn p ++ next :: more) :=
  (onset.tokensAt p).append (tokensAt_ne_nil formed p) bond more

theorem bond_binary {operator : String} (known : (Precedence.ofBinary? operator).isSome = true) :
    (operatorToken operator).bond?.isSome = true := by
  have listed : ∀ entry ∈ Precedence.binaryTable, (operatorToken entry.1).bond?.isSome = true := by
    decide
  obtain ⟨precedence, found⟩ := Option.isSome_iff_exists.mp known
  exact listed _ (Fields.mem_of_lookup found)

/-- Every expression starts in one of these ways: by induction, along its leftmost part. -/
theorem Term.onset (noIn : Bool) (t : Term) (formed : t.isFormed A = true) : Onset (t.tokens noIn) := by
  induction t with
  | name text =>
    simp only [Term.isFormed, Bool.and_eq_true, Bool.not_eq_true', List.contains_eq_mem,
      decide_eq_false_iff_not] at formed
    intro word more same
    obtain ⟨rfl, rfl⟩ : text = word ∧ more = [] := by
      simpa [Term.tokens, Term.row, eq_comm] using same
    exact Or.inr ⟨formed.2, by simp⟩
  | number value =>
    intro word more same
    simp [Term.tokens, Term.row] at same
  | hole => cases formed
  | unary operator e _ =>
    intro word more same
    rw [tokens_unary, List.cons.injEq, operatorToken] at same
    split at same
    case isTrue wordy =>
      obtain rfl : operator = word := Token.word.inj same.1
      exact Or.inl (List.mem_cons_of_mem _ (List.contains_iff_mem.mp wordy))
    case isFalse => cases same.1
  | update operator isPrefix e ih =>
    simp only [Term.isFormed, Bool.and_eq_true, List.contains_iff_mem] at formed
    cases isPrefix with
    | true =>
      rw [tokens_updateBefore]
      exact onset_sign _ _
    | false =>
      rw [tokens_updateAfter]
      exact (ih formed.2).placed formed.2 _ (by rw [(operator_update operator formed.1.1).2]; rfl) []
  | binary operator left right ihLeft _ =>
    simp only [Term.isFormed, Bool.and_eq_true] at formed
    rw [tokens_binary]
    exact (ihLeft formed.1.2).placed formed.1.2 _ (bond_binary formed.1.1) _
  | assign operator target value ihTarget _ =>
    simp only [Term.isFormed, Bool.and_eq_true, List.contains_iff_mem] at formed
    rw [tokens_assign]
    exact (ihTarget formed.1.2).placed formed.1.2 _
      (by rw [(operator_assign operator formed.1.1.1).2]; rfl) _
  | conditional test consequent alternate ihTest _ _ =>
    simp only [Term.isFormed, Bool.and_eq_true] at formed
    rw [tokens_conditional]
    exact (ihTest formed.1.1).placed formed.1.1 _ rfl _
  | sequence items ih =>
    simp only [Term.isFormed, Bool.and_eq_true, decide_eq_true_eq, areFormed_iff] at formed
    rw [tokens_sequence]
    obtain _ | ⟨first, _ | ⟨second, others⟩⟩ := items
    · simp at formed
    · simp at formed
    · have isFormed := formed.2 first (by simp)
      rw [List.map_cons, List.map_cons, listTokens]
      · exact (ih first (by simp) isFormed).placed isFormed _ rfl _
      · simp
  | call callee items ihCallee _ =>
    simp only [Term.isFormed, Bool.and_eq_true] at formed
    rw [tokens_call]
    exact (ihCallee formed.1).placed formed.1 _ rfl _
  | construct callee items _ _ =>
    intro word more same
    rw [tokens_construct, List.cons.injEq] at same
    obtain rfl : "new" = word := Token.word.inj same.1
    exact Or.inl (by decide)
  | dot object property ih =>
    simp only [Term.isFormed, Bool.and_eq_true] at formed
    rw [tokens_dot]
    unfold beforeDot
    split
    · rw [tokensOf_enclosed]
      exact onset_sign _ _
    · exact (ih formed.1).placed formed.1 Precedence.call rfl _
  | index object key ihObject _ =>
    simp only [Term.isFormed, Bool.and_eq_true] at formed
    rw [tokens_index]
    exact (ihObject formed.1).placed formed.1 _ rfl _
  | array items _ =>
    rw [tokens_array]
    exact onset_sign _ _

end Onset

/-! ## Where an `in` is nested -/

/-- Where at least so many brackets are open, the search for an `in` goes past the tokens and comes
out as deep as it went in. -/
def Sealed (least : Nat) (tokens : List Token) : Prop :=
  ∀ depth, least ≤ depth → ∀ rest,
    beforeIn depth (tokens ++ rest) = (tokens ++ (beforeIn depth rest).1, (beforeIn depth rest).2)

/-- Whether the token neither nests what follows nor could be mistaken for the `in` of a head. -/
def Token.isPlain (token : Token) : Bool :=
  !token.nests && !token.unnests && token ≠ .word "in" && token ≠ .sign "."

section Sealed

variable {A : Alphabet} {least : Nat} {tokens more : List Token} {t : Term}

theorem Sealed.mono {least' : Nat} (isSealed : Sealed least tokens) (le : least ≤ least') :
    Sealed least' tokens :=
  fun depth deep => isSealed depth (Nat.le_trans le deep)

theorem sealed_nil : Sealed 0 [] :=
  fun _ _ _ => rfl

/-- Sealed tokens stay sealed side by side. -/
theorem Sealed.append (first : Sealed least tokens) (second : Sealed least more) :
    Sealed least (tokens ++ more) := by
  intro depth deep rest
  rw [List.append_assoc, first depth deep, second depth deep, List.append_assoc]

/-- The search goes on after a token that ends nothing. -/
theorem beforeIn_cons {depth : Nat} {token : Token} {rest : List Token} (notDot : token ≠ .sign ".")
    (passes : ¬ (depth = 0 ∧ token = .word "in")) :
    beforeIn depth (token :: rest) =
      (token :: (beforeIn (token.nesting depth) rest).1, (beforeIn (token.nesting depth) rest).2) := by
  rw [beforeIn]
  · rw [if_neg passes]
  · intro property others isDot
    exact absurd isDot notDot

theorem sealed_plain {token : Token} (plain : token.isPlain = true) : Sealed 0 [token] := by
  simp only [Token.isPlain, Bool.and_eq_true, Bool.not_eq_true', decide_eq_true_eq] at plain
  obtain ⟨⟨⟨notOpen, notClosed⟩, notIn⟩, notDot⟩ := plain
  intro depth _ rest
  have same : token.nesting depth = depth := by simp [Token.nesting, notOpen, notClosed]
  rw [List.cons_append, List.nil_append, beforeIn_cons notDot (fun both => notIn both.2), same]
  rfl

/-- The word `in` by itself is exposed. -/
theorem sealed_in : Sealed 1 [.word "in"] := by
  intro depth deep rest
  rw [List.cons_append, List.nil_append, beforeIn_cons (by decide) (by omega)]
  rfl

/-- After a dot even `in` is a name. -/
theorem sealed_property (property : String) : Sealed 0 [.sign ".", .word property] := by
  intro depth _ rest
  rw [List.cons_append, List.cons_append, List.nil_append, beforeIn]
  rfl

/-- What stands between brackets is nested. -/
theorem Sealed.nested (isSealed : Sealed 1 tokens) {opener closer : String}
    (opens : (Token.sign opener).nests = true) (closes : (Token.sign closer).unnests = true) :
    Sealed 0 (.sign opener :: tokens ++ [.sign closer]) := by
  have openers : ∀ text ∈ ["(", "[", "?"], text ≠ "." := by decide
  have closers : ∀ text ∈ [")", "]", ":"], text ≠ "." ∧ (Token.sign text).nests = false := by decide
  obtain ⟨closerNotDot, notOpener⟩ := closers closer (List.contains_iff_mem.mp closes)
  have openerNotDot := openers opener (List.contains_iff_mem.mp opens)
  intro depth _ rest
  have inner : (Token.sign opener).nesting depth = depth + 1 := by simp [Token.nesting, opens]
  have outer : (Token.sign closer).nesting (depth + 1) = depth := by
    simp [Token.nesting, notOpener, closes]
  rw [List.append_assoc, List.cons_append, beforeIn_cons (by simpa using openerNotDot) (by simp), inner,
    isSealed (depth + 1) (by omega), List.cons_append, List.nil_append,
    beforeIn_cons (by simpa using closerNotDot) (by simp), outer]
  simp

/-- Commas between sealed tokens. -/
theorem sealed_listTokens {lists : List (List Token)} (each : ∀ tokens ∈ lists, Sealed 0 tokens) :
    Sealed 0 (listTokens lists) := by
  induction lists using listTokens.induct with
  | case1 => exact sealed_nil
  | case2 tokens => exact each tokens (by simp)
  | case3 tokens others several ih =>
    have later := ih fun other member => each other (by simp [member])
    have comma : Sealed 0 [.sign ","] := sealed_plain (by decide)
    rw [listTokens]
    · exact (each tokens (by simp)).append (comma.append later)
    · exact several

/-- How deep an expression must be nested for the search to go past it. -/
def Term.exposure (t : Term) : Nat :=
  if t.isInOperation then 1 else 0

/-- An expression in its place: a bare `in` is put in parentheses there. -/
theorem Sealed.placed (isSealed : Sealed t.exposure (t.tokens true)) (p : Precedence) :
    Sealed 0 (t.tokensAt true p) := by
  unfold Term.tokensAt Reading.placed
  split
  · rw [tokensOf_enclosed]
    exact (isSealed.mono (by unfold Term.exposure; split <;> omega)).nested rfl rfl
  · rename_i stands
    simp only [Bool.or_eq_true, Bool.true_and, not_or, Bool.not_eq_true] at stands
    rwa [Term.exposure, stands.2] at isSealed

/-- An expression after `new`. -/
theorem Sealed.callee (isSealed : Sealed t.exposure (t.tokens true)) :
    Sealed 0 (t.calleeTokens true) := by
  have inner : Sealed 0 (t.tokensAt true Precedence.construction) := isSealed.placed _
  unfold Term.calleeTokens calleeRow
  dsimp only
  split
  · rw [tokensOf_enclosed]
    exact (inner.mono (Nat.zero_le 1)).nested rfl rfl
  · exact inner

/-- No operator other than `in` is exposed. -/
theorem plain_operators : (∀ operator ∈ unaryOperators, (operatorToken operator).isPlain = true) ∧
    (∀ operator ∈ updateOperators, (Token.sign operator).isPlain = true) ∧
    (∀ operator ∈ assignOperators, (Token.sign operator).isPlain = true) ∧
    ∀ entry ∈ Precedence.binaryTable, entry.1 ≠ "in" → (operatorToken entry.1).isPlain = true := by
  decide

/-- The only operator with an exposed `in` is `in`. -/
theorem sealed_binary {operator : String} {left right : Term}
    (known : (Precedence.ofBinary? operator).isSome = true) :
    Sealed (Term.binary operator left right).exposure [operatorToken operator] := by
  unfold Term.exposure
  by_cases isIn : operator = "in"
  · subst isIn
    exact sealed_in
  · obtain ⟨precedence, found⟩ := Option.isSome_iff_exists.mp known
    have plain := plain_operators.2.2.2 _ (Fields.mem_of_lookup found) isIn
    simpa [Term.isInOperation, isIn] using sealed_plain plain

/-- The elements of an array are sealed one by one, holes included. -/
theorem sealed_elements {items : List Term}
    (each : ∀ t ∈ items, Sealed 0 (t.tokensAt true Precedence.assignment)) :
    Sealed 0 (listTokens (elementTokens (Term.tokensAt true Precedence.assignment) items)) := by
  refine sealed_listTokens fun tokens member => ?_
  unfold elementTokens at member
  have listed : ∀ tokens ∈ items.map (Term.tokensAt true Precedence.assignment), Sealed 0 tokens := by
    intro tokens member
    obtain ⟨t, isItem, rfl⟩ := List.mem_map.mp member
    exact each t isItem
  split at member
  · rcases List.mem_append.mp member with isRow | isEmpty
    · exact listed tokens isRow
    · rw [List.mem_singleton.mp isEmpty]
      exact sealed_nil
  · exact listed tokens member

/-- Parentheses seal what they enclose. -/
theorem sealed_arguments {items : List Term}
    (each : ∀ e ∈ items, Sealed e.exposure (e.tokens true)) :
    Sealed 0 (.sign "(" ::
      (listTokens (items.map (Term.tokensAt true Precedence.assignment)) ++ [.sign ")"])) := by
  have inner : Sealed 0 (listTokens (items.map (Term.tokensAt true Precedence.assignment))) := by
    refine sealed_listTokens fun tokens member => ?_
    obtain ⟨e, isItem, rfl⟩ := List.mem_map.mp member
    exact (each e isItem).placed _
  exact (inner.mono (Nat.zero_le 1)).nested rfl rfl

/-- Every `in` of an expression in a loop head is nested, but for one that the expression is itself. -/
theorem Term.isSealed (t : Term) (formed : t.isFormed A = true) : Sealed t.exposure (t.tokens true) := by
  induction t with
  | name text =>
    simp only [Term.isFormed, Bool.and_eq_true, Bool.not_eq_true', List.contains_eq_mem,
      decide_eq_false_iff_not] at formed
    have notIn : text ≠ "in" := by
      rintro rfl
      exact formed.2 (by decide)
    exact sealed_plain (by simp [Token.isPlain, Token.nests, Token.unnests, notIn])
  | number value => exact sealed_plain (by simp [Token.isPlain, Token.nests, Token.unnests])
  | hole => cases formed
  | unary operator e ih =>
    simp only [Term.isFormed, Bool.and_eq_true, List.contains_iff_mem] at formed
    rw [tokens_unary]
    exact (sealed_plain (plain_operators.1 operator formed.1)).append ((ih formed.2).placed _)
  | update operator isPrefix e ih =>
    simp only [Term.isFormed, Bool.and_eq_true, List.contains_iff_mem] at formed
    have plain := sealed_plain (plain_operators.2.1 operator formed.1.1)
    cases isPrefix with
    | true =>
      rw [tokens_updateBefore]
      exact plain.append ((ih formed.2).placed _)
    | false =>
      rw [tokens_updateAfter]
      exact ((ih formed.2).placed _).append plain
  | binary operator left right ihLeft ihRight =>
    simp only [Term.isFormed, Bool.and_eq_true] at formed
    rw [tokens_binary]
    refine (((ihLeft formed.1.2).placed _).mono (Nat.zero_le _)).append ?_
    exact (sealed_binary formed.1.1).append (((ihRight formed.2).placed _).mono (Nat.zero_le _))
  | assign operator target value ihTarget ihValue =>
    simp only [Term.isFormed, Bool.and_eq_true, List.contains_iff_mem] at formed
    have plain := sealed_plain (plain_operators.2.2.1 operator formed.1.1.1)
    rw [tokens_assign]
    exact ((ihTarget formed.1.2).placed _).append (plain.append ((ihValue formed.2).placed _))
  | conditional test consequent alternate ihTest ihYes ihNo =>
    simp only [Term.isFormed, Bool.and_eq_true] at formed
    have middle : Sealed 0 (.sign "?" :: consequent.tokensAt true Precedence.assignment ++ [.sign ":"]) :=
      (((ihYes formed.1.2).placed _).mono (Nat.zero_le 1)).nested rfl rfl
    have whole := ((ihTest formed.1.1).placed Precedence.logicalOr).append
      (middle.append ((ihNo formed.2).placed Precedence.assignment))
    rw [tokens_conditional]
    show Sealed 0 _
    simpa using whole
  | sequence items ih =>
    simp only [Term.isFormed, Bool.and_eq_true, areFormed_iff] at formed
    rw [tokens_sequence]
    refine sealed_listTokens fun tokens member => ?_
    obtain ⟨e, isItem, rfl⟩ := List.mem_map.mp member
    exact (ih e isItem (formed.2 e isItem)).placed _
  | call callee items ihCallee ih =>
    simp only [Term.isFormed, Bool.and_eq_true, areFormed_iff] at formed
    rw [tokens_call]
    exact ((ihCallee formed.1).placed _).append
      (sealed_arguments fun e isItem => ih e isItem (formed.2 e isItem))
  | construct callee items ihCallee ih =>
    simp only [Term.isFormed, Bool.and_eq_true, areFormed_iff] at formed
    have new : Sealed 0 [.word "new"] := sealed_plain (by decide)
    rw [tokens_construct]
    exact new.append ((ihCallee formed.1).callee.append
      (sealed_arguments fun e isItem => ih e isItem (formed.2 e isItem)))
  | dot object property ih =>
    simp only [Term.isFormed, Bool.and_eq_true] at formed
    rw [tokens_dot]
    refine Sealed.append ?_ (sealed_property property)
    unfold beforeDot
    split
    · rw [tokensOf_enclosed]
      exact ((ih formed.1).mono (by unfold Term.exposure; split <;> omega)).nested rfl rfl
    · exact (ih formed.1).placed Precedence.call
  | index object key ihObject ihKey =>
    simp only [Term.isFormed, Bool.and_eq_true] at formed
    rw [tokens_index]
    refine ((ihObject formed.1).placed _).append ?_
    exact (((ihKey formed.2).placed Precedence.sequence).mono (Nat.zero_le 1)).nested rfl rfl
  | array items ih =>
    simp only [Term.isFormed, areElements_iff] at formed
    have each : ∀ e ∈ items, Sealed 0 (e.tokensAt true Precedence.assignment) := by
      intro e isItem
      obtain rfl | isFormed := formed e isItem
      · rw [tokensAt_hole _ (by decide)]
        exact sealed_nil
      · exact (ih e isItem isFormed).placed _
    rw [tokens_array, map_elementRows]
    exact ((sealed_elements each).mono (Nat.zero_le 1)).nested rfl rfl

/-! ## Reading without `in` -/

/-- The tokens up to a bare `in`, and those from there on, are all of them. -/
theorem beforeIn_append (depth : Nat) (tokens : List Token) :
    (beforeIn depth tokens).1 ++ (beforeIn depth tokens).2 = tokens := by
  fun_induction beforeIn depth tokens <;> simp_all

/-- Tokens without an exposed `in` are read as they are everywhere, up to the next `in`. -/
theorem withoutIn_reads {α : Type} {parser : Parser α} {x : α} (isSealed : Sealed 0 tokens)
    {rest : List Token}
    (reads : parser (tokens ++ (beforeIn 0 rest).1) = some (x, (beforeIn 0 rest).1)) :
    withoutIn parser (tokens ++ rest) = some (x, rest) := by
  simp [withoutIn, isSealed 0 (Nat.le_refl 0), reads, beforeIn_append]

end Sealed

/-! ## Rows of heads -/

/-- The row of a declarator in the head of a loop. -/
def Declarator.row (d : Declarator) : List Glyph :=
  match d.init with
  | none => [.token (.word d.name)]
  | some value => [.token (.word d.name)] ++ spaced (.sign "=") ++
      placed true Precedence.assignment value (value.row true)

/-- The row that the first part of a loop head is written as. -/
def Head.row : Head → List Glyph
  | .expression t => placed true Precedence.sequence t (t.row true)
  | .declaration kind declared =>
    .token (.word kind) :: [.blank] ++ separated (declared.map Declarator.row)

def Head.tokens (head : Head) : List Token :=
  tokensOf head.row

def Declarator.isLegal (A : Alphabet) (d : Declarator) : Bool :=
  isWord A d.name && !reserved.contains d.name && d.init.all (Term.isLegal A)

/-- Whether the head is one that the language has. An expression in it does not start like a
declaration with a pattern. -/
def Head.isLegal (A : Alphabet) : Head → Bool
  | .expression t => t.isLegal A && !opensPattern (Head.expression t).tokens
  | .declaration kind declared =>
    declarationKinds.contains kind && !declared.isEmpty && declared.all (Declarator.isLegal A)

section Heads

variable {A : Alphabet} {d : Declarator} {head : Head}

/-- A declarator is a name, or an assignment to one. -/
theorem declarator_operand (legal : d.isLegal A = true) : Operand A d.row := by
  obtain ⟨name, init⟩ := d
  simp only [Declarator.isLegal, Bool.and_eq_true] at legal
  have isName : Operand A [.token (.word name)] := Operand.single legal.1.1 rfl rfl
  cases init with
  | none => exact isName
  | some value =>
    have operand := value.operand true (Term.isFormed_of_isLegal legal.2)
    exact isName.spaced rfl (operand.placed true _ value)

/-- The row of a legal head is the row of an operand, token by token. -/
theorem Head.operand (legal : head.isLegal A = true) : Operand A head.row := by
  cases head with
  | expression t =>
    simp only [Head.isLegal, Bool.and_eq_true] at legal
    exact (t.operand true (Term.isFormed_of_isLegal legal.1)).placed true _ t
  | declaration kind declared =>
    simp only [Head.isLegal, Bool.and_eq_true, List.contains_iff_mem, Bool.not_eq_true',
      List.isEmpty_eq_false_iff, List.all_eq_true] at legal
    have letters : ∀ kind ∈ declarationKinds,
        kind.toList ≠ [] ∧ kind.toList.all Char.isAlpha = true := by
      decide
    obtain ⟨nonempty, all⟩ := letters kind legal.1.1
    have names : Operand A (separated (declared.map Declarator.row)) := by
      refine separated_operand (by simpa using legal.1.2) fun row member => ?_
      obtain ⟨d, isDeclared, rfl⟩ := List.mem_map.mp member
      exact declarator_operand (legal.2 d isDeclared)
    refine Operand.before rfl names (Legible.cons (isWord_of_letters nonempty all) names.blank ?_)
    intro next isNext
    obtain rfl : next = .blank := by simpa [eq_comm] using isNext
    exact clear_blank _

theorem tokens_declaration (kind : String) (declared : List Declarator) :
    (Head.declaration kind declared).tokens =
      .word kind :: listTokens (declared.map fun d => tokensOf d.row) := by
  simp [Head.tokens, Head.row, tokensOf_separated, Function.comp_def]

theorem tokens_declarator (name : String) (value : Term) :
    tokensOf (Declarator.row ⟨name, some value⟩) =
      .word name :: .sign "=" :: value.tokensAt true Precedence.assignment := by
  simp [Declarator.row, tokensOf_spaced, Term.tokensAt]

theorem sealed_name {name : String} (notReserved : name ∉ reserved) : Sealed 0 [.word name] := by
  have notIn : name ≠ "in" := by
    rintro rfl
    exact notReserved (by decide)
  exact sealed_plain (by simp [Token.isPlain, Token.nests, Token.unnests, notIn])

/-- An initializer is written without a bare `in`. -/
theorem declarator_sealed (legal : d.isLegal A = true) : Sealed 0 (tokensOf d.row) := by
  obtain ⟨name, init⟩ := d
  simp only [Declarator.isLegal, Bool.and_eq_true, Bool.not_eq_true', List.contains_eq_mem,
    decide_eq_false_iff_not] at legal
  have isName := sealed_name legal.1.2
  cases init with
  | none => exact isName
  | some value =>
    have equals : Sealed 0 [.sign "="] := sealed_plain (by decide)
    rw [tokens_declarator]
    exact isName.append (equals.append ((value.isSealed (Term.isFormed_of_isLegal legal.2)).placed _))

/-- The head of a loop has no bare `in`, as a declaration or as an expression. -/
theorem Head.isSealed (legal : head.isLegal A = true) : Sealed 0 head.tokens := by
  cases head with
  | expression t =>
    simp only [Head.isLegal, Bool.and_eq_true] at legal
    exact (t.isSealed (Term.isFormed_of_isLegal legal.1)).placed _
  | declaration kind declared =>
    simp only [Head.isLegal, Bool.and_eq_true, List.contains_iff_mem, List.all_eq_true] at legal
    have plain : ∀ kind ∈ declarationKinds, (Token.word kind).isPlain = true := by decide
    rw [tokens_declaration]
    refine (sealed_plain (plain kind legal.1.1)).append (sealed_listTokens fun tokens member => ?_)
    obtain ⟨d, isDeclared, rfl⟩ := List.mem_map.mp member
    exact declarator_sealed (legal.2 d isDeclared)

/-! ## Reading heads -/

variable {depth : Nat} {rest : List Token}

/-- A name and, after the sign, an expression that is read without `in`. -/
theorem declarator_reads (legal : d.isLegal A = true) (enough : (tokensOf d.row).length ≤ depth)
    (stops : Stops 1 rest) :
    declarator (Reader.ofDepth depth) (tokensOf d.row ++ rest) = some (d, rest) := by
  obtain ⟨name, init⟩ := d
  simp only [Declarator.isLegal, Bool.and_eq_true, Bool.not_eq_true'] at legal
  cases init with
  | none =>
    have ends : sign? "=" rest = none := sign?_none stops (Nat.le_refl 1) rfl (by decide)
    show declarator _ (.word name :: rest) = _
    simp only [declarator, legal.1.2, ends, Bool.false_eq_true, if_false]
  | some value =>
    rw [tokens_declarator, List.length_cons, List.length_cons] at enough
    have reads : assignment (Reader.ofDepth depth)
        (value.tokensAt true Precedence.assignment ++ rest) = some (value, rest) :=
      Term.reads true Precedence.assignment legal.2 (by decide) (by decide) (by omega) stops
    rw [tokens_declarator]
    show declarator _ (.word name :: .sign "=" :: (value.tokensAt true Precedence.assignment ++ rest)) = _
    simp only [declarator, legal.1.2, sign?_sign, Bool.false_eq_true, if_false]
    rw [reads]
    rfl

/-- Declarators are read one by one: after each stands a comma, or the list is over. -/
theorem declarators_read {declared : List Declarator} (some : declared ≠ [])
    (legal : ∀ d ∈ declared, d.isLegal A = true)
    (enough : ∀ d ∈ declared, (tokensOf d.row).length ≤ depth) (stops : Stops 0 rest) {n : Nat}
    (few : declared.length ≤ n) :
    declarators (Reader.ofDepth depth) n (listTokens (declared.map fun d => tokensOf d.row) ++ rest) =
      .some (declared, rest) := by
  induction declared generalizing n with
  | nil => exact absurd rfl some
  | cons first others ih =>
    obtain ⟨n, rfl⟩ : ∃ m, n = m + 1 := ⟨n - 1, by simp at few; omega⟩
    have reads : ∀ more, Stops 1 more → declarator (Reader.ofDepth depth) (tokensOf first.row ++ more) =
        .some (first, more) :=
      fun more => declarator_reads (legal first (by simp)) (enough first (by simp))
    cases others with
    | nil =>
      have ends : sign? "," rest = none := sign?_none stops (Nat.le_refl 0) rfl (by decide)
      simp [listTokens, declarators, reads rest (stops.mono (by decide)), ends]
    | cons second others =>
      have later := ih (by simp) (fun d member => legal d (by simp [member]))
        (fun d member => enough d (by simp [member])) (n := n) (by simpa using few)
      rw [List.map_cons] at later
      simp only [List.map_cons, listTokens, declarators, List.append_assoc, List.cons_append]
      rw [reads _ (stops_of_bond (b := 0) rfl (by decide))]
      simp [later]

/-- An expression is not taken for a declaration, unless it starts with `let` and a name follows. -/
theorem declarationKind?_expression {t : Term} (formed : t.isFormed A = true) {p : Precedence}
    (follow : ∀ word more, rest = .word word :: more →
      word ∈ reserved ∨ (t.tokensAt true p).head? ≠ some (.word "let")) :
    declarationKind? (t.tokensAt true p ++ rest) = none := by
  have nonempty : t.tokensAt true p ≠ [] := tokensAt_ne_nil formed p
  have onset := (t.onset true formed).tokensAt p
  generalize t.tokensAt true p = tokens at nonempty onset follow
  unfold declarationKind?
  split
  case h_2 => rfl
  case h_1 kind name others same =>
    refine if_neg fun taken => ?_
    simp only [Bool.and_eq_true, Bool.not_eq_true', List.contains_eq_mem, decide_eq_true_eq,
      decide_eq_false_iff_not] at taken
    obtain ⟨isKind, notReserved⟩ := taken
    have kinds : ∀ kind ∈ declarationKinds, kind ∉ leadingWords ∧ (kind ∉ reserved → kind = "let") := by
      decide
    cases tokens with
    | nil => exact nonempty rfl
    | cons first tail =>
      rw [List.cons_append, List.cons.injEq] at same
      obtain ⟨rfl, same⟩ := same
      obtain ⟨isName, goesOn⟩ := (onset kind tail rfl).resolve_left (kinds kind isKind).1
      cases tail with
      | nil =>
        obtain isReserved | notLet := follow name others same
        · exact notReserved isReserved
        · exact notLet (by rw [(kinds kind isKind).2 isName]; rfl)
      | cons second tail =>
        rw [List.cons_append, List.cons.injEq] at same
        obtain ⟨rfl, -⟩ := same
        -- Only the operators that are words go on after a name, and those are reserved.
        have bond := goesOn (.word name) rfl
        have words : ∀ word ∈ wordyOperators, word ∈ reserved := by decide
        by_cases wordy : name ∈ wordyOperators
        · exact notReserved (words name wordy)
        · simp [Token.bond?, Token.operator?, wordy] at bond

/-- Whether a head opens a pattern is seen on its first two tokens. -/
theorem opensPattern_append {tokens : List Token} (nonempty : tokens ≠ [])
    (plain : opensPattern tokens = false) (notBracket : rest.head? ≠ some (.sign "[")) :
    opensPattern (tokens ++ rest) = false := by
  match tokens, nonempty with
  | [first], _ =>
    unfold opensPattern
    split
    case h_1 others same =>
      rw [List.cons_append, List.cons.injEq] at same
      exact absurd (congrArg List.head? same.2) notBracket
    case h_2 => rfl
  | first :: second :: others, _ =>
    unfold opensPattern at plain ⊢
    split at plain
    · cases plain
    · rename_i other
      split
      case h_1 more same =>
        simp only [List.cons_append, List.cons.injEq] at same
        obtain ⟨rfl, rfl, -⟩ := same
        exact absurd rfl (other others)
      case h_2 => rfl

/-- What is declared starts with a name. -/
theorem tokens_declared {declared : List Declarator} (some : declared ≠ [])
    (legal : ∀ d ∈ declared, d.isLegal A = true) : ∃ name more,
      listTokens (declared.map fun d => tokensOf d.row) = .word name :: more ∧ name ∉ reserved := by
  match declared, some with
  | ⟨name, init⟩ :: others, _ =>
    have isLegal := legal ⟨name, init⟩ (by simp)
    simp only [Declarator.isLegal, Bool.and_eq_true, Bool.not_eq_true', List.contains_eq_mem,
      decide_eq_false_iff_not] at isLegal
    obtain ⟨own, isOwn⟩ : ∃ own, tokensOf (Declarator.row ⟨name, init⟩) = .word name :: own := by
      cases init with
      | none => exact ⟨[], rfl⟩
      | some value => exact ⟨_, tokens_declarator name value⟩
    cases others with
    | nil => exact ⟨name, own, isOwn, isLegal.1.2⟩
    | cons second others =>
      refine ⟨name, own ++ .sign "," :: listTokens ((second :: others).map fun d => tokensOf d.row), ?_,
        isLegal.1.2⟩
      rw [List.map_cons, List.map_cons, listTokens, isOwn]
      · rfl
      · simp

/-- A head is read back, unless `let` stands at its front where a declaration would be read. -/
theorem loopHead_reads (legal : head.isLegal A = true) (enough : head.tokens.length ≤ depth)
    (stops : Stops 0 rest) (follow : ∀ word more, rest = .word word :: more →
      word ∈ reserved ∨ head.tokens.head? ≠ some (.word "let") ∨ head.isDeclaration = true) :
    loopHead (Reader.ofDepth depth) (head.tokens ++ rest) = some (head, rest) := by
  cases head with
  | expression t =>
    simp only [Head.isLegal, Bool.and_eq_true, Bool.not_eq_true'] at legal
    have formed := Term.isFormed_of_isLegal legal.1
    have notDeclaration : declarationKind? ((Head.expression t).tokens ++ rest) = none := by
      refine declarationKind?_expression formed fun word more same => ?_
      exact (follow word more same).imp id fun other => other.resolve_right (by simp [Head.isDeclaration])
    have noPattern : opensPattern ((Head.expression t).tokens ++ rest) = false := by
      refine opensPattern_append (tokensAt_ne_nil formed _) legal.2 fun isBracket => ?_
      have below := stops _ isBracket 16 rfl
      omega
    have reads : expression (Reader.ofDepth depth) ((Head.expression t).tokens ++ rest) =
        some (t, rest) :=
      Term.reads true Precedence.sequence legal.1 (by decide) (by decide) enough stops
    simp [loopHead, notDeclaration, noPattern, reads]
  | declaration kind declared =>
    simp only [Head.isLegal, Bool.and_eq_true, Bool.not_eq_true', List.isEmpty_eq_false_iff,
      List.all_eq_true] at legal
    rw [tokens_declaration, List.length_cons] at enough
    have short : ∀ d ∈ declared, (tokensOf d.row).length ≤ depth := by
      intro d member
      have shorter := length_le_listTokens
        (List.mem_map_of_mem (f := fun d : Declarator => tokensOf d.row) member)
      omega
    have counted := length_listTokens (declared.map fun d => tokensOf d.row)
    rw [List.length_map] at counted
    have reads := declarators_read (n := (listTokens (declared.map fun d => tokensOf d.row) ++
      rest).length + 1) legal.1.2 legal.2 short stops (by rw [List.length_append]; omega)
    -- The first name after the kind makes it a declaration.
    obtain ⟨name, more, same, isName⟩ := tokens_declared legal.1.2 legal.2
    have isKind : declarationKind? ((Head.declaration kind declared).tokens ++ rest) =
        some (kind, listTokens (declared.map fun d => tokensOf d.row) ++ rest) := by
      rw [tokens_declaration, same]
      simp [declarationKind?, List.contains_iff_mem.mp legal.1.1, isName]
    simp only [loopHead, isKind]
    rw [reads]
    rfl

/-- A head is read where `in` is no operator, up to what follows it. -/
theorem withoutIn_loopHead (legal : head.isLegal A = true) (enough : head.tokens.length ≤ depth)
    {more after : List Token} (split : beforeIn 0 rest = (more, after)) (stops : Stops 0 more)
    (follow : ∀ word others, more = .word word :: others →
      word ∈ reserved ∨ head.tokens.head? ≠ some (.word "let") ∨ head.isDeclaration = true) :
    withoutIn (loopHead (Reader.ofDepth depth)) (head.tokens ++ rest) = some (head, rest) := by
  refine withoutIn_reads (Head.isSealed legal) ?_
  rw [split]
  exact loopHead_reads legal enough stops follow

end Heads

end Untangle.Reading
