import Untangle.Proofs.Reading.LoopHeads

/-!
# Reading statements back

The parser reads the tokens of a statement as that statement, whatever follows it. The exception is an
`else` after a statement that is open, which would become part of it. So a branch with an `else` is
read back only if its consequent is not open.

* `Reads` says that tokens are read as a statement.
* There is one lemma for each kind of statement; `reads_ifElse` is the one that asks for a consequent
  that is not open.
-/

namespace Untangle.Reading

open Print (Precedence)

/-- The parser reads the tokens as the statement, unless an `else` follows that the statement would
take. A block goes on with them and a branch before them takes no `else` from them. -/
structure Reads (s : Sentence) (tokens : List Token) : Prop where
  parses : ∀ depth fuel, tokens.length ≤ depth → tokens.length ≤ fuel → ∀ rest,
    (s.isOpen = true → word? "else" rest = none) →
    sentence (Reader.ofDepth depth) fuel (tokens ++ rest) = some (s, rest)
  starts : ∃ first more, tokens = first :: more ∧ first ≠ .sign "\x7d" ∧ first ≠ .word "else"

section Statements

variable {A : Alphabet} {t : Term} {s : Sentence} {tokens rest : List Token} {depth : Nat}

@[simp] theorem word?_word (word : String) (rest : List Token) :
    word? word (.word word :: rest) = some rest := by
  simp [word?]

theorem word?_cons {word : String} {token : Token} (other : token ≠ .word word) (rest : List Token) :
    word? word (token :: rest) = none := by
  simp [word?, other]

/-- A statement that is read by one more level than its parts. -/
theorem reads_of_above {first : Token} {more : List Token}
    (starts : first ≠ .sign "\x7d" ∧ first ≠ .word "else")
    (parses : ∀ depth fuel, more.length < depth → more.length ≤ fuel → ∀ rest,
      (s.isOpen = true → word? "else" rest = none) →
      sentenceAbove (Reader.ofDepth depth) (sentence (Reader.ofDepth depth) fuel)
        (first :: (more ++ rest)) = some (s, rest)) : Reads s (first :: more) where
  parses depth fuel deep enough rest follows := by
    rw [List.length_cons] at enough deep
    obtain ⟨fuel, rfl⟩ : ∃ n, fuel = n + 1 := ⟨fuel - 1, by omega⟩
    exact parses depth fuel deep (by omega) rest follows
  starts := ⟨first, more, rfl, starts⟩

/-- An expression in parentheses after a keyword. -/
theorem guard_reads (legal : t.isLegal A = true)
    (enough : (t.tokensAt false Precedence.sequence).length ≤ depth) :
    guard (Reader.ofDepth depth)
      (.sign "(" :: (t.tokensAt false Precedence.sequence ++ .sign ")" :: rest)) = some (t, rest) := by
  have reads : expression (Reader.ofDepth depth)
      (t.tokensAt false Precedence.sequence ++ .sign ")" :: rest) = some (t, .sign ")" :: rest) :=
    Term.reads false Precedence.sequence legal (by decide) (by decide) enough (stops_of_none rfl)
  simp [guard, reads]

/-! ## Statements without statements in them -/

theorem reads_empty : Reads .empty [.sign ";"] :=
  reads_of_above (by decide) fun _ _ _ _ _ _ => rfl

/-- The tokens with which statements other than expressions and labelled ones start. -/
def statementStarts : List Token :=
  [.sign ";", .sign "\x7b", .word "if", .word "while", .word "with", .word "do", .word "for"]

/-- A statement that starts with none of the keywords is a label or an expression. -/
theorem sentenceAbove_other {r : Reader} {item : Parser Sentence} {first : Token} {more : List Token}
    (other : first ∉ statementStarts) :
    sentenceAbove r item (first :: more) = otherSentence r item (first :: more) := by
  unfold sentenceAbove
  split
  case h_8 => rfl
  all_goals
    rename_i same
    rw [List.cons.injEq] at same
    rw [same.1] at other
    exact absurd (by decide) other

/-- An operand does not start like a statement of another kind. -/
theorem starts_of_onset {first : Token} {more : List Token} (onset : Onset (first :: more))
    (opens : first.opens = true) :
    first ∉ statementStarts ∧ first ≠ .sign "\x7d" ∧ first ≠ .word "else" := by
  have signs : ∀ start ∈ statementStarts ++ [.sign "\x7d", .word "else"],
      (∃ word, start = .word word ∧ word ∈ reserved ∧ word ∉ leadingWords) ∨
        start.opens = false := by
    intro start listed
    simp only [statementStarts, List.cons_append, List.nil_append, List.mem_cons, List.not_mem_nil,
      or_false] at listed
    obtain rfl | rfl | rfl | rfl | rfl | rfl | rfl | rfl | rfl := listed
    all_goals first
      | exact Or.inr rfl
      | exact Or.inl ⟨_, rfl, by decide, by decide⟩
  have none : first ∉ statementStarts ++ [.sign "\x7d", .word "else"] := by
    intro listed
    obtain ⟨word, rfl, isReserved, notOperator⟩ | notOpener := signs first listed
    · obtain isOperator | ⟨notReserved, -⟩ := onset word more rfl
      · exact notOperator isOperator
      · exact notReserved isReserved
    · rw [notOpener] at opens
      cases opens
  simpa [not_or] using none

/-- An expression is not taken for a label. -/
theorem label?_none {more : List Token} (onset : Onset tokens) (nonempty : tokens ≠ [])
    (notColon : more.head? ≠ some (.sign ":")) : label? (tokens ++ more) = none := by
  unfold label?
  split
  case h_2 => rfl
  case h_1 text others same =>
    cases tokens with
    | nil => exact absurd rfl nonempty
    | cons first tail =>
      rw [List.cons_append, List.cons.injEq] at same
      obtain ⟨rfl, same⟩ := same
      obtain isOperator | ⟨-, goesOn⟩ := onset text tail rfl
      · have words : ∀ word ∈ leadingWords, reserved.contains word = true := by decide
        rw [if_pos (words text isOperator)]
      · cases tail with
        | nil => exact absurd (congrArg List.head? same) notColon
        | cons second tail =>
          rw [List.cons_append, List.cons.injEq] at same
          obtain ⟨rfl, -⟩ := same
          exact absurd (goesOn (.sign ":") rfl) (by decide)

/-- An expression as a statement, if its tokens do not start like something else. -/
theorem reads_expression (onset : Onset tokens) (starts : StartsOperand tokens)
    (noPattern : opensPattern tokens = false)
    (parses : ∀ depth, tokens.length ≤ depth → ∀ rest, Stops 0 rest →
      expression (Reader.ofDepth depth) (tokens ++ rest) = some (t, rest)) :
    Reads (.expression t) (tokens ++ [.sign ";"]) := by
  obtain ⟨first, more, rfl, opens⟩ := starts
  obtain ⟨notStart, apart⟩ := starts_of_onset onset opens
  rw [List.cons_append]
  refine reads_of_above apart fun depth fuel deep _ rest _ => ?_
  rw [List.length_append] at deep
  rw [sentenceAbove_other notStart, List.append_assoc, ← List.cons_append]
  have noLabel : label? (first :: more ++ ([.sign ";"] ++ rest)) = none :=
    label?_none onset (by simp) (by simp)
  have plain : opensPattern (first :: more ++ ([.sign ";"] ++ rest)) = false :=
    opensPattern_append (by simp) noPattern (by simp)
  have reads := parses depth (by rw [List.length_cons]; omega) ([.sign ";"] ++ rest)
    (stops_of_none rfl)
  simp only [otherSentence, noLabel, plain, Bool.false_eq_true, if_false]
  rw [reads]
  simp

/-! ## Statements with statements in them -/

/-- The statements of a block are read one after the other. -/
theorem sentences_read {body : List Sentence} {lists : List (List Token)}
    (each : List.Forall₂ Reads body lists) {fuel n : Nat} (deep : lists.flatten.length ≤ depth)
    (enough : lists.flatten.length ≤ fuel) (few : body.length < n) :
    sentences (sentence (Reader.ofDepth depth) fuel) n (lists.flatten ++ .sign "\x7d" :: rest) =
      some (body, rest) := by
  induction each generalizing n with
  | nil =>
    obtain ⟨n, rfl⟩ : ∃ m, n = m + 1 := ⟨n - 1, by omega⟩
    simp [sentences]
  | @cons s tokens body lists first others ih =>
    simp only [List.flatten_cons, List.length_append, List.length_cons] at deep enough few
    obtain ⟨n, rfl⟩ : ∃ m, n = m + 1 := ⟨n - 1, by omega⟩
    have later := ih (by omega) (by omega) (n := n) (by omega)
    obtain ⟨start, more, same, notClosed, -⟩ := first.starts
    have goesOn : sign? "\x7d" (tokens ++ (lists.flatten ++ .sign "\x7d" :: rest)) = none := by
      simp [same, sign?, notClosed]
    have reads := first.parses depth fuel (by omega) (by omega) (lists.flatten ++ .sign "\x7d" :: rest)
      fun _ => by
        cases others with
        | nil => exact word?_cons (by decide) _
        | cons second _ =>
          obtain ⟨start, more, same, -, notElse⟩ := second.starts
          simp only [List.flatten_cons, same, List.cons_append]
          exact word?_cons notElse _
    rw [List.flatten_cons, List.append_assoc]
    simp [sentences, goesOn, reads, later]

/-- No statement is empty, so the tokens suffice as fuel to read them all. -/
theorem length_le_flatten {body : List Sentence} {lists : List (List Token)}
    (each : List.Forall₂ Reads body lists) : body.length ≤ lists.flatten.length := by
  induction each with
  | nil => simp
  | cons first _ ih =>
    obtain ⟨start, more, rfl, -⟩ := first.starts
    simp only [List.length_cons, List.flatten_cons, List.length_append]
    omega

/-- Statements are read up to the closing brace. -/
theorem reads_block {body : List Sentence} {lists : List (List Token)}
    (each : List.Forall₂ Reads body lists) :
    Reads (.block body) (.sign "\x7b" :: (lists.flatten ++ [.sign "\x7d"])) := by
  have counted := length_le_flatten each
  refine reads_of_above (by decide) fun depth fuel deep enough rest _ => ?_
  rw [List.length_append, List.length_singleton] at deep enough
  have reads : sentences (sentence (Reader.ofDepth depth) fuel)
      ((lists.flatten ++ .sign "\x7d" :: rest).length + 1) (lists.flatten ++ .sign "\x7d" :: rest) =
      some (body, rest) :=
    sentences_read each (by omega) (by omega) (by rw [List.length_append]; omega)
  rw [List.append_assoc, List.cons_append, List.nil_append]
  simp only [sentenceAbove]
  rw [reads]
  rfl

/-- The tokens of a keyword with an expression in parentheses. -/
def guardTokens (keyword : String) (t : Term) : List Token :=
  .word keyword :: .sign "(" :: (t.tokensAt false Precedence.sequence ++ [.sign ")"])

theorem guardTokens_append (keyword : String) (t : Term) (more : List Token) :
    guardTokens keyword t ++ more =
      .word keyword :: .sign "(" :: (t.tokensAt false Precedence.sequence ++ .sign ")" :: more) := by
  simp [guardTokens]

/-- After the consequent no `else` follows, so none is taken. -/
theorem reads_ifThen (legal : t.isLegal A = true) (reads : Reads s tokens) :
    Reads (.ifThen t s) (guardTokens "if" t ++ tokens) := by
  rw [guardTokens_append]
  refine reads_of_above (by decide) fun depth fuel deep enough rest follows => ?_
  simp only [List.length_append, List.length_cons] at deep enough
  have test : guard (Reader.ofDepth depth) (.sign "(" :: (t.tokensAt false Precedence.sequence ++
      .sign ")" :: (tokens ++ rest))) = some (t, tokens ++ rest) := guard_reads legal (by omega)
  have body := reads.parses depth fuel (by omega) (by omega) rest fun _ => follows rfl
  simp [sentenceAbove, branch, test, body, follows rfl]

/-- A branch keeps its own `else` if none of the branches inside its consequent takes it. -/
theorem reads_ifElse {alternate : Sentence} {more : List Token} (legal : t.isLegal A = true)
    (reads : Reads s tokens) (closed : s.isOpen = false) (later : Reads alternate more) :
    Reads (.ifElse t s alternate) (guardTokens "if" t ++ (tokens ++ .word "else" :: more)) := by
  rw [guardTokens_append]
  refine reads_of_above (by decide) fun depth fuel deep enough rest follows => ?_
  simp only [List.length_append, List.length_cons] at deep enough
  have test : guard (Reader.ofDepth depth) (.sign "(" :: (t.tokensAt false Precedence.sequence ++
      .sign ")" :: (tokens ++ .word "else" :: (more ++ rest)))) = some (t, _) :=
    guard_reads legal (by omega)
  have consequent := reads.parses depth fuel (by omega) (by omega) (.word "else" :: (more ++ rest))
    fun isOpen => absurd isOpen (by simp [closed])
  have other := later.parses depth fuel (by omega) (by omega) rest follows
  simp [sentenceAbove, branch, test, consequent, other]

theorem reads_guarded (kind : Guard) (legal : t.isLegal A = true) (reads : Reads s tokens) :
    Reads (.guarded kind t s) (guardTokens kind.keyword t ++ tokens) := by
  rw [guardTokens_append]
  refine reads_of_above (by cases kind <;> decide) fun depth fuel deep enough rest follows => ?_
  simp only [List.length_append, List.length_cons] at deep enough
  have test : guard (Reader.ofDepth depth) (.sign "(" :: (t.tokensAt false Precedence.sequence ++
      .sign ")" :: (tokens ++ rest))) = some (t, tokens ++ rest) := guard_reads legal (by omega)
  have body := reads.parses depth fuel (by omega) (by omega) rest follows
  cases kind <;> simp [sentenceAbove, Guard.keyword, guarded, test, body]

theorem reads_doWhile (legal : t.isLegal A = true) (reads : Reads s tokens) :
    Reads (.doWhile s t) (.word "do" :: (tokens ++ (guardTokens "while" t ++ [.sign ";"]))) := by
  refine reads_of_above (by decide) fun depth fuel deep enough rest _ => ?_
  simp only [guardTokens_append, List.length_append, List.length_cons] at deep enough
  have test : guard (Reader.ofDepth depth) (.sign "(" :: (t.tokensAt false Precedence.sequence ++
      .sign ")" :: (.sign ";" :: rest))) = some (t, _) := guard_reads legal (by omega)
  have body := reads.parses depth fuel (by omega) (by omega)
    (.word "while" :: .sign "(" :: (t.tokensAt false Precedence.sequence ++ .sign ")" ::
      (.sign ";" :: rest))) fun _ => word?_cons (by decide) _
  simp [guardTokens_append, sentenceAbove, doWhile, body, test]

/-- A name with a colon behind it is a label, not an expression. -/
theorem reads_labeled {label : String} (notReserved : label ∉ reserved) (reads : Reads s tokens) :
    Reads (.labeled label s) (.word label :: .sign ":" :: tokens) := by
  have starts : Token.word label ∉ statementStarts ∧ Token.word label ≠ .word "else" := by
    have words : ∀ word, Token.word word ∈ statementStarts ++ [.word "else"] → word ∈ reserved := by
      intro word listed
      simp only [statementStarts, List.cons_append, List.nil_append, List.mem_cons, List.not_mem_nil,
        or_false, Token.word.injEq, reduceCtorEq, false_or] at listed
      obtain rfl | rfl | rfl | rfl | rfl | rfl := listed <;> decide
    have none := fun listed => notReserved (words label listed)
    simpa [not_or] using none
  refine reads_of_above ⟨by simp, starts.2⟩ fun depth fuel deep enough rest follows => ?_
  rw [List.length_cons] at deep enough
  have body := reads.parses depth fuel (by omega) (by omega) rest follows
  rw [sentenceAbove_other starts.1]
  simp [otherSentence, label?, notReserved, body]

/-! ## Loops with a head -/

/-- The tokens of an expression that may be missing. -/
def optionalTokens (part : Option Term) : List Token :=
  part.elim [] (Term.tokensAt false Precedence.sequence)

/-- An expression before a sign, or nothing. -/
theorem optionalBefore_reads {part : Option Term} (legal : part.all (Term.isLegal A) = true)
    (enough : (optionalTokens part).length ≤ depth) {sign : String}
    (ends : (Token.sign sign).opens = false) (bond : (Token.sign sign).bond? = none) :
    optionalBefore (Reader.ofDepth depth) sign (optionalTokens part ++ .sign sign :: rest) =
      some (part, rest) := by
  cases part with
  | none => simp [optionalTokens, optionalBefore]
  | some t =>
    have notMissing : sign? sign (t.tokensAt false Precedence.sequence ++ .sign sign :: rest) = none :=
      sign?_operand (startsOperand_tokensAt (Term.isFormed_of_isLegal legal) _) ends
    have reads : expression (Reader.ofDepth depth) (t.tokensAt false Precedence.sequence ++
        .sign sign :: rest) = some (t, .sign sign :: rest) :=
      Term.reads false Precedence.sequence legal (by decide) (by decide) enough (stops_of_none bond)
    simp [optionalTokens, optionalBefore, notMissing, reads]

/-- The head of a loop starts like an expression, also if it is a declaration. -/
theorem startsOperand_head {head : Head} (legal : head.isLegal A = true) : StartsOperand head.tokens := by
  have operand := Head.operand legal
  unfold Head.tokens
  cases row : head.row with
  | nil => exact absurd row operand.nonempty
  | cons g more =>
    rw [row] at operand
    obtain ⟨token, rfl, opens⟩ := operand.opens g rfl
    exact ⟨token, tokensOf more, rfl, opens⟩

/-- The tokens of a loop after its initializer, up to its body. -/
def forTokens (test update : Option Term) : List Token :=
  .sign ";" :: (optionalTokens test ++ .sign ";" :: (optionalTokens update ++ [.sign ")"]))

/-- The head is read without `in`, so a loop with semicolons is not taken for one over keys. -/
theorem reads_forLoop {init : Option Head} {test update : Option Term}
    (initLegal : init.all (Head.isLegal A) = true) (testLegal : test.all (Term.isLegal A) = true)
    (updateLegal : update.all (Term.isLegal A) = true) (reads : Reads s tokens) :
    Reads (.forLoop init test update s)
      (.word "for" :: .sign "(" :: (init.elim [] Head.tokens ++ (forTokens test update ++ tokens))) := by
  refine reads_of_above (by decide) fun depth fuel deep enough rest follows => ?_
  simp only [forTokens, List.length_append, List.length_cons] at deep enough
  have body := reads.parses depth fuel (by omega) (by omega) rest follows
  have second : optionalBefore (Reader.ofDepth depth) ")"
      (optionalTokens update ++ .sign ")" :: (tokens ++ rest)) = some (update, tokens ++ rest) :=
    optionalBefore_reads updateLegal (by omega) rfl rfl
  have first : optionalBefore (Reader.ofDepth depth) ";" (optionalTokens test ++ .sign ";" ::
      (optionalTokens update ++ .sign ")" :: (tokens ++ rest))) = some (test, _) :=
    optionalBefore_reads testLegal (by omega) rfl rfl
  cases init with
  | none => simp [forTokens, sentenceAbove, headedLoop, forLoop, first, second, body]
  | some head =>
    have notMissing : sign? ";" (head.tokens ++ .sign ";" :: (optionalTokens test ++ .sign ";" ::
        (optionalTokens update ++ .sign ")" :: (tokens ++ rest)))) = none :=
      sign?_operand (startsOperand_head initLegal) rfl
    have headReads : withoutIn (loopHead (Reader.ofDepth depth)) (head.tokens ++ .sign ";" ::
        (optionalTokens test ++ .sign ";" :: (optionalTokens update ++ .sign ")" ::
          (tokens ++ rest)))) = some (head, _) :=
      withoutIn_loopHead initLegal (by rw [Option.elim] at deep; omega)
        (beforeIn_cons (by decide) (by decide)) (stops_of_none rfl) (by simp)
    simp [forTokens, sentenceAbove, headedLoop, notMissing, headReads, forLoop, first, second, body]

theorem beforeIn_in (rest : List Token) : beforeIn 0 (.word "in" :: rest) = ([], .word "in" :: rest) := by
  simp [beforeIn]

/-- Whether a head would be misread before `of` is seen on its own tokens. -/
theorem clashesWithOf_append {more : List Token} (nonempty : tokens ≠ []) :
    clashesWithOf (tokens ++ .word "of" :: more) = clashesWithOf (tokens ++ [.word "of"]) := by
  match tokens, nonempty with
  | [first], _ | first :: second :: others, _ =>
    simp only [clashesWithOf, List.cons_append, List.nil_append]
    split <;> split <;> simp_all

/-- Since the head is sealed, the first bare `in` after it is the keyword. Before `of` an expression ends
by itself, and the conditions rule out what would be read otherwise there. -/
theorem reads_forEach {each : Each} {left : Head} (legal : left.isLegal A = true)
    (isLeft : left.isLeft each = true)
    (apart : each = .key ∨ left.isDeclaration = true ∨
      clashesWithOf (left.tokens ++ [.word "of"]) = false)
    (rightLegal : t.isLegal A = true) (reads : Reads s tokens) :
    Reads (.forEach each left t s) (.word "for" :: .sign "(" :: (left.tokens ++
      .word each.keyword :: (t.tokensAt false Precedence.assignment ++ .sign ")" :: tokens))) := by
  refine reads_of_above (by decide) fun depth fuel deep enough rest follows => ?_
  simp only [List.length_append, List.length_cons] at deep enough
  have body := reads.parses depth fuel (by omega) (by omega) rest follows
  have starts := startsOperand_head legal
  have notMissing : sign? ";" (left.tokens ++ .word each.keyword ::
      (t.tokensAt false Precedence.assignment ++ .sign ")" :: (tokens ++ rest))) = none :=
    sign?_operand starts rfl
  cases each with
  | key =>
    have head : withoutIn (loopHead (Reader.ofDepth depth)) (left.tokens ++ .word "in" ::
        (t.tokensAt false Precedence.assignment ++ .sign ")" :: (tokens ++ rest))) = some (left, _) :=
      withoutIn_loopHead legal (by omega) (beforeIn_in _) (by simp [Stops]) (by simp)
    have right : expression (Reader.ofDepth depth) (t.tokensAt false Precedence.assignment ++
        .sign ")" :: (tokens ++ rest)) = some (t, _) :=
      Term.reads_anywhere false rightLegal (by omega) (stops_of_none rfl)
    simp only [Each.keyword] at notMissing ⊢
    simp [sentenceAbove, headedLoop, notMissing, head, isLeft, forEach, right, body]
  | member =>
    obtain ⟨first, others, same, -⟩ := starts
    have apart : left.isDeclaration = true ∨ clashesWithOf (left.tokens ++ [.word "of"]) = false :=
      apart.resolve_left (by decide)
    have notLet : left.tokens.head? ≠ some (.word "let") ∨ left.isDeclaration = true := by
      refine apart.symm.imp (fun noClash isLet => ?_) id
      obtain ⟨others, same⟩ := List.head?_eq_some_iff.mp isLet
      rw [same] at noClash
      cases noClash
    have noClash : left.isDeclaration = false → clashesWithOf (left.tokens ++ .word "of" ::
        (t.tokensAt false Precedence.assignment ++ .sign ")" :: (tokens ++ rest))) = false := by
      rw [clashesWithOf_append (by simp [same])]
      exact fun notDeclaration => apart.resolve_left (by simp [notDeclaration])
    have head : withoutIn (loopHead (Reader.ofDepth depth)) (left.tokens ++ .word "of" ::
        (t.tokensAt false Precedence.assignment ++ .sign ")" :: (tokens ++ rest))) = some (left, _) :=
      withoutIn_loopHead legal (by omega) (beforeIn_cons (by decide) (by decide)) (stops_of_none rfl)
        fun _ _ _ => Or.inr notLet
    have right : assignment (Reader.ofDepth depth) (t.tokensAt false Precedence.assignment ++
        .sign ")" :: (tokens ++ rest)) = some (t, _) :=
      Term.reads false Precedence.assignment rightLegal (by decide) (by decide) (by omega)
        (stops_of_none rfl)
    simp only [Each.keyword] at notMissing ⊢
    simpa [sentenceAbove, headedLoop, notMissing, head, isLeft, forEach, right, body] using noClash

end Statements

end Untangle.Reading
