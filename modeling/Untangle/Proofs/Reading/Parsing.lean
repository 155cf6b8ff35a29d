import Untangle.Proofs.Reading.Constructions

/-!
# Reading the spelling back

The parser reads the tokens of every expression, and what it reads is `Term.asRead`: the expression
itself, or where a mistaken callee stands after `new` another one, in which the first argument list of
the callee has gone to the construction and the arguments at the end to a call. Each level of the
grammar takes what the tighter levels take, as long as nothing follows that would go on at that level.
On the levels with a loop, to the left of which an expression may stand, the statement says where the
loop goes on.

* `Stops` says that nothing follows that would go on at a level.
* `Leads` says that a level reads an expression, up to the loop of the level, and `Chains` says so
  where some `new` are waiting for their arguments.
* `Parsed` says which of them hold of an expression, and `Term.parsed` that they do.
* `Term.reads` says that a legal expression is read back in its place.
-/

namespace Untangle.Reading

open Print (Precedence)

/-! ## What goes on -/

/-- The level on which each sign or word goes on after an expression. -/
def bonds : List (String × Nat) :=
  [(",", 0)] ++ assignOperators.map (·, 1) ++ [("?", 2)] ++
    (ladder.zipIdx.flatMap fun rung => rung.1.map (·, rung.2 + 3)) ++ [("**", 13)] ++
    updateOperators.map (·, 15) ++ [(".", 16), ("[", 16), ("(", 16)]

def Token.bond? (t : Token) : Option Nat :=
  t.operator?.bind fun operator => bonds.lookup operator

/-- Nothing follows that goes on at the level or a tighter one. -/
def Stops (q : Nat) (rest : List Token) : Prop :=
  ∀ t ∈ rest.head?, ∀ b, t.bond? = some b → b < q

section Stops

variable {q b : Nat} {rest : List Token}

theorem Stops.mono {q' : Nat} (stops : Stops q rest) (le : q ≤ q') : Stops q' rest :=
  fun t isHead b bond => Nat.lt_of_lt_of_le (stops t isHead b bond) le

theorem stops_cons {t : Token} (bond : ∀ b, t.bond? = some b → b < q) : Stops q (t :: rest) := by
  intro other isHead
  obtain rfl : t = other := by simpa using isHead
  exact bond

theorem stops_of_bond {t : Token} (bond : t.bond? = some b) (lt : b < q) : Stops q (t :: rest) :=
  stops_cons fun other same => by
    rw [bond] at same
    cases same
    exact lt

theorem stops_of_none {t : Token} (bond : t.bond? = none) : Stops q (t :: rest) :=
  stops_cons fun other same => by
    rw [bond] at same
    cases same

/-- No token takes an operand more tightly than a suffix does, and none at the level of prefix
operators, which take nothing to their left. -/
theorem bond_le (t : Token) {b : Nat} (bond : t.bond? = some b) : b ≤ 16 ∧ b ≠ 14 := by
  have bounded : ∀ entry ∈ bonds, entry.2 ≤ 16 ∧ entry.2 ≠ 14 := by decide
  obtain ⟨text, -, found⟩ := Option.bind_eq_some_iff.mp bond
  exact bounded _ (Fields.mem_of_lookup found)

/-- Nothing is taken by a primary expression. -/
theorem stops_all (rest : List Token) : Stops 17 rest :=
  fun t _ _ bond => Nat.lt_succ_of_le (bond_le t bond).1

/-- Nothing goes on at the level of unary expressions. -/
theorem Stops.unary (stops : Stops 15 rest) : Stops 14 rest := by
  intro t isHead b bond
  have below := stops t isHead b bond
  have other := (bond_le t bond).2
  omega

/-- Operators of one level are not found where reading stops at that level. -/
theorem operator?_none {operators : List String} (stops : Stops q rest) (le : q ≤ b)
    (bonded : ∀ operator ∈ operators, bonds.lookup operator = some b) :
    operator? operators rest = none := by
  cases rest with
  | nil => rfl
  | cons t rest =>
    cases text : t.operator? with
    | none => simp [operator?, text]
    | some operator =>
      by_cases known : operator ∈ operators
      · have bond : t.bond? = some b := by simp [Token.bond?, text, bonded operator known]
        have below := stops t rfl b bond
        omega
      · simp [operator?, text, known]

theorem sign?_none {sign : String} (stops : Stops q rest) (le : q ≤ b)
    (bonded : bonds.lookup sign = some b) (notWordy : sign ∉ wordyOperators) :
    sign? sign rest = none := by
  cases rest with
  | nil => rfl
  | cons t rest =>
    by_cases same : t = .sign sign
    · have bond : t.bond? = some b := by simp [same, Token.bond?, Token.operator?, bonded, notWordy]
      have below := stops t rfl b bond
      omega
    · simp [sign?, same]

@[simp] theorem sign?_sign (sign : String) (rest : List Token) :
    sign? sign (.sign sign :: rest) = some rest := by
  simp [sign?]

theorem operator?_cons {operators : List String} {operator : String} {t : Token}
    (text : t.operator? = some operator) (known : operator ∈ operators) :
    operator? operators (t :: rest) = some (operator, rest) := by
  simp [operator?, text, known]

/-- An operator that was found is the first token, as a sign or as a word. -/
theorem operator?_some {operators : List String} {tokens : List Token} {operator : String}
    (found : operator? operators tokens = some (operator, rest)) :
    ∃ t, tokens = t :: rest ∧ t.operator? = some operator ∧ operator ∈ operators := by
  cases tokens with
  | nil => simp [operator?] at found
  | cons t tail =>
    simp only [operator?, Option.map_eq_some_iff, Option.filter_eq_some_iff] at found
    obtain ⟨text, ⟨isText, known⟩, same⟩ := found
    cases same
    exact ⟨t, rfl, isText, List.contains_iff_mem.mp known⟩

end Stops

/-! ## Levels -/

/-- The operators of a level that groups to the left. -/
def rung (q : Nat) : List String :=
  ladder.getD (q - 3) []

def level (r : Reader) (q : Nat) : Parser Term :=
  if q = 0 then expression r
  else if q = 1 then assignment r
  else if q = 2 then conditional r
  else if q ≤ 13 then tower (exponent r) (ladder.drop (q - 3))
  else if q = 14 then unary r
  else if q = 15 then update r
  else if q = 16 then callOrMember r 0
  else primary r

/-- Whether the level has a loop with an expression on its left. -/
def loops (q : Nat) : Bool :=
  q == 16 || (3 ≤ q && q ≤ 12)

/-- Where a level goes on after an expression has been read. -/
def resume (r : Reader) (q n : Nat) (t : Term) : Parser Term :=
  if q = 16 then suffixes r n 0 t
  else if 3 ≤ q ∧ q ≤ 12 then chain (level r (q + 1)) (rung q) n t
  else fun rest => some (t, rest)

/-- The level reads the tokens as the expression, up to its own loop. -/
def Leads (r : Reader) (q : Nat) (t : Term) (tokens : List Token) : Prop :=
  ∀ rest, Stops (if loops q then q + 1 else q) rest →
    ∃ n, rest.length ≤ n ∧ level r q (tokens ++ rest) = resume r q n t rest

section Levels

variable {r : Reader} {q : Nat} {t : Term} {tokens : List Token}

/-- The operators of a rung are those that take operands at its level. -/
theorem rung_bond {operator : String} (low : 3 ≤ q) (high : q ≤ 12) (known : operator ∈ rung q) :
    bonds.lookup operator = some q := by
  have bonded : ∀ k < 10, ∀ op ∈ ladder.getD k [], bonds.lookup op = some (k + 3) := by
    decide
  have found := bonded (q - 3) (by omega) operator known
  rwa [Nat.sub_add_cancel low] at found

theorem level_primary : level r 17 = primary r :=
  rfl

/-- Each rung is a loop over its operators, with the next level for operands. -/
theorem level_loop (low : 3 ≤ q) (high : q ≤ 12) :
    level r q = (fun tokens => do
      let (t, rest) ← level r (q + 1) tokens
      chain (level r (q + 1)) (rung q) rest.length t rest) := by
  obtain ⟨k, rfl⟩ : ∃ k, q = k + 3 := ⟨q - 3, by omega⟩
  match k, high with
  | 0, _ | 1, _ | 2, _ | 3, _ | 4, _ | 5, _ | 6, _ | 7, _ | 8, _ | 9, _ => rfl

theorem bond_sign {sign : String} (notWordy : sign ∉ wordyOperators) :
    (Token.sign sign).bond? = bonds.lookup sign := by
  simp [Token.bond?, Token.operator?, notWordy]

/-- Reading suffixes ends where none starts; the words `new` that still wait are constructions
without arguments. -/
theorem suffixes_stops {n waiting : Nat} {rest : List Token} (stops : Stops 16 rest) :
    suffixes r n waiting t rest = some (bare waiting t, rest) := by
  have none : ∀ sign ∈ [".", "[", "("], ∀ more, rest ≠ .sign sign :: more := by
    rintro sign known more rfl
    have bonded : ∀ sign ∈ [".", "[", "("], bonds.lookup sign = some 16 ∧ sign ∉ wordyOperators := by
      decide
    obtain ⟨bond, notWordy⟩ := bonded sign known
    have below := stops _ rfl 16 (by rw [bond_sign notWordy, bond])
    omega
  unfold suffixes
  split
  · exact absurd rfl (none "." (by simp) _)
  · exact absurd rfl (none "[" (by simp) _)
  · exact absurd rfl (none "(" (by simp) _)
  · exact absurd rfl (none "(" (by simp) _)
  · rfl

theorem chain_stops {operand : Parser Term} {operators : List String} {n : Nat} {rest : List Token}
    (ends : operator? operators rest = none) :
    chain operand operators n t rest = some (t, rest) := by
  cases n with
  | zero => rfl
  | succ n => simp [chain, ends]

/-- A loop ends where nothing goes on. -/
theorem resume_stops {n : Nat} {rest : List Token} (stops : Stops q rest) :
    resume r q n t rest = some (t, rest) := by
  unfold resume
  split
  · rename_i isSuffix
    exact suffixes_stops (isSuffix ▸ stops)
  · split
    · rename_i isLoop
      exact chain_stops (operator?_none stops (Nat.le_refl q) fun operator known =>
        rung_bond isLoop.1 isLoop.2 known)
    · rfl

/-- Where nothing goes on, a level reads the expression and no more. -/
theorem Leads.reads (leads : Leads r q t tokens) {rest : List Token} (stops : Stops q rest) :
    level r q (tokens ++ rest) = some (t, rest) := by
  obtain ⟨n, -, parses⟩ := leads rest (by split <;> exact stops.mono (by omega))
  rw [parses, resume_stops stops]

/-! ## From level to level -/

/-- What a primary expression starts with is no prefix operator. -/
theorem primary_head {result : Term × List Token} (parses : primary r tokens = some result) :
    operator? unaryOperators tokens = none ∧ operator? updateOperators tokens = none := by
  unfold primary at parses
  split at parses
  · rename_i text rest
    have words : ∀ word ∈ wordyOperators, word ∈ reserved := by decide
    have notWordy : text ∉ wordyOperators := by
      intro wordy
      simp [words text wordy] at parses
    simp [operator?, Token.operator?, notWordy]
  · exact ⟨rfl, rfl⟩
  · exact ⟨rfl, rfl⟩
  · exact ⟨rfl, rfl⟩
  · cases parses

/-- A primary expression does not start with `new`. -/
theorem news_of_primary {result : Term × List Token} (parses : primary r tokens = some result) :
    news tokens = (0, tokens) := by
  unfold news
  split
  · have isReserved : reserved.contains "new" = true := by decide
    rw [primary, if_pos isReserved] at parses
    cases parses
  · rfl

theorem callOrMember_of_primary {rest : List Token} (parses : primary r tokens = some (t, rest))
    (waiting : Nat) : callOrMember r waiting tokens = suffixes r rest.length waiting t rest := by
  simp [callOrMember, news_of_primary parses, parses]

theorem callOrMember_head {waiting : Nat} {result : Term × List Token}
    (parses : callOrMember r waiting tokens = some result) :
    operator? unaryOperators tokens = none ∧ operator? updateOperators tokens = none := by
  obtain ⟨first, isFirst, -⟩ := Option.bind_eq_some_iff.mp parses
  unfold news at isFirst
  split at isFirst
  · exact ⟨rfl, rfl⟩
  · exact primary_head isFirst

theorem update_head {result : Term × List Token} (parses : update r tokens = some result) :
    operator? unaryOperators tokens = none := by
  unfold update at parses
  split at parses
  · rename_i operator rest found
    obtain ⟨token, rfl, isOperator, known⟩ := operator?_some found
    have apart : ∀ op ∈ updateOperators, op ∉ unaryOperators := by decide
    simp [operator?, isOperator, apart operator known]
  · obtain ⟨first, isFirst, -⟩ := Option.bind_eq_some_iff.mp parses
    exact (callOrMember_head isFirst).1

/-- From one level to the next: what is read tightly is read loosely as well, if no operator of the
looser level follows. The same holds for each of the six levels below. -/
theorem update_of_callOrMember {rest : List Token} (stops : Stops 15 rest)
    (parses : callOrMember r 0 (tokens ++ rest) = some (t, rest)) :
    update r (tokens ++ rest) = some (t, rest) := by
  have ends : operator? updateOperators rest = none :=
    operator?_none stops (Nat.le_refl 15) (by decide)
  simp [update, (callOrMember_head parses).2, parses, ends]

theorem unary_of_update {rest : List Token} (parses : update r (tokens ++ rest) = some (t, rest)) :
    unary r (tokens ++ rest) = some (t, rest) := by
  simp [unary, update_head parses, parses]

theorem exponent_of_unary {rest : List Token} (stops : Stops 13 rest)
    (parses : unary r (tokens ++ rest) = some (t, rest)) :
    exponent r (tokens ++ rest) = some (t, rest) := by
  have ends : sign? "**" rest = none := sign?_none stops (Nat.le_refl 13) rfl (by decide)
  cases found : operator? unaryOperators (tokens ++ rest) with
  | some _ => simp [exponent, found, parses]
  | none =>
    have updates : update r (tokens ++ rest) = some (t, rest) := by simpa [unary, found] using parses
    simp [exponent, found, updates, ends]

theorem conditional_of_tower {rest : List Token} (stops : Stops 2 rest)
    (parses : tower (exponent r) ladder (tokens ++ rest) = some (t, rest)) :
    conditional r (tokens ++ rest) = some (t, rest) := by
  have ends : sign? "?" rest = none := sign?_none stops (Nat.le_refl 2) rfl (by decide)
  simp [conditional, parses, ends]

theorem assignment_of_conditional {rest : List Token} (stops : Stops 1 rest)
    (parses : conditional r (tokens ++ rest) = some (t, rest)) :
    assignment r (tokens ++ rest) = some (t, rest) := by
  have ends : operator? assignOperators rest = none :=
    operator?_none stops (Nat.le_refl 1) (by decide)
  simp [assignment, parses, ends]

theorem expression_of_assignment {rest : List Token} (stops : Stops 0 rest)
    (parses : assignment r (tokens ++ rest) = some (t, rest)) :
    expression r (tokens ++ rest) = some (t, rest) := by
  have ends : sign? "," rest = none := sign?_none stops (Nat.le_refl 0) rfl (by decide)
  simp [expression, listed, parses, ends]

/-- What a tighter level reads, the level reads up to its loop. -/
theorem Leads.looser (leads : Leads r (q + 1) t tokens) (le : q ≤ 16) : Leads r q t tokens := by
  intro rest stops
  by_cases isLoop : 3 ≤ q ∧ q ≤ 12
  · have parses := leads.reads (show Stops (q + 1) rest by simpa [loops, isLoop] using stops)
    refine ⟨rest.length, Nat.le_refl _, ?_⟩
    simp [level_loop isLoop.1 isLoop.2, parses, resume, isLoop, show q ≠ 16 by omega]
  · by_cases isSuffix : q = 16
    · subst isSuffix
      have parses : primary r (tokens ++ rest) = some (t, rest) := leads.reads (stops_all rest)
      exact ⟨rest.length, Nat.le_refl _, callOrMember_of_primary parses 0⟩
    · have stops : Stops q rest := by simpa [loops, isLoop, isSuffix] using stops
      have parses := leads.reads (stops.mono (Nat.le_succ q))
      refine ⟨rest.length, Nat.le_refl _, ?_⟩
      simp only [resume, isLoop, isSuffix, if_false]
      have others : q = 0 ∨ q = 1 ∨ q = 2 ∨ q = 13 ∨ q = 14 ∨ q = 15 := by omega
      rcases others with rfl | rfl | rfl | rfl | rfl | rfl
      · exact expression_of_assignment stops parses
      · exact assignment_of_conditional stops parses
      · exact conditional_of_tower stops parses
      · exact exponent_of_unary stops parses
      · exact unary_of_update parses
      · exact update_of_callOrMember stops parses

/-- A looser level reads what a tighter one does, level by level. -/
theorem Leads.mono {q' : Nat} (leads : Leads r q' t tokens) (le : q ≤ q') (bound : q' ≤ 17) :
    Leads r q t tokens := by
  induction le with
  | refl => exact leads
  | step _ ih => exact ih (leads.looser (by omega)) (by omega)

/-- A level without a loop that reads the tokens as the expression. -/
theorem leads_of_reads (noLoop : loops q = false)
    (parses : ∀ rest, Stops q rest → level r q (tokens ++ rest) = some (t, rest)) :
    Leads r q t tokens := by
  intro rest stops
  rw [if_neg (by simp [noLoop])] at stops
  simp only [loops, Bool.or_eq_false_iff, beq_eq_false_iff_ne, Bool.and_eq_false_iff,
    decide_eq_false_iff_not] at noLoop
  refine ⟨rest.length, Nat.le_refl _, ?_⟩
  rw [parses rest stops, resume, if_neg noLoop.1, if_neg (by omega)]

/-! ## Chains -/

/-- After some `new` that are waiting, the tokens are read as a beginning of a chain, and what follows
may go on with it. -/
def Chains (r : Reader) (reading : Nat → Nat × Term) (tokens : List Token) : Prop :=
  ∀ waiting rest, ∃ n, rest.length ≤ n ∧
    callOrMember r waiting (tokens ++ rest) =
      suffixes r n (reading waiting).1 (reading waiting).2 rest

variable {reading : Nat → Nat × Term}

/-- A chain without a word `new` before it is what the level of suffixes reads. -/
theorem Chains.leads (chains : Chains r reading tokens) (whole : reading 0 = (0, t)) :
    Leads r 16 t tokens := by
  intro rest _
  obtain ⟨n, long, parses⟩ := chains 0 rest
  rw [whole] at parses
  exact ⟨n, long, parses⟩

/-- A primary expression takes no argument list from a `new` that is waiting. -/
theorem Leads.chains (leads : Leads r 17 t tokens) : Chains r (·, t) tokens := by
  intro waiting rest
  have parses : primary r (tokens ++ rest) = some (t, rest) := leads.reads (stops_all rest)
  exact ⟨rest.length, Nat.le_refl _, callOrMember_of_primary parses waiting⟩

/-- One more `new` in front. -/
theorem Chains.new (chains : Chains r reading tokens) :
    Chains r (fun waiting => reading (waiting + 1)) (.word "new" :: tokens) := by
  intro waiting rest
  obtain ⟨n, long, parses⟩ := chains (waiting + 1) rest
  refine ⟨n, long, ?_⟩
  rw [← parses, List.cons_append]
  simp [callOrMember, news, Nat.add_right_comm, ← Nat.add_assoc]

/-- The access goes to what was read last, whatever waits before it. -/
theorem Chains.dot (chains : Chains r reading tokens) (property : String) :
    Chains r (fun waiting => ((reading waiting).1, .dot (reading waiting).2 property))
      (tokens ++ [.sign ".", .word property]) := by
  intro waiting rest
  obtain ⟨n, long, parses⟩ := chains waiting (.sign "." :: .word property :: rest)
  rw [List.length_cons, List.length_cons] at long
  obtain ⟨m, rfl⟩ : ∃ m, n = m + 1 := ⟨n - 1, by omega⟩
  refine ⟨m, by omega, ?_⟩
  rw [List.append_assoc]
  exact parses

/-- So does an access by key, which is read between its brackets. -/
theorem Chains.index (chains : Chains r reading tokens) {key : Term} {keyTokens : List Token}
    (reads : ∀ rest, r.expression (keyTokens ++ .sign "]" :: rest) = some (key, .sign "]" :: rest)) :
    Chains r (fun waiting => ((reading waiting).1, .index (reading waiting).2 key))
      (tokens ++ .sign "[" :: (keyTokens ++ [.sign "]"])) := by
  intro waiting rest
  obtain ⟨n, long, parses⟩ := chains waiting (.sign "[" :: (keyTokens ++ .sign "]" :: rest))
  simp only [List.length_append, List.length_cons] at long
  obtain ⟨m, rfl⟩ : ∃ m, n = m + 1 := ⟨n - 1, by omega⟩
  refine ⟨m, by omega, ?_⟩
  simp only [List.append_assoc, List.cons_append, List.nil_append]
  rw [parses]
  simp [suffixes, reads]

/-- An argument list goes to the last `new` that is waiting. -/
theorem Chains.applied (chains : Chains r reading tokens) {items : List Term}
    {listTokens : List Token} (reads : ∀ rest,
      arguments r.assignment (listTokens ++ .sign ")" :: rest) = some (items, rest)) :
    Chains r (fun waiting => Term.applied items (reading waiting))
      (tokens ++ .sign "(" :: (listTokens ++ [.sign ")"])) := by
  intro waiting rest
  obtain ⟨n, long, parses⟩ := chains waiting (.sign "(" :: (listTokens ++ .sign ")" :: rest))
  simp only [List.length_append, List.length_cons] at long
  obtain ⟨m, rfl⟩ : ∃ m, n = m + 1 := ⟨n - 1, by omega⟩
  refine ⟨m, by omega, ?_⟩
  simp only [List.append_assoc, List.cons_append, List.nil_append]
  rw [parses]
  obtain ⟨_ | still, t⟩ := reading waiting <;> simp [suffixes, reads, Term.applied]

end Levels

/-! ## Tokens of expressions -/

def Term.tokens (noIn : Bool) (t : Term) : List Token :=
  tokensOf (t.row noIn)

/-- The tokens of an expression in a place that asks for a precedence. -/
def Term.tokensAt (noIn : Bool) (precedence : Precedence) (t : Term) : List Token :=
  tokensOf (placed noIn precedence t (t.row noIn))

def Term.calleeTokens (noIn : Bool) (t : Term) : List Token :=
  tokensOf (calleeRow noIn t (t.row noIn))

def listTokens : List (List Token) → List Token
  | [] => []
  | [tokens] => tokens
  | tokens :: rest => tokens ++ .sign "," :: listTokens rest

section Tokens

variable (noIn : Bool)

theorem tokensOf_enclosed (row : List Glyph) :
    tokensOf (enclosed row) = .sign "(" :: tokensOf row ++ [.sign ")"] := by
  simp [enclosed]

theorem tokensOf_bracketed (row : List Glyph) :
    tokensOf (bracketed row) = .sign "[" :: tokensOf row ++ [.sign "]"] := by
  simp [bracketed]

theorem tokensOf_spaced (token : Token) : tokensOf (spaced token) = [token] :=
  rfl

theorem tokensOf_gap (operator : String) (row : List Glyph) : tokensOf (gap operator row) = [] := by
  unfold gap
  split
  · rfl
  · split <;> rfl

theorem tokensOf_separated (rows : List (List Glyph)) :
    tokensOf (separated rows) = listTokens (rows.map tokensOf) := by
  induction rows using separated.induct with
  | case1 => rfl
  | case2 row => rfl
  | case3 row rest several ih =>
    cases rest with
    | nil => exact absurd rfl several
    | cons next others => simpa [separated, listTokens] using ih

/-- In its place, an expression is either enclosed or holds together tightly enough. -/
theorem tokensAt_eq (precedence : Precedence) (t : Term) :
    t.tokensAt noIn precedence = .sign "(" :: t.tokens noIn ++ [.sign ")"] ∨
      precedence ≤ t.own ∧ t.tokensAt noIn precedence = t.tokens noIn := by
  unfold Term.tokensAt placed
  split
  · exact Or.inl (tokensOf_enclosed _)
  · rename_i stands
    simp only [Bool.or_eq_true, decide_eq_true_eq, not_or, Nat.not_lt] at stands
    exact Or.inr ⟨stands.1, rfl⟩

theorem tokens_unary (operator : String) (e : Term) :
    (Term.unary operator e).tokens noIn =
      operatorToken operator :: e.tokensAt noIn Precedence.unary := by
  simp [Term.tokens, Term.row, tokensOf_gap, Term.tokensAt]

theorem tokens_updateBefore (operator : String) (e : Term) :
    (Term.update operator true e).tokens noIn =
      .sign operator :: e.tokensAt noIn Precedence.unary := by
  simp [Term.tokens, Term.row, Term.tokensAt]

theorem tokens_updateAfter (operator : String) (e : Term) :
    (Term.update operator false e).tokens noIn =
      e.tokensAt noIn Precedence.update ++ [.sign operator] := by
  simp [Term.tokens, Term.row, Term.tokensAt]

theorem tokens_binary (operator : String) (left right : Term) :
    (Term.binary operator left right).tokens noIn =
      left.tokensAt noIn (leftPrecedence operator) ++
        operatorToken operator :: right.tokensAt noIn (rightPrecedence operator) := by
  simp [Term.tokens, Term.row, tokensOf_spaced, Term.tokensAt]

theorem tokens_assign (operator : String) (target value : Term) :
    (Term.assign operator target value).tokens noIn =
      target.tokensAt noIn Precedence.call ++
        .sign operator :: value.tokensAt noIn Precedence.assignment := by
  simp [Term.tokens, Term.row, tokensOf_spaced, Term.tokensAt]

theorem tokens_conditional (test consequent alternate : Term) :
    (Term.conditional test consequent alternate).tokens noIn =
      test.tokensAt noIn Precedence.logicalOr ++ .sign "?" ::
        (consequent.tokensAt noIn Precedence.assignment ++
          .sign ":" :: alternate.tokensAt noIn Precedence.assignment) := by
  simp [Term.tokens, Term.row, tokensOf_spaced, Term.tokensAt]

theorem map_rowsOf (items : List Term) :
    (rowsOf noIn items).map tokensOf = items.map (Term.tokensAt noIn Precedence.assignment) := by
  simp [rowsOf_eq, Term.tokensAt]

theorem tokens_sequence (items : List Term) :
    (Term.sequence items).tokens noIn =
      listTokens (items.map (Term.tokensAt noIn Precedence.assignment)) := by
  simp [Term.tokens, Term.row, tokensOf_separated, map_rowsOf]

theorem tokens_call (callee : Term) (items : List Term) :
    (Term.call callee items).tokens noIn =
      callee.tokensAt noIn Precedence.call ++ .sign "(" ::
        (listTokens (items.map (Term.tokensAt noIn Precedence.assignment)) ++ [.sign ")"]) := by
  simp [Term.tokens, Term.row, tokensOf_enclosed, tokensOf_separated, map_rowsOf, Term.tokensAt]

theorem tokens_construct (callee : Term) (items : List Term) :
    (Term.construct callee items).tokens noIn = .word "new" :: (callee.calleeTokens noIn ++ .sign "(" ::
      (listTokens (items.map (Term.tokensAt noIn Precedence.assignment)) ++ [.sign ")"])) := by
  simp [Term.tokens, Term.row, tokensOf_enclosed, tokensOf_separated, map_rowsOf, Term.calleeTokens]

theorem tokens_index (object key : Term) :
    (Term.index object key).tokens noIn =
      object.tokensAt noIn Precedence.call ++ .sign "[" ::
        (key.tokensAt noIn Precedence.sequence ++ [.sign "]"]) := by
  simp [Term.tokens, Term.row, tokensOf_bracketed, Term.tokensAt]

theorem tokens_dot (object : Term) (property : String) :
    (Term.dot object property).tokens noIn =
      tokensOf (beforeDot noIn object (object.row noIn)) ++ [.sign ".", .word property] := by
  simp [Term.tokens, Term.row]

theorem tokens_array (items : List Term) :
    (Term.array items).tokens noIn = .sign "[" ::
      (listTokens ((elementRows items (rowsOf noIn items)).map tokensOf) ++ [.sign "]"]) := by
  simp [Term.tokens, Term.row, tokensOf_bracketed, tokensOf_separated]

end Tokens

/-! ## Expressions in their places -/

/-- The tightest level that reads an expression. A conditional ends with an assignment, so a looser
level than its own has to read it. -/
def Term.reach : Term → Nat
  | .name _ | .number _ | .hole | .array _ => 17
  | .call _ _ | .construct _ _ | .dot _ _ | .index _ _ => 16
  | .update _ _ _ => 15
  | .unary _ _ => 14
  | .binary operator _ _ => (Precedence.ofBinary? operator).getD 0
  | .assign _ _ _ | .conditional _ _ _ => 1
  | .sequence _ => 0

/-- No expression is read by a tighter level than the primary ones. -/
theorem reach_le (t : Term) : t.reach ≤ 17 := by
  cases t with
  | binary operator left right => exact Nat.le_trans (own_binary operator left right) (by decide)
  | _ => simp [Term.reach]

/-- An expression that fits into a place without parentheses is read by the level of that place. Only a
conditional has a precedence whose level does not read it, and no operand is asked for there. -/
theorem le_reach {t : Term} {p : Nat} (le : p ≤ 16) (notConditional : p ≠ 2) (tight : p ≤ t.own) :
    p ≤ t.reach := by
  cases t with
  | update operator isPrefix e =>
    cases isPrefix
    · exact tight
    · exact Nat.le_trans tight (show 14 ≤ 15 by decide)
  | name _ | number _ | hole | array _ => exact Nat.le_succ_of_le le
  | call _ _ | construct _ _ | dot _ _ | index _ _ => exact le
  | unary _ _ | binary _ _ _ | assign _ _ _ | sequence _ => exact tight
  | conditional _ _ _ =>
    have atMost : p ≤ 2 := tight
    exact Nat.le_of_lt_succ (Nat.lt_of_le_of_ne atMost notConditional)

/-- Parsers that go deep enough for the tokens read them as the expression is read. -/
structure Parsed (noIn : Bool) (t : Term) : Prop where
  leads : ∀ depth, (t.tokens noIn).length ≤ depth →
    Leads (Reader.ofDepth depth) t.reach t.asRead (t.tokens noIn)
  chains : t.isChain = true → ∀ depth, (t.tokens noIn).length ≤ depth →
    Chains (Reader.ofDepth depth) t.heard (t.tokens noIn)

section Places

variable {A : Alphabet} {noIn : Bool} {t : Term}

/-- Every expression other than a chain is read at its own level. -/
theorem parsed_of_leads (notChain : t.isChain = false)
    (leads : ∀ depth, (t.tokens noIn).length ≤ depth →
      Leads (Reader.ofDepth depth) t.reach t.asRead (t.tokens noIn)) : Parsed noIn t where
  leads := leads
  chains isChain := absurd isChain (by simp [notChain])

/-- A primary expression starts a chain of no suffixes. -/
theorem parsed_of_primary (isPrimary : t.reach = 17) (reading : t.heard = (·, t.asRead))
    (reads : ∀ depth, (t.tokens noIn).length ≤ depth → ∀ rest,
      primary (Reader.ofDepth depth) (t.tokens noIn ++ rest) = some (t.asRead, rest)) :
    Parsed noIn t := by
  have leads : ∀ depth, (t.tokens noIn).length ≤ depth →
      Leads (Reader.ofDepth depth) 17 t.asRead (t.tokens noIn) :=
    fun depth enough => leads_of_reads rfl fun rest _ => reads depth enough rest
  constructor
  · rw [isPrimary]
    exact leads
  · rw [reading]
    exact fun _ depth enough => (leads depth enough).chains

/-- A chain is read with any number of words `new` before it, so in particular with none. -/
theorem parsed_of_chains (isSuffix : t.reach = 16)
    (chains : ∀ depth, (t.tokens noIn).length ≤ depth →
      Chains (Reader.ofDepth depth) t.heard (t.tokens noIn)) : Parsed noIn t := by
  constructor
  · rw [isSuffix]
    exact fun depth enough => (chains depth enough).leads t.heard_zero
  · exact fun _ => chains

/-- An expression in parentheses is read as a primary expression. -/
theorem Parsed.enclosed (parsed : Parsed noIn t) {depth : Nat}
    (enough : (Token.sign "(" :: t.tokens noIn ++ [Token.sign ")"]).length ≤ depth) :
    Leads (Reader.ofDepth depth) 17 t.asRead (.sign "(" :: t.tokens noIn ++ [.sign ")"]) := by
  rw [List.length_append, List.length_cons, List.length_singleton] at enough
  obtain ⟨inner, rfl⟩ : ∃ d, depth = d + 1 := ⟨depth - 1, by omega⟩
  have leads := (parsed.leads inner (by omega)).mono (Nat.zero_le _) (reach_le t)
  refine leads_of_reads rfl fun rest _ => ?_
  have reads : (Reader.ofDepth (inner + 1)).expression (t.tokens noIn ++ .sign ")" :: rest) =
      some (t.asRead, .sign ")" :: rest) := leads.reads (stops_of_none rfl)
  rw [level_primary]
  simp [primary, reads]

/-- An expression in its place is read by the level that the place asks for. -/
theorem Parsed.placed (parsed : Parsed noIn t) {p depth : Nat} (le : p ≤ 16) (notConditional : p ≠ 2)
    (enough : (t.tokensAt noIn p).length ≤ depth) :
    Leads (Reader.ofDepth depth) p t.asRead (t.tokensAt noIn p) := by
  rcases tokensAt_eq noIn p t with loose | ⟨tight, same⟩
  · rw [loose] at enough ⊢
    exact (parsed.enclosed enough).mono (Nat.le_succ_of_le le) (Nat.le_refl 17)
  · rw [same] at enough ⊢
    exact (parsed.leads depth enough).mono (le_reach le notConditional tight) (reach_le t)

/-- In any place an expression is read as one. -/
theorem Parsed.anywhere (parsed : Parsed noIn t) {p depth : Nat}
    (enough : (t.tokensAt noIn p).length ≤ depth) :
    Leads (Reader.ofDepth depth) 0 t.asRead (t.tokensAt noIn p) := by
  rcases tokensAt_eq noIn p t with loose | ⟨-, same⟩
  · rw [loose] at enough ⊢
    exact (parsed.enclosed enough).mono (by decide) (Nat.le_refl 17)
  · rw [same] at enough ⊢
    exact (parsed.leads depth enough).mono (Nat.zero_le _) (reach_le t)

/-- A target is read as a member, whatever its place asks for. -/
theorem Parsed.target (parsed : Parsed noIn t) (isTarget : t.isTarget = true) {p depth : Nat}
    (enough : (t.tokensAt noIn p).length ≤ depth) :
    Leads (Reader.ofDepth depth) 16 t.asRead (t.tokensAt noIn p) := by
  rcases tokensAt_eq noIn p t with loose | ⟨-, same⟩
  · rw [loose] at enough ⊢
    exact (parsed.enclosed enough).mono (by decide) (Nat.le_refl 17)
  · rw [same] at enough ⊢
    have tight : 16 ≤ t.reach := by
      cases t with
      | name _ | dot _ _ | index _ _ => simp [Term.reach]
      | _ => simp [Term.isTarget] at isTarget
    exact (parsed.leads depth enough).mono tight (reach_le t)

/-- A place for which the level is given. -/
theorem Parsed.reads (parsed : Parsed noIn t) (p : Nat) {depth : Nat} (le : p ≤ 16)
    (notConditional : p ≠ 2) (enough : (t.tokensAt noIn p).length ≤ depth) {rest : List Token}
    (stops : Stops p rest) :
    level (Reader.ofDepth depth) p (t.tokensAt noIn p ++ rest) = some (t.asRead, rest) :=
  (parsed.placed le notConditional enough).reads stops

/-- What stands before a member or an argument list. -/
theorem Parsed.member (parsed : Parsed noIn t) {depth : Nat}
    (enough : (t.tokensAt noIn Precedence.call).length ≤ depth) :
    Chains (Reader.ofDepth depth) t.heard (t.tokensAt noIn Precedence.call) := by
  unfold Term.tokensAt at enough ⊢
  cases isChain : t.isChain with
  | true =>
    rw [placed_chain isChain] at enough ⊢
    exact parsed.chains isChain depth enough
  | false =>
    rw [placed_operation isChain (Nat.le_refl _), tokensOf_enclosed] at enough ⊢
    rw [show t.heard = (·, t.asRead) from funext (Term.heard_operation isChain)]
    exact (parsed.enclosed enough).chains

/-- A number before a dot is enclosed, so that the dot is not read as a part of it. -/
theorem Parsed.beforeDot (parsed : Parsed noIn t) {depth : Nat}
    (enough : (tokensOf (beforeDot noIn t (t.row noIn))).length ≤ depth) :
    Chains (Reader.ofDepth depth) t.heard (tokensOf (beforeDot noIn t (t.row noIn))) := by
  unfold Reading.beforeDot at enough ⊢
  cases isNumber : t.isNumber with
  | true =>
    have reading : t.heard = (·, t.asRead) := by
      cases t with
      | number => rfl
      | _ => cases isNumber
    rw [isNumber, if_pos rfl, tokensOf_enclosed] at enough
    rw [if_pos rfl, tokensOf_enclosed, reading]
    exact (parsed.enclosed enough).chains
  | false =>
    rw [isNumber, if_neg Bool.false_ne_true] at enough
    exact parsed.member enough

/-- What is called after `new`, in parentheses or as it is. -/
theorem Parsed.callee (parsed : Parsed noIn t) (formed : t.isFormed A = true) {depth : Nat}
    (enough : (t.calleeTokens noIn).length ≤ depth) :
    Chains (Reader.ofDepth depth) t.calleeHeard (t.calleeTokens noIn) := by
  unfold Term.calleeTokens at enough ⊢
  rcases calleeRow_cases noIn formed with ⟨same, right⟩ | ⟨same, isChain, wrong⟩
  · have reading : t.calleeHeard = (·, t.asRead) := by
      funext waiting
      rcases right with notChain | right
      · simp [Term.calleeHeard, Term.heard_operation notChain]
      · rw [Term.calleeHeard, if_pos right]
    rw [same, tokensOf_enclosed] at enough ⊢
    rw [reading]
    exact (parsed.enclosed enough).chains
  · have reading : t.calleeHeard = t.heard := by
      funext waiting
      rw [Term.calleeHeard, wrong, if_neg Bool.false_ne_true]
    rw [same] at enough ⊢
    rw [reading]
    exact parsed.chains isChain depth enough

/-! ## One lemma for each kind of expression -/

/-- The token of an operator, a word or a sign, is read as the operator. -/
theorem operator_operatorToken (operator : String) :
    (operatorToken operator).operator? = some operator := by
  unfold operatorToken
  split
  · rename_i wordy
    simp only [Token.operator?, wordy, if_true]
  · rename_i notWordy
    simp only [Token.operator?, notWordy, if_false, Bool.false_eq_true]

theorem operator_update : ∀ operator ∈ updateOperators,
    (Token.sign operator).operator? = some operator ∧ (Token.sign operator).bond? = some 15 := by
  decide

theorem operator_assign : ∀ operator ∈ assignOperators,
    (Token.sign operator).operator? = some operator ∧ (Token.sign operator).bond? = some 1 := by
  decide

/-- A name is a primary expression, since it is no reserved word. -/
theorem parsed_name {text : String} (notReserved : text ∉ reserved) : Parsed noIn (.name text) := by
  refine parsed_of_primary rfl rfl fun depth _ rest => ?_
  show primary (Reader.ofDepth depth) (.word text :: rest) = some (.name text, rest)
  simp [primary, notReserved]

theorem parsed_number (value : Nat) : Parsed noIn (.number value) :=
  parsed_of_primary rfl rfl fun _ _ _ => rfl

/-- The operand of a prefix operator is read at the level of prefix operators. -/
theorem parsed_unary {operator : String} (known : operator ∈ unaryOperators) (parsed : Parsed noIn t) :
    Parsed noIn (.unary operator t) := by
  refine parsed_of_leads rfl fun depth enough => ?_
  rw [tokens_unary, List.length_cons] at enough
  rw [tokens_unary]
  obtain ⟨inner, rfl⟩ : ∃ d, depth = d + 1 := ⟨depth - 1, by omega⟩
  refine leads_of_reads rfl fun rest (stops : Stops 14 rest) => ?_
  have reads : (Reader.ofDepth (inner + 1)).unary (t.tokensAt noIn Precedence.unary ++ rest) =
      some (t.asRead, rest) := parsed.reads Precedence.unary (by decide) (by decide) (by omega) stops
  show unary _ (operatorToken operator :: (t.tokensAt noIn Precedence.unary ++ rest)) =
    some (.unary operator t.asRead, rest)
  simp [unary, operator?_cons (operator_operatorToken operator) known, reads]

/-- The operand has to be something that can be assigned to, also when it is read back. -/
theorem parsed_updateBefore {operator : String} (known : operator ∈ updateOperators)
    (isTarget : t.isTarget = true) (parsed : Parsed noIn t) :
    Parsed noIn (.update operator true t) := by
  refine parsed_of_leads rfl fun depth enough => ?_
  rw [tokens_updateBefore, List.length_cons] at enough
  rw [tokens_updateBefore]
  obtain ⟨inner, rfl⟩ : ∃ d, depth = d + 1 := ⟨depth - 1, by omega⟩
  refine leads_of_reads rfl fun rest (stops : Stops 15 rest) => ?_
  have reads : (Reader.ofDepth (inner + 1)).unary (t.tokensAt noIn Precedence.unary ++ rest) =
      some (t.asRead, rest) :=
    parsed.reads Precedence.unary (by decide) (by decide) (by omega) stops.unary
  show update _ (.sign operator :: (t.tokensAt noIn Precedence.unary ++ rest)) =
    some (.update operator true t.asRead, rest)
  simp [update, operator?_cons (operator_update operator known).1 known, reads,
    Term.isTarget_asRead isTarget]

/-- The operand is read at the level of suffixes, and then the operator behind it is taken. -/
theorem parsed_updateAfter {operator : String} (known : operator ∈ updateOperators)
    (isTarget : t.isTarget = true) (parsed : Parsed noIn t) :
    Parsed noIn (.update operator false t) := by
  refine parsed_of_leads rfl fun depth enough => ?_
  rw [tokens_updateAfter, List.length_append, List.length_singleton] at enough
  rw [tokens_updateAfter]
  obtain ⟨isOperator, bond⟩ := operator_update operator known
  refine leads_of_reads rfl fun rest _ => ?_
  have reads : callOrMember (Reader.ofDepth depth) 0 (t.tokensAt noIn Precedence.update ++
      .sign operator :: rest) = some (t.asRead, .sign operator :: rest) :=
    (parsed.target isTarget (by omega)).reads (stops_of_bond bond (by decide))
  rw [List.append_assoc]
  show update _ (t.tokensAt noIn Precedence.update ++ .sign operator :: rest) =
    some (.update operator false t.asRead, rest)
  simp [update, (callOrMember_head reads).2, reads, operator?_cons isOperator known,
    Term.isTarget_asRead isTarget]

/-- The target is read as a conditional first; the operator behind it makes it an assignment. -/
theorem parsed_assign {operator : String} {value : Term} (known : operator ∈ assignOperators)
    (isTarget : t.isTarget = true) (target : Parsed noIn t) (parsed : Parsed noIn value) :
    Parsed noIn (.assign operator t value) := by
  refine parsed_of_leads rfl fun depth enough => ?_
  rw [tokens_assign, List.length_append, List.length_cons] at enough
  rw [tokens_assign]
  obtain ⟨isOperator, bond⟩ := operator_assign operator known
  obtain ⟨inner, rfl⟩ : ∃ d, depth = d + 1 := ⟨depth - 1, by omega⟩
  refine leads_of_reads rfl fun rest (stops : Stops 1 rest) => ?_
  have first : conditional (Reader.ofDepth (inner + 1)) (t.tokensAt noIn Precedence.call ++
      .sign operator :: (value.tokensAt noIn Precedence.assignment ++ rest)) = some (t.asRead, _) :=
    ((target.target isTarget (by omega)).mono (show 2 ≤ 16 by decide) (by decide)).reads
      (stops_of_bond bond (by decide))
  have second : (Reader.ofDepth (inner + 1)).assignment (value.tokensAt noIn Precedence.assignment ++
      rest) = some (value.asRead, rest) :=
    parsed.reads Precedence.assignment (by decide) (by decide) (by omega) stops
  rw [List.append_assoc, List.cons_append]
  show assignment _ _ = some (.assign operator t.asRead value.asRead, rest)
  simp [assignment, first, operator?_cons isOperator known, Term.isTarget_asRead isTarget, second]

/-- The test is read up to the question mark, the two branches as assignments. -/
theorem parsed_conditional {consequent alternate : Term} (test : Parsed noIn t)
    (yes : Parsed noIn consequent) (no : Parsed noIn alternate) :
    Parsed noIn (.conditional t consequent alternate) := by
  refine parsed_of_leads rfl fun depth enough => ?_
  simp only [tokens_conditional, List.length_append, List.length_cons] at enough
  rw [tokens_conditional]
  obtain ⟨inner, rfl⟩ : ∃ d, depth = d + 1 := ⟨depth - 1, by omega⟩
  refine leads_of_reads rfl fun rest (stops : Stops 1 rest) => ?_
  have last : (Reader.ofDepth (inner + 1)).assignment (alternate.tokensAt noIn Precedence.assignment ++
      rest) = some (alternate.asRead, rest) :=
    no.reads Precedence.assignment (by decide) (by decide) (by omega) stops
  have second : (Reader.ofDepth (inner + 1)).assignment (consequent.tokensAt noIn
      Precedence.assignment ++ .sign ":" :: (alternate.tokensAt noIn Precedence.assignment ++ rest)) =
      some (consequent.asRead, _) :=
    yes.reads Precedence.assignment (by decide) (by decide) (by omega) (stops_of_none rfl)
  have first : tower (exponent (Reader.ofDepth (inner + 1))) ladder (t.tokensAt noIn
      Precedence.logicalOr ++ .sign "?" :: (consequent.tokensAt noIn Precedence.assignment ++
        .sign ":" :: (alternate.tokensAt noIn Precedence.assignment ++ rest))) = some (t.asRead, _) :=
    test.reads Precedence.logicalOr (by decide) (by decide) (by omega)
      (stops_of_bond (b := 2) rfl (by decide))
  have ends : operator? assignOperators rest = none :=
    operator?_none stops (Nat.le_refl 1) (by decide)
  simp only [List.append_assoc, List.cons_append]
  show assignment _ _ = some (.conditional t.asRead consequent.asRead alternate.asRead, rest)
  simp [assignment, conditional, first, second, last, ends]

/-- A power goes on to its right, so the base is tighter than the exponent, and no prefix operator
may stand before it. -/
theorem parsed_power {right : Term} (base : Parsed noIn t) (parsed : Parsed noIn right) :
    Parsed noIn (.binary "**" t right) := by
  refine parsed_of_leads rfl fun depth enough => ?_
  rw [tokens_binary, List.length_append, List.length_cons] at enough
  rw [tokens_binary]
  obtain ⟨inner, rfl⟩ : ∃ d, depth = d + 1 := ⟨depth - 1, by omega⟩
  refine leads_of_reads rfl fun rest (stops : Stops 13 rest) => ?_
  have second : (Reader.ofDepth (inner + 1)).exponent (right.tokensAt noIn (rightPrecedence "**") ++
      rest) = some (right.asRead, rest) :=
    parsed.reads (rightPrecedence "**") (by decide) (by decide) (by omega) stops
  have first : update (Reader.ofDepth (inner + 1)) (t.tokensAt noIn (leftPrecedence "**") ++
      .sign "**" :: (right.tokensAt noIn (rightPrecedence "**") ++ rest)) = some (t.asRead, _) :=
    base.reads (leftPrecedence "**") (by decide) (by decide) (by omega)
      (stops_of_bond (b := 13) rfl (by decide))
  rw [List.append_assoc, List.cons_append]
  show exponent (Reader.ofDepth (inner + 1)) (t.tokensAt noIn (leftPrecedence "**") ++
    .sign "**" :: (right.tokensAt noIn (rightPrecedence "**") ++ rest)) =
      some (.binary "**" t.asRead right.asRead, rest)
  simp [exponent, update_head first, first, second]

/-- The level of an operator that groups to the left. -/
theorem rung_of_binary {operator : String} {q : Nat} (found : Precedence.ofBinary? operator = some q)
    (notPower : operator ≠ "**") : 3 ≤ q ∧ q ≤ 12 ∧ operator ∈ rung q := by
  have listed : ∀ entry ∈ Precedence.binaryTable, entry.1 ≠ "**" →
      3 ≤ entry.2 ∧ entry.2 ≤ 12 ∧ entry.1 ∈ rung entry.2 := by
    decide
  exact listed _ (Fields.mem_of_lookup found) notPower

/-- The other operators go on to their left: the left operand is read on the same rung, the right
one on the next. -/
theorem parsed_binary {operator : String} {right : Term} {q : Nat}
    (found : Precedence.ofBinary? operator = some q) (notPower : operator ≠ "**")
    (left : Parsed noIn t) (parsed : Parsed noIn right) : Parsed noIn (.binary operator t right) := by
  obtain ⟨low, high, known⟩ := rung_of_binary found notPower
  have reach : (Term.binary operator t right).reach = q := by simp [Term.reach, found]
  have leftAsks : leftPrecedence operator = q := by simp [leftPrecedence, notPower, found]
  have rightAsks : rightPrecedence operator = q + 1 := by simp [rightPrecedence, notPower, found]
  have isLoop : loops q = true := by simp [loops, low, high]
  refine parsed_of_leads rfl fun depth enough => ?_
  rw [tokens_binary, leftAsks, rightAsks, List.length_append, List.length_cons] at enough
  rw [tokens_binary, leftAsks, rightAsks, reach]
  intro rest stops
  rw [if_pos isLoop] at stops
  have bond : (operatorToken operator).bond? = some q := by
    simp [Token.bond?, operator_operatorToken, rung_bond low high known]
  -- The loop of the level goes on after the left side, reads the right side and goes on after it.
  have leads : Leads (Reader.ofDepth depth) q t.asRead (t.tokensAt noIn q) :=
    left.placed (by omega) (by omega) (by omega)
  obtain ⟨n, long, first⟩ := leads (operatorToken operator :: (right.tokensAt noIn (q + 1) ++ rest))
    (by rw [if_pos isLoop]; exact stops_of_bond bond (Nat.lt_succ_self q))
  have second : level (Reader.ofDepth depth) (q + 1) (right.tokensAt noIn (q + 1) ++ rest) =
      some (right.asRead, rest) := parsed.reads (q + 1) (by omega) (by omega) (by omega) stops
  rw [List.length_cons, List.length_append] at long
  obtain ⟨m, rfl⟩ : ∃ m, n = m + 1 := ⟨n - 1, by omega⟩
  refine ⟨m, by omega, ?_⟩
  rw [List.append_assoc, List.cons_append, first]
  simp only [resume, show q ≠ 16 by omega, low, high, and_self, if_true, if_false]
  rw [chain, operator?_cons (operator_operatorToken operator) known]
  simp only [second]
  rfl

theorem parsed_dot (parsed : Parsed noIn t) (property : String) : Parsed noIn (.dot t property) := by
  refine parsed_of_chains rfl fun depth enough => ?_
  rw [tokens_dot, List.length_append] at enough
  rw [tokens_dot]
  exact (parsed.beforeDot (Nat.le_trans (Nat.le_add_right _ _) enough)).dot property

theorem parsed_index {key : Term} (object : Parsed noIn t) (parsed : Parsed noIn key) :
    Parsed noIn (.index t key) := by
  refine parsed_of_chains rfl fun depth enough => ?_
  simp only [tokens_index, List.length_append, List.length_cons] at enough
  rw [tokens_index]
  obtain ⟨inner, rfl⟩ : ∃ d, depth = d + 1 := ⟨depth - 1, by omega⟩
  exact (object.member (by omega)).index fun rest =>
    parsed.reads Precedence.sequence (by decide) (by decide) (by omega) (stops_of_none rfl)

/-! ## Comma lists -/

/-- An operand does not start like the end of a list. -/
theorem sign?_of_opens {token : Token} (opens : token.opens = true) {sign : String}
    (notOpener : (Token.sign sign).opens = false) (more : List Token) :
    sign? sign (token :: more) = none := by
  have other : token ≠ .sign sign := by
    rintro rfl
    rw [notOpener] at opens
    cases opens
  simp [sign?, other]

section Lists

variable {item : Parser Term} {spelled : Term → List Token} {rest : List Token}

/-- Items that are each read as something are read one after the other. -/
theorem listed_reads {α β : Type} {item : Parser α} {spelled : β → List Token} {meaning : β → α}
    {items : List β} (some : items ≠ []) (stops : Stops 0 rest)
    (each : ∀ t ∈ items, ∀ more, Stops 1 more → item (spelled t ++ more) = .some (meaning t, more))
    {n : Nat} (enough : items.length ≤ n) :
    listed item n (listTokens (items.map spelled) ++ rest) = .some (items.map meaning, rest) := by
  induction items generalizing n with
  | nil => exact absurd rfl some
  | cons first others ih =>
    obtain ⟨n, rfl⟩ : ∃ m, n = m + 1 := ⟨n - 1, by simp at enough; omega⟩
    cases others with
    | nil =>
      have reads := each first (by simp) rest (stops.mono (by decide))
      have ends : sign? "," rest = none := sign?_none stops (Nat.le_refl 0) rfl (by decide)
      simp [listTokens, listed, reads, ends]
    | cons second others =>
      have reads := each first (by simp) (.sign "," :: (listTokens ((second :: others).map spelled) ++
        rest)) (stops_of_bond (b := 0) rfl (by decide))
      have later := ih (by simp) (fun t member => each t (by simp [member])) (n := n)
        (by simpa using enough)
      rw [List.map_cons] at reads later
      simp [listTokens, listed, reads, later]

def StartsOperand (tokens : List Token) : Prop :=
  ∃ token more, tokens = token :: more ∧ token.opens = true

theorem sign?_operand {tokens : List Token} (starts : StartsOperand tokens) {sign : String}
    (notOpener : (Token.sign sign).opens = false) : sign? sign (tokens ++ rest) = none := by
  obtain ⟨token, more, rfl, opens⟩ := starts
  exact sign?_of_opens opens notOpener _

/-- Between two members stands a comma, so the tokens suffice as fuel to read as many members. -/
theorem length_listTokens (lists : List (List Token)) :
    lists.length ≤ (listTokens lists).length + 1 := by
  induction lists using listTokens.induct with
  | case1 => simp
  | case2 tokens => simp
  | case3 tokens others several ih =>
    rw [listTokens]
    · simp only [List.length_append, List.length_cons]
      omega
    · exact several

/-- A member has no more tokens than the list. -/
theorem length_le_listTokens {lists : List (List Token)} {tokens : List Token}
    (member : tokens ∈ lists) : tokens.length ≤ (listTokens lists).length := by
  induction lists using listTokens.induct with
  | case1 => simp at member
  | case2 other => simp_all [listTokens]
  | case3 other others several ih =>
    rw [listTokens]
    · simp only [List.length_append, List.length_cons]
      rcases List.mem_cons.mp member with rfl | later
      · omega
      · have := ih later
        omega
    · exact several

/-- A list in parentheses is read to its end: it is empty, or each member is followed by a comma or
by the parenthesis. -/
theorem arguments_read {α β : Type} {item : Parser α} {spelled : β → List Token} {meaning : β → α}
    {items : List β} (starts : ∀ t ∈ items, StartsOperand (spelled t))
    (each : ∀ t ∈ items, ∀ more, Stops 1 more → item (spelled t ++ more) = some (meaning t, more)) :
    arguments item (listTokens (items.map spelled) ++ .sign ")" :: rest) =
      some (items.map meaning, rest) := by
  by_cases empty : items = []
  · subst empty
    simp [listTokens, arguments]
  · have opens : sign? ")" (listTokens (items.map spelled) ++ .sign ")" :: rest) = none := by
      match items, empty with
      | [first], _ => exact sign?_operand (starts first (by simp)) rfl
      | first :: second :: others, _ =>
        rw [List.map_cons, List.map_cons, listTokens, List.append_assoc]
        · exact sign?_operand (starts first (by simp)) rfl
        · simp
    have counted := length_listTokens (items.map spelled)
    rw [List.length_map] at counted
    have stops : Stops 0 (.sign ")" :: rest) := stops_of_none rfl
    simp only [arguments, opens]
    rw [listed_reads empty stops each (by rw [List.length_append]; omega)]
    simp

def elementTokens (spelled : Term → List Token) (items : List Term) : List (List Token) :=
  if items.getLast?.any Term.isHole then items.map spelled ++ [[]] else items.map spelled

theorem elementTokens_cons (first second : Term) (others : List Term) :
    elementTokens spelled (first :: second :: others) =
      spelled first :: elementTokens spelled (second :: others) := by
  unfold elementTokens
  rw [List.getLast?_cons_cons]
  split <;> rfl

/-- A row of elements is not empty, even if it is one hole. -/
theorem elementTokens_ne_nil (first : Term) (others : List Term) :
    elementTokens spelled (first :: others) ≠ [] := by
  unfold elementTokens
  split <;> simp

theorem mem_elementTokens (spelled : Term → List Token) {items : List Term} {t : Term}
    (member : t ∈ items) : spelled t ∈ elementTokens spelled items := by
  unfold elementTokens
  split
  · exact List.mem_append_left _ (List.mem_map_of_mem member)
  · exact List.mem_map_of_mem member

theorem length_elementTokens (spelled : Term → List Token) (items : List Term) :
    items.length ≤ (elementTokens spelled items).length := by
  unfold elementTokens
  split <;> simp

/-- The elements of an array with a comma after each but the last, or after that too if it is a
hole. -/
theorem elements_read {items : List Term} {meaning : Term → Term} (holes : spelled .hole = [])
    (kept : meaning .hole = .hole) (starts : ∀ t ∈ items, t = .hole ∨ StartsOperand (spelled t))
    (each : ∀ t ∈ items, t = .hole ∨
      ∀ more, Stops 1 more → item (spelled t ++ more) = some (meaning t, more))
    {n : Nat} (enough : items.length < n) :
    elements item n (listTokens (elementTokens spelled items) ++ .sign "]" :: rest) =
      some (items.map meaning, rest) := by
  induction items generalizing n with
  | nil =>
    obtain ⟨n, rfl⟩ : ∃ m, n = m + 1 := ⟨n - 1, by omega⟩
    simp [elementTokens, listTokens, elements]
  | cons first others ih =>
    rw [List.length_cons] at enough
    obtain ⟨n, rfl⟩ : ∃ m, n = m + 1 := ⟨n - 1, by omega⟩
    have later := ih (fun t member => starts t (by simp [member]))
      (fun t member => each t (by simp [member])) (n := n) (by omega)
    by_cases isHole : first = .hole
    · -- A hole leaves its comma, also at the end.
      subst isHole
      have comma : listTokens (elementTokens spelled (.hole :: others)) =
          .sign "," :: listTokens (elementTokens spelled others) := by
        cases others with
        | nil => simp [elementTokens, Term.isHole, holes, listTokens]
        | cons second others =>
          rw [elementTokens_cons, holes, listTokens]
          · rfl
          · exact elementTokens_ne_nil second others
      rw [comma, List.cons_append]
      simp [elements, sign?, later, kept]
    · have opens := (starts first (by simp)).resolve_left isHole
      have reads := (each first (by simp)).resolve_left isHole
      cases others with
      | nil =>
        have single : elementTokens spelled [first] = [spelled first] := by
          cases first <;> simp_all [elementTokens, Term.isHole]
        rw [single, listTokens]
        have noBracket : sign? "]" (spelled first ++ .sign "]" :: rest) = none :=
          sign?_operand opens rfl
        have noComma : sign? "," (spelled first ++ .sign "]" :: rest) = none :=
          sign?_operand opens rfl
        have closes := reads (.sign "]" :: rest) (stops_of_none rfl)
        have last : sign? "," (.sign "]" :: rest) = none := by simp [sign?]
        simp [elements, noBracket, noComma, closes, last]
      | cons second others =>
        have more := reads (.sign "," :: (listTokens (elementTokens spelled (second :: others)) ++
          .sign "]" :: rest)) (stops_of_bond (b := 0) rfl (by decide))
        rw [elementTokens_cons, listTokens]
        · rw [List.append_assoc, List.cons_append]
          simp [elements, sign?_operand opens, more, later, Token.opens]
        · exact elementTokens_ne_nil second others

end Lists

/-! ## All expressions -/

theorem Operand.startsOperand {row : List Glyph} (operand : Operand A row) :
    StartsOperand (tokensOf row) := by
  cases row with
  | nil => exact absurd rfl operand.nonempty
  | cons g more =>
    obtain ⟨token, rfl, opens⟩ := operand.opens g rfl
    exact ⟨token, tokensOf more, rfl, opens⟩

theorem startsOperand_tokensAt (formed : t.isFormed A = true) (p : Precedence) :
    StartsOperand (t.tokensAt noIn p) :=
  ((t.operand noIn formed).placed noIn p t).startsOperand

theorem Parsed.arguments {items : List Term} {depth : Nat}
    (formed : ∀ e ∈ items, e.isFormed A = true) (parsed : ∀ e ∈ items, Parsed noIn e)
    (enough : (listTokens (items.map (Term.tokensAt noIn Precedence.assignment))).length ≤ depth)
    (rest : List Token) :
    arguments (Reader.ofDepth (depth + 1)).assignment
      (listTokens (items.map (Term.tokensAt noIn Precedence.assignment)) ++ .sign ")" :: rest) =
      some (Term.heardAll items, rest) := by
  rw [Term.heardAll_eq]
  refine arguments_read (fun e member => startsOperand_tokensAt (formed e member) _) ?_
  intro e member more stops
  have shorter := length_le_listTokens
    (List.mem_map_of_mem (f := Term.tokensAt noIn Precedence.assignment) member)
  exact (parsed e member).reads Precedence.assignment (by decide) (by decide) (by omega) stops

/-- A call takes what was read before it, and then its arguments. -/
theorem parsed_call {items : List Term} (callee : Parsed noIn t)
    (formed : ∀ e ∈ items, e.isFormed A = true) (parsed : ∀ e ∈ items, Parsed noIn e) :
    Parsed noIn (.call t items) := by
  refine parsed_of_chains rfl fun depth enough => ?_
  simp only [tokens_call, List.length_append, List.length_cons] at enough
  rw [tokens_call]
  obtain ⟨inner, rfl⟩ : ∃ d, depth = d + 1 := ⟨depth - 1, by omega⟩
  exact (callee.member (by omega)).applied (Parsed.arguments formed parsed (by omega))

/-- The arguments go to the word `new` that was read last, which is the one of the construction if
its callee leaves none waiting. -/
theorem parsed_construct {items : List Term} (calleeFormed : t.isFormed A = true)
    (callee : Parsed noIn t) (formed : ∀ e ∈ items, e.isFormed A = true)
    (parsed : ∀ e ∈ items, Parsed noIn e) : Parsed noIn (.construct t items) := by
  refine parsed_of_chains rfl fun depth enough => ?_
  simp only [tokens_construct, List.length_append, List.length_cons] at enough
  rw [tokens_construct]
  obtain ⟨inner, rfl⟩ : ∃ d, depth = d + 1 := ⟨depth - 1, by omega⟩
  have called : Chains (Reader.ofDepth (inner + 1)) t.calleeHeard (t.calleeTokens noIn) :=
    callee.callee calleeFormed (by omega)
  exact (called.applied (Parsed.arguments formed parsed (by omega))).new

theorem map_elementRows (items : List Term) :
    (elementRows items (rowsOf noIn items)).map tokensOf =
      elementTokens (Term.tokensAt noIn Precedence.assignment) items := by
  unfold elementRows elementTokens
  split <;> simp [map_rowsOf]

theorem tokensAt_hole (p : Precedence) (low : p ≤ Precedence.primary) :
    Term.hole.tokensAt noIn p = [] := by
  have notLoose : ¬ Precedence.primary < p := Nat.not_lt.mpr low
  simp [Term.tokensAt, placed, Term.own, notLoose, Term.isInOperation, Term.row]

/-- The elements are read up to the bracket. A hole leaves no token, so a last hole has a comma of
its own. -/
theorem parsed_array {items : List Term} (formed : ∀ e ∈ items, e = .hole ∨ e.isFormed A = true)
    (parsed : ∀ e ∈ items, e = .hole ∨ Parsed noIn e) : Parsed noIn (.array items) := by
  refine parsed_of_primary rfl rfl fun depth enough rest => ?_
  rw [tokens_array, map_elementRows, List.length_cons, List.length_append] at enough
  rw [tokens_array, map_elementRows]
  obtain ⟨inner, rfl⟩ : ∃ d, depth = d + 1 := ⟨depth - 1, by omega⟩
  have counted := length_listTokens
    (elementTokens (Term.tokensAt noIn Precedence.assignment) items)
  have reads : elements (Reader.ofDepth (inner + 1)).assignment
      ((listTokens (elementTokens (Term.tokensAt noIn Precedence.assignment) items) ++
        .sign "]" :: rest).length + 1)
      (listTokens (elementTokens (Term.tokensAt noIn Precedence.assignment) items) ++
        .sign "]" :: rest) = some (items.map Term.asRead, rest) := by
    refine elements_read (tokensAt_hole _ (by decide)) rfl (fun e member => ?_)
      (fun e member => ?_) ?_
    · exact (formed e member).imp id fun isFormed => startsOperand_tokensAt isFormed _
    · refine (parsed e member).imp id fun isParsed more stops => ?_
      have shorter := length_le_listTokens
        (mem_elementTokens (Term.tokensAt noIn Precedence.assignment) member)
      exact isParsed.reads Precedence.assignment (by decide) (by decide) (by omega) stops
    · have few := length_elementTokens (Term.tokensAt noIn Precedence.assignment) items
      rw [List.length_append, List.length_cons]
      omega
  simp only [List.cons_append, List.append_assoc, List.nil_append]
  show primary _ (.sign "[" :: _) = some (.array (Term.heardAll items), rest)
  simp only [primary, Term.heardAll_eq]
  rw [reads]
  rfl

/-- A comma makes a sequence of assignments; one member alone would be read as itself. -/
theorem parsed_sequence {items : List Term} (several : 2 ≤ items.length)
    (parsed : ∀ e ∈ items, Parsed noIn e) : Parsed noIn (.sequence items) := by
  refine parsed_of_leads rfl fun depth enough => ?_
  rw [tokens_sequence] at enough ⊢
  refine leads_of_reads rfl fun rest (stops : Stops 0 rest) => ?_
  have some : items ≠ [] := by
    rintro rfl
    simp at several
  have counted := length_listTokens (items.map (Term.tokensAt noIn Precedence.assignment))
  rw [List.length_map] at counted
  have reads : listed (assignment (Reader.ofDepth depth))
      ((listTokens (items.map (Term.tokensAt noIn Precedence.assignment)) ++ rest).length + 1)
      (listTokens (items.map (Term.tokensAt noIn Precedence.assignment)) ++ rest) =
      .some (items.map Term.asRead, rest) := by
    refine listed_reads some stops (fun e member more moreStops => ?_)
      (by rw [List.length_append]; omega)
    have shorter := length_le_listTokens
      (List.mem_map_of_mem (f := Term.tokensAt noIn Precedence.assignment) member)
    exact (parsed e member).reads Precedence.assignment (by decide) (by decide) (by omega) moreStops
  show expression _ _ = .some (.sequence (Term.heardAll items), rest)
  unfold expression
  rw [reads, Term.heardAll_eq]
  match items, several with
  | first :: second :: others, _ => rfl

/-- Every expression of the language is read from its tokens. -/
theorem Term.parsed (noIn : Bool) (t : Term) (formed : t.isFormed A = true) : Parsed noIn t := by
  induction t with
  | name text =>
    simp only [Term.isFormed, Bool.and_eq_true] at formed
    exact parsed_name (by simpa using formed.2)
  | number value => exact parsed_number value
  | hole => cases formed
  | unary operator e ih =>
    simp only [Term.isFormed, Bool.and_eq_true, List.contains_iff_mem] at formed
    exact parsed_unary formed.1 (ih formed.2)
  | update operator isPrefix e ih =>
    simp only [Term.isFormed, Bool.and_eq_true, List.contains_iff_mem] at formed
    cases isPrefix with
    | true => exact parsed_updateBefore formed.1.1 formed.1.2 (ih formed.2)
    | false => exact parsed_updateAfter formed.1.1 formed.1.2 (ih formed.2)
  | binary operator left right ihLeft ihRight =>
    simp only [Term.isFormed, Bool.and_eq_true] at formed
    have first := ihLeft formed.1.2
    have second := ihRight formed.2
    by_cases isPower : operator = "**"
    · subst isPower
      exact parsed_power first second
    · obtain ⟨q, found⟩ := Option.isSome_iff_exists.mp formed.1.1
      exact parsed_binary found isPower first second
  | assign operator target value ihTarget ihValue =>
    simp only [Term.isFormed, Bool.and_eq_true, List.contains_iff_mem] at formed
    exact parsed_assign formed.1.1.1 formed.1.1.2 (ihTarget formed.1.2) (ihValue formed.2)
  | conditional test consequent alternate ihTest ihYes ihNo =>
    simp only [Term.isFormed, Bool.and_eq_true] at formed
    exact parsed_conditional (ihTest formed.1.1) (ihYes formed.1.2) (ihNo formed.2)
  | sequence items ih =>
    simp only [Term.isFormed, Bool.and_eq_true, decide_eq_true_eq, areFormed_iff] at formed
    exact parsed_sequence formed.1 fun e member => ih e member (formed.2 e member)
  | call callee items ihCallee ih =>
    simp only [Term.isFormed, Bool.and_eq_true, areFormed_iff] at formed
    exact parsed_call (ihCallee formed.1) formed.2
      fun e member => ih e member (formed.2 e member)
  | construct callee items ihCallee ih =>
    simp only [Term.isFormed, Bool.and_eq_true, areFormed_iff] at formed
    exact parsed_construct formed.1 (ihCallee formed.1) formed.2
      fun e member => ih e member (formed.2 e member)
  | dot object property ih =>
    simp only [Term.isFormed, Bool.and_eq_true] at formed
    exact parsed_dot (ih formed.1) property
  | index object key ihObject ihKey =>
    simp only [Term.isFormed, Bool.and_eq_true] at formed
    exact parsed_index (ihObject formed.1) (ihKey formed.2)
  | array items ih =>
    simp only [Term.isFormed, areElements_iff] at formed
    exact parsed_array formed fun e member =>
      (formed e member).imp id fun isFormed => ih e member isFormed

/-! ## Legal expressions -/

variable {depth : Nat} {p : Precedence} {rest : List Token}

/-- A legal expression in its place is read back by the level that the place asks for. -/
theorem Term.reads (noIn : Bool) (p : Precedence) (legal : t.isLegal A = true) (le : p ≤ 16)
    (notConditional : p ≠ 2) (enough : (t.tokensAt noIn p).length ≤ depth) (stops : Stops p rest) :
    level (Reader.ofDepth depth) p (t.tokensAt noIn p ++ rest) = some (t, rest) := by
  have parsed := t.parsed noIn (isFormed_of_isLegal legal)
  rw [parsed.reads p le notConditional enough stops, asRead_of_isLegal legal]

/-- In any place a legal expression is read back as one. -/
theorem Term.reads_anywhere (noIn : Bool) (legal : t.isLegal A = true)
    (enough : (t.tokensAt noIn p).length ≤ depth) (stops : Stops 0 rest) :
    expression (Reader.ofDepth depth) (t.tokensAt noIn p ++ rest) = some (t, rest) := by
  have parsed := t.parsed noIn (isFormed_of_isLegal legal)
  have reads := (parsed.anywhere enough).reads stops
  rwa [asRead_of_isLegal legal] at reads

end Places

end Untangle.Reading
