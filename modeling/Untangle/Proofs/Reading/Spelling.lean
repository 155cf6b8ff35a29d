import Untangle.Print.Precedence
import Untangle.Proofs.Reading.Parser
import Untangle.Proofs.Tree.Fields

/-!
# The spelling of expressions

Which row of glyphs an expression is written as: its tokens and the blanks between them, with
parentheses wherever the place of an expression asks for something tighter. In such a row every token
ends where it should.

* `Term.row` is the row, `placed` the row in a place and `calleeRow` the row after `new`.
* `Term.isFormed` says which expressions the language has.
* `Term.operand` says that the row of such an expression can be read token by token.
-/

namespace Untangle.Reading

open Print (Precedence)

def operatorToken (operator : String) : Token :=
  if wordyOperators.contains operator then .word operator else .sign operator

/-- How tightly an expression holds together. -/
def Term.own : Term → Precedence
  | .name _ | .number _ | .hole | .array _ => Precedence.primary
  | .unary _ _ | .update _ true _ => Precedence.unary
  | .update _ false _ => Precedence.update
  | .binary operator _ _ => (Precedence.ofBinary? operator).getD Precedence.sequence
  | .assign _ _ _ => Precedence.assignment
  | .conditional _ _ _ => Precedence.conditional
  | .sequence _ => Precedence.sequence
  | .call _ _ => Precedence.call
  | .construct _ _ => Precedence.construction
  | .dot _ _ | .index _ _ => Precedence.member

def Term.isInOperation : Term → Bool
  | .binary operator _ _ => operator == "in"
  | _ => false

def Term.isNumber : Term → Bool
  | .number _ => true
  | _ => false

def Term.isHole : Term → Bool
  | .hole => true
  | _ => false

/-- Whether an expression is a call, or a chain of members of one. -/
def Term.isChainOfCall : Term → Bool
  | .call _ _ => true
  | .dot object _ | .index object _ => object.isChainOfCall
  | _ => false

def enclosed (row : List Glyph) : List Glyph :=
  .token (.sign "(") :: row ++ [.token (.sign ")")]

def bracketed (row : List Glyph) : List Glyph :=
  .token (.sign "[") :: row ++ [.token (.sign "]")]

/-- The row of an expression in a place that asks for a precedence. -/
def placed (noIn : Bool) (precedence : Precedence) (t : Term) (row : List Glyph) : List Glyph :=
  if t.own < precedence || (noIn && t.isInOperation) then enclosed row else row

/-- The row of an object before a dot, which would make a fraction of a bare number. -/
def beforeDot (noIn : Bool) (t : Term) (row : List Glyph) : List Glyph :=
  if t.isNumber then enclosed row else placed noIn Precedence.call t row

def opensRow (row : List Glyph) : Bool :=
  row.head? == some (.token (.sign "("))

/-- The row of an expression after `new`. A call in it is put in parentheses together with its members,
unless a parenthesis is at the start already. -/
def calleeRow (noIn : Bool) (t : Term) (row : List Glyph) : List Glyph :=
  let inner := placed noIn Precedence.construction t row
  if t.isChainOfCall && !opensRow inner then enclosed inner else inner

/-- What stands between a unary operator and its operand. -/
def gap (operator : String) (row : List Glyph) : List Glyph :=
  if Precedence.wordOperators.contains operator then [.blank]
  else if (operator = "+" ∨ operator = "-") ∧ operator.toList.isPrefixOf (spell row) then [.blank]
  else []

def separated : List (List Glyph) → List Glyph
  | [] => []
  | [row] => row
  | row :: rest => row ++ .token (.sign ",") :: .blank :: separated rest

/-- The rows of the elements of an array; a hole at the end takes one more comma. -/
def elementRows (items : List Term) (rows : List (List Glyph)) : List (List Glyph) :=
  if items.getLast?.any Term.isHole then rows ++ [[]] else rows

/-- The precedence that an operator asks of its left side. -/
def leftPrecedence (operator : String) : Precedence :=
  if operator = "**" then Precedence.update
  else (Precedence.ofBinary? operator).getD Precedence.sequence

/-- The precedence that an operator asks of its right side. -/
def rightPrecedence (operator : String) : Precedence :=
  let own := (Precedence.ofBinary? operator).getD Precedence.sequence
  if operator = "**" then own else own + 1

/-- An operator with blanks around it. -/
def spaced (token : Token) : List Glyph :=
  [.blank, .token token, .blank]

mutual

/-- The row of glyphs that an expression is written as. -/
def Term.row (noIn : Bool) : Term → List Glyph
  | .name text => [.token (.word text)]
  | .number value => [.token (.number value)]
  | .hole => []
  | .unary operator e =>
    let inner := placed noIn Precedence.unary e (e.row noIn)
    .token (operatorToken operator) :: gap operator inner ++ inner
  | .update operator true e =>
    .token (.sign operator) :: placed noIn Precedence.unary e (e.row noIn)
  | .update operator false e =>
    placed noIn Precedence.update e (e.row noIn) ++ [.token (.sign operator)]
  | .binary operator left right =>
    placed noIn (leftPrecedence operator) left (left.row noIn) ++ spaced (operatorToken operator) ++
      placed noIn (rightPrecedence operator) right (right.row noIn)
  | .assign operator target value =>
    placed noIn Precedence.call target (target.row noIn) ++ spaced (.sign operator) ++
      placed noIn Precedence.assignment value (value.row noIn)
  | .conditional test consequent alternate =>
    placed noIn Precedence.logicalOr test (test.row noIn) ++ spaced (.sign "?") ++
      placed noIn Precedence.assignment consequent (consequent.row noIn) ++ spaced (.sign ":") ++
      placed noIn Precedence.assignment alternate (alternate.row noIn)
  | .sequence items => separated (rowsOf noIn items)
  | .call callee items =>
    placed noIn Precedence.call callee (callee.row noIn) ++ enclosed (separated (rowsOf noIn items))
  | .construct callee items =>
    .token (.word "new") :: [.blank] ++ (calleeRow noIn callee (callee.row noIn) ++
      enclosed (separated (rowsOf noIn items)))
  | .dot object property =>
    beforeDot noIn object (object.row noIn) ++ [.token (.sign "."), .token (.word property)]
  | .index object key =>
    placed noIn Precedence.call object (object.row noIn) ++
      bracketed (placed noIn Precedence.sequence key (key.row noIn))
  | .array items => bracketed (separated (elementRows items (rowsOf noIn items)))

/-- The rows of the members of a comma list. -/
def rowsOf (noIn : Bool) : List Term → List (List Glyph)
  | [] => []
  | t :: rest => placed noIn Precedence.assignment t (t.row noIn) :: rowsOf noIn rest

end

/-! ## Expressions of the language -/

mutual

/-- Whether the expression is one that the language has: its names are words, its operators are known
and what is assigned to can be. -/
def Term.isFormed (A : Alphabet) : Term → Bool
  | .name text => isWord A text && !reserved.contains text
  | .number _ => true
  | .hole => false
  | .unary operator e => unaryOperators.contains operator && e.isFormed A
  | .update operator _ e => updateOperators.contains operator && e.isTarget && e.isFormed A
  | .binary operator left right =>
    (Precedence.ofBinary? operator).isSome && left.isFormed A && right.isFormed A
  | .assign operator target value =>
    assignOperators.contains operator && target.isTarget && target.isFormed A && value.isFormed A
  | .conditional test consequent alternate =>
    test.isFormed A && consequent.isFormed A && alternate.isFormed A
  | .sequence items => decide (2 ≤ items.length) && areFormed A items
  | .call callee items | .construct callee items => callee.isFormed A && areFormed A items
  | .dot object property => object.isFormed A && isWord A property
  | .index object key => object.isFormed A && key.isFormed A
  | .array items => areElements A items

def areFormed (A : Alphabet) : List Term → Bool
  | [] => true
  | t :: rest => t.isFormed A && areFormed A rest

/-- Whether the language has them all, but for holes. -/
def areElements (A : Alphabet) : List Term → Bool
  | [] => true
  | t :: rest => (t.isHole || t.isFormed A) && areElements A rest

end

theorem areFormed_iff {A : Alphabet} {items : List Term} :
    areFormed A items = true ↔ ∀ t ∈ items, t.isFormed A = true := by
  induction items with
  | nil => simp [areFormed]
  | cons t rest ih => simp [areFormed, ih]

theorem areElements_iff {A : Alphabet} {items : List Term} :
    areElements A items = true ↔ ∀ t ∈ items, t = .hole ∨ t.isFormed A = true := by
  have isHole : ∀ t : Term, t.isHole = true ↔ t = .hole := by
    intro t
    cases t <;> simp [Term.isHole]
  induction items with
  | nil => simp [areElements]
  | cons t rest ih => simp [areElements, ih, isHole]

theorem rowsOf_eq (noIn : Bool) (items : List Term) :
    rowsOf noIn items = items.map fun t => placed noIn Precedence.assignment t (t.row noIn) := by
  induction items with
  | nil => rfl
  | cons t rest ih => rw [rowsOf, ih, List.map_cons]

/-! ## Rows in which every token ends where it should -/

def Token.opens : Token → Bool
  | .word _ | .number _ => true
  | .sign text => ["(", "[", "-", "+", "!", "~", "++", "--"].contains text

def Token.closes : Token → Bool
  | .word _ | .number _ => true
  | .sign text => [")", "]", "++", "--"].contains text

/-- A row that can be read token by token. -/
structure Legible (A : Alphabet) (row : List Glyph) : Prop where
  valid : ∀ t, .token t ∈ row → t.isValid A = true
  clear : row.IsChain (Clear A)

/-- A legible row that starts and ends like an operand. -/
structure Tidy (A : Alphabet) (row : List Glyph) : Prop extends Legible A row where
  opens : ∀ g ∈ row.head?, ∃ t, g = .token t ∧ t.opens = true
  closes : ∀ g ∈ row.getLast?, ∃ t, g = .token t ∧ t.closes = true

/-- The row of an operand. -/
structure Operand (A : Alphabet) (row : List Glyph) : Prop extends Tidy A row where
  nonempty : row ≠ []

section Tidiness

variable {A : Alphabet} {row more : List Glyph}

/-- Legible rows can be put side by side if the glyphs that meet there are read apart. -/
theorem Legible.append (first : Legible A row) (second : Legible A more)
    (meet : ∀ g ∈ row.getLast?, ∀ next ∈ more.head?, Clear A g next) : Legible A (row ++ more) where
  valid t member := (List.mem_append.mp member).elim (first.valid t) (second.valid t)
  clear := List.isChain_append.mpr ⟨first.clear, second.clear, meet⟩

theorem Legible.cons {t : Token} (valid : t.isValid A = true) (rest : Legible A row)
    (meet : ∀ next ∈ row.head?, Clear A (.token t) next) : Legible A (.token t :: row) := by
  show Legible A ([.token t] ++ row)
  refine Legible.append ⟨fun other member => ?_, List.isChain_singleton _⟩ rest ?_
  · obtain rfl : other = t := by simpa using member
    exact valid
  · intro g isLast next isHead
    obtain rfl : g = .token t := by simpa [eq_comm] using isLast
    exact meet next isHead

theorem Legible.blank (rest : Legible A row) : Legible A (.blank :: row) := by
  show Legible A ([.blank] ++ row)
  refine Legible.append ⟨by simp, List.isChain_singleton _⟩ rest ?_
  intro g isLast next _
  obtain rfl : g = .blank := by simpa [eq_comm] using isLast
  trivial

theorem Legible.single {t : Token} (valid : t.isValid A = true) : Legible A [.token t] :=
  Legible.cons valid ⟨by simp, List.isChain_nil⟩ (by simp)

/-- A character that would make a sign longer is a character of a sign. -/
theorem mem_of_follower {sign : String} {c : Char} (follows : c ∈ followers sign) :
    ∃ longer ∈ signs, c ∈ longer.toList := by
  obtain ⟨longer, known, found⟩ := List.mem_filterMap.mp follows
  split at found
  · exact ⟨longer, known, List.mem_of_getElem? found⟩
  · cases found

/-- A blank ends every token. -/
theorem clear_blank (t : Token) : Clear A (.token t) .blank := by
  intro c isHead
  obtain rfl : c = ' ' := by simpa [Glyph.chars, eq_comm] using isHead
  have notPart : A.isPart ' ' = false := A.not_part_of_sign (by decide)
  cases t with
  | word text => simp [Token.endsBefore, notPart]
  | number n => simp [Token.endsBefore, continuesNumber, notPart]
  | sign text =>
    have notFollower : ' ' ∉ followers text := by
      intro follows
      obtain ⟨longer, known, member⟩ := mem_of_follower follows
      exact absurd (not_blank_of_sign longer known ' ' member) (by decide)
    have notDigit : Char.isDigit ' ' = false := rfl
    simp [Token.endsBefore, notFollower, continuesSign, notDigit]

/-- A sign that starts no longer sign ends before everything. -/
theorem clear_sign {text : String} (last : followers text = []) (plain : text ≠ "/" ∧ text ≠ ".")
    (next : Glyph) : Clear A (.token (.sign text)) next := by
  intro c _
  simp [Token.endsBefore, last, continuesSign, plain]

/-- A sign starts with a character of signs. -/
theorem head_sign {text : String} {c : Char} (known : text ∈ signs)
    (isHead : c ∈ (Glyph.token (.sign text)).chars.head?) : c ∈ signChars :=
  mem_signChars known (List.mem_of_mem_head? isHead)

/-- A word ends before every sign. -/
theorem clear_word {text sign : String} (known : sign ∈ signs) :
    Clear A (.token (.word text)) (.token (.sign sign)) := by
  intro c isHead
  simp [Token.endsBefore, A.not_part_of_sign (head_sign known isHead)]

/-- The end of an operand ends before every sign but a dot. -/
theorem clear_closing {t : Token} (closes : t.closes = true) {sign : String} (known : sign ∈ signs)
    (notDot : '.' ∉ sign.toList.head?) : Clear A (.token t) (.token (.sign sign)) := by
  cases t with
  | word text => exact clear_word known
  | number n =>
    intro c isHead
    have other : c ≠ '.' := by
      rintro rfl
      exact notDot isHead
    simp [Token.endsBefore, continuesNumber, other, A.not_part_of_sign (head_sign known isHead)]
  | sign text =>
    have closers : ∀ closer ∈ [")", "]", "++", "--"],
        followers closer = [] ∧ closer ≠ "/" ∧ closer ≠ "." := by
      decide
    obtain ⟨last, plain⟩ := closers text (List.contains_iff_mem.mp closes)
    exact clear_sign last plain _

/-- A row that ends tidily is read apart from a sign, unless that sign is a dot. -/
theorem Tidy.clear_before (tidy : Tidy A row) {sign : String} (known : sign ∈ signs)
    (notDot : '.' ∉ sign.toList.head?) (g : Glyph) (isLast : g ∈ row.getLast?) :
    Clear A g (.token (.sign sign)) := by
  obtain ⟨t, rfl, closes⟩ := tidy.closes g isLast
  exact clear_closing closes known notDot

/-- A row that ends like an operand, followed by a sign and the rest. -/
theorem Tidy.then_sign (tidy : Tidy A row) {sign : String} (known : sign ∈ signs)
    (notDot : '.' ∉ sign.toList.head?) (rest : Legible A (.token (.sign sign) :: more)) :
    Legible A (row ++ .token (.sign sign) :: more) := by
  refine tidy.append rest fun g isLast next isNext => ?_
  obtain rfl : next = .token (.sign sign) := by simpa [eq_comm] using isNext
  exact tidy.clear_before known notDot g isLast

/-- A blank may follow anything, and anything may follow a blank. -/
theorem Tidy.then_blank (tidy : Tidy A row) (rest : Legible A more) :
    Legible A (row ++ .blank :: more) := by
  refine tidy.append rest.blank fun g isLast next isNext => ?_
  obtain ⟨t, rfl, -⟩ := tidy.closes g isLast
  obtain rfl : next = .blank := by simpa [eq_comm] using isNext
  exact clear_blank t

/-- An operand, an operator with blanks around it, and an operand. -/
theorem Tidy.then_spaced (tidy : Tidy A row) {t : Token} (valid : t.isValid A = true)
    (rest : Legible A more) : Legible A (row ++ spaced t ++ more) := by
  rw [List.append_assoc]
  refine tidy.then_blank (Legible.cons valid rest.blank fun next isNext => ?_)
  obtain rfl : next = .blank := by simpa [eq_comm] using isNext
  exact clear_blank t

theorem head?_append_of_head {g : Glyph} (isHead : g ∈ (row ++ more).head?) (nonempty : row ≠ []) :
    g ∈ row.head? := by
  rwa [List.head?_append_of_ne_nil _ nonempty] at isHead

theorem getLast?_append_of_last {g : Glyph} (isLast : g ∈ (row ++ more).getLast?)
    (nonempty : more ≠ []) : g ∈ more.getLast? := by
  rwa [List.getLast?_append_of_ne_nil _ nonempty] at isLast

/-- A legible row that starts with one operand and ends with another. -/
theorem Operand.between (first : Operand A row) {middle : List Glyph} (last : Operand A more)
    (legible : Legible A (row ++ middle ++ more)) : Operand A (row ++ middle ++ more) where
  toLegible := legible
  opens g isHead := by
    rw [List.append_assoc] at isHead
    exact first.opens g (head?_append_of_head isHead first.nonempty)
  closes g isLast := last.closes g (getLast?_append_of_last isLast last.nonempty)
  nonempty := by simp [first.nonempty]

/-- A legible row that starts with a token and ends with an operand. -/
theorem Operand.before {t : Token} (opens : t.opens = true) (last : Operand A more)
    (legible : Legible A (.token t :: row ++ more)) : Operand A (.token t :: row ++ more) where
  toLegible := legible
  opens g isHead := ⟨t, by simpa [eq_comm] using isHead, opens⟩
  closes g isLast := last.closes g (getLast?_append_of_last isLast last.nonempty)
  nonempty := by simp

/-- A legible row that starts with an operand and ends with a token. -/
theorem Operand.after {t : Token} (closes : t.closes = true) (first : Operand A row)
    (legible : Legible A (row ++ (more ++ [.token t]))) : Operand A (row ++ (more ++ [.token t])) where
  toLegible := legible
  opens g isHead := first.opens g (head?_append_of_head isHead first.nonempty)
  closes g isLast := by
    rw [← List.append_assoc] at isLast
    exact ⟨t, by simpa [eq_comm] using getLast?_append_of_last isLast (by simp), closes⟩
  nonempty := by simp

theorem Operand.single {t : Token} (valid : t.isValid A = true) (opens : t.opens = true)
    (closes : t.closes = true) : Operand A [.token t] where
  toLegible := Legible.single valid
  opens g isHead := ⟨t, by simpa [eq_comm] using isHead, opens⟩
  closes g isLast := ⟨t, by simpa [eq_comm] using isLast, closes⟩
  nonempty := by simp

/-- Operands that are read apart make an operand. -/
theorem Operand.append (first : Operand A row) (second : Operand A more)
    (meet : ∀ g ∈ row.getLast?, ∀ next ∈ more.head?, Clear A g next) : Operand A (row ++ more) where
  toLegible := first.toLegible.append second.toLegible meet
  opens g isHead := first.opens g (head?_append_of_head isHead first.nonempty)
  closes g isLast := second.closes g (getLast?_append_of_last isLast second.nonempty)
  nonempty := by simp [first.nonempty]

/-- Two operands with an operator between them. -/
theorem Operand.spaced (first : Operand A row) {t : Token} (valid : t.isValid A = true)
    (last : Operand A more) : Operand A (row ++ spaced t ++ more) :=
  first.between last (first.then_spaced valid last.toLegible)

/-- Parentheses make an operand of every legible row that ends before the closing one. -/
theorem Operand.enclosed (legible : Legible A row)
    (ends : ∀ g ∈ row.getLast?, Clear A g (.token (.sign ")"))) : Operand A (enclosed row) where
  toLegible := by
    refine Legible.cons rfl (legible.append (Legible.single rfl) ?_) fun next _ =>
      clear_sign (by decide) (by decide) next
    intro g isLast next isNext
    obtain rfl : next = .token (.sign ")") := by simpa [eq_comm] using isNext
    exact ends g isLast
  opens g isHead := ⟨.sign "(", by simpa [Reading.enclosed, eq_comm] using isHead, rfl⟩
  closes g isLast :=
    ⟨.sign ")", by simpa [eq_comm] using getLast?_append_of_last isLast (by simp), rfl⟩
  nonempty := by simp [Reading.enclosed]

theorem Operand.bracketed (legible : Legible A row)
    (ends : ∀ g ∈ row.getLast?, Clear A g (.token (.sign "]"))) : Operand A (bracketed row) where
  toLegible := by
    refine Legible.cons rfl (legible.append (Legible.single rfl) ?_) fun next _ =>
      clear_sign (by decide) (by decide) next
    intro g isLast next isNext
    obtain rfl : next = .token (.sign "]") := by simpa [eq_comm] using isNext
    exact ends g isLast
  opens g isHead := ⟨.sign "[", by simpa [Reading.bracketed, eq_comm] using isHead, rfl⟩
  closes g isLast :=
    ⟨.sign "]", by simpa [eq_comm] using getLast?_append_of_last isLast (by simp), rfl⟩
  nonempty := by simp [Reading.bracketed]

/-- With or without parentheses an operand is one. -/
theorem Operand.placed (operand : Operand A row) (noIn : Bool) (precedence : Precedence) (t : Term) :
    Operand A (placed noIn precedence t row) := by
  unfold Reading.placed
  split
  · exact Operand.enclosed operand.toLegible (operand.clear_before (by decide) (by decide))
  · exact operand

/-- The end of a comma list: the end of its last member, or the blank before a missing one. -/
theorem separated_legible {rows : List (List Glyph)} (tidy : ∀ row ∈ rows, Tidy A row) :
    Legible A (separated rows) ∧ ∀ g ∈ (separated rows).getLast?,
      g = .blank ∨ ∃ t, g = .token t ∧ t.closes = true := by
  induction rows using separated.induct with
  | case1 => exact ⟨⟨by simp [separated], List.isChain_nil⟩, by simp [separated]⟩
  | case2 row =>
    have single := tidy row (by simp)
    exact ⟨single.toLegible, fun g isLast => Or.inr (single.closes g isLast)⟩
  | case3 row rest several ih =>
    obtain ⟨legible, ends⟩ := ih fun other member => tidy other (by simp [member])
    have comma : Legible A (.token (.sign ",") :: .blank :: separated rest) :=
      Legible.cons rfl legible.blank fun next _ => clear_sign (by decide) (by decide) next
    rw [separated]
    · refine ⟨(tidy row (by simp)).then_sign (by decide) (by decide) comma, fun g isLast => ?_⟩
      have isLast := getLast?_append_of_last isLast (by simp)
      cases tail : separated rest with
      | nil => exact Or.inl (by simpa [tail, eq_comm] using isLast)
      | cons next others =>
        rw [tail] at isLast ends
        exact ends g (by simpa using isLast)
    · exact several

/-- A comma list of operands is like an operand. -/
theorem separated_operand {rows : List (List Glyph)} (some : rows ≠ [])
    (operands : ∀ row ∈ rows, Operand A row) : Operand A (separated rows) := by
  induction rows using separated.induct with
  | case1 => exact absurd rfl some
  | case2 row => exact operands row (by simp)
  | case3 row rest several ih =>
    have later := ih (fun none => several none) fun other member => operands other (by simp [member])
    have legible := (separated_legible fun row member => (operands row member).toTidy).1
    have whole : separated (row :: rest) = row ++ [.token (.sign ","), .blank] ++ separated rest := by
      rw [separated, List.append_assoc]
      · rfl
      · exact several
    rw [whole] at legible ⊢
    exact (operands row (by simp)).between later legible

end Tidiness

/-! ## Rows of expressions -/

section Rows

variable {A : Alphabet}

/-- Letters start and continue words in every alphabet. -/
theorem isWord_of_letters {text : String} (nonempty : text.toList ≠ [])
    (letters : text.toList.all Char.isAlpha = true) : isWord A text = true := by
  unfold isWord
  cases chars : text.toList with
  | nil => exact absurd chars nonempty
  | cons c rest =>
    rw [chars, List.all_cons, Bool.and_eq_true] at letters
    simp only [A.start_of_alpha letters.1, Bool.true_and, List.all_eq_true]
    intro d member
    exact A.part_of_start (A.start_of_alpha (List.all_eq_true.mp letters.2 d member))

/-- The operators of expressions are signs or words. -/
theorem operatorToken_valid {operator : String}
    (known : operator ∈ unaryOperators ∨ (Precedence.ofBinary? operator).isSome = true) :
    (operatorToken operator).isValid A = true := by
  have listed : operator ∈ wordyOperators ++ signs := by
    rcases known with isUnary | isBinary
    · have within : ∀ text ∈ unaryOperators, text ∈ wordyOperators ++ signs := by decide
      exact within operator isUnary
    · obtain ⟨precedence, found⟩ := Option.isSome_iff_exists.mp isBinary
      have within : ∀ entry ∈ Precedence.binaryTable, entry.1 ∈ wordyOperators ++ signs := by
        decide
      exact within _ (Fields.mem_of_lookup found)
  unfold operatorToken
  split
  · rename_i wordy
    have letters : ∀ word ∈ wordyOperators, word.toList ≠ [] ∧ word.toList.all Char.isAlpha = true := by
      decide
    obtain ⟨nonempty, all⟩ := letters operator (List.contains_iff_mem.mp wordy)
    exact isWord_of_letters nonempty all
  · rename_i notWordy
    rw [List.contains_iff_mem] at notWordy
    exact List.contains_iff_mem.mpr ((List.mem_append.mp listed).resolve_left notWordy)

/-- An operator between two operands binds less tightly than a prefix operator. -/
theorem own_binary (operator : String) (left right : Term) :
    (Term.binary operator left right).own ≤ Precedence.exponent := by
  have bounded : ∀ entry ∈ Precedence.binaryTable, entry.2 ≤ Precedence.exponent := by decide
  cases found : Precedence.ofBinary? operator with
  | none => simp [Term.own, found, Precedence.sequence]
  | some precedence => simpa [Term.own, found] using bounded _ (Fields.mem_of_lookup found)

/-- What a primary expression, a call or a member ends with if it is no number. -/
theorem last_before_dot {noIn : Bool} {t : Term} (formed : t.isFormed A = true)
    (notNumber : t.isNumber = false) (tight : Precedence.call ≤ t.own) :
    ∀ g ∈ (t.row noIn).getLast?, (∃ text, g = .token (.word text)) ∨ g = .token (.sign ")") ∨
      g = .token (.sign "]") := by
  intro g isLast
  cases t with
  | name text => exact Or.inl ⟨text, by simpa [Term.row, eq_comm] using isLast⟩
  | number value => simp [Term.isNumber] at notNumber
  | hole => simp [Term.isFormed] at formed
  | call callee items =>
    rw [Term.row, enclosed] at isLast
    have isLast := getLast?_append_of_last isLast (by simp)
    exact Or.inr (Or.inl (by simpa [eq_comm] using getLast?_append_of_last isLast (by simp)))
  | construct callee items =>
    rw [Term.row, enclosed, ← List.append_assoc] at isLast
    have isLast := getLast?_append_of_last isLast (by simp)
    exact Or.inr (Or.inl (by simpa [eq_comm] using getLast?_append_of_last isLast (by simp)))
  | dot object property =>
    rw [Term.row] at isLast
    exact Or.inl ⟨property, by simpa [eq_comm] using getLast?_append_of_last isLast (by simp)⟩
  | index object key =>
    rw [Term.row, bracketed] at isLast
    have isLast := getLast?_append_of_last isLast (by simp)
    exact Or.inr (Or.inr (by simpa [eq_comm] using getLast?_append_of_last isLast (by simp)))
  | array items =>
    rw [Term.row] at isLast
    exact Or.inr (Or.inr (by simpa [eq_comm] using getLast?_append_of_last isLast (by simp)))
  | binary operator left right =>
    have loose := own_binary operator left right
    exact absurd (Nat.le_trans tight loose) (by decide)
  | unary operator e => exact absurd tight (by simp only [Term.own]; decide)
  | update operator isPrefix e =>
    cases isPrefix <;> exact absurd tight (by simp only [Term.own]; decide)
  | assign operator target value => exact absurd tight (by simp only [Term.own]; decide)
  | conditional test consequent alternate => exact absurd tight (by simp only [Term.own]; decide)
  | sequence items => exact absurd tight (by simp only [Term.own]; decide)

/-- A dot follows an object without making a fraction of it. -/
theorem clear_dot {noIn : Bool} {t : Term} (formed : t.isFormed A = true) :
    ∀ g ∈ (beforeDot noIn t (t.row noIn)).getLast?, Clear A g (.token (.sign ".")) := by
  have parenthesis : ∀ row, ∀ g ∈ (enclosed row).getLast?, Clear A g (.token (.sign ".")) := by
    intro row g isLast
    rw [enclosed] at isLast
    obtain rfl : g = .token (.sign ")") := by
      simpa [eq_comm] using getLast?_append_of_last isLast (by simp)
    exact clear_sign (by decide) (by decide) _
  intro g isLast
  unfold beforeDot at isLast
  split at isLast
  · exact parenthesis _ g isLast
  · rename_i notNumber
    unfold placed at isLast
    split at isLast
    · exact parenthesis _ g isLast
    · rename_i stands
      simp only [Bool.or_eq_true, decide_eq_true_eq, not_or, Nat.not_lt] at stands
      rcases last_before_dot formed (by simpa using notNumber) stands.1 g isLast with
        ⟨text, rfl⟩ | rfl | rfl
      · exact clear_word (by decide)
      · exact clear_sign (by decide) (by decide) _
      · exact clear_sign (by decide) (by decide) _

/-- The first character of an operand is no equals sign. -/
theorem head_of_opens {t : Token} (valid : t.isValid A = true) (opens : t.opens = true) {c : Char}
    (isHead : c ∈ t.chars.head?) : c ≠ '=' := by
  rcases head_of_valid valid isHead with isPart | ⟨text, rfl, -, -⟩
  · rintro rfl
    rw [A.not_part_of_sign (by decide)] at isPart
    cases isPart
  · have openers : ∀ text ∈ ["(", "[", "-", "+", "!", "~", "++", "--"],
        text.toList.head? ≠ some '=' := by
      decide
    rintro rfl
    exact openers text (List.contains_iff_mem.mp opens) isHead

/-- A sign before an operand that does not start with that sign ends there. -/
theorem clear_operator {operator : String} (known : operator ∈ ["-", "+", "!", "~"]) {row : List Glyph}
    (tidy : Tidy A row) (noGap : gap operator row = []) :
    ∀ next ∈ row.head?, Clear A (.token (.sign operator)) next := by
  intro next isNext c isHead
  obtain ⟨t, rfl, opens⟩ := tidy.opens next isNext
  obtain ⟨more, rfl⟩ := List.head?_eq_some_iff.mp isNext
  have notEquals := head_of_opens (tidy.valid t (by simp)) opens isHead
  have starts : (spell (.token t :: more)).head? = some c := by
    rw [spell_cons, Glyph.chars,
      List.head?_append_of_ne_nil _ (chars_ne_nil (tidy.valid t (by simp)))]
    exact isHead
  have longer : ∀ op ∈ ["-", "+", "!", "~"], op ≠ "/" ∧ op ≠ "." ∧
      (followers op).all (fun d => d = '=' ∨ (op = "+" ∨ op = "-") ∧ op.toList = [d]) = true := by
    decide
  obtain ⟨notSlash, notDot, all⟩ := longer operator known
  have follow : ∀ d ∈ followers operator,
      d = '=' ∨ (operator = "+" ∨ operator = "-") ∧ operator.toList = [d] := by
    simpa only [List.all_eq_true, decide_eq_true_eq] using all
  have notFollower : c ∉ followers operator := by
    intro follows
    rcases follow c follows with isEquals | ⟨isSign, chars⟩
    · exact notEquals isEquals
    · obtain ⟨tail, spelled⟩ := List.head?_eq_some_iff.mp starts
      simp [gap, isSign, chars, spelled] at noGap
  simp [Token.endsBefore, notFollower, continuesSign, notSlash, notDot]

/-- After a sign stands a blank if the operand would make the sign longer, and after a word always.
-/
theorem unary_operand {operator : String} (known : operator ∈ unaryOperators) {row : List Glyph}
    (operand : Operand A row) :
    Operand A (.token (operatorToken operator) :: gap operator row ++ row) := by
  have valid : (operatorToken operator).isValid A = true := operatorToken_valid (Or.inl known)
  have kinds : ∀ op ∈ unaryOperators, (operatorToken op).opens = true ∧
      (Precedence.wordOperators.contains op = true ∨
        op ∈ ["-", "+", "!", "~"] ∧ operatorToken op = .sign op) := by
    decide
  obtain ⟨opens, kind⟩ := kinds operator known
  refine Operand.before opens operand ?_
  have noGap : gap operator row = [] ∨ gap operator row = [.blank] := by
    unfold gap
    split
    · exact Or.inr rfl
    · split
      · exact Or.inr rfl
      · exact Or.inl rfl
  rcases noGap with none | some
  · rcases kind with isWord | ⟨isSign, isToken⟩
    · rw [gap, if_pos isWord] at none
      cases none
    · rw [isToken] at valid ⊢
      rw [none]
      exact Legible.cons valid operand.toLegible (clear_operator isSign operand.toTidy none)
  · rw [some]
    refine Legible.cons valid operand.toLegible.blank fun next isNext => ?_
    obtain rfl : next = .blank := by simpa [eq_comm] using isNext
    exact clear_blank _

theorem update_tokens : ∀ operator ∈ updateOperators, operator ∈ signs ∧
    (Token.sign operator).opens = true ∧ (Token.sign operator).closes = true ∧
    '.' ∉ operator.toList.head? ∧ followers operator = [] ∧ operator ≠ "/" ∧ operator ≠ "." := by
  decide

/-- A word starts with a character that starts words. -/
theorem isStart_of_word {text : String} (isWord : isWord A text = true) {c : Char}
    (isHead : c ∈ text.toList.head?) : A.isStart c = true := by
  unfold Reading.isWord at isWord
  obtain ⟨rest, chars⟩ := List.head?_eq_some_iff.mp isHead
  simp only [chars, Bool.and_eq_true] at isWord
  exact isWord.1

/-- A dot and the name after it. -/
theorem member_legible {property : String} (isProperty : isWord A property = true) :
    Legible A [.token (.sign "."), .token (.word property)] := by
  refine Legible.cons rfl (Legible.single isProperty) fun next isNext c isHead => ?_
  obtain rfl : next = .token (.word property) := by simpa [eq_comm] using isNext
  have starts := isStart_of_word isProperty isHead
  have notDot : c ∉ signChars := by
    intro isSign
    rw [not_start_of_signChar isSign] at starts
    cases starts
  have notDigit : c.isDigit = false := by
    cases isDigit : c.isDigit with
    | false => rfl
    | true => rw [A.not_start_of_digit isDigit] at starts; cases starts
  have notFollower : c ∉ followers "." := by
    intro follows
    obtain ⟨longer, known, member⟩ := mem_of_follower follows
    exact notDot (mem_signChars known member)
  simp [Token.endsBefore, continuesSign, notFollower, notDigit]

/-- A number is enclosed before the dot, so the dot is read apart from what stands before it. -/
theorem dot_operand {noIn : Bool} {object : Term} {property : String}
    (operand : Operand A (object.row noIn)) (formed : object.isFormed A = true)
    (isProperty : isWord A property = true) :
    Operand A ((Term.dot object property).row noIn) := by
  have objectOperand : Operand A (beforeDot noIn object (object.row noIn)) := by
    unfold beforeDot
    split
    · exact Operand.enclosed operand.toLegible (operand.clear_before (by decide) (by decide))
    · exact operand.placed noIn _ object
  show Operand A (beforeDot noIn object (object.row noIn) ++
    ([.token (.sign ".")] ++ [.token (.word property)]))
  refine Operand.after rfl objectOperand ?_
  refine objectOperand.toLegible.append (member_legible isProperty) fun g isLast next isNext => ?_
  obtain rfl : next = .token (.sign ".") := by simpa [eq_comm] using isNext
  exact clear_dot formed g isLast

theorem rowsOf_operands {noIn : Bool} {items : List Term}
    (operands : ∀ t ∈ items, Operand A (t.row noIn)) : ∀ row ∈ rowsOf noIn items, Operand A row := by
  rw [rowsOf_eq]
  intro row member
  obtain ⟨t, isItem, rfl⟩ := List.mem_map.mp member
  exact (operands t isItem).placed noIn _ t

/-- A comma list in brackets ends before the closing one. -/
theorem clear_listEnd {rows : List (List Glyph)} (tidy : ∀ row ∈ rows, Tidy A row) {sign : String}
    (known : sign ∈ signs) (notDot : '.' ∉ sign.toList.head?) :
    ∀ g ∈ (separated rows).getLast?, Clear A g (.token (.sign sign)) := by
  intro g isLast
  rcases (separated_legible tidy).2 g isLast with rfl | ⟨t, rfl, closes⟩
  · trivial
  · exact clear_closing closes known notDot

/-- A comma list of operands in parentheses. -/
theorem enclosedList_operand {rows : List (List Glyph)} (operands : ∀ row ∈ rows, Operand A row) :
    Operand A (enclosed (separated rows)) := by
  have tidy : ∀ row ∈ rows, Tidy A row := fun row member => (operands row member).toTidy
  exact Operand.enclosed (separated_legible tidy).1 (clear_listEnd tidy (by decide) (by decide))

/-- An operand with an argument list behind it. -/
theorem applied_operand {noIn : Bool} {row : List Glyph} (first : Operand A row) {items : List Term}
    (operands : ∀ t ∈ items, Operand A (t.row noIn)) :
    Operand A (row ++ enclosed (separated (rowsOf noIn items))) := by
  refine first.append (enclosedList_operand (rowsOf_operands operands)) fun g isLast next isNext => ?_
  obtain rfl : next = .token (.sign "(") := by simpa [enclosed, eq_comm] using isNext
  exact first.clear_before (by decide) (by decide) g isLast

/-- What is called stays an operand, with or without parentheses. -/
theorem callee_operand {row : List Glyph} (operand : Operand A row) (noIn : Bool) (t : Term) :
    Operand A (calleeRow noIn t row) := by
  have inner := operand.placed noIn Precedence.construction t
  unfold calleeRow
  dsimp only
  split
  · exact Operand.enclosed inner.toLegible (inner.clear_before (by decide) (by decide))
  · exact inner

/-- The elements of an array, where holes leave nothing. -/
theorem elements_operand {noIn : Bool} {items : List Term}
    (operands : ∀ t ∈ items, t = .hole ∨ Operand A (t.row noIn)) :
    Operand A (bracketed (separated (elementRows items (rowsOf noIn items)))) := by
  have nil : Tidy A [] := ⟨⟨by simp, List.isChain_nil⟩, by simp, by simp⟩
  have each : ∀ row ∈ rowsOf noIn items, Tidy A row := by
    rw [rowsOf_eq]
    intro row member
    obtain ⟨t, isItem, rfl⟩ := List.mem_map.mp member
    rcases operands t isItem with rfl | operand
    · cases noIn <;> exact nil
    · exact (operand.placed noIn _ t).toTidy
  have tidy : ∀ row ∈ elementRows items (rowsOf noIn items), Tidy A row := by
    unfold elementRows
    split
    · intro row member
      rcases List.mem_append.mp member with isRow | isEmpty
      · exact each row isRow
      · rw [List.mem_singleton.mp isEmpty]
        exact nil
    · exact each
  exact Operand.bracketed (separated_legible tidy).1 (clear_listEnd tidy (by decide) (by decide))

/-- An update operator is read apart from its operand on either side, since no sign is longer. -/
theorem update_operand {operator : String} (known : operator ∈ updateOperators) (isPrefix noIn : Bool)
    {e : Term} (operand : Operand A (e.row noIn)) :
    Operand A ((Term.update operator isPrefix e).row noIn) := by
  obtain ⟨isSign, opens, closes, notDot, last, plain⟩ := update_tokens operator known
  have valid : (Token.sign operator).isValid A = true := List.contains_iff_mem.mpr isSign
  cases isPrefix with
  | true =>
    have inner := operand.placed noIn Precedence.unary e
    show Operand A (.token (.sign operator) :: [] ++ placed noIn Precedence.unary e (e.row noIn))
    exact Operand.before opens inner
      (Legible.cons valid inner.toLegible fun next _ => clear_sign last plain next)
  | false =>
    have inner := operand.placed noIn Precedence.update e
    show Operand A (placed noIn Precedence.update e (e.row noIn) ++ ([] ++ [.token (.sign operator)]))
    exact Operand.after closes inner (inner.then_sign isSign notDot (Legible.single valid))

/-- The word `new` is set off by a blank. -/
theorem new_operand {row : List Glyph} (operand : Operand A row) :
    Operand A (.token (.word "new") :: [.blank] ++ row) := by
  have isWord : isWord A "new" = true := isWord_of_letters (by decide) (by decide)
  refine Operand.before rfl operand (Legible.cons isWord operand.toLegible.blank ?_)
  intro next isNext
  obtain rfl : next = .blank := by simpa [eq_comm] using isNext
  exact clear_blank _

/-- The bracket before a key is read apart from the object. -/
theorem index_operand {row key : List Glyph} (operand : Operand A row) (inner : Operand A key) :
    Operand A (row ++ bracketed key) := by
  refine operand.append (Operand.bracketed inner.toLegible
    (inner.clear_before (by decide) (by decide))) fun g isLast next isNext => ?_
  obtain rfl : next = .token (.sign "[") := by simpa [bracketed, eq_comm] using isNext
  exact operand.clear_before (by decide) (by decide) g isLast

/-- The row of an expression is the row of an operand, token by token. -/
theorem Term.operand (noIn : Bool) (t : Term) (formed : t.isFormed A = true) :
    Operand A (t.row noIn) := by
  induction t with
  | name text =>
    simp only [Term.isFormed, Bool.and_eq_true] at formed
    exact Operand.single formed.1 rfl rfl
  | number value => exact Operand.single rfl rfl rfl
  | hole => cases formed
  | unary operator e ih =>
    simp only [Term.isFormed, Bool.and_eq_true, List.contains_iff_mem] at formed
    exact unary_operand formed.1 ((ih formed.2).placed noIn _ e)
  | update operator isPrefix e ih =>
    simp only [Term.isFormed, Bool.and_eq_true, List.contains_iff_mem] at formed
    exact update_operand formed.1.1 isPrefix noIn (ih formed.2)
  | binary operator left right ihLeft ihRight =>
    simp only [Term.isFormed, Bool.and_eq_true] at formed
    exact ((ihLeft formed.1.2).placed noIn _ left).spaced
      (operatorToken_valid (Or.inr formed.1.1)) ((ihRight formed.2).placed noIn _ right)
  | assign operator target value ihTarget ihValue =>
    simp only [Term.isFormed, Bool.and_eq_true, List.contains_iff_mem] at formed
    have known : ∀ op ∈ assignOperators, op ∈ signs := by decide
    exact ((ihTarget formed.1.2).placed noIn _ target).spaced
      (List.contains_iff_mem.mpr (known operator formed.1.1.1))
      ((ihValue formed.2).placed noIn _ value)
  | conditional test consequent alternate ihTest ihYes ihNo =>
    simp only [Term.isFormed, Bool.and_eq_true] at formed
    exact (((ihTest formed.1.1).placed noIn _ test).spaced rfl
      ((ihYes formed.1.2).placed noIn _ consequent)).spaced rfl
      ((ihNo formed.2).placed noIn _ alternate)
  | sequence items ih =>
    simp only [Term.isFormed, Bool.and_eq_true, decide_eq_true_eq, areFormed_iff] at formed
    have each : ∀ t ∈ items, Operand A (t.row noIn) := fun t member =>
      ih t member (formed.2 t member)
    refine separated_operand ?_ (rowsOf_operands each)
    rw [rowsOf_eq]
    intro none
    simp [List.map_eq_nil_iff.mp none] at formed
  | call callee items ihCallee ih =>
    simp only [Term.isFormed, Bool.and_eq_true, areFormed_iff] at formed
    exact applied_operand ((ihCallee formed.1).placed noIn _ callee)
      fun t member => ih t member (formed.2 t member)
  | construct callee items ihCallee ih =>
    simp only [Term.isFormed, Bool.and_eq_true, areFormed_iff] at formed
    exact new_operand (applied_operand (callee_operand (ihCallee formed.1) noIn callee)
      fun t member => ih t member (formed.2 t member))
  | dot object property ih =>
    simp only [Term.isFormed, Bool.and_eq_true] at formed
    exact dot_operand (ih formed.1) formed.1 formed.2
  | index object key ihObject ihKey =>
    simp only [Term.isFormed, Bool.and_eq_true] at formed
    exact index_operand ((ihObject formed.1).placed noIn Precedence.call object)
      ((ihKey formed.2).placed noIn Precedence.sequence key)
  | array items ih =>
    simp only [Term.isFormed, areElements_iff] at formed
    exact elements_operand fun t member => (formed t member).imp id fun isFormed => ih t member isFormed

end Rows

end Untangle.Reading
