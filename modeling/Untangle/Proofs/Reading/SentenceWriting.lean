import Untangle.Proofs.Reading.RoundTrip
import Untangle.Proofs.Reading.SentenceParsing

/-!
# Documents as rows

A document laid out over lines is, on one line, a row of glyphs: its line ends and its indentation are
blanks. How many there are depends on the width of a level, the tokens between them do not.

* `Finished` is a row after which anything may follow, `Trailing` one that may follow a word.
* `Written` says that a document is such a row, and which tokens it has.
* `Spells` says that a document has the tokens of a statement.
-/

namespace Untangle.Reading

open Print (Precedence Printer Place Doc Phrase Piece)

/-! ## Rows that other rows follow -/

/-- A legible row after which anything may follow. -/
structure Finished (A : Alphabet) (row : List Glyph) : Prop extends Legible A row where
  ends : ∀ g ∈ row.getLast?, ∀ next, Clear A g next

/-- A finished row that may follow a word. -/
structure Trailing (A : Alphabet) (row : List Glyph) : Prop extends Finished A row where
  nonempty : row ≠ []
  begins : ∀ g ∈ row.head?, g = .blank ∨ ∃ sign ∈ signs, g = .token (.sign sign)

structure EndsInWord (A : Alphabet) (row : List Glyph) : Prop extends Legible A row where
  ends : ∀ g ∈ row.getLast?, ∃ word, g = .token (.word word)

section Rows

variable {A : Alphabet} {row more : List Glyph}

theorem finished_nil : Finished A [] :=
  ⟨⟨by simp, List.isChain_nil⟩, by simp⟩

/-- Anything may follow a finished row, so two of them can be put side by side. -/
theorem Finished.append (first : Finished A row) (second : Finished A more) :
    Finished A (row ++ more) where
  toLegible := first.toLegible.append second.toLegible fun g isLast next _ => first.ends g isLast next
  ends g isLast := by
    by_cases empty : more = []
    · subst empty
      exact first.ends g (by simpa using isLast)
    · exact second.ends g (getLast?_append_of_last isLast empty)

theorem Trailing.append (first : Trailing A row) (second : Finished A more) :
    Trailing A (row ++ more) where
  toFinished := first.toFinished.append second
  nonempty := by simp [first.nonempty]
  begins g isHead := first.begins g (head?_append_of_head isHead first.nonempty)

/-- The signs after which anything may follow. -/
def looseSigns : List String :=
  [";", "(", ")", "\x7b", "\x7d"]

theorem trailing_sign {sign : String} (loose : sign ∈ looseSigns) : Trailing A [.token (.sign sign)] := by
  have kinds : ∀ sign ∈ looseSigns, signs.contains sign = true ∧ followers sign = [] ∧
      sign ≠ "/" ∧ sign ≠ "." := by
    decide
  obtain ⟨known, last, plain⟩ := kinds sign loose
  refine ⟨⟨Legible.single known, fun g isLast next => ?_⟩, by simp, fun g isHead => ?_⟩
  · obtain rfl : g = .token (.sign sign) := by simpa [eq_comm] using isLast
    exact clear_sign last plain next
  · exact Or.inr ⟨sign, List.contains_iff_mem.mp known, by simpa [eq_comm] using isHead⟩

/-- Blanks may stand anywhere. -/
theorem trailing_blanks (n : Nat) : Trailing A (List.replicate (n + 1) .blank) := by
  have all : ∀ g ∈ List.replicate (n + 1) Glyph.blank, g = .blank :=
    fun g member => List.eq_of_mem_replicate member
  refine ⟨⟨⟨fun t member => ?_, ?_⟩, fun g isLast next => ?_⟩, by simp, fun g isHead => ?_⟩
  · cases all _ member
  · exact List.isChain_replicate_of_rel _ trivial
  · rw [all g (List.mem_of_getLast? isLast)]
    trivial
  · exact Or.inl (all g (List.mem_of_mem_head? isHead))

/-- A word ends before a row that may follow one. -/
theorem EndsInWord.append (first : EndsInWord A row) (second : Trailing A more) :
    Finished A (row ++ more) where
  toLegible := first.toLegible.append second.toLegible fun g isLast next isNext => by
    obtain ⟨word, rfl⟩ := first.ends g isLast
    obtain rfl | ⟨sign, known, rfl⟩ := second.begins next isNext
    · exact clear_blank _
    · exact clear_word known
  ends g isLast := second.ends g (getLast?_append_of_last isLast second.nonempty)

theorem endsInWord_single {word : String} (valid : isWord A word = true) :
    EndsInWord A [.token (.word word)] :=
  ⟨Legible.single valid, fun g isLast => ⟨word, by simpa [eq_comm] using isLast⟩⟩

/-- A word after a finished row: now it matters what follows. -/
theorem Finished.then_word (first : Finished A row) {word : String} (valid : isWord A word = true) :
    EndsInWord A (row ++ [.token (.word word)]) where
  toLegible :=
    first.toLegible.append (Legible.single valid) fun g isLast next _ => first.ends g isLast next
  ends g isLast := ⟨word, by simpa [eq_comm] using getLast?_append_of_last isLast (by simp)⟩

/-- A sign that nothing can make longer finishes an operand. -/
theorem Operand.then_loose (operand : Operand A row) {sign : String} (loose : sign ∈ looseSigns) :
    Finished A (row ++ [.token (.sign sign)]) := by
  have kinds : ∀ sign ∈ looseSigns, sign ∈ signs ∧ '.' ∉ sign.toList.head? := by decide
  obtain ⟨known, notDot⟩ := kinds sign loose
  have single : Finished A [.token (.sign sign)] := (trailing_sign loose).toFinished
  refine ⟨operand.then_sign known notDot single.toLegible, fun g isLast => ?_⟩
  exact single.ends g (getLast?_append_of_last isLast (by simp))

/-- An operand and a keyword with blanks around it. -/
theorem Operand.then_keyword (operand : Operand A row) {keyword : String}
    (valid : isWord A keyword = true) : Finished A (row ++ Reading.spaced (.word keyword)) where
  toLegible := by
    have legible := operand.then_spaced (t := .word keyword) valid finished_nil.toLegible
    rwa [List.append_nil] at legible
  ends g isLast next := by
    obtain rfl : g = .blank := by
      simpa [Reading.spaced, eq_comm] using
        getLast?_append_of_last isLast (by simp [Reading.spaced])
    trivial

/-- A label with its colon and a blank. -/
theorem finished_label {label : String} (valid : isWord A label = true) :
    Finished A [.token (.word label), .token (.sign ":"), .blank] := by
  have colon : Legible A [.token (.sign ":"), .blank] := by
    refine Legible.cons rfl finished_nil.toLegible.blank fun next isNext => ?_
    obtain rfl : next = .blank := by simpa [eq_comm] using isNext
    exact clear_blank _
  refine ⟨Legible.cons valid colon fun next isNext => ?_, fun g isLast next => ?_⟩
  · obtain rfl : next = .token (.sign ":") := by simpa [eq_comm] using isNext
    exact clear_word (by decide)
  · obtain rfl : g = .blank := by simpa [eq_comm] using isLast
    trivial

/-! ## Lines -/

theorem oneLine_append (chars others : List Char) :
    oneLine (chars ++ others) = oneLine chars ++ oneLine others :=
  List.map_append

/-- A line end is in no token, if it is in no word. -/
theorem chars_of_valid (lineEnd : A.isPart '\n' = false) {token : Token}
    (valid : token.isValid A = true) : '\n' ∉ token.chars := by
  intro member
  cases token with
  | word text =>
    simp only [Token.isValid, isWord] at valid
    cases chars : text.toList with
    | nil => simp [chars] at member
    | cons c rest =>
      simp only [chars, Bool.and_eq_true, List.all_eq_true] at valid
      rw [chars_word, chars] at member
      rcases List.mem_cons.mp member with isFirst | isLater
      · have starts := A.part_of_start valid.1
        rw [← isFirst, lineEnd] at starts
        cases starts
      · have part := valid.2 _ isLater
        rw [lineEnd] at part
        cases part
  | number n =>
    have isDigit : Char.isDigit '\n' = true :=
      Nat.isDigit_of_mem_toDigits (by decide) (by decide) member
    cases isDigit
  | sign text =>
    have none : ∀ sign ∈ signs, '\n' ∉ sign.toList := by decide
    exact none text (List.contains_iff_mem.mp valid) member

/-- Text without line ends is on one line already. -/
theorem oneLine_eq {chars : List Char} (single : '\n' ∉ chars) : oneLine chars = chars := by
  refine (List.map_congr_left fun c member => ?_).trans (List.map_id chars)
  exact if_neg fun isEnd : c = '\n' => single (isEnd ▸ member)

/-- Rows have no line ends. -/
theorem oneLine_spell (lineEnd : A.isPart '\n' = false)
    (valid : ∀ t, .token t ∈ row → t.isValid A = true) : oneLine (spell row) = spell row := by
  refine oneLine_eq fun member => ?_
  obtain ⟨g, inRow, inGlyph⟩ := List.mem_flatMap.mp member
  cases g with
  | blank => simp at inGlyph
  | token t => exact chars_of_valid lineEnd (valid t inRow) inGlyph

end Rows

/-! ## Documents -/

/-- On one line the document is a row like this with the tokens, for every width of a level. -/
def Written (P : List Glyph → Prop) (tokens : List Token) (d : Doc) : Prop :=
  ∀ width, ∃ row, oneLine (d.chars width) = spell row ∧ tokensOf row = tokens ∧ P row

section Documents

variable {A : Alphabet} {P Q R : List Glyph → Prop} {tokens more : List Token} {d e : Doc}

theorem Written.imp (written : Written P tokens d) (weaker : ∀ row, P row → Q row) :
    Written Q tokens d := by
  intro width
  obtain ⟨row, chars, same, holds⟩ := written width
  exact ⟨row, chars, same, weaker row holds⟩

/-- Two texts one after the other, with the rows that they are written as. -/
theorem Written.append (first : Written P tokens d) (second : Written Q more e)
    (join : ∀ row others, P row → Q others → R (row ++ others)) :
    Written R (tokens ++ more) (d ++ e) := by
  intro width
  obtain ⟨row, chars, same, holds⟩ := first width
  obtain ⟨others, laterChars, laterSame, laterHolds⟩ := second width
  refine ⟨row ++ others, ?_, by rw [tokensOf_append, same, laterSame], join row others holds laterHolds⟩
  rw [chars_append, oneLine_append, chars, laterChars, spell_append]

theorem written_text {text : String} (row : List Glyph) (chars : oneLine text.toList = spell row)
    (holds : P row) : Written P (tokensOf row) (Doc.text text) :=
  fun width => ⟨row, by rw [chars_text, chars], rfl, holds⟩

/-- A document that is a row for every width. -/
theorem written_row (lineEnd : A.isPart '\n' = false) {row : List Glyph}
    (valid : ∀ t, .token t ∈ row → t.isValid A = true) (chars : ∀ width, d.chars width = spell row)
    (holds : P row) : Written P (tokensOf row) d :=
  fun width => ⟨row, by rw [chars, oneLine_spell lineEnd valid], rfl, holds⟩

theorem Written.finished (written : Written (Trailing A) tokens d) : Written (Finished A) tokens d :=
  written.imp fun _ => Trailing.toFinished

theorem Written.then_finished (first : Written (Finished A) tokens d)
    (second : Written (Finished A) more e) : Written (Finished A) (tokens ++ more) (d ++ e) :=
  first.append second fun _ _ => Finished.append

theorem Written.then_trailing (first : Written (Finished A) tokens d)
    (second : Written (Trailing A) more e) : Written (Finished A) (tokens ++ more) (d ++ e) :=
  first.then_finished second.finished

theorem Written.trailing (first : Written (Trailing A) tokens d)
    (second : Written (Finished A) more e) : Written (Trailing A) (tokens ++ more) (d ++ e) :=
  first.append second fun _ _ => Trailing.append

theorem Written.word (first : Written (EndsInWord A) tokens d)
    (second : Written (Trailing A) more e) : Written (Finished A) (tokens ++ more) (d ++ e) :=
  first.append second fun _ _ => EndsInWord.append

/-- An operand and the sign that ends it. -/
theorem Written.closed (operand : Written (Operand A) tokens d) {sign : String}
    (loose : sign ∈ looseSigns) : Written (Finished A) (tokens ++ [.sign sign]) (d ++ Doc.text sign) := by
  have chars : ∀ sign ∈ looseSigns, oneLine sign.toList = sign.toList := by decide
  have text : Written (· = [.token (.sign sign)]) [.sign sign] (Doc.text sign) :=
    written_text [.token (.sign sign)] (by simp [chars sign loose]) rfl
  exact operand.append text fun row others isOperand same => same ▸ isOperand.then_loose loose

theorem written_sign {sign : String} (loose : sign ∈ looseSigns) :
    Written (Trailing A) [.sign sign] (Doc.text sign) := by
  have chars : ∀ sign ∈ looseSigns, oneLine sign.toList = sign.toList := by decide
  exact written_text [.token (.sign sign)] (by simp [chars sign loose]) (trailing_sign loose)

theorem written_blank : Written (Trailing A) [] (Doc.text " ") :=
  written_text [.blank] (by decide) (trailing_blanks 0)

theorem tokensOf_blanks (n : Nat) : tokensOf (List.replicate n .blank) = [] := by
  induction n with
  | zero => rfl
  | succ n ih => rwa [List.replicate_succ, tokensOf_blank]

/-- A line end with the indentation after it is blanks. -/
theorem written_line (level : Int) : Written (Trailing A) [] [.newline, .pad level] := by
  intro width
  refine ⟨List.replicate (width * level.toNat + 1) .blank, ?_, tokensOf_blanks _, trailing_blanks _⟩
  simp [Doc.chars, Piece.chars, oneLine, spell, Glyph.chars, List.replicate_succ,
    List.flatMap_replicate]

theorem written_newline : Written (Trailing A) [] [.newline] :=
  fun _ => ⟨[.blank], rfl, rfl, trailing_blanks 0⟩

/-- Indentation is a number of blanks, perhaps none. -/
theorem written_pad (level : Int) : Written (Finished A) [] [.pad level] := by
  intro width
  refine ⟨List.replicate (width * level.toNat) .blank, ?_, tokensOf_blanks _, ?_⟩
  · simp [Doc.chars, Piece.chars, oneLine, spell, Glyph.chars, List.flatMap_replicate]
  · cases width * level.toNat with
    | zero => exact finished_nil
    | succ n => exact (trailing_blanks n).toFinished

def headKeywords : List String :=
  ["if", "while", "with", "for"]

/-- The keywords of compound statements come with the parenthesis after them. -/
theorem written_keyword {keyword : String} (known : keyword ∈ headKeywords) :
    Written (Finished A) [.word keyword, .sign "("] (Doc.text (keyword ++ " (")) := by
  have kinds : ∀ keyword ∈ headKeywords, keyword.toList ≠ [] ∧ keyword.toList.all Char.isAlpha = true ∧
      oneLine (keyword ++ " (").toList = keyword.toList ++ [' ', '('] := by
    decide
  obtain ⟨nonempty, letters, chars⟩ := kinds keyword known
  have opening : Trailing A ([.blank] ++ [.token (.sign "(")]) :=
    (trailing_blanks 0).append (trailing_sign (by decide)).toFinished
  have word : EndsInWord A [.token (.word keyword)] :=
    endsInWord_single (isWord_of_letters nonempty letters)
  exact written_text ([.token (.word keyword)] ++ ([.blank] ++ [.token (.sign "(")]))
    (chars.trans (by simp)) (word.append opening)

/-- A keyword with an expression in parentheses. -/
theorem written_guard (keyword : String) (known : keyword ∈ headKeywords) {t : Term}
    (test : Written (Operand A) (t.tokensAt false Precedence.sequence) d) :
    Written (Finished A) (guardTokens keyword t)
      (Doc.text (keyword ++ " (") ++ d ++ Doc.text ")") := by
  have closed : Written (Finished A) _ (d ++ Doc.text ")") := test.closed (by decide)
  rw [List.append_assoc]
  exact (written_keyword known).then_finished closed

end Documents

/-! ## Expressions and heads of loops -/

section Parts

variable {A : Alphabet} {p : Printer} {place : Place} {t : Term} {v : Value}

/-- An expression is written as an operand, in parentheses or not. -/
theorem Writes.written (lineEnd : A.isPart '\n' = false) (legal : t.isLegal A = true)
    (writes : Writes p place t v) (precedence : Precedence) :
    ∃ d, p.expression place precedence v = .ok (.doc d) ∧
      Written (Operand A) (t.tokensAt place.noIn precedence) d := by
  obtain ⟨d, prints, chars⟩ := writes precedence
  have operand := (t.operand place.noIn (Term.isFormed_of_isLegal legal)).placed place.noIn precedence t
  exact ⟨d, prints, written_row lineEnd operand.valid chars operand⟩

/-- The same for an expression as it is inserted into text. -/
theorem Writes.shown_written (lineEnd : A.isPart '\n' = false) (legal : t.isLegal A = true)
    (writes : Writes p place t v) (precedence : Precedence) :
    ∃ d, p.shown place precedence v = .ok d ∧
      Written (Operand A) (t.tokensAt place.noIn precedence) d := by
  obtain ⟨d, prints, written⟩ := writes.written lineEnd legal precedence
  exact ⟨d, by rw [Printer.shown, prints]; rfl, written⟩

theorem Writes.glued_written (lineEnd : A.isPart '\n' = false) (legal : t.isLegal A = true)
    (writes : Writes p place t v) (precedence : Precedence) :
    ∃ d, p.glued place precedence v = .ok d ∧
      Written (Operand A) (t.tokensAt place.noIn precedence) d := by
  obtain ⟨d, prints, written⟩ := writes.written lineEnd legal precedence
  exact ⟨d, by rw [Printer.glued, prints]; rfl, written⟩

end Parts

/-- The document has tokens that are read as the statement. -/
def Spells (P : List Glyph → Prop) (s : Sentence) (d : Doc) : Prop :=
  ∃ tokens, Written P tokens d ∧ Reads s tokens

end Untangle.Reading
