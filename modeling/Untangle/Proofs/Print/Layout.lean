import Untangle.Print.Statement

/-!
# Lines and indentation

Laid-out text is a list of lines, each with a depth of its own: indentation stands at the start of a
line and nowhere else. A width then changes the blanks in front of the lines and nothing more.

A printer looks at text that is already indented: at its first character, at its last one, at a word
with which it starts. In laid-out text it sees the same for every width, since the blanks of a line
stand behind a line end, at which every look that goes beyond the first character stops or which it
skips together with the blanks.

* `Laid` says that a document indents only whole lines, and `Laid.paged` gives the lines.
* `Reindented` relates texts that differ in the blanks of their lines, and its lemmas say what looks
  the same in both.
-/

namespace Untangle.Print

/-! ## Lines -/

/-- A line of text: the level to which it is indented, and what stands there. -/
structure Line where
  level : Nat
  text : String
  deriving DecidableEq, Repr

/-- The text of a line when a level is `width` blanks wide. -/
def Line.render (width : Nat) (line : Line) : String :=
  String.ofList (List.replicate (width * line.level) ' ') ++ line.text

/-- Lines one below the other. -/
def page (width : Nat) (lines : List Line) : String :=
  "\n".intercalate (lines.map (Line.render width))

/-- The lines are single ones. -/
def Single (lines : List Line) : Prop :=
  ∀ line ∈ lines, '\n' ∉ line.text.toList

/-- For each width the characters are those of the same lines, the first of which is not indented. -/
def Paged (chars : Nat → List Char) : Prop :=
  ∃ first rest, Single (⟨0, first⟩ :: rest) ∧
    ∀ width, chars width = (page width (⟨0, first⟩ :: rest)).toList

theorem page_cons (width : Nat) (line next : Line) (rest : List Line) :
    (page width (line :: next :: rest)).toList =
      (line.render width).toList ++ '\n' :: (page width (next :: rest)).toList := by
  simp [page]

namespace Paged

variable {chars : Nat → List Char}

theorem empty : Paged fun _ => [] :=
  ⟨"", [], by simp [Single], fun width => by simp [page, Line.render]⟩

/-- A line end, and the indentation of the line after it. -/
theorem indented (level : Nat) (paged : Paged chars) :
    Paged fun width => '\n' :: (List.replicate (width * level) ' ' ++ chars width) := by
  obtain ⟨first, rest, single, same⟩ := paged
  refine ⟨"", ⟨level, first⟩ :: rest, ?_, fun width => ?_⟩
  · simpa [Single] using single
  · simp only [page_cons, same]
    cases rest <;> simp [page, Line.render]

theorem newline (paged : Paged chars) : Paged fun width => '\n' :: chars width := by
  simpa using paged.indented 0

theorem char {c : Char} (inLine : c ≠ '\n') (paged : Paged chars) :
    Paged fun width => c :: chars width := by
  obtain ⟨first, rest, single, same⟩ := paged
  refine ⟨String.ofList (c :: first.toList), rest, ?_, fun width => ?_⟩
  · simpa [Single, Ne.symm inLine] using single
  · simp only [same]
    cases rest <;> simp [page, Line.render]

/-- Text may have line ends of its own; the lines after them are not indented. -/
theorem text (s : List Char) (paged : Paged chars) : Paged fun width => s ++ chars width := by
  induction s with
  | nil => exact paged
  | cons c rest ih =>
    by_cases ends : c = '\n'
    · subst ends
      exact ih.newline
    · exact ih.char ends

end Paged

/-! ## Documents that indent lines -/

/-- Indentation stands only at the start of a line, and the document starts within one. -/
inductive Laid : Doc → Prop
  | nil : Laid []
  | text (s : String) {d : Doc} : Laid d → Laid (.text s :: d)
  | newline {d : Doc} : Laid d → Laid (.newline :: d)
  | line (level : Int) {d : Doc} : Laid d → Laid (.newline :: .pad level :: d)

/-- The document starts a line: it is empty or starts with the indentation of the level. -/
inductive Begins (level : Int) : Doc → Prop
  | nil : Begins level []
  | pad {d : Doc} : Laid d → Begins level (.pad level :: d)

theorem Laid.paged {d : Doc} (laid : Laid d) : Paged d.chars := by
  induction laid with
  | nil => exact .empty
  | text s _ ih => exact ih.text s.toList
  | newline _ ih => exact ih.newline
  | line level _ ih =>
    have shown := ih.indented level.toNat
    simpa [Doc.chars, Piece.chars] using shown

theorem Laid.append {d e : Doc} (first : Laid d) (second : Laid e) : Laid (d ++ e) := by
  induction first with
  | nil => exact second
  | text s _ ih => exact .text s ih
  | newline _ ih => exact .newline ih
  | line level _ ih => exact .line level ih

theorem Laid.word (s : String) : Laid (Doc.text s) :=
  .text s .nil

theorem Laid.parenthesized {d : Doc} (laid : Laid d) : Laid d.parenthesized :=
  ((Laid.word "(").append laid).append (.word ")")

theorem Laid.joined {separator : Doc} (between : Laid separator) {docs : List Doc}
    (each : ∀ d ∈ docs, Laid d) : Laid (Doc.joined separator docs) := by
  induction docs with
  | nil => exact .nil
  | cons d rest ih =>
    have first := each d (by simp)
    have others := ih fun other member => each other (by simp [member])
    cases rest with
    | nil => exact first
    | cons next rest => exact (first.append between).append others

theorem Laid.flatten {docs : List Doc} (each : ∀ d ∈ docs, Laid d) : Laid docs.flatten := by
  induction docs with
  | nil => exact .nil
  | cons d rest ih =>
    exact (each d (by simp)).append (ih fun other member => each other (by simp [member]))

theorem Begins.after_newline {level : Int} {d : Doc} (begins : Begins level d) : Laid (.newline :: d) := by
  cases begins with
  | nil => exact .newline .nil
  | pad laid => exact .line level laid

theorem Begins.append {level : Int} {d e : Doc} (first : Begins level d) (nonempty : d ≠ [])
    (second : Laid e) : Begins level (d ++ e) := by
  cases first with
  | nil => exact absurd rfl nonempty
  | pad laid => exact .pad (laid.append second)

theorem Begins.joined {level : Int} {docs : List Doc} (each : ∀ d ∈ docs, Begins level d ∧ d ≠ []) :
    Begins level (Doc.joined [.newline] docs) := by
  induction docs with
  | nil => exact .nil
  | cons d rest ih =>
    obtain ⟨first, nonempty⟩ := each d (by simp)
    have others := ih fun other member => each other (by simp [member])
    cases rest with
    | nil => exact first
    | cons next rest =>
      rw [Doc.joined, List.append_assoc]
      · exact first.append nonempty others.after_newline
      · simp

/-! ## Looks at indented text -/

/-- The texts differ at most in the blanks behind their line ends. -/
inductive Reindented : List Char → List Char → Prop
  | nil : Reindented [] []
  | char (c : Char) {a b : List Char} : Reindented a b → Reindented (c :: a) (c :: b)
  | line (m n : Nat) {a b : List Char} : Reindented a b →
      Reindented ('\n' :: (List.replicate m ' ' ++ a)) ('\n' :: (List.replicate n ' ' ++ b))

namespace Reindented

variable {a b : List Char}

theorem text (s : List Char) (same : Reindented a b) : Reindented (s ++ a) (s ++ b) := by
  induction s with
  | nil => exact same
  | cons c rest ih => exact .char c ih

theorem refl (a : List Char) : Reindented a a := by
  simpa using Reindented.nil.text a

theorem isEmpty_eq (same : Reindented a b) : a.isEmpty = b.isEmpty := by
  cases same <;> rfl

theorem head?_eq (same : Reindented a b) : a.head? = b.head? := by
  cases same <;> rfl

/-- Whether all characters are of a kind that a line end is not of. -/
theorem all_eq (same : Reindented a b) {kind : Char → Bool} (lineEnd : kind '\n' = false) :
    a.all kind = b.all kind := by
  induction same with
  | nil => rfl
  | char c _ ih => simp [ih]
  | line m n _ ih => simp [lineEnd]

/-- A word within a line is found in front of both texts or of none. -/
theorem isPrefixOf?_cases (same : Reindented a b) (word : List Char) (inLine : '\n' ∉ word) :
    word.isPrefixOf? a = none ∧ word.isPrefixOf? b = none ∨
      ∃ a' b', word.isPrefixOf? a = some a' ∧ word.isPrefixOf? b = some b' ∧ Reindented a' b' := by
  have step (c d : Char) (word rest : List Char) : (c :: word).isPrefixOf? (d :: rest) =
      if c == d then word.isPrefixOf? rest else none := rfl
  induction word generalizing a b with
  | nil => exact Or.inr ⟨a, b, rfl, rfl, same⟩
  | cons c word ih =>
    obtain ⟨other, inRest⟩ := not_or.mp (mt List.mem_cons.mpr inLine)
    cases same with
    | nil => exact Or.inl ⟨rfl, rfl⟩
    | char d same =>
      rw [step, step]
      split
      · exact ih same inRest
      · exact Or.inl ⟨rfl, rfl⟩
    | line m n same =>
      have stops : (c == '\n') = false := beq_false_of_ne (Ne.symm other)
      exact Or.inl ⟨by simp [step, stops], by simp [step, stops]⟩

theorem isPrefixOf_eq (same : Reindented a b) {word : List Char} (inLine : '\n' ∉ word) :
    word.isPrefixOf a = word.isPrefixOf b := by
  induction word generalizing a b with
  | nil => rfl
  | cons c word ih =>
    obtain ⟨other, inRest⟩ := not_or.mp (mt List.mem_cons.mpr inLine)
    cases same with
    | nil => rfl
    | char d same => rw [List.isPrefixOf, List.isPrefixOf, ih same inRest]
    | line m n same =>
      rw [List.isPrefixOf, List.isPrefixOf, beq_false_of_ne (Ne.symm other), Bool.false_and,
        Bool.false_and]

theorem dropWhile_isBlank (same : Reindented a b) :
    Reindented (a.dropWhile Text.isBlank) (b.dropWhile Text.isBlank) := by
  induction same with
  | nil => exact .nil
  | char c same ih =>
    by_cases blank : Text.isBlank c = true
    · rwa [List.dropWhile_cons_of_pos blank, List.dropWhile_cons_of_pos blank]
    · rw [List.dropWhile_cons_of_neg blank, List.dropWhile_cons_of_neg blank]
      exact .char c same
  | line m n _ ih =>
    have skipped (k : Nat) (rest : List Char) :
        ('\n' :: (List.replicate k ' ' ++ rest)).dropWhile Text.isBlank =
          rest.dropWhile Text.isBlank := by
      rw [List.dropWhile_cons_of_pos (by decide)]
      refine List.dropWhile_append_of_pos fun c member => ?_
      rw [List.eq_of_mem_replicate member]
      decide
    rwa [skipped, skipped]

theorem startsWithWord_eq (same : Reindented a b) (word : String) (inLine : '\n' ∉ word.toList) :
    startsWithWord word a = startsWithWord word b := by
  unfold startsWithWord
  obtain ⟨none, none'⟩ | ⟨a', b', found, found', rest⟩ := same.isPrefixOf?_cases _ inLine
  · rw [none, none']
  · rw [found, found']
    simp [wordEnds, rest.head?_eq]

/-- Whether a statement may start so does not depend on indentation. -/
theorem isAmbiguousStart_eq (same : Reindented a b) : isAmbiguousStart a = isAmbiguousStart b := by
  have asyncFunction : startsAsyncFunction a = startsAsyncFunction b := by
    unfold startsAsyncFunction
    obtain ⟨none, none'⟩ | ⟨a', b', found, found', rest⟩ :=
      same.isPrefixOf?_cases "async".toList (by decide)
    · rw [none, none']
    · rw [found, found']
      simp only [rest.head?_eq, rest.dropWhile_isBlank.startsWithWord_eq "function" (by decide)]
  have letBracket : startsLetBracket a = startsLetBracket b := by
    unfold startsLetBracket
    obtain ⟨none, none'⟩ | ⟨a', b', found, found', rest⟩ :=
      same.isPrefixOf?_cases "let".toList (by decide)
    · rw [none, none']
    · rw [found, found']
      simp only [rest.dropWhile_isBlank.head?_eq]
  unfold isAmbiguousStart
  rw [same.head?_eq, same.startsWithWord_eq "function" (by decide), asyncFunction,
    same.startsWithWord_eq "class" (by decide), letBracket]

/-- The texts end with the same character if that is no blank and no line end. -/
theorem getLast?_iff (same : Reindented a b) {c : Char} (notBlank : c ≠ ' ') (notEnd : c ≠ '\n') :
    a.getLast? = some c ↔ b.getLast? = some c := by
  have both (front front' : List Char) {a b : List Char} (empty : a.isEmpty = b.isEmpty)
      (ih : a.getLast? = some c ↔ b.getLast? = some c)
      (fronts : front.getLast? = some c ↔ front'.getLast? = some c) :
      (front ++ a).getLast? = some c ↔ (front' ++ b).getLast? = some c := by
    rw [List.getLast?_append, List.getLast?_append]
    cases a with
    | nil =>
      obtain rfl := List.isEmpty_iff.mp empty.symm
      simpa using fronts
    | cons x a =>
      cases b with
      | nil => cases empty
      | cons y b => simpa [List.getLast?_cons] using ih
  induction same with
  | nil => exact Iff.rfl
  | char d same ih => exact both [d] [d] same.isEmpty_eq ih Iff.rfl
  | line m n same ih =>
    have blanks (k : Nat) : ¬ ('\n' :: List.replicate k ' ').getLast? = some c := by
      intro last
      rcases List.mem_cons.mp (List.mem_of_getLast? last) with isEnd | isBlank
      · exact notEnd isEnd
      · exact notBlank (List.eq_of_mem_replicate isBlank)
    exact both ('\n' :: List.replicate m ' ') ('\n' :: List.replicate n ' ')
      same.isEmpty_eq ih ⟨fun last => absurd last (blanks m), fun last => absurd last (blanks n)⟩

end Reindented

/-- Two widths give texts of a laid-out document that differ in the blanks of its lines only. -/
theorem Laid.reindented {d : Doc} (laid : Laid d) (width width' : Nat) :
    Reindented (d.chars width) (d.chars width') := by
  induction laid with
  | nil => exact .nil
  | text s _ ih => exact ih.text s.toList
  | newline _ ih => exact .char '\n' ih
  | line level _ ih =>
    simpa [Doc.chars, Piece.chars] using Reindented.line (width * level.toNat) (width' * level.toNat) ih

end Untangle.Print
