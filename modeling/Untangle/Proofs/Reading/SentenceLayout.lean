import Untangle.Proofs.Print.Indentation
import Untangle.Proofs.Reading.SentenceWriting

/-!
# The layout of statements

A printer that lays out the parts of a statement lays out the statement, as tokens that are read back.
It puts braces around a consequent that would take the `else` after it, so what is read has a block
there.

* `Sentence.Stands` says which trees stand for a statement, and `Sentence.isLegal` which statements the
  language has.
* `capturesElse_eq` says that the printer finds the open statements.
* There is one lemma for each kind of statement; `ifElseText_spells` is the one with the braces.
-/

namespace Untangle.Reading

open Print (Precedence Printer Place Doc Phrase Piece)
open Reshape (isTagged_tagged)

/-! ## Trees of statements -/

def Guard.tag : Guard → String
  | .loop => "WhileStatement"
  | .scope => "WithStatement"

def Guard.field : Guard → String
  | .loop => "test"
  | .scope => "object"

def Each.tag : Each → String
  | .key => "ForInStatement"
  | .member => "ForOfStatement"

/-- The field stands for something that may be missing. -/
def PartStands {α : Type} (Stands : α → Value → Prop) (part : Option α) (fields : Fields)
    (name : String) : Prop :=
  match part with
  | none => Lacks fields name
  | some x => ∃ a, fields.lookup name = some a ∧ Stands x a

def Declarator.Stands (d : Declarator) (v : Value) : Prop :=
  ∃ fields a, v = .tagged "VariableDeclarator" fields ∧ fields.lookup "id" = some a ∧
    (Term.name d.name).Stands a ∧ PartStands Term.Stands d.init fields "init"

/-- The tree stands for what is first in the head of a loop. -/
def Head.Stands : Head → Value → Prop
  | .expression t, v => t.Stands v
  | .declaration kind declared, v => ∃ fields values, v = .tagged "VariableDeclaration" fields ∧
      fields.lookup "kind" = some (.str kind) ∧ fields.lookup "declarations" = some (.seq values) ∧
      List.Forall₂ Declarator.Stands declared values

mutual

def Sentence.Stands : Sentence → Value → Prop
  | .empty, v => ∃ fields, v = .tagged "EmptyStatement" fields
  | .expression t, v => ∃ fields a, v = .tagged "ExpressionStatement" fields ∧
      fields.lookup "expression" = some a ∧ t.Stands a
  | .block body, v => ∃ fields values, v = .tagged "BlockStatement" fields ∧
      fields.lookup "body" = some (.seq values) ∧ sentencesStand body values
  | .ifThen test consequent, v => ∃ fields a b, v = .tagged "IfStatement" fields ∧
      fields.lookup "test" = some a ∧ test.Stands a ∧ fields.lookup "consequent" = some b ∧
      consequent.Stands b ∧ Lacks fields "alternate"
  | .ifElse test consequent alternate, v => ∃ fields a b c, v = .tagged "IfStatement" fields ∧
      fields.lookup "test" = some a ∧ test.Stands a ∧ fields.lookup "consequent" = some b ∧
      consequent.Stands b ∧ fields.lookup "alternate" = some c ∧ alternate.Stands c
  | .guarded kind guard body, v => ∃ fields a b, v = .tagged kind.tag fields ∧
      fields.lookup kind.field = some a ∧ guard.Stands a ∧ fields.lookup "body" = some b ∧
      body.Stands b
  | .doWhile body test, v => ∃ fields a b, v = .tagged "DoWhileStatement" fields ∧
      fields.lookup "body" = some b ∧ body.Stands b ∧ fields.lookup "test" = some a ∧ test.Stands a
  | .forLoop init test update body, v => ∃ fields b, v = .tagged "ForStatement" fields ∧
      PartStands Head.Stands init fields "init" ∧ PartStands Term.Stands test fields "test" ∧
      PartStands Term.Stands update fields "update" ∧
      fields.lookup "body" = some b ∧ body.Stands b
  | .forEach each left right body, v => ∃ fields a b c, v = .tagged each.tag fields ∧
      fields.lookup "left" = some a ∧ left.Stands a ∧ fields.lookup "right" = some b ∧
      right.Stands b ∧ fields.lookup "body" = some c ∧ body.Stands c
  | .labeled label body, v => ∃ fields name b, v = .tagged "LabeledStatement" fields ∧
      fields.lookup "label" = some (.tagged "Identifier" name) ∧
      name.lookup "name" = some (.str label) ∧ fields.lookup "body" = some b ∧ body.Stands b

/-- The trees stand for the statements, one for one. -/
def sentencesStand : List Sentence → List Value → Prop
  | [], values => values = []
  | s :: rest, values => ∃ v more, values = v :: more ∧ s.Stands v ∧ sentencesStand rest more

end

mutual

/-- Whether the statement is one that the language has. -/
def Sentence.isLegal (A : Alphabet) : Sentence → Bool
  | .empty => true
  | .expression t => t.isLegal A
  | .block body => areLegalSentences A body
  | .ifThen test consequent => test.isLegal A && consequent.isLegal A
  | .ifElse test consequent alternate =>
    test.isLegal A && consequent.isLegal A && alternate.isLegal A
  | .guarded _ guard body => guard.isLegal A && body.isLegal A
  | .doWhile body test => body.isLegal A && test.isLegal A
  | .forLoop init test update body =>
    init.all (Head.isLegal A) && test.all (Term.isLegal A) && update.all (Term.isLegal A) &&
      body.isLegal A
  | .forEach each left right body =>
    left.isLegal A && left.isLeft each &&
      (each == .key || left.isDeclaration || !clashesWithOf (left.tokens ++ [.word "of"])) &&
      right.isLegal A && body.isLegal A
  | .labeled label body => isWord A label && !reserved.contains label && body.isLegal A

def areLegalSentences (A : Alphabet) : List Sentence → Bool
  | [] => true
  | s :: rest => s.isLegal A && areLegalSentences A rest

end

def Sentence.tag : Sentence → String
  | .empty => "EmptyStatement"
  | .expression _ => "ExpressionStatement"
  | .block _ => "BlockStatement"
  | .ifThen _ _ | .ifElse _ _ _ => "IfStatement"
  | .guarded kind _ _ => kind.tag
  | .doWhile _ _ => "DoWhileStatement"
  | .forLoop _ _ _ _ => "ForStatement"
  | .forEach each _ _ _ => each.tag
  | .labeled _ _ => "LabeledStatement"

/-- The tree of a statement is a node with the tag of the statement. -/
theorem Sentence.Stands.tagged {s : Sentence} {v : Value} (stands : s.Stands v) :
    ∃ fields, v = .tagged s.tag fields := by
  cases s
  all_goals
    rw [Sentence.Stands] at stands
    grind [Sentence.tag]

/-! ## Open statements -/

/-- A statement that ends with its body ends where the body does. -/
theorem descend_body {tag : String} {fields : Fields} {b : Value} (last : tag ∈ Print.bodyLastTags)
    (found : fields.lookup "body" = some b) :
    (Value.tagged tag fields).descend Print.lastField = b.descend Print.lastField := by
  have next : Print.lastField (.str tag) fields = .ok (some "body") := by
    have notIf : ∀ tag ∈ Print.bodyLastTags, tag ≠ "IfStatement" := by decide
    have listed : Print.bodyLastTags.any (Value.str tag).isText = true :=
      List.any_eq_true.mpr ⟨tag, last, by simp [Value.isText]⟩
    simp [Print.lastField, Value.isText, notIf tag last, listed]
  simp [Value.descend, next, Value.descendInto_eq, found]

/-- Following the tree of a statement to its end ends at a branch if the statement is open. -/
theorem descend_lastField {s : Sentence} {v : Value} (stands : s.Stands v) :
    ∃ last, v.descend Print.lastField = .ok last ∧ last.hasTag "IfStatement" = s.isOpen := by
  induction s generalizing v with
  | empty =>
    obtain ⟨fields, rfl⟩ := stands
    exact ⟨_, rfl, rfl⟩
  | expression t =>
    rw [Sentence.Stands] at stands
    obtain ⟨fields, a, rfl, -⟩ := stands
    exact ⟨_, rfl, rfl⟩
  | block body _ =>
    rw [Sentence.Stands] at stands
    obtain ⟨fields, values, rfl, -⟩ := stands
    exact ⟨_, rfl, rfl⟩
  | doWhile body test _ =>
    rw [Sentence.Stands] at stands
    obtain ⟨fields, a, b, rfl, -⟩ := stands
    exact ⟨_, rfl, rfl⟩
  | ifThen test consequent _ =>
    rw [Sentence.Stands] at stands
    obtain ⟨fields, a, b, rfl, -, -, -, -, none | null⟩ := stands
    · exact ⟨.tagged "IfStatement" fields,
        by simp [Value.tagged, Value.descend, Print.lastField, Value.isText, none], rfl⟩
    · exact ⟨.tagged "IfStatement" fields,
        by simp [Value.tagged, Value.descend, Print.lastField, Value.isText, null], rfl⟩
  | ifElse test consequent alternate _ ih =>
    rw [Sentence.Stands] at stands
    obtain ⟨fields, a, b, c, rfl, -, -, -, -, found, alternateStands⟩ := stands
    obtain ⟨last, ends, isOpen⟩ := ih alternateStands
    refine ⟨last, ?_, isOpen⟩
    rw [← ends]
    obtain ⟨inner, rfl⟩ := alternateStands.tagged
    simp [Value.tagged, Value.descend, Print.lastField, Value.isText, Value.descendInto_eq, found]
  | guarded kind guard body ih =>
    rw [Sentence.Stands] at stands
    obtain ⟨fields, a, b, rfl, -, -, found, bodyStands⟩ := stands
    rw [descend_body (by cases kind <;> decide) found]
    exact ih bodyStands
  | forLoop init test update body ih =>
    rw [Sentence.Stands] at stands
    obtain ⟨fields, b, rfl, -, -, -, found, bodyStands⟩ := stands
    rw [descend_body (by decide) found]
    exact ih bodyStands
  | forEach each left right body ih =>
    rw [Sentence.Stands] at stands
    obtain ⟨fields, a, b, c, rfl, -, -, -, -, found, bodyStands⟩ := stands
    rw [descend_body (by cases each <;> decide) found]
    exact ih bodyStands
  | labeled label body ih =>
    rw [Sentence.Stands] at stands
    obtain ⟨fields, name, b, rfl, -, -, found, bodyStands⟩ := stands
    rw [descend_body (by decide) found]
    exact ih bodyStands

/-- The printer finds out which statements would take an `else` after them. -/
theorem capturesElse_eq {s : Sentence} {v : Value} (stands : s.Stands v) :
    Print.capturesElse v = .ok s.isOpen := by
  obtain ⟨last, ends, isOpen⟩ := descend_lastField stands
  simp only [Print.capturesElse, ends, ok_bind, isOpen]
  rfl

/-! ## Bodies -/

section Bodies

variable {A : Alphabet} {E : Fault → Prop} {p : Printer} {level : Int} {s : Sentence} {v : Value}

/-- Lines can be indented. -/
def Margins (E : Fault → Prop) (p : Printer) : Prop :=
  ∀ level, Gives E (· = [Piece.pad level]) (p.margin level)

theorem Margins.line (A : Alphabet) (margins : Margins E p) (level : Int) :
    Gives E (Written (Trailing A) []) (p.line level) :=
  (margins level).bind fun _ same => same ▸ written_line level

/-- The printer lays out the statement at every level. -/
def Lays (A : Alphabet) (E : Fault → Prop) (p : Printer) (s : Sentence) (v : Value) : Prop :=
  ∀ level, Gives E (Spells (Finished A) s.braced) (p.statement level v)

theorem eq_empty_of_tag (isEmpty : s.tag = "EmptyStatement") : s = .empty := by
  cases s with
  | empty => rfl
  | guarded kind _ _ => cases kind <;> simp [Sentence.tag, Guard.tag] at isEmpty
  | forEach each _ _ _ => cases each <;> simp [Sentence.tag, Each.tag] at isEmpty
  | _ => simp [Sentence.tag] at isEmpty

theorem closed_of_tag (isBlock : s.tag = "BlockStatement") : s.isOpen = false := by
  cases s with
  | block body => rfl
  | guarded kind _ _ => cases kind <;> simp [Sentence.tag, Guard.tag] at isBlock
  | forEach each _ _ _ => cases each <;> simp [Sentence.tag, Each.tag] at isBlock
  | _ => simp [Sentence.tag] at isBlock

/-- A statement after a blank. -/
theorem Spells.after_blank {d : Doc} (spells : Spells (Finished A) s d) :
    Spells (Trailing A) s (Doc.text " " ++ d) := by
  obtain ⟨tokens, written, reads⟩ := spells
  exact ⟨tokens, written_blank.trailing written, reads⟩

/-- A body is spelled as the statement, on the line of its keyword or below it. -/
theorem bodyText_spells (margins : Margins E p) (level : Int) (stands : s.Stands v)
    (spells : Lays A E p s v) :
    Gives E (Spells (Trailing A) s.braced) (Print.bodyText p level v) := by
  obtain ⟨fields, rfl⟩ := stands.tagged
  refine Gives.next ?_
  split
  · exact (spells level).bind fun d body => body.after_blank
  · split
    · rename_i isEmpty
      obtain rfl : s = .empty := eq_empty_of_tag (by simpa [Value.hasTag, Value.isText] using isEmpty)
      exact ⟨_, written_sign (by decide), reads_empty⟩
    · refine (margins.line A _).bind fun line blanks => ?_
      refine (spells (level + 1)).bind fun d body => ?_
      obtain ⟨tokens, written, reads⟩ := body
      exact ⟨tokens, blanks.trailing written, reads⟩

/-- Braces around a branch make a block of one statement, and this is what is read. -/
theorem bracedText_spells (margins : Margins E p) (level : Int) (spells : Lays A E p s v) :
    Gives E (Spells (Trailing A) (.block [s.braced])) (Print.bracedText p level v) := by
  have opening : Written (Trailing A) [.sign "\x7b"] (Doc.text " \x7b") :=
    written_text [.blank, .token (.sign "\x7b")] (by decide)
      ((trailing_blanks 0).append (trailing_sign (by decide)).toFinished)
  refine (margins.line A _).bind fun first firstBlanks => ?_
  refine (spells (level + 1)).bind fun d body => ?_
  refine (margins.line A _).bind fun last lastBlanks => ?_
  obtain ⟨tokens, written, reads⟩ := body
  have closing : Written (Trailing A) [.sign "\x7d"] (Doc.text "\x7d") := written_sign (by decide)
  have whole := (((opening.trailing firstBlanks.finished).trailing written).trailing
    lastBlanks.finished).trailing closing.finished
  exact ⟨_, whole, by simpa using reads_block (.cons reads .nil)⟩

/-- Only a branch that would capture the `else` gets braces. -/
theorem consequentText_spells (margins : Margins E p) (stands : s.Stands v)
    (spells : Lays A E p s v) :
    Gives E (Spells (Trailing A) (if s.isOpen then .block [s.braced] else s.braced))
      (Print.consequentText p level v) := by
  have body := bodyText_spells margins level stands spells
  have braced := bracedText_spells margins level spells
  have captures := capturesElse_eq stands
  obtain ⟨fields, rfl⟩ := stands.tagged
  simp only [Print.consequentText, isTagged_tagged, captures, ok_bind, pure_ok]
  cases isOpen : s.isOpen with
  | false => simpa using body
  | true =>
    have notBlock : s.tag ≠ "BlockStatement" := by
      intro isBlock
      rw [closed_of_tag isBlock] at isOpen
      cases isOpen
    simpa [notBlock] using braced

theorem alternateText_spells (margins : Margins E p) (stands : s.Stands v)
    (spells : Lays A E p s v) :
    Gives E (Spells (Trailing A) s.braced) (Print.alternateText p level v) := by
  have body := bodyText_spells margins level stands spells
  obtain ⟨fields, rfl⟩ := stands.tagged
  refine Gives.next ?_
  split
  · exact (spells level).bind fun d alternate => alternate.after_blank
  · exact body

/-- The `else` on the line of a brace or on a line of its own. -/
theorem elseKeyword_written (margins : Margins E p) (isBlock : Bool) {tokens : List Token}
    {d : Doc} (written : Written (Finished A) tokens d) :
    Gives E (Written (EndsInWord A) (tokens ++ [.word "else"]))
      (Print.elseKeyword p level isBlock d) := by
  have isWord : isWord A "else" = true := isWord_of_letters (by decide) (by decide)
  unfold Print.elseKeyword
  split
  · have keyword : Written (· = [.blank, .token (.word "else")]) [.word "else"] (Doc.text " else") :=
      written_text [.blank, .token (.word "else")] (by decide) rfl
    refine written.append keyword fun row others finished same => ?_
    have blank : Finished A [.blank] := (trailing_blanks 0).toFinished
    rw [same, ← List.singleton_append, ← List.append_assoc]
    exact (finished.append blank).then_word isWord
  · have keyword : Written (· = [.token (.word "else")]) [.word "else"] (Doc.text "else") :=
      written_text [.token (.word "else")] (by decide) rfl
    refine (margins.line A _).bind fun line blanks => ?_
    have before : Written (Finished A) tokens (d ++ line) := by
      simpa using written.then_trailing blanks
    exact before.append keyword fun row others finished same => same ▸ finished.then_word isWord

end Bodies

/-! ## One lemma for each kind of statement -/

section Statements

variable {A : Alphabet} {E : Fault → Prop} {p : Printer} {level : Int} {t : Term} {s : Sentence}
  {fields : Fields} {a b c : Value}

/-- A branch without an alternate is spelled with its test and its body. -/
theorem ifText_spells (lineEnd : A.isPart '\n' = false) (margins : Margins E p)
    (isTest : fields.lookup "test" = some a) (legal : t.isLegal A = true)
    (test : Writes p (.plain level) t a) (isConsequent : fields.lookup "consequent" = some b)
    (stands : s.Stands b) (spells : Lays A E p s b) (lacks : Lacks fields "alternate") :
    Gives E (Spells (Finished A) (.ifThen t s.braced))
      (Print.ifText p level (.tagged "IfStatement" fields)) := by
  obtain ⟨d, prints, written⟩ := test.shown_written lineEnd legal Precedence.sequence
  simp only [Print.ifText, Value.tagged, Value.field_of_lookup isTest, Value.field_of_lookup isConsequent,
    Value.optional_of_lacks lacks, prints, ok_bind]
  refine (bodyText_spells margins level stands spells).bind fun e body => ?_
  obtain ⟨tokens, bodyWritten, reads⟩ := body
  exact ⟨_, (written_guard "if" (by decide) written).then_trailing bodyWritten,
    reads_ifThen legal reads⟩

/-- A branch with an alternate: the braces are those of the statement as it is read. -/
theorem ifElseText_spells (lineEnd : A.isPart '\n' = false) (margins : Margins E p)
    (isTest : fields.lookup "test" = some a) (legal : t.isLegal A = true)
    (test : Writes p (.plain level) t a) (isConsequent : fields.lookup "consequent" = some b)
    (stands : s.Stands b) (spells : Lays A E p s b) {alternate : Sentence}
    (isAlternate : fields.lookup "alternate" = some c) (alternateStands : alternate.Stands c)
    (alternateSpells : Lays A E p alternate c) :
    Gives E (Spells (Finished A) (Sentence.ifElse t s alternate).braced)
      (Print.ifText p level (.tagged "IfStatement" fields)) := by
  obtain ⟨d, prints, written⟩ := test.shown_written lineEnd legal Precedence.sequence
  have present : c ≠ .null := by
    obtain ⟨inner, rfl⟩ := alternateStands.tagged
    simp [Value.tagged]
  have isBlock : ∃ isBlock, b.isTagged "BlockStatement" = .ok isBlock := by
    obtain ⟨inner, rfl⟩ := stands.tagged
    exact ⟨_, isTagged_tagged _ _ _⟩
  obtain ⟨isBlock, asked⟩ := isBlock
  simp only [Print.ifText, Value.tagged, Value.field_of_lookup isTest, Value.field_of_lookup isConsequent,
    Value.optional_of_lookup isAlternate present, asked, prints, ok_bind]
  refine (consequentText_spells margins stands spells).bind fun e consequent => ?_
  obtain ⟨tokens, bodyWritten, reads⟩ := consequent
  have before := (written_guard "if" (by decide) written).then_trailing bodyWritten
  refine (elseKeyword_written margins isBlock before).bind fun text upToElse => ?_
  refine (alternateText_spells margins alternateStands alternateSpells).bind fun f later => ?_
  obtain ⟨more, alternateWritten, alternateReads⟩ := later
  -- A consequent that would take the `else` stands in a block, and a block takes none.
  have closed : (if s.isOpen then Sentence.block [s.braced] else s.braced).isOpen = false := by
    cases isOpen : s.isOpen
    · simpa using isOpen
    · rfl
  have whole := reads_ifElse legal reads closed alternateReads
  refine ⟨_, upToElse.word alternateWritten, ?_⟩
  rw [Sentence.braced]
  simpa using whole

/-- The loop `while` and the statement `with`. -/
theorem guardedText_spells (kind : Guard) (tag : String) (lineEnd : A.isPart '\n' = false)
    (margins : Margins E p) (isGuard : fields.lookup kind.field = some a)
    (legal : t.isLegal A = true) (guard : Writes p (.plain level) t a)
    (isBody : fields.lookup "body" = some b) (stands : s.Stands b)
    (spells : Lays A E p s b) :
    Gives E (Spells (Finished A) (.guarded kind t s.braced))
      (Print.guardedText p level kind.keyword kind.field (.tagged tag fields)) := by
  obtain ⟨d, prints, written⟩ := guard.shown_written lineEnd legal Precedence.sequence
  simp only [Print.guardedText, Value.tagged, Value.field_of_lookup isGuard, Value.field_of_lookup isBody,
    prints, ok_bind]
  refine (bodyText_spells margins level stands spells).bind fun e body => ?_
  obtain ⟨tokens, bodyWritten, reads⟩ := body
  have head := written_guard kind.keyword (by cases kind <;> decide) written
  exact ⟨_, head.then_trailing bodyWritten, reads_guarded kind legal reads⟩

theorem doWhileText_spells (lineEnd : A.isPart '\n' = false) (margins : Margins E p)
    (isBody : fields.lookup "body" = some b) (stands : s.Stands b)
    (spells : Lays A E p s b) (isTest : fields.lookup "test" = some a)
    (legal : t.isLegal A = true) (test : Writes p (.plain level) t a) :
    Gives E (Spells (Finished A) (.doWhile s.braced t))
      (Print.doWhileText p level (.tagged "DoWhileStatement" fields)) := by
  obtain ⟨d, prints, written⟩ := test.shown_written lineEnd legal Precedence.sequence
  have keyword : Written (EndsInWord A) [.word "do"] (Doc.text "do") :=
    written_text [.token (.word "do")] (by decide)
      (endsInWord_single (isWord_of_letters (by decide) (by decide)))
  -- The two signs at the end are one piece of text.
  have ending : Written (Finished A) (guardTokens "while" t ++ [.sign ";"])
      (Doc.text "while (" ++ d ++ Doc.text ");") := by
    have semicolon : Written (Trailing A) [.sign ";"] (Doc.text ";") := written_sign (by decide)
    have closed := (written_guard "while" (by decide) written).then_trailing semicolon
    intro width
    obtain ⟨row, chars, same, finished⟩ := closed width
    exact ⟨row, by rw [← chars]; simp [chars_append, chars_text], same, finished⟩
  have rest : ∀ {body gap : Doc} {tokens : List Token}, Written (Trailing A) tokens body →
      Reads s.braced tokens → Written (Trailing A) [] gap →
      Gives E (Spells (Finished A) (.doWhile s.braced t))
        (p.shown (.plain level) Precedence.sequence a >>= fun test =>
          pure (Doc.text "do" ++ body ++ gap ++ Doc.text "while (" ++ test ++ Doc.text ");")) := by
    intro body gap tokens bodyWritten reads blanks
    rw [prints, ok_bind]
    have whole := ((keyword.word bodyWritten).then_trailing blanks).then_finished ending
    exact ⟨_, by simpa using whole, by simpa using reads_doWhile legal reads⟩
  simp only [Print.doWhileText, Value.tagged, Value.field_of_lookup isBody, Value.field_of_lookup isTest,
    ok_bind]
  refine (bodyText_spells margins level stands spells).bind fun e body => ?_
  obtain ⟨tokens, bodyWritten, reads⟩ := body
  split
  · exact Gives.next (rest bodyWritten reads written_blank)
  · exact (margins.line A _).bind fun line blanks => rest bodyWritten reads blanks

theorem labeledText_spells {label : String} {name : Fields} (lineEnd : A.isPart '\n' = false)
    (isLabel : fields.lookup "label" = some (.tagged "Identifier" name))
    (isName : name.lookup "name" = some (.str label)) (isWord : isWord A label = true)
    (notReserved : label ∉ reserved) (isBody : fields.lookup "body" = some b)
    (spells : Lays A E p s b) :
    Gives E (Spells (Finished A) (.labeled label s.braced))
      (Print.labeledText p level (.tagged "LabeledStatement" fields)) := by
  have head := finished_label isWord
  have written : Written (Finished A) [.word label, .sign ":"] (Doc.text label ++ Doc.text ": ") :=
    written_row lineEnd head.valid (fun width => by simp [chars_append, chars_text]) head
  simp only [Print.labeledText, Value.tagged, Value.field_of_lookup isLabel,
    Value.field_of_lookup isName, Value.field_of_lookup isBody, ok_bind]
  refine (spells level).bind fun d body => ?_
  obtain ⟨tokens, bodyWritten, reads⟩ := body
  exact ⟨_, written.then_finished bodyWritten, reads_labeled notReserved reads⟩

/-! ## Blocks -/

/-- Statements are laid out one by one. -/
theorem mapM_spells {f : Value → Except Fault Doc} {body : List Sentence} {values : List Value}
    (each : List.Forall₂ (fun s v => Gives E (Spells (Finished A) s) (f v)) body values) :
    Gives E (List.Forall₂ (Spells (Finished A)) body) (values.mapM f) := by
  induction each with
  | nil => exact .nil
  | cons first _ ih =>
    rw [List.mapM_cons]
    exact first.bind fun d spells => ih.bind fun docs all => .cons spells all

/-- Statements on lines of their own. -/
theorem joined_written {body : List Sentence} {docs : List Doc}
    (each : List.Forall₂ (Spells (Finished A)) body docs) : ∃ lists, List.Forall₂ Reads body lists ∧
      Written (Finished A) lists.flatten (Doc.joined [.newline] docs) := by
  induction each with
  | nil => exact ⟨[], .nil, fun _ => ⟨[], rfl, rfl, finished_nil⟩⟩
  | @cons s d body docs first others ih =>
    obtain ⟨tokens, written, reads⟩ := first
    obtain ⟨lists, readAll, writtenAll⟩ := ih
    refine ⟨tokens :: lists, .cons reads readAll, ?_⟩
    cases others with
    | nil =>
      cases readAll
      simpa [Doc.joined] using written
    | cons second others =>
      have whole := (written.then_trailing written_newline).then_finished writtenAll
      simpa [Doc.joined] using whole

theorem bracedAll_eq (body : List Sentence) : bracedAll body = body.map Sentence.braced := by
  induction body with
  | nil => rfl
  | cons s rest ih => rw [bracedAll, ih, List.map_cons]

/-- The lines of a block are spelled as its statements, between braces. -/
theorem blockText_spells (margins : Margins E p) {body : List Sentence} {values : List Value}
    (isBody : fields.lookup "body" = some (.seq values))
    (each : List.Forall₂ (Lays A E p) body values) :
    Gives E (Spells (Finished A) (Sentence.block body).braced)
      (Print.blockText p level (.tagged "BlockStatement" fields)) := by
  have opening : Written (Trailing A) [.sign "\x7b"] (Doc.text "\x7b") := written_sign (by decide)
  have closing : Written (Trailing A) [.sign "\x7d"] (Doc.text "\x7d") := written_sign (by decide)
  rw [Sentence.braced, bracedAll_eq]
  simp only [Print.blockText, Value.tagged, Value.field_of_lookup isBody, ok_bind]
  split
  · rename_i isEmpty
    obtain rfl : values = [] := by simpa [Value.truthy] using isEmpty
    cases each
    exact ⟨_, written_text [.token (.sign "\x7b"), .token (.sign "\x7d")] (by decide)
      ((trailing_sign (by decide)).toFinished.append (trailing_sign (by decide)).toFinished),
      reads_block .nil⟩
  · have lines : List.Forall₂ (fun s v => Gives E (Spells (Finished A) s)
        (p.margin (level + 1) >>= fun margin =>
          p.statement (level + 1) v >>= fun d => pure (margin ++ d)))
        (body.map Sentence.braced) values := by
      refine List.forall₂_map_left_iff.mpr (each.imp fun s v spells => ?_)
      refine (margins _).bind fun margin same => ?_
      refine (spells _).bind fun d spelled => ?_
      obtain ⟨tokens, written, reads⟩ := spelled
      exact ⟨tokens, same ▸ (written_pad _).then_finished written, reads⟩
    have joined : Gives E (fun d => ∃ lists, List.Forall₂ Reads (body.map Sentence.braced) lists ∧
        Written (Finished A) lists.flatten d) (p.statementLines (level + 1) (.seq values)) :=
      Gives.next ((mapM_spells lines).bind fun docs all => joined_written all)
    refine joined.bind fun d spelled => ?_
    obtain ⟨lists, reads, written⟩ := spelled
    refine (margins.line A _).bind fun line blanks => ?_
    have whole := (((opening.trailing written_newline.finished).trailing written).trailing
      blanks.finished).trailing closing.finished
    exact ⟨_, whole.finished, by simpa using reads_block reads⟩

/-! ## Expressions as statements -/

/-- A bracket after blanks. -/
theorem head_of_bracket {row : List Glyph} {more : List Token} (same : tokensOf row = .sign "[" :: more) :
    ((spell row).dropWhile Text.isBlank).head? = some '[' := by
  induction row with
  | nil => cases same
  | cons g row ih =>
    cases g with
    | blank =>
      have isBlank : Text.isBlank ' ' = true := by decide
      simpa [isBlank] using ih same
    | token t =>
      rw [tokensOf_token, List.cons.injEq] at same
      have notBlank : Text.isBlank '[' = false := by decide
      simp [same.1, notBlank]

/-- What is not put in parentheses does not start like a declaration with a pattern. -/
theorem opensPattern_of_start {row : List Glyph} (tidy : Tidy A row)
    (plain : Print.isAmbiguousStart (spell row) = false) : opensPattern (tokensOf row) = false := by
  by_contra opens
  obtain ⟨more, same⟩ : ∃ more, tokensOf row = .word "let" :: .sign "[" :: more := by
    unfold opensPattern at opens
    split at opens
    · exact ⟨_, ‹_›⟩
    · simp at opens
  cases row with
  | nil => cases same
  | cons g row =>
    obtain ⟨token, rfl, -⟩ := tidy.opens g rfl
    rw [tokensOf_token, List.cons.injEq] at same
    obtain ⟨rfl, same⟩ := same
    have bracket := head_of_bracket same
    have starts : Print.startsLetBracket (spell (.token (.word "let") :: row)) = true := by
      simp [Print.startsLetBracket, List.isPrefixOf?, bracket]
    rw [Print.isAmbiguousStart, starts, Bool.or_true] at plain
    cases plain

/-- An expression that would be read as another statement is enclosed, which the reading does not
see. -/
theorem expressionStatementText_spells (lineEnd : A.isPart '\n' = false)
    (found : fields.lookup "expression" = some a) (legal : t.isLegal A = true)
    (writes : Writes p (.plain level) t a) :
    Gives E (Spells (Finished A) (.expression t))
      (Print.expressionStatementText p level (.tagged "ExpressionStatement" fields)) := by
  have bare : placed false Precedence.sequence t (t.row false) = t.row false := by
    simp [placed, Precedence.sequence]
  obtain ⟨d, prints, chars⟩ := writes Precedence.sequence
  replace chars : ∀ width, d.chars width = spell (t.row false) := fun width => bare ▸ chars width
  have formed := Term.isFormed_of_isLegal legal
  have operand := t.operand false formed
  have parsed := t.parsed false formed
  have same : t.asRead = t := Term.asRead_of_isLegal legal
  simp only [Print.expressionStatementText, Value.tagged, Value.field_of_lookup found, Printer.glued,
    prints, Phrase.glue, ok_bind, chars]
  split
  · have enclosed : Operand A (enclosed (t.row false)) :=
      Operand.enclosed operand.toLegible (operand.clear_before (by decide) (by decide))
    have written := written_row lineEnd enclosed.valid (fun width => chars_parenthesized (chars width))
      enclosed
    rw [tokensOf_enclosed] at written
    refine ⟨_, written.closed (by decide), reads_expression (onset_sign _ _) ⟨_, _, rfl, rfl⟩ rfl ?_⟩
    intro depth enough rest stops
    have reads := ((parsed.enclosed enough).mono (Nat.zero_le _) (Nat.le_refl 17)).reads stops
    rwa [same] at reads
  · rename_i plain
    have written := written_row lineEnd operand.valid chars operand
    have starts : StartsOperand (t.tokensAt false Precedence.sequence) :=
      startsOperand_tokensAt formed _
    rw [Term.tokensAt, bare] at starts
    refine ⟨_, written.closed (by decide), reads_expression (t.onset false formed) starts
      (opensPattern_of_start operand.toTidy (by simpa using plain)) ?_⟩
    intro depth enough rest stops
    have reads := ((parsed.leads depth enough).mono (Nat.zero_le _) (reach_le t)).reads stops
    rwa [same] at reads

/-! ## Loops with a head -/

/-- The field of a loop that may be missing is printed as the tokens, with the sign after it. -/
def WritesPart (A : Alphabet) (print : Option Value → Except Fault Doc) (fields : Fields)
    (name sign : String) (tokens : List Token) : Prop :=
  ∃ found d, (Value.tagged "ForStatement" fields).optional name = .ok found ∧ print found = .ok d ∧
    Written (Finished A) (tokens ++ [.sign sign]) (d ++ Doc.text sign)

theorem writesPart_none {print : Option Value → Except Fault Doc} {name sign : String}
    (lacks : Lacks fields name) (nothing : print none = .ok []) (loose : sign ∈ looseSigns) :
    WritesPart A print fields name sign [] :=
  ⟨none, [], Value.optional_of_lacks lacks, nothing, (written_sign loose).finished⟩

/-- A part of the head of a loop is spelled with a blank before it, or not at all. -/
theorem headPart_written (lineEnd : A.isPart '\n' = false) {part : Option Term} {name sign : String}
    (legal : part.all (Term.isLegal A) = true) (stands : PartStands Term.Stands part fields name)
    (writes : ∀ t a, t.isLegal A = true → fields.lookup name = some a → t.Stands a →
      Writes p (.plain level) t a) (loose : sign ∈ looseSigns) :
    WritesPart A (Print.headPart p level) fields name sign (optionalTokens part) := by
  cases part with
  | none => exact writesPart_none stands rfl loose
  | some t =>
    obtain ⟨a, found, tStands⟩ := stands
    have present : a ≠ .null := by
      rintro rfl
      cases tStands.not_null (not_hole_of_isFormed (Term.isFormed_of_isLegal legal))
    obtain ⟨d, prints, written⟩ :=
      (writes t a legal found tStands).glued_written lineEnd legal Precedence.sequence
    refine ⟨some a, Doc.text " " ++ d, Value.optional_of_lookup found present, ?_, ?_⟩
    · simp [Print.headPart, prints]
    · rw [List.append_assoc]
      exact (written_blank.trailing (written.closed loose)).finished

/-- The three parts of a head and the body, each of them spelled by what stands for it. -/
theorem forText_spells (margins : Margins E p) {init : Option Head} {test update : Option Term}
    (initLegal : init.all (Head.isLegal A) = true) (testLegal : test.all (Term.isLegal A) = true)
    (updateLegal : update.all (Term.isLegal A) = true)
    (initPart : WritesPart A (Print.initText p level) fields "init" ";" (init.elim [] Head.tokens))
    (testPart : WritesPart A (Print.headPart p level) fields "test" ";" (optionalTokens test))
    (updatePart : WritesPart A (Print.headPart p level) fields "update" ")" (optionalTokens update))
    (isBody : fields.lookup "body" = some b) (stands : s.Stands b)
    (spells : Lays A E p s b) :
    Gives E (Spells (Finished A) (.forLoop init test update s.braced))
      (Print.forText p level (.tagged "ForStatement" fields)) := by
  obtain ⟨found, d, reads, prints, written⟩ := initPart
  obtain ⟨testFound, e, testReads, testPrints, testWritten⟩ := testPart
  obtain ⟨updateFound, f, updateReads, updatePrints, updateWritten⟩ := updatePart
  have isBody' : (Value.tagged "ForStatement" fields).field "body" = .ok b :=
    Value.field_of_lookup isBody
  simp only [Print.forText, reads, prints, testReads, testPrints, updateReads, updatePrints, isBody',
    ok_bind]
  refine (bodyText_spells margins level stands spells).bind fun body spelled => ?_
  obtain ⟨tokens, bodyWritten, bodyReads⟩ := spelled
  have keyword : Written (Finished A) [.word "for", .sign "("] (Doc.text "for (") :=
    written_keyword (by decide)
  have whole := (((keyword.then_finished written).then_finished testWritten).then_finished
    updateWritten).then_trailing bodyWritten
  refine ⟨_, by simpa using whole, ?_⟩
  simpa [forTokens] using reads_forLoop initLegal testLegal updateLegal bodyReads

/-- A head, the keyword and what is run through. -/
theorem forEachText_spells (each : Each) (tag : String) (lineEnd : A.isPart '\n' = false)
    (margins : Margins E p) {left : Head} (leftLegal : left.isLegal A = true)
    (isLeft : left.isLeft each = true) (apart : each = .key ∨ left.isDeclaration = true ∨
      clashesWithOf (left.tokens ++ [.word "of"]) = false)
    (leftFound : fields.lookup "left" = some a) {d : Doc} (head : Print.loopHead p level a = .ok (.doc d))
    (chars : ∀ width, d.chars width = spell left.row) (rightFound : fields.lookup "right" = some b)
    (legal : t.isLegal A = true) (right : Writes p (.plain level) t b)
    (isBody : fields.lookup "body" = some c) (stands : s.Stands c)
    (spells : Lays A E p s c) :
    Gives E (Spells (Finished A) (.forEach each left t s.braced))
      (Print.forEachText p level each.keyword (.tagged tag fields)) := by
  obtain ⟨e, prints, written⟩ := right.shown_written lineEnd legal Precedence.assignment
  have closed : Written (Finished A) (t.tokensAt false Precedence.assignment ++ [.sign ")"])
      (e ++ Doc.text ")") := written.closed (by decide)
  simp only [Print.forEachText, Value.tagged, Value.field_of_lookup leftFound,
    Value.field_of_lookup rightFound, Value.field_of_lookup isBody, head, prints, Phrase.shown, ok_bind]
  refine (bodyText_spells margins level stands spells).bind fun body spelled => ?_
  obtain ⟨tokens, bodyWritten, bodyReads⟩ := spelled
  have operand := Head.operand leftLegal
  have word : isWord A each.keyword = true := by
    cases each <;> exact isWord_of_letters (by decide) (by decide)
  have between : Written (· = spaced (.word each.keyword)) [.word each.keyword]
      (Doc.text (" " ++ each.keyword ++ " ")) :=
    written_text (spaced (.word each.keyword)) (by cases each <;> decide) rfl
  have target : Written (Finished A) (left.tokens ++ [.word each.keyword])
      (d ++ Doc.text (" " ++ each.keyword ++ " ")) :=
    (written_row lineEnd operand.valid chars operand).append between
      fun row others isOperand same => same ▸ isOperand.then_keyword word
  have keyword : Written (Finished A) [.word "for", .sign "("] (Doc.text "for (") :=
    written_keyword (by decide)
  have whole := ((keyword.then_finished target).then_finished closed).then_trailing bodyWritten
  refine ⟨_, by simpa using whole, ?_⟩
  simpa using reads_forEach leftLegal isLeft apart legal bodyReads

end Statements

end Untangle.Reading
