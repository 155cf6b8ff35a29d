import Untangle.Proofs.Reading.SentenceLayout

/-!
# Printed statements are read back

Printing the tree of a statement gives a text that is read as that statement, at every level and for
every width for which its blanks can be made. The text has braces around each consequent that would
take the `else` after it, so what is read has a block there.

* `loopHead_writes` says that the head of a loop is written as its row.
* `Sentence.spells` says that a printer lays out the tokens of a statement.
* `read_statement` is the round trip.
-/

namespace Untangle.Reading

open Print (Precedence Printer Ruler Doc Phrase Indents freeRuler statementCode)

/-! ## Every tree of a statement -/

section Trees

variable {A : Alphabet} {E : Fault → Prop} {ruler : Ruler} {level : Int} {depth : Nat} {v : Value}

theorem forall₂_of_members {α β : Type} {R W : α → β → Prop} {xs : List α} {ys : List β}
    (related : List.Forall₂ R xs ys) (each : ∀ x ∈ xs, ∀ y ∈ ys, R x y → W x y) :
    List.Forall₂ W xs ys := by
  induction related with
  | nil => exact .nil
  | cons first _ ih =>
    refine .cons (each _ (by simp) _ (by simp) first) (ih fun x member y inside => ?_)
    exact each x (List.mem_cons_of_mem _ member) y (List.mem_cons_of_mem _ inside)

theorem declaratorText_writes {d : Declarator} (legal : d.isLegal A = true) (stands : d.Stands v)
    (reached : v.depth ≤ depth) :
    ∃ e, Print.declaratorText (Printer.ofDepth ruler depth) { level, noIn := true } v = .ok (.doc e) ∧
      ∀ width, e.chars width = spell d.row := by
  obtain ⟨name, init⟩ := d
  simp only [Declarator.isLegal, Bool.and_eq_true] at legal
  obtain ⟨fields, a, rfl, isTarget, nameStands, initStands⟩ := stands
  have below : (Value.tagged "VariableDeclarator" fields).depth ≤ depth + 1 := Nat.le_succ_of_le reached
  have nameFormed : (Term.name name).isFormed A = true := by simpa [Term.isFormed] using legal.1
  obtain ⟨e, prints, chars⟩ := (Term.name name).writes ruler { level, noIn := true } nameFormed
    nameStands (depth_of_field below isTarget) Precedence.assignment
  have nameChars : ∀ width, e.chars width = name.toList := by
    intro width
    simp [chars, placed, Term.own, Term.isInOperation, Term.row, Precedence.primary,
      Precedence.assignment]
  cases init with
  | none =>
    refine ⟨e, ?_, fun width => by simp [nameChars, Declarator.row]⟩
    simp [Print.declaratorText, Value.tagged, Value.field_of_lookup isTarget, prints,
      Value.optional_of_lacks initStands]
  | some value =>
    obtain ⟨b, found, valueStands⟩ := initStands
    have formed := Term.isFormed_of_isLegal legal.2
    have present : b ≠ .null := by
      rintro rfl
      cases valueStands.not_null (not_hole_of_isFormed formed)
    obtain ⟨f, valuePrints, valueChars⟩ := (value.writes ruler { level, noIn := true } formed valueStands
      (depth_of_field below found)).shown Precedence.assignment
    refine ⟨e ++ Doc.text " = " ++ f, ?_, fun width => ?_⟩
    · simp [Print.declaratorText, Value.tagged, Value.field_of_lookup isTarget, prints,
        Value.optional_of_lookup found present, valuePrints, Phrase.shown]
    · simp [chars_append, chars_text, nameChars, valueChars, Declarator.row, spaced]

theorem Term.Stands.not_declaration {t : Term} (stands : t.Stands v) (notHole : t.isHole = false) :
    v.isTagged "VariableDeclaration" = .ok false := by
  obtain ⟨tag, fields, rfl, other⟩ :
      ∃ tag fields, v = .tagged tag fields ∧ tag ≠ "VariableDeclaration" := by
    cases t with
    | hole => cases notHole
    | _ =>
      rw [Term.Stands] at stands
      grind [IsInteger, binaryTag]
  simp [other]

/-- A printer that reaches all of a head writes its row. -/
theorem loopHead_writes (ruler : Ruler) (level : Int) {head : Head} (legal : head.isLegal A = true)
    (stands : head.Stands v) (reached : v.depth ≤ depth) :
    ∃ d, Print.loopHead (Printer.ofDepth ruler depth) level v = .ok (.doc d) ∧
      ∀ width, d.chars width = spell head.row := by
  cases head with
  | expression t =>
    simp only [Head.isLegal, Bool.and_eq_true] at legal
    have stands : t.Stands v := stands
    have formed := Term.isFormed_of_isLegal legal.1
    have notDeclaration := stands.not_declaration (not_hole_of_isFormed formed)
    obtain ⟨d, prints, chars⟩ :=
      t.writes ruler { level, noIn := true } formed stands reached Precedence.sequence
    exact ⟨d, by simp [Print.loopHead, notDeclaration, prints], chars⟩
  | declaration kind declared =>
    simp only [Head.isLegal, Bool.and_eq_true, List.all_eq_true] at legal
    obtain ⟨fields, values, rfl, isKind, found, allStand⟩ := stands
    have below : (Value.tagged "VariableDeclaration" fields).depth ≤ depth + 1 :=
      Nat.le_succ_of_le reached
    have each : List.Forall₂ (fun d v => ∃ e, Print.declaratorText (Printer.ofDepth ruler depth)
        { level, noIn := true } v = .ok (.doc e) ∧ ∀ width, e.chars width = spell d.row)
        declared values :=
      forall₂_of_members allStand fun d member v inside dStands =>
        declaratorText_writes (legal.2 d member) dStands (depth_of_member below found inside)
    obtain ⟨docs, prints, chars⟩ := mapM_rows each
    refine ⟨Print.shownValue (.str kind) ++ Doc.text " " ++ Doc.joined (Doc.text ", ") docs, ?_,
      fun width => ?_⟩
    · simp [Print.loopHead, Print.declarationText, Value.tagged, Value.field_of_lookup found, Value.items,
        prints, joined_docs, Value.field_of_lookup isKind]
    · simp [chars_append, Print.shownValue, Value.plainText, chars_text, chars_joined (chars width),
        Head.row]

theorem initPart_written (lineEnd : A.isPart '\n' = false) {init : Option Head} {fields : Fields}
    (legal : init.all (Head.isLegal A) = true) (stands : PartStands Head.Stands init fields "init")
    (reached : ∀ a, fields.lookup "init" = some a → a.depth ≤ depth) :
    WritesPart A (Print.initText (Printer.ofDepth ruler depth) level) fields "init" ";"
      (init.elim [] Head.tokens) := by
  cases init with
  | none => exact writesPart_none stands rfl (by decide)
  | some head =>
    obtain ⟨a, found, headStands⟩ := stands
    have present : a ≠ .null := by
      rintro rfl
      cases head with
      | expression t =>
        simp only [Option.all_some, Head.isLegal, Bool.and_eq_true] at legal
        cases Term.Stands.not_null headStands (not_hole_of_isFormed (Term.isFormed_of_isLegal legal.1))
      | declaration kind declared =>
        obtain ⟨fields, values, isNull, -⟩ := headStands
        cases isNull
    obtain ⟨d, prints, chars⟩ := loopHead_writes ruler level legal headStands (reached a found)
    have operand := Head.operand legal
    have written := written_row lineEnd operand.valid chars operand
    refine ⟨some a, d, Value.optional_of_lookup found present, ?_, written.closed (by decide)⟩
    simp [Print.initText, prints, Phrase.glue]

/-- Where nothing is in the way of a line, it is indented by its level. -/
theorem margins_freeRuler (width : Nat) : Margins E (Printer.ofDepth (freeRuler width) depth) := by
  intro level
  have margin : (Printer.ofDepth (freeRuler width) depth).margin level = .ok [.pad level] := by
    induction depth with
    | zero => rfl
    | succ depth ih => exact ih
  rw [margin]
  rfl

theorem sentencesStand.forall₂ {body : List Sentence} {values : List Value}
    (stands : sentencesStand body values) : List.Forall₂ Sentence.Stands body values := by
  induction body generalizing values with
  | nil =>
    obtain rfl := stands
    exact .nil
  | cons s rest ih =>
    rw [sentencesStand] at stands
    obtain ⟨v, more, rfl, first, others⟩ := stands
    exact .cons first (ih others)

theorem areLegalSentences_iff {body : List Sentence} :
    areLegalSentences A body = true ↔ ∀ s ∈ body, s.isLegal A = true := by
  induction body with
  | nil => simp [areLegalSentences]
  | cons s rest ih => simp [areLegalSentences, ih]

/-- A printer that reaches all of a tree lays out the statement that the tree stands for, with braces
around each consequent that would take the `else` after it. -/
theorem Sentence.spells (lineEnd : A.isPart '\n' = false) (width : Nat) (s : Sentence)
    (legal : s.isLegal A = true) (stands : s.Stands v) (reached : v.depth ≤ depth) :
    Gives E (Spells (Finished A) s.braced)
      ((Printer.ofDepth (freeRuler width) depth).statement level v) := by
  induction s generalizing v level depth
  all_goals
    -- the parts are laid out by the printer below
    obtain ⟨below, rfl⟩ : ∃ below, depth = below + 1 := by
      obtain ⟨fields, rfl⟩ := stands.tagged
      exact Nat.exists_eq_succ_of_ne_zero (by simp only [Value.depth] at reached; omega)
    rw [Sentence.Stands] at stands
    have margins : Margins E (Printer.ofDepth (freeRuler width) below) := margins_freeRuler width
    have writes (t : Term) (a : Value) (tLegal : t.isLegal A = true) :=
      @Term.writes A (freeRuler width) (.plain level) t a (Term.isFormed_of_isLegal tLegal)
  case empty =>
    obtain ⟨fields, rfl⟩ := stands
    exact ⟨_, (written_sign (by decide)).finished, reads_empty⟩
  case expression t =>
    obtain ⟨fields, a, rfl, found, tStands⟩ := stands
    exact expressionStatementText_spells lineEnd found legal
      (writes t _ legal tStands (depth_of_field reached found))
  case block body ih =>
    obtain ⟨fields, values, rfl, found, allStand⟩ := stands
    rw [Sentence.isLegal, areLegalSentences_iff] at legal
    refine blockText_spells margins found (forall₂_of_members allStand.forall₂ ?_)
    exact fun s member v inside sStands level => ih s member (legal s member) sStands
      (depth_of_member reached found inside)
  case ifThen test consequent ih =>
    obtain ⟨fields, a, b, rfl, isTest, testStands, isConsequent, consequentStands, lacks⟩ := stands
    simp only [Sentence.isLegal, Bool.and_eq_true] at legal
    exact ifText_spells lineEnd margins isTest legal.1
      (writes test _ legal.1 testStands (depth_of_field reached isTest))
      isConsequent consequentStands (fun level => ih legal.2 consequentStands
        (depth_of_field reached isConsequent)) lacks
  case ifElse test consequent alternate ih ihAlternate =>
    obtain ⟨fields, a, b, c, rfl, isTest, testStands, isConsequent, consequentStands, isAlternate,
      alternateStands⟩ := stands
    simp only [Sentence.isLegal, Bool.and_eq_true] at legal
    exact ifElseText_spells lineEnd margins isTest legal.1.1
      (writes test _ legal.1.1 testStands (depth_of_field reached isTest))
      isConsequent consequentStands (fun level => ih legal.1.2 consequentStands
        (depth_of_field reached isConsequent))
      isAlternate alternateStands (fun level => ihAlternate legal.2 alternateStands
        (depth_of_field reached isAlternate))
  case guarded kind guard body ih =>
    obtain ⟨fields, a, b, rfl, isGuard, guardStands, isBody, bodyStands⟩ := stands
    simp only [Sentence.isLegal, Bool.and_eq_true] at legal
    have spelled := guardedText_spells kind kind.tag lineEnd margins isGuard legal.1
      (writes guard _ legal.1 guardStands (depth_of_field reached isGuard))
      isBody bodyStands (fun level => ih legal.2 bodyStands (depth_of_field reached isBody))
    cases kind <;> exact spelled
  case doWhile body test ih =>
    obtain ⟨fields, a, b, rfl, isBody, bodyStands, isTest, testStands⟩ := stands
    simp only [Sentence.isLegal, Bool.and_eq_true] at legal
    exact doWhileText_spells lineEnd margins isBody bodyStands
      (fun level => ih legal.1 bodyStands (depth_of_field reached isBody))
      isTest legal.2
      (writes test _ legal.2 testStands (depth_of_field reached isTest))
  case forLoop init test update body ih =>
    obtain ⟨fields, b, rfl, initStands, testStands, updateStands, isBody, bodyStands⟩ := stands
    simp only [Sentence.isLegal, Bool.and_eq_true] at legal
    obtain ⟨⟨⟨initLegal, testLegal⟩, updateLegal⟩, bodyLegal⟩ := legal
    have parts (name : String) (t : Term) (a : Value) (tLegal : t.isLegal A = true)
        (found : fields.lookup name = some a) (tStands : t.Stands a) :=
      writes t a tLegal tStands (depth_of_field reached found)
    exact forText_spells margins initLegal testLegal updateLegal
      (initPart_written lineEnd initLegal initStands fun a => depth_of_field reached)
      (headPart_written lineEnd testLegal testStands (parts "test") (by decide))
      (headPart_written lineEnd updateLegal updateStands (parts "update") (by decide))
      isBody bodyStands (fun level => ih bodyLegal bodyStands (depth_of_field reached isBody))
  case forEach each left right body ih =>
    obtain ⟨fields, a, b, c, rfl, isLeft, leftStands, isRight, rightStands, isBody, bodyStands⟩ := stands
    simp only [Sentence.isLegal, Bool.and_eq_true] at legal
    obtain ⟨⟨⟨⟨leftLegal, leftIsLeft⟩, apart⟩, rightLegal⟩, bodyLegal⟩ := legal
    obtain ⟨d, prints, chars⟩ := loopHead_writes (freeRuler width) level leftLegal leftStands
      (depth_of_field reached isLeft)
    have spelled := forEachText_spells each each.tag lineEnd margins leftLegal leftIsLeft
      (by simpa [or_assoc] using apart) isLeft prints chars isRight rightLegal
      (writes right _ rightLegal rightStands (depth_of_field reached isRight))
      isBody bodyStands (fun level => ih bodyLegal bodyStands (depth_of_field reached isBody))
    cases each <;> exact spelled
  case labeled label body ih =>
    obtain ⟨fields, name, b, rfl, isLabel, isName, isBody, bodyStands⟩ := stands
    simp only [Sentence.isLegal, Bool.and_eq_true] at legal
    exact labeledText_spells lineEnd isLabel isName legal.1.1 (by simpa using legal.1.2) isBody
      (fun level => ih legal.2 bodyStands (depth_of_field reached isBody))

end Trees

/-! ## The round trip -/

section Reading

variable {A : Alphabet} {s : Sentence} {v : Value}

/-- A document with the tokens of a statement is read as the statement. -/
theorem Spells.read {d : Doc} (spells : Spells (Finished A) s d) (width : Nat) :
    readStatement A (d.render width) = some s := by
  obtain ⟨tokens, written, reads⟩ := spells
  obtain ⟨row, chars, rfl, finished⟩ := written width
  have lexed : lex A (oneLine (d.render width).toList) = some (tokensOf row) := by
    rw [Doc.render, String.toList_ofList, chars]
    exact lex_spell finished.valid finished.clear
  have parsed := reads.parses _ _ (Nat.le_refl _) (Nat.le_refl _) [] fun _ => rfl
  rw [List.append_nil] at parsed
  simp [readStatement, lexed, parsed]

theorem statement_reads (lineEnd : A.isPart '\n' = false) (legal : s.isLegal A = true)
    (stands : s.Stands v) (width : Nat) (level : Int) :
    ∃ d, Print.statement (freeRuler width) level v = .ok d ∧
      readStatement A (d.render width) = some s.braced := by
  have spelled : Gives (fun _ => False) (Spells (Finished A) s.braced)
      (Print.statement (freeRuler width) level v) :=
    s.spells lineEnd width legal stands (Nat.le_refl _)
  cases outcome : Print.statement (freeRuler width) level v with
  | ok d =>
    rw [outcome] at spelled
    exact ⟨d, rfl, Spells.read spelled width⟩
  | error fault =>
    rw [outcome] at spelled
    exact spelled.elim

/-- `if (a) l: for (var i = 0;; i++) if (b) f(); else g();` where the `else` belongs to the first `if`. -/
def danglingElse : Sentence :=
  .ifElse (.name "a")
    (.labeled "l" (.forLoop (some (.declaration "var" [⟨"i", some (.number 0)⟩])) none
      (some (.update "++" false (.name "i"))) (.ifThen (.name "b") (.expression (.call (.name "f") [])))))
    (.expression (.call (.name "g") []))

def danglingElseTree : Value :=
  let name (text : String) : Value := .tagged "Identifier" [("name", .str text)]
  let call (text : String) : Value := .tagged "ExpressionStatement"
    [("expression", .tagged "CallExpression" [("callee", name text), ("arguments", .seq [])])]
  let counter := Value.tagged "VariableDeclarator"
    [("id", name "i"), ("init", .tagged "Literal" [("value", .int 0)])]
  let declaration := Value.tagged "VariableDeclaration"
    [("kind", .str "var"), ("declarations", .seq [counter])]
  let update := Value.tagged "UpdateExpression"
    [("operator", .str "++"), ("prefix", .bool false), ("argument", name "i")]
  let loop := Value.tagged "ForStatement" [("init", declaration), ("test", .null), ("update", update),
    ("body", Value.ifStatement (name "b") (call "f") .null)]
  Value.ifStatement (name "a") (.tagged "LabeledStatement" [("label", name "l"), ("body", loop)])
    (call "g")

/-- A loop over the members of `x` that sets a name. -/
def overMembers (name : String) : Sentence :=
  .forEach .member (.expression (.name name)) (.name "x") .empty

def overMembersTree (name : String) : Value :=
  .tagged "ForOfStatement" [("left", .tagged "Identifier" [("name", .str name)]),
    ("right", .tagged "Identifier" [("name", .str "x")]), ("body", .tagged "EmptyStatement" [])]

/-- `for (let[0];;);`, a loop that starts with an element of the value named `let`. -/
def startingAtElement : Sentence :=
  .forLoop (some (.expression (.index (.name "let") (.number 0)))) none none .empty

def startingAtElementTree : Value :=
  let element := Value.tagged "MemberExpression" [("object", .tagged "Identifier" [("name", .str "let")]),
    ("property", .tagged "Literal" [("value", .int 0)]), ("computed", .bool true)]
  .tagged "ForStatement" [("init", element), ("test", .null), ("update", .null),
    ("body", .tagged "EmptyStatement" [])]

end Reading

end Untangle.Reading
