import Untangle.Proofs.Print.Expressions

/-!
# Printing statements

Given a printer for the parts of a node, the text of every well-formed statement is laid out, unless
a line in it cannot be indented.

* `bodyText_answers` is about the bodies of compound statements, `consequentText_answers` about the
  branch before an `else`.
* `statementText_answers` collects the kinds of statements, with programs, cases and handlers.
-/

namespace Untangle.Print

open Syntax Reshape

section Statements

variable {E : Fault → Prop} {p : Printer} {depth : Nat} {bound level : Int} {tag : String}
  {fields : Fields}

/-- A block stays on the line of its keyword, an empty statement is a semicolon, and any other body
goes on a line of its own, one level deeper. -/
theorem bodyText_answers (prints : Prints E p depth bound) {v : Value}
    (part : Part depth bound level statementTags v) : Answers E (bodyText p level v) := by
  have inner := prints.inner part.fit part.inside Near.here
  have deeper := prints.inner part.fit part.inside Near.deeper
  have within := part.inside.within
  obtain ⟨tag, fields, rfl, -⟩ := part.standing
  refine Gives.next ?_
  split
  · exact inner.bind fun _ _ => trivial
  · split
    · trivial
    · exact (prints.line within Near.deeper).bind fun _ _ => deeper.bind fun _ _ => trivial

/-- A block without statements needs no indentation; one with statements asks for the level of its
braces and the one below. -/
theorem blockText_answers (prints : Prints E p depth bound)
    (node : Standing depth bound level "BlockStatement" fields) :
    Answers E (blockText p level (.tagged "BlockStatement" fields)) := by
  refine (node.many rfl).bind fun body isSeq => ?_
  obtain ⟨items, rfl, each, inside⟩ := isSeq
  split
  · trivial
  · refine (prints.statementLines each inside Near.deeper).bind fun _ _ => ?_
    exact (prints.line node.within Near.here).bind fun _ _ => trivial

theorem expressionStatementText_answers (prints : Prints E p depth bound)
    (node : Standing depth bound level "ExpressionStatement" fields) :
    Answers E (expressionStatementText p level (.tagged "ExpressionStatement" fields)) := by
  refine (node.one rfl).bind fun _ part => ?_
  exact (prints.glued _ part.fit part.inside Near.here).bind
    fun _ _ => trivial

/-- A statement that ends with its body has one that is a statement, so the search for a dangling
`else` goes on at a node. -/
theorem bodyLast_statement : ∀ tag ∈ bodyLastTags,
    (fieldsOf tag).lookup "body" = some Syntax.statement := by
  decide

/-- Following a statement to its end ends at a node. -/
theorem capturesElse_ok {v : Value} (fit : fits Syntax.statement v = true) :
    ∃ b, capturesElse v = .ok b := by
  suffices ends : ∃ base, v.descend lastField = .ok base by
    obtain ⟨base, answer⟩ := ends
    exact ⟨base.hasTag "IfStatement", by simp only [capturesElse, answer, ok_bind, pure_ok]⟩
  refine descend_ok lastField (fun tag fields _ formed => ?_) v fit
  by_cases isIf : tag = "IfStatement"
  · subst isIf
    cases found : fields.lookup "alternate" with
    | none => exact Or.inl (by simp [lastField, isText_str, found])
    | some alternate =>
      rcases fits_opt.mp (formed.fits_lookup found) with rfl | alternateFits
      · exact Or.inl (by simp [lastField, isText_str, found])
      · obtain ⟨_, _, rfl, -⟩ := fits_one.mp alternateFits
        exact Or.inr ⟨"alternate", _, by simp [lastField, isText_str, found], found, alternateFits⟩
  · have listed : bodyLastTags.any (Value.str tag).isText = bodyLastTags.contains tag := by
      rw [← List.any_beq]
      exact congrArg _ (funext fun other => isText_str tag other)
    by_cases hasBody : tag ∈ bodyLastTags
    · obtain ⟨body, found, bodyFits⟩ := formed.required (bodyLast_statement tag hasBody) rfl
      refine Or.inr ⟨"body", body, ?_, found, bodyFits⟩
      simp [lastField, isText_str, isIf, listed, hasBody]
    · exact Or.inl (by simp [lastField, isText_str, isIf, listed, hasBody])

/-- The braces around a branch that would capture the `else` take the lines of a block. -/
theorem bracedText_answers (prints : Prints E p depth bound) {v : Value}
    (part : Part depth bound level statementTags v) : Answers E (bracedText p level v) := by
  refine (prints.line part.inside.within Near.deeper).bind fun _ _ => ?_
  refine (prints.inner part.fit part.inside Near.deeper).bind fun _ _ => ?_
  exact (prints.line part.inside.within Near.here).bind fun _ _ => trivial

/-- Whether the branch before an `else` gets braces is decided on the tree, and both ways lay it
out. -/
theorem consequentText_answers (prints : Prints E p depth bound) {v : Value}
    (part : Part depth bound level statementTags v) : Answers E (consequentText p level v) := by
  have body := bodyText_answers prints part
  have braced := bracedText_answers prints part
  obtain ⟨captures, answer⟩ := capturesElse_ok part.fit
  obtain ⟨tag, fields, rfl, -⟩ := part.standing
  simp only [consequentText, isTagged_tagged, answer, ok_bind, pure_ok]
  split
  · exact body
  · split
    · exact braced
    · exact body

/-- A branch after `else` that is itself a branch goes on the same line, any other is laid out like
a body. -/
theorem alternateText_answers (prints : Prints E p depth bound) {v : Value}
    (part : Part depth bound level statementTags v) : Answers E (alternateText p level v) := by
  have inner := prints.inner part.fit part.inside Near.here
  have body := bodyText_answers prints part
  obtain ⟨tag, fields, rfl, -⟩ := part.standing
  refine Gives.next ?_
  split
  · exact inner.bind fun _ _ => trivial
  · exact body

/-- Only an `else` after something other than a block needs a line of its own. -/
theorem elseKeyword_answers (prints : Prints E p depth bound) (isBlock : Bool) (text : Doc)
    (within : Within bound level) : Answers E (elseKeyword p level isBlock text) := by
  unfold elseKeyword
  split
  · trivial
  · exact (prints.line within Near.here).bind fun _ _ => trivial

/-- The consequent is laid out in two ways, by whether an alternate follows. -/
theorem ifText_answers (prints : Prints E p depth bound)
    (node : Standing depth bound level "IfStatement" fields) :
    Answers E (ifText p level (.tagged "IfStatement" fields)) := by
  refine (node.one rfl).bind fun test testPart => ?_
  refine (prints.shown _ testPart.fit testPart.inside
    Near.here).bind fun _ _ => ?_
  refine (node.one rfl).bind fun yes yesPart => ?_
  refine (node.opt rfl).bind fun no noPart => ?_
  cases no with
  | none => exact (bodyText_answers prints yesPart).bind fun _ _ => trivial
  | some no =>
    have consequent := consequentText_answers prints yesPart
    obtain ⟨tag, inner, rfl, -⟩ := yesPart.standing
    refine Gives.next (consequent.bind fun _ _ => ?_)
    refine (elseKeyword_answers prints _ _ node.within).bind fun _ _ => ?_
    exact (alternateText_answers prints (noPart no rfl)).bind fun _ _ => trivial

/-- `break` and `continue` have a label or none, and a label is a name. -/
theorem jumpText_answers (keyword : String) (node : Standing depth bound level tag fields)
    (declared : (fieldsOf tag).lookup "label" = some (.opt ["Identifier"])) :
    Answers E (jumpText keyword (.tagged tag fields)) := by
  refine (node.opt declared).bind fun label part => ?_
  cases label with
  | none => trivial
  | some label =>
    have isName := part label rfl
    obtain ⟨_, _, rfl, -⟩ := isName.standing
    exact isName.nameText.bind fun _ _ => trivial

/-- A keyword, an expression in parentheses and a body: the loop `while` and the statement `with`.
-/
theorem guardedText_answers (prints : Prints E p depth bound) (keyword name : String)
    (node : Standing depth bound level tag fields)
    (declared : (fieldsOf tag).lookup name = some Syntax.expression)
    (hasBody : (fieldsOf tag).lookup "body" = some Syntax.statement) :
    Answers E (guardedText p level keyword name (.tagged tag fields)) := by
  refine (node.one declared).bind fun guard part => ?_
  refine (prints.shown _ part.fit part.inside Near.here).bind fun _ _ => ?_
  refine (node.one hasBody).bind fun body bodyPart => ?_
  exact (bodyText_answers prints bodyPart).bind fun _ _ => trivial

theorem switchText_answers (prints : Prints E p depth bound)
    (node : Standing depth bound level "SwitchStatement" fields) :
    Answers E (switchText p level (.tagged "SwitchStatement" fields)) := by
  refine (node.one rfl).bind fun discriminant part => ?_
  refine (prints.shown _ part.fit part.inside Near.here).bind fun _ _ => ?_
  refine (node.many rfl).bind fun cases isSeq => ?_
  obtain ⟨items, rfl, each, inside⟩ := isSeq
  refine Gives.next (Gives.bind (Gives.mapM (Q := fun _ => True) fun item member => ?_) fun _ _ => ?_)
  · have isPrinted : fits (.one printedTags) item = true := fits_mono (each item member) (by decide)
    refine (prints.line node.within Near.deeper).bind fun _ _ => ?_
    exact (prints.printed isPrinted (inside.item member) Near.deeper).bind fun _ _ => trivial
  · exact (prints.line node.within Near.here).bind fun _ _ => trivial

/-- Without a test the case is the default one; the statements that follow it are one level deeper.
-/
theorem caseText_answers (prints : Prints E p depth bound)
    (node : Standing depth bound level "SwitchCase" fields) :
    Answers E (caseText p level (.tagged "SwitchCase" fields)) := by
  have rest : ∀ head : Doc, Answers E ((Value.tagged "SwitchCase" fields).field "consequent" >>=
      fun consequent => if consequent.truthy then
        p.statementLines (level + 1) consequent >>= fun lines => .ok (head ++ [.newline] ++ lines)
      else .ok head) := by
    intro head
    refine (node.many rfl).bind fun consequent isSeq => ?_
    obtain ⟨items, rfl, each, inside⟩ := isSeq
    split
    · exact (prints.statementLines each inside Near.deeper).bind fun _ _ => trivial
    · trivial
  refine (node.opt rfl).bind fun test part => ?_
  cases test with
  | none => exact Gives.next (rest _)
  | some test =>
    have isExpression := part test rfl
    refine (prints.shown _ isExpression.fit isExpression.inside
      Near.here).bind fun _ _ => Gives.next (rest _)

theorem returnText_answers (prints : Prints E p depth bound)
    (node : Standing depth bound level "ReturnStatement" fields) :
    Answers E (returnText p level (.tagged "ReturnStatement" fields)) := by
  refine (node.opt rfl).bind fun argument part => ?_
  cases argument with
  | none => trivial
  | some argument =>
    have isExpression := part argument rfl
    exact (prints.shown _ isExpression.fit isExpression.inside
      Near.here).bind fun _ _ => trivial

/-- The handler and the finalizer of a `try`: a keyword and a block, where there is one. -/
theorem clauseText_answers (prints : Prints E p depth bound) (keyword : String) {tags : List String}
    (printed : tags ⊆ printedTags) {found : Option Value}
    (part : ∀ v, found = some v → Part depth bound level tags v) :
    Answers E (clauseText p level keyword found) := by
  cases found with
  | none => trivial
  | some v =>
    have isClause := part v rfl
    refine (prints.printed (fits_mono isClause.fit printed) isClause.inside Near.here).bind ?_
    exact fun _ _ => trivial

theorem tryText_answers (prints : Prints E p depth bound)
    (node : Standing depth bound level "TryStatement" fields) :
    Answers E (tryText p level (.tagged "TryStatement" fields)) := by
  refine (node.one rfl).bind fun block blockPart => ?_
  refine (prints.inner blockPart.fit blockPart.inside Near.here).bind fun _ _ => ?_
  refine (node.opt rfl).bind fun handler handlerPart => ?_
  refine (clauseText_answers prints " " (by decide) handlerPart).bind fun _ _ => ?_
  refine (node.opt rfl).bind fun finalizer finalizerPart => ?_
  exact (clauseText_answers prints " finally " (by decide) finalizerPart).bind fun _ _ => trivial

/-- A handler binds a target or nothing at all. -/
theorem catchText_answers (prints : Prints E p depth bound)
    (node : Standing depth bound level "CatchClause" fields) :
    Answers E (catchText p level (.tagged "CatchClause" fields)) := by
  refine (node.opt rfl).bind fun param part => ?_
  cases param with
  | none =>
    refine (node.one rfl).bind fun body bodyPart => ?_
    exact (prints.inner bodyPart.fit bodyPart.inside Near.here).bind fun _ _ => trivial
  | some param =>
    have isTarget := part param rfl
    refine (prints.shown _ isTarget.fit isTarget.inside Near.here).bind fun _ _ => ?_
    refine (node.one rfl).bind fun body bodyPart => ?_
    exact (prints.inner bodyPart.fit bodyPart.inside Near.here).bind fun _ _ => trivial

/-- The `while` stands behind a block, or on a line of its own. -/
theorem doWhileText_answers (prints : Prints E p depth bound)
    (node : Standing depth bound level "DoWhileStatement" fields) :
    Answers E (doWhileText p level (.tagged "DoWhileStatement" fields)) := by
  refine (node.one rfl).bind fun body part => ?_
  refine (bodyText_answers prints part).bind fun _ _ => ?_
  split
  · exact (node.one rfl).bind fun _ part =>
      (prints.shown _ part.fit part.inside Near.here).bind fun _ _ => trivial
  · refine (prints.line node.within Near.here).bind fun _ _ => ?_
    exact (node.one rfl).bind fun _ part =>
      (prints.shown _ part.fit part.inside Near.here).bind fun _ _ => trivial

/-- A declarator without an initializer is its target, so it has to be laid-out text itself to be
joined with the others. -/
theorem declaratorText_gives (prints : Prints E p depth bound) {place : Place}
    (node : Standing depth bound level "VariableDeclarator" fields) (near : Near level place.level) :
    Gives E Phrase.IsDoc (declaratorText p place (.tagged "VariableDeclarator" fields)) := by
  refine (node.one rfl).bind fun target part => ?_
  refine (prints.phrase _ part.fit part.inside near).bind fun _ isDoc => ?_
  refine (node.opt rfl).bind fun init initPart => ?_
  cases init with
  | none => exact isDoc
  | some init =>
    have isExpression := initPart init rfl
    exact (prints.shown _ isExpression.fit isExpression.inside near).bind fun _ _ => ⟨_, rfl⟩

theorem declarationText_answers (prints : Prints E p depth bound) {place : Place}
    (node : Standing depth bound level "VariableDeclaration" fields) (near : Near level place.level) :
    Answers E (declarationText p place (.tagged "VariableDeclaration" fields)) := by
  refine (node.many rfl).bind fun declarations isSeq => ?_
  obtain ⟨items, rfl, each, inside⟩ := isSeq
  refine Gives.next (Gives.bind (Gives.mapM (Q := Phrase.IsDoc) fun item member => ?_)
    fun phrases docs => ?_)
  · have part : Part depth bound level _ item := ⟨each item member, inside.item member⟩
    obtain ⟨tag, inner, rfl, isDeclarator, declarator⟩ := part.standing
    obtain rfl := List.mem_singleton.mp isDeclarator
    exact declaratorText_gives prints declarator near
  · exact (joined_answers _ docs).bind fun _ _ => (node.text rfl).bind fun _ _ => trivial

/-- The head of a loop is a declaration without its semicolon, or an expression. -/
theorem loopHead_gives (prints : Prints E p depth bound) {v : Value}
    (part : Part depth bound level ("VariableDeclaration" :: expressionTags) v) :
    Gives E Phrase.IsDoc (loopHead p level v) := by
  obtain ⟨tag, fields, rfl, admitted, node⟩ := part.standing
  by_cases isDeclaration : tag = "VariableDeclaration"
  · subst isDeclaration
    refine Gives.next ((declarationText_answers prints node ?_).bind fun _ _ => ⟨_, rfl⟩)
    exact Near.here
  · have other : (Value.tagged tag fields).isTagged "VariableDeclaration" = .ok false := by
      simp [isDeclaration]
    have isExpression : fits Syntax.expression (.tagged tag fields) = true :=
      fits_node.mpr ⟨(List.mem_cons.mp admitted).resolve_left isDeclaration, node.formed⟩
    simp only [loopHead, other, ok_bind]
    exact prints.phrase _ isExpression part.inside Near.here

theorem headPart_answers (prints : Prints E p depth bound) {found : Option Value}
    (part : ∀ v, found = some v → Part depth bound level expressionTags v) :
    Answers E (headPart p level found) := by
  cases found with
  | none => trivial
  | some v =>
    have isExpression := part v rfl
    exact (prints.glued _ isExpression.fit isExpression.inside Near.here).bind fun _ _ => trivial

/-- An initializer is glued to the parenthesis before it, which takes laid-out text. -/
theorem initText_answers (prints : Prints E p depth bound) {found : Option Value}
    (part : ∀ v, found = some v →
      Part depth bound level ("VariableDeclaration" :: expressionTags) v) :
    Answers E (initText p level found) := by
  cases found with
  | none => trivial
  | some v =>
    refine (loopHead_gives prints (part v rfl)).bind fun phrase isDoc => ?_
    obtain ⟨d, rfl⟩ := isDoc
    trivial

/-- All three parts of the head are read before the first of them is printed, and each may be
missing. -/
theorem forText_answers (prints : Prints E p depth bound)
    (node : Standing depth bound level "ForStatement" fields) :
    Answers E (forText p level (.tagged "ForStatement" fields)) := by
  refine (node.maybe rfl).bind fun init initPart => ?_
  refine (node.maybe rfl).bind fun test testPart => ?_
  refine (node.maybe rfl).bind fun update updatePart => ?_
  refine (initText_answers prints initPart).bind fun _ _ => ?_
  refine (headPart_answers prints testPart).bind fun _ _ => ?_
  refine (headPart_answers prints updatePart).bind fun _ _ => ?_
  refine (node.one rfl).bind fun body bodyPart => ?_
  exact (bodyText_answers prints bodyPart).bind fun _ _ => trivial

/-- The loops `for … in` and `for … of` differ in their keyword alone. -/
theorem forEachText_answers (prints : Prints E p depth bound) (keyword : String)
    (node : Standing depth bound level tag fields) (declared : fieldsOf tag = forEachFields) :
    Answers E (forEachText p level keyword (.tagged tag fields)) := by
  refine (node.one (by rw [declared]; rfl)).bind fun left leftPart => ?_
  refine (loopHead_gives prints leftPart).bind fun _ _ => ?_
  refine (node.one (by rw [declared]; rfl)).bind fun right rightPart => ?_
  refine (prints.shown _ rightPart.fit rightPart.inside Near.here).bind fun _ _ => ?_
  refine (node.one (by rw [declared]; rfl)).bind fun body bodyPart => ?_
  exact (bodyText_answers prints bodyPart).bind fun _ _ => trivial

theorem labeledText_answers (prints : Prints E p depth bound)
    (node : Standing depth bound level "LabeledStatement" fields) :
    Answers E (labeledText p level (.tagged "LabeledStatement" fields)) := by
  refine (node.one rfl).bind fun label labelPart => ?_
  refine labelPart.nameText.bind fun _ _ => ?_
  refine (node.one rfl).bind fun body bodyPart => ?_
  exact (prints.inner bodyPart.fit bodyPart.inside Near.here).bind fun _ _ => trivial

/-- The text of a statement, by its tag. -/
theorem statementText_answers (prints : Prints E p depth bound)
    (node : Standing depth bound level tag fields) (isPrinted : tag ∈ printedTags) :
    Answers E (statementText p level (.tagged tag fields)) := by
  simp only [printedTags, statementTags, List.mem_cons, List.not_mem_nil, or_false] at isPrinted
  rcases isPrinted with rfl | rfl | rfl | rfl | rfl | rfl | rfl | rfl | rfl | rfl | rfl | rfl |
    rfl | rfl | rfl | rfl | rfl | rfl | rfl | rfl | rfl | rfl | rfl | rfl
  · refine Gives.next ((node.many rfl).bind fun body isSeq => ?_)
    obtain ⟨items, rfl, each, inside⟩ := isSeq
    exact prints.statementLines each inside Near.here
  · exact Gives.next (caseText_answers prints node)
  · exact Gives.next (catchText_answers prints node)
  · exact Gives.next (blockText_answers prints node)
  · trivial
  · exact Gives.next (expressionStatementText_answers prints node)
  · exact Gives.next (ifText_answers prints node)
  · exact Gives.next (labeledText_answers prints node)
  · exact Gives.next (jumpText_answers _ node rfl)
  · exact Gives.next (jumpText_answers _ node rfl)
  · exact Gives.next (guardedText_answers prints _ _ node rfl rfl)
  · exact Gives.next (switchText_answers prints node)
  · exact Gives.next (returnText_answers prints node)
  · exact Gives.next ((node.one rfl).bind fun _ part =>
      (prints.shown _ part.fit part.inside Near.here).bind fun _ _ => trivial)
  · exact Gives.next (tryText_answers prints node)
  · exact Gives.next (guardedText_answers prints _ _ node rfl rfl)
  · exact Gives.next (doWhileText_answers prints node)
  · exact Gives.next (forText_answers prints node)
  · exact Gives.next (forEachText_answers prints _ node rfl)
  · exact Gives.next (forEachText_answers prints _ node rfl)
  · trivial
  · exact Gives.next ((declarationText_answers prints node Near.here).bind fun _ _ => trivial)
  · exact Gives.next (functionText_answers prints node rfl Near.here)
  · exact Gives.next (classText_answers prints node rfl)

end Statements

end Untangle.Print
