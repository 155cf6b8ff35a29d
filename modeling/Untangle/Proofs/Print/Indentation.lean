import Untangle.Proofs.Print.SideBySide
import Untangle.Proofs.Text.Memory

/-!
# Indentation

The width of a level shows in nothing but the blanks in front of the lines: which lines a tree has, how
deep each of them stands and whether the tree can be printed at all follow from the tree alone. Widths
for which the blanks cannot be made are the exception, and those fail for that reason.

The construct by construct part says of each text that it mirrors the one of a printer without limits
and that it is steady out. `Alike.above` puts them together, and `generate_lines` is the statement about
whole trees.
-/

namespace Untangle.Print

variable {E : Fault → Prop} {levels : Int → Prop} {w w' : Nat} {level : Int} {p q : Printer}
  {place : Place} {n : Value}

/-! ## Functions, classes and properties -/

theorem methodMarks_steady (function : Value) :
    Mirrors E (Steady w w') (methodMarks function) (methodMarks function) :=
  .after fun _ _ => .after fun _ _ => .pure (.word _)

theorem functionKeyword_steady (function : Value) :
    Mirrors E (Steady w w') (functionKeyword function) (functionKeyword function) :=
  .after fun _ _ => .after fun _ _ => .pure (.word _)

theorem gluedName_steady (named : Value) : Mirrors E (Steady w w') (gluedName named) (gluedName named) :=
  .after fun name _ => glue_steady (Phrase.isSteady_ofValue name)

/-- An expression of a template is a member of the sequence, so what is settled about the sequence
holds for it. -/
theorem Settled.memberAt {v part : Value} (settled : Settled w w' levels level v) {index : Nat}
    (read : memberAt v index = .ok (some part)) : Settled w w' levels level part := by
  unfold Print.memberAt at read
  split at read
  · split at read <;> cases read
  · cases listed : v.items with
    | error fault =>
      rw [listed] at read
      cases read
    | ok items =>
      rw [listed] at read
      exact settled.items listed part (List.mem_of_getElem? (Except.ok.inj read))

namespace Alike

variable (alike : Alike E levels w w' p q)
include alike

/-- The body of a function is the only part of an expression that is laid out in lines. -/
theorem functionTail (opened : Opened w w' levels place.level n) :
    Mirrors E (Steady w w') (functionTail p place n) (functionTail q place n) := by
  refine .after fun params read => ?_
  refine (alike.commaList (opened.field read)).bind fun list steady => ?_
  refine .after fun body read => ?_
  refine (alike.statement _ body (opened.field read)).bind fun text steady' => .pure ?_
  exact (((Steady.word _).append steady).append (.word _)).append steady'

theorem functionText (place : Place) (opened : Opened w w' levels place.level n) :
    Mirrors E (Steady w w') (functionText p place n) (functionText q place n) := by
  refine .after fun name _ => ?_
  refine Mirrors.bind (P := Steady w w') (functionKeyword_steady n) fun keyword steady => ?_
  have named : ∀ name, Steady w w' name → Mirrors E (Steady w w')
      (do return keyword ++ name ++ (← Print.functionTail p place n))
      (do return keyword ++ name ++ (← Print.functionTail q place n)) :=
    fun name steady' => (alike.functionTail opened).bind fun tail steady'' =>
      .pure ((steady.append steady').append steady'')
  cases name with
  | none => exact named [] .nil
  | some name => exact (gluedName_steady name).bind named

theorem propertyKey (opened : Opened w w' levels place.level n) :
    Mirrors E (Phrase.IsSteady w w') (propertyKey p place n) (propertyKey q place n) := by
  refine .after fun _ _ => .ite ?_ ?_
  · refine .after fun key read => (alike.shown place _ (opened.field read)).bind fun text steady => .pure ?_
    exact ((Steady.word _).append steady).append (.word _)
  · exact .after fun key read => alike.expression place _ key (opened.field read)

/-- Which text a property has is read off its tag and its flags, so both printers choose the same
one. -/
theorem property (place : Place) (settled : Settled w w' levels place.level n) :
    Mirrors E (Phrase.IsSteady w w') (property p place n) (property q place n) := by
  have opened := settled.opened
  refine .after fun _ _ => .ite (alike.expression place _ n settled) ?_
  refine (alike.propertyKey opened).bind fun key steady => .after fun kind _ => ?_
  cases kind with
  | some kind =>
    refine .after fun value read => ?_
    refine (alike.functionTail (opened.field read).opened).bind fun tail steady' => .pure ?_
    exact ((Steady.word _).append steady).append steady'
  | none =>
    refine .after fun _ _ => .ite ?_ (.after fun _ _ => .ite ?_ ?_)
    · refine .after fun value _ => ?_
      refine Mirrors.bind (P := Steady w w') (methodMarks_steady value) fun marks steadyMarks => ?_
      refine (glue_steady steady).bind fun key steadyKey => .after fun value read => ?_
      refine (alike.functionTail (opened.field read).opened).bind fun tail steady' => .pure ?_
      exact (steadyMarks.append steadyKey).append steady'
    · exact .after fun value read => alike.expression place _ value (opened.field read)
    · refine .after fun value read => (alike.shown place _ (opened.field read)).bind fun text steady' => ?_
      exact .pure ((steady.append (.word _)).append steady')

theorem method (opened : Opened w w' levels place.level n) :
    Mirrors E (Steady w w') (method p place n) (method q place n) := by
  refine .after fun _ _ => (alike.propertyKey opened).bind fun key steady => .after fun kind _ => ?_
  have marked : ∀ static marks, Steady w w' marks → Mirrors E (Steady w w')
      (do
        let key ← key.glue
        let tail ← Print.functionTail p place (← n.field "value")
        return Doc.text static ++ marks ++ key ++ tail)
      (do
        let key ← key.glue
        let tail ← Print.functionTail q place (← n.field "value")
        return Doc.text static ++ marks ++ key ++ tail) := by
    intro static marks steadyMarks
    refine (glue_steady steady).bind fun key steadyKey => .after fun value read => ?_
    refine (alike.functionTail (opened.field read).opened).bind fun tail steady' => .pure ?_
    exact (((Steady.word _).append steadyMarks).append steadyKey).append steady'
  cases kind with
  | some kind => exact marked _ _ (.word _)
  | none => exact .after fun value _ => (methodMarks_steady value).bind (marked _)

theorem classParent (opened : Opened w w' levels place.level n) :
    Mirrors E (Steady w w') (classParent p place n) (classParent q place n) := by
  refine .after fun parent read => ?_
  cases parent with
  | none => exact .pure .nil
  | some parent =>
    refine (alike.glued place _ (opened.optional read)).bind fun text steady => .pure ?_
    exact (Steady.word _).append steady

/-- Each method is one level deeper than the class; the level of the class is asked for once more,
for the closing brace. -/
theorem classBody (opened : Opened w w' levels place.level n) :
    Mirrors E (Steady w w') (classBody p place n) (classBody q place n) := by
  refine .after fun body read => .after fun methods readMethods => .ite (.pure (.word _)) ?_
  have settled := (opened.inner read).opened.field readMethods
  refine .after fun items listed => ?_
  refine Mirrors.bind (P := fun docs => ∀ d ∈ docs, Starting w w' (place.level + 1) d ∧ d ≠ [])
    (.mapM fun m member => ?_) fun lines each => ?_
  · refine (alike.margin _ opened.deeper).bind fun pad same => ?_
    subst same
    have inside := settled.items listed m member
    refine Mirrors.bind (alike.method inside.opened) fun text steady => .pure ?_
    exact ⟨fun differ => .pad (steady differ), by simp⟩
  · refine (alike.line opened.here).bind fun line steady => .pure ?_
    have lines := (Starting.joined each).after_newline
    rw [List.append_assoc (Doc.text _)]
    exact (((Steady.word _).append lines).append steady).append (.word _)

theorem classText (place : Place) (opened : Opened w w' levels place.level n) :
    Mirrors E (Steady w w') (classText p place n) (classText q place n) := by
  have name : Mirrors E (Steady w w') (className n) (className n) := by
    refine .after fun name _ => ?_
    cases name with
    | none => exact .pure .nil
    | some name =>
      exact (gluedName_steady name).bind fun text steady => .pure ((Steady.word _).append steady)
  refine name.bind fun name steadyName => (alike.classParent opened).bind fun parent steadyParent => ?_
  refine (alike.classBody opened).bind fun body steadyBody => .pure ?_
  exact (((Steady.word _).append steadyName).append steadyParent).append steadyBody

/-! ## Expressions -/

theorem arrayText (opened : Opened w w' levels place.level n) :
    Mirrors E (Steady w w') (arrayText p place n) (arrayText q place n) := by
  refine .after fun list read => .after fun elements listed => ?_
  have settled := opened.field read
  refine Mirrors.bind (.mapM (Q := Phrase.IsSteady w w') fun element member => .ite (.pure Steady.nil) ?_)
    fun phrases each => ?_
  · exact alike.expression place _ element (settled.items listed element member)
  · have all : ∀ phrase ∈ (if elements.getLast?.any Value.isNull then phrases ++ [Phrase.doc []]
        else phrases), phrase.IsSteady w w' := by
      split
      · intro phrase member
        rcases List.mem_append.mp member with member | member
        · exact each phrase member
        · obtain rfl := List.mem_singleton.mp member
          exact .nil
      · exact each
    exact (joined_steady ", " all).bind fun inner steady =>
      .pure (((Steady.word _).append steady).append (.word _))

theorem objectText (opened : Opened w w' levels place.level n) :
    Mirrors E (Steady w w') (objectText p place n) (objectText q place n) := by
  refine .after fun properties read => .ite (.pure (.word _)) ?_
  have settled := opened.inner read
  refine (alike.line opened.deeper).bind fun line steadyLine => ?_
  refine .after fun items listed => ?_
  refine Mirrors.bind (.mapM (Q := Phrase.IsSteady w w') fun item member => ?_) fun phrases each => ?_
  · exact alike.property place.deeper (settled.items listed item member)
  · refine (Mirrors.mapM fun phrase member => glue_steady (each phrase member)).bind fun docs steady => ?_
    refine (alike.line opened.here).bind fun last steadyLast => .pure ?_
    have members := Steady.joined ((Steady.word ",").append steadyLine) steady
    exact ((((Steady.word _).append steadyLine).append members).append steadyLast).append (.word _)

theorem objectPatternText (opened : Opened w w' levels place.level n) :
    Mirrors E (Steady w w') (objectPatternText p place n) (objectPatternText q place n) := by
  refine .after fun properties read => .after fun items listed => ?_
  have settled := opened.field read
  refine Mirrors.bind (.mapM (Q := Phrase.IsSteady w w') fun item member => ?_) fun phrases each => ?_
  · exact alike.property place (settled.items listed item member)
  · exact (joined_steady ", " each).bind fun inner steady =>
      .pure (((Steady.word _).append steady).append (.word _))

/-- The body is looked at to see whether it starts with a brace, and a steady text starts alike in
every width. -/
theorem arrowText (opened : Opened w w' levels place.level n) :
    Mirrors E (Steady w w') (arrowText p place n) (arrowText q place n) := by
  refine .after fun _ _ => .after fun params read => ?_
  refine (alike.commaList (opened.field read)).bind fun list steady => .after fun body read => ?_
  have settled := opened.field read
  refine .after fun _ _ => .ite ?_ ?_
  · refine (alike.statement _ body settled).bind fun text steady' => .pure ?_
    exact ((((Steady.word _).append (.word _)).append steady).append (.word _)).append steady'
  · refine (alike.expression place _ body settled).bind fun phrase steady' => ?_
    refine (inspect_steady steady').bind fun text steady' => ?_
    rw [alike.width, alike.width', steady'.startsWith_eq]
    refine .pure (((((Steady.word _).append (.word _)).append steady).append (.word _)).append ?_)
    split
    · exact steady'.parenthesized
    · exact steady'

/-- By induction on the chunks, which are printed as they are spelled. -/
theorem templateParts {expressions : Value} (settled : Settled w w' levels place.level expressions)
    (index : Nat) (chunks : List Value) :
    Mirrors E (∀ phrase ∈ ·, phrase.IsSteady w w') (templateParts p place expressions index chunks)
      (templateParts q place expressions index chunks) := by
  induction chunks generalizing index with
  | nil => exact .pure (by simp)
  | cons chunk rest ih =>
    refine .after fun value _ => .after fun raw _ => .after fun found read => ?_
    have onward : ∀ inserted : List Phrase, (∀ phrase ∈ inserted, phrase.IsSteady w w') →
        Mirrors E (∀ phrase ∈ ·, phrase.IsSteady w w')
          (do return Phrase.ofValue raw :: inserted ++
            (← Print.templateParts p place expressions (index + 1) rest))
          (do return Phrase.ofValue raw :: inserted ++
            (← Print.templateParts q place expressions (index + 1) rest)) := by
      refine fun inserted steady => (ih (index + 1)).bind fun parts steady' => .pure ?_
      intro phrase member
      rcases List.mem_cons.mp member with rfl | member
      · exact Phrase.isSteady_ofValue raw
      · exact (List.mem_append.mp member).elim (steady phrase) (steady' phrase)
    cases found with
    | none => exact onward [] (by simp)
    | some expression =>
      refine (alike.glued place _ (settled.memberAt read)).bind fun text steady => onward _ ?_
      intro phrase member
      obtain rfl := List.mem_singleton.mp member
      exact ((Steady.word _).append steady).append (.word _)

theorem templateText (opened : Opened w w' levels place.level n) :
    Mirrors E (Steady w w') (templateText p place n) (templateText q place n) := by
  refine .after fun expressions read => .after fun quasis _ => .after fun chunks _ => ?_
  refine (alike.templateParts (opened.field read) 0 chunks).bind fun parts each => ?_
  exact (joined_steady "" each).bind fun inner steady =>
    .pure (((Steady.word _).append steady).append (.word _))

theorem taggedTemplateText (opened : Opened w w' levels place.level n) :
    Mirrors E (Steady w w') (taggedTemplateText p place n) (taggedTemplateText q place n) := by
  refine .after fun tag read => ?_
  refine (alike.expression place _ tag (opened.field read)).bind fun callee steady => ?_
  refine .after fun quasi read => ?_
  refine (alike.templateText (opened.field read).opened).bind fun template steady' => ?_
  exact (glue_steady steady).bind fun text steady => .pure (steady.append steady')

/-- Whether a blank stands behind the sign depends on how the operand starts, which the width does
not change. -/
theorem unaryText (opened : Opened w w' levels place.level n) :
    Mirrors E (Phrase.IsSteady w w') (unaryText p place n) (unaryText q place n) := by
  refine .after fun operator _ => .after fun argument read => ?_
  refine (alike.expression place _ argument (opened.field read)).bind fun phrase steady => ?_
  refine .after fun word _ => ?_
  cases word with
  | none => exact plus_steady (Phrase.isSteady_ofValue operator) steady
  | some word =>
    refine .ite (.pure ((Steady.word _).append steady)) (.ite_of (fun sign => ?_) fun _ => ?_)
    · have inLine : '\n' ∉ word.toList := by
        rcases sign with rfl | rfl <;> decide
      refine (inspect_steady steady).bind fun text steady' => ?_
      rw [alike.width, alike.width', steady'.isPrefixOf_eq inLine]
      exact .ite (.pure ((Steady.word _).append steady')) (.pure ((Steady.word _).append steady'))
    · exact plus_steady (Phrase.isSteady_ofValue operator) steady

theorem updateText (opened : Opened w w' levels place.level n) :
    Mirrors E (fun answer => answer.1.IsSteady w w') (updateText p place n) (updateText q place n) := by
  refine .after fun _ _ => .ite ?_ ?_
  · refine .after fun operator _ => .after fun argument read => ?_
    refine (alike.expression place _ argument (opened.field read)).bind fun phrase steady => ?_
    exact (plus_steady (Phrase.isSteady_ofValue operator) steady).bind fun _ steady => .pure steady
  · refine .after fun argument read => ?_
    refine (alike.expression place _ argument (opened.field read)).bind fun phrase steady => ?_
    refine .after fun operator _ => ?_
    exact (plus_steady steady (Phrase.isSteady_ofValue operator)).bind fun _ steady => .pure steady

theorem binaryText (opened : Opened w w' levels place.level n) :
    Mirrors E (fun answer => Steady w w' answer.1) (binaryText p place n) (binaryText q place n) := by
  refine .after fun operator _ => .after fun precedence _ => .after fun left read => ?_
  refine (alike.shown place _ (opened.field read)).bind fun first steady => .after fun right read => ?_
  refine (alike.shown place _ (opened.field read)).bind fun second steady' => .pure ?_
  exact (((steady.append (.word _)).append (shownValue_steady _)).append (.word _)).append steady'

theorem assignmentText (opened : Opened w w' levels place.level n) :
    Mirrors E (Steady w w') (assignmentText p place n) (assignmentText q place n) := by
  refine .after fun left read => (alike.shown place _ (opened.field read)).bind fun first steady => ?_
  refine .after fun right read => (alike.shown place _ (opened.field read)).bind fun second steady' => ?_
  refine .after fun operator _ => .pure ?_
  exact (((steady.append (.word _)).append (shownValue_steady _)).append (.word _)).append steady'

theorem assignmentPatternText (opened : Opened w w' levels place.level n) :
    Mirrors E (Steady w w') (assignmentPatternText p place n) (assignmentPatternText q place n) := by
  refine .after fun left read => (alike.shown place _ (opened.field read)).bind fun first steady => ?_
  refine .after fun right read => (alike.shown place _ (opened.field read)).bind fun second steady' => ?_
  exact .pure ((steady.append (.word _)).append steady')

theorem conditionalText (opened : Opened w w' levels place.level n) :
    Mirrors E (Steady w w') (conditionalText p place n) (conditionalText q place n) := by
  refine .after fun test read => (alike.shown place _ (opened.field read)).bind fun first steady => ?_
  refine .after fun yes read => (alike.shown place _ (opened.field read)).bind fun second steady' => ?_
  refine .after fun no read => (alike.shown place _ (opened.field read)).bind fun third steady'' => .pure ?_
  exact (((steady.append (.word _)).append steady').append (.word _)).append steady''

theorem argumentsText (opened : Opened w w' levels place.level n) :
    Mirrors E (Steady w w') (argumentsText p place n) (argumentsText q place n) := by
  refine .after fun list read => (alike.commaList (opened.field read)).bind fun text steady => .pure ?_
  exact ((Steady.word _).append steady).append (.word _)

theorem callText (opened : Opened w w' levels place.level n) :
    Mirrors E (Steady w w') (callText p place n) (callText q place n) := by
  refine .after fun callee read => ?_
  refine (alike.expression place _ callee (opened.field read)).bind fun phrase steady => ?_
  refine (alike.argumentsText opened).bind fun list steady' => ?_
  exact (glue_steady steady).bind fun text steady => .pure (steady.append steady')

/-- Whether parentheses are needed is read off the tree and the first character of the text. -/
theorem newText (opened : Opened w w' levels place.level n) :
    Mirrors E (Steady w w') (newText p place n) (newText q place n) := by
  refine .after fun callee read => ?_
  refine (alike.expression place _ callee (opened.field read)).bind fun phrase steady => ?_
  have called : ∀ callee, Steady w w' callee → Mirrors E (Steady w w')
      (do
        let arguments ← Print.argumentsText p place n
        return Doc.text "new " ++ callee ++ arguments)
      (do
        let arguments ← Print.argumentsText q place n
        return Doc.text "new " ++ callee ++ arguments) :=
    fun callee steady => (alike.argumentsText opened).bind fun list steady' =>
      .pure (((Steady.word _).append steady).append steady')
  refine .after fun _ _ => .ite ?_ ((glue_steady steady).bind called)
  refine (inspect_steady steady).bind fun text steady => ?_
  rw [alike.width, alike.width', steady.startsWith_eq]
  refine called _ ?_
  split
  · exact steady
  · exact steady.parenthesized

/-- Whether the object stands in parentheses depends on whether its text is all digits, and digits
are not changed by the width. -/
theorem memberText (opened : Opened w w' levels place.level n) :
    Mirrors E (Steady w w') (memberText p place n) (memberText q place n) := by
  refine .after fun object read => ?_
  refine (alike.expression place _ object (opened.field read)).bind fun phrase steady => ?_
  have named : ∀ bare : Bool, Mirrors E (Steady w w')
      (do
        let object := if bare then phrase.shown.parenthesized else phrase.shown
        if (← n.field "computed").truthy then
          let key ← p.shown place Precedence.sequence (← n.field "property")
          return object ++ Doc.text "[" ++ key ++ Doc.text "]"
        else
          let name ← (← n.field "property").field "name"
          return object ++ Doc.text "." ++ shownValue name)
      (do
        let object := if bare then phrase.shown.parenthesized else phrase.shown
        if (← n.field "computed").truthy then
          let key ← q.shown place Precedence.sequence (← n.field "property")
          return object ++ Doc.text "[" ++ key ++ Doc.text "]"
        else
          let name ← (← n.field "property").field "name"
          return object ++ Doc.text "." ++ shownValue name) := by
    intro bare
    have object : Steady w w' (if bare then phrase.shown.parenthesized else phrase.shown) := by
      split
      · exact steady.parenthesized
      · exact steady
    refine .after fun _ _ => .ite ?_ ?_
    · refine .after fun key read => (alike.shown place _ (opened.field read)).bind fun text steady' => ?_
      exact .pure (((object.append (.word _)).append steady').append (.word _))
    · refine .after fun _ _ => .after fun name _ => .pure ?_
      exact (object.append (.word _)).append (shownValue_steady name)
  have digits := @isAllDigits_mirrors w w' E phrase steady object
  rw [← alike.width, ← alike.width'] at digits
  refine digits.bind fun _ _ => .ite (.after fun _ _ => ?_) ?_
  · exact named _
  · exact named _

theorem yieldText (opened : Opened w w' levels place.level n) :
    Mirrors E (Steady w w') (yieldText p place n) (yieldText q place n) := by
  refine .after fun _ _ => .after fun argument read => ?_
  cases argument with
  | none => exact .pure (.word _)
  | some argument =>
    refine (alike.shown place _ (opened.optional read)).bind fun text steady => .pure ?_
    exact ((Steady.word _).append (.word _)).append steady

omit alike in
theorem regexText_steady (regex : Value) : Mirrors E (Steady w w') (regexText regex) (regexText regex) :=
  .after fun pattern _ => .after fun flags _ => .pure <|
    (((Steady.word _).append (shownValue_steady pattern)).append (.word _)).append (shownValue_steady flags)

omit alike in
theorem metaPropertyText_steady (n : Value) :
    Mirrors E (Steady w w') (metaPropertyText n) (metaPropertyText n) :=
  .after fun _ _ => .after fun owner _ => .after fun _ _ => .after fun name _ =>
    .pure (((shownValue_steady owner).append (.word _)).append (shownValue_steady name))

omit alike in
/-- The text of a literal is made without the printer, so it is the same on both sides. -/
theorem literalPhrase_steady (n : Value) :
    Mirrors E (fun answer => answer.1.IsSteady w w') (literalPhrase n) (literalPhrase n) := by
  refine .after fun raw _ => ?_
  cases raw with
  | some raw => exact .pure (Phrase.isSteady_ofValue raw)
  | none =>
    refine .after fun regex _ => ?_
    split
    · exact (regexText_steady _).bind fun text steady => .pure steady
    · exact .after fun _ _ => .after fun text _ => .pure (.word _)

/-- The text of every kind of expression, by the cases of its tag. -/
theorem expressionText (opened : Opened w w' levels place.level n) :
    Mirrors E (fun answer => answer.1.IsSteady w w') (expressionText p place n)
      (expressionText q place n) := by
  have docs : ∀ {x y : Except Fault Doc} (own : Precedence), Mirrors E (Steady w w') x y →
      Mirrors E (fun answer : Phrase × Precedence => answer.1.IsSteady w w')
        (do return (.doc (← x), own)) (do return (.doc (← y), own)) :=
    fun own text => text.bind fun _ steady => .pure steady
  have dots : ∀ (mark : String) (own : Precedence) {precedence : Precedence},
      Mirrors E (fun answer : Phrase × Precedence => answer.1.IsSteady w w')
        (do
          let argument ← p.glued place precedence (← n.field "argument")
          return (.doc (Doc.text mark ++ argument), own))
        (do
          let argument ← q.glued place precedence (← n.field "argument")
          return (.doc (Doc.text mark ++ argument), own)) :=
    fun mark own => .after fun _ read => (alike.glued place _ (opened.field read)).bind fun _ steady =>
      .pure ((Steady.word _).append steady)
  refine .after fun tag _ => ?_
  split
  · exact .after fun name _ => .pure (Phrase.isSteady_ofValue name)
  · exact literalPhrase_steady n
  · exact .pure (.word _)
  · exact .pure (.word _)
  · exact docs _ (alike.arrayText opened)
  · exact docs _ (alike.arrayText opened)
  · exact docs _ (alike.objectText opened)
  · exact docs _ (alike.objectPatternText opened)
  · exact docs _ (alike.functionText place opened)
  · exact docs _ (alike.arrowText opened)
  · exact docs _ (alike.classText place opened)
  · exact docs _ (alike.templateText opened)
  · exact docs _ (alike.taggedTemplateText opened)
  · exact (alike.unaryText opened).bind fun _ steady => .pure steady
  · exact alike.updateText opened
  · exact (alike.binaryText opened).bind fun _ steady => .pure steady
  · exact (alike.binaryText opened).bind fun _ steady => .pure steady
  · exact docs _ (alike.assignmentText opened)
  · exact docs _ (alike.assignmentPatternText opened)
  · exact docs _ (alike.conditionalText opened)
  · exact docs _ (alike.callText opened)
  · exact docs _ (alike.newText opened)
  · exact docs _ (alike.memberText opened)
  · exact .after fun _ read => docs _ (alike.commaList (opened.field read))
  · exact docs _ (alike.yieldText opened)
  · exact dots _ _
  · exact dots _ _
  · exact dots _ _
  · exact docs _ (metaPropertyText_steady n)
  · exact .throw _

theorem expressionPhrase (place : Place) (opened : Opened w w' levels place.level n)
    (precedence : Precedence) :
    Mirrors E (Phrase.IsSteady w w') (expressionPhrase p place precedence n)
      (expressionPhrase q place precedence n) :=
  (alike.expressionText opened).bind fun _ steady => .ite (.pure steady.parenthesized) (.pure steady)

/-! ## Statements -/

/-- A body may be laid out one level deeper, so it is settled for that level. -/
theorem bodyText {v : Value} (settled : Settled w w' levels (level + 1) v) (here : levels level) :
    Mirrors E (Steady w w') (bodyText p level v) (bodyText q level v) := by
  refine .after fun _ _ => .ite ?_ (.ite (.pure (.word _)) ?_)
  · refine (alike.statement level v (settled.outer here)).bind fun text steady => .pure ?_
    exact (Steady.word _).append steady
  · refine (alike.line settled.here).bind fun line steady => ?_
    exact (alike.statement _ v settled).bind fun text steady' => .pure (steady.append steady')

theorem blockText (opened : Opened w w' levels level n) :
    Mirrors E (Steady w w') (blockText p level n) (blockText q level n) := by
  refine .after fun body read => .ite (.pure (.word _)) ?_
  refine (alike.statementLines (opened.inner read)).bind fun lines begins => ?_
  refine (alike.line opened.here).bind fun line steady => .pure ?_
  rw [List.append_assoc (Doc.text _)]
  exact (((Steady.word _).append begins.after_newline).append steady).append (.word _)

theorem expressionStatementText (opened : Opened w w' levels level n) :
    Mirrors E (Steady w w') (expressionStatementText p level n) (expressionStatementText q level n) := by
  refine .after fun expression read => ?_
  refine (alike.glued (.plain level) _ (opened.field read)).bind fun text steady => ?_
  rw [alike.width, alike.width', steady.isAmbiguousStart_eq]
  refine .pure (Steady.append ?_ (.word _))
  split
  · exact steady.parenthesized
  · exact steady

theorem bracedText {v : Value} (settled : Settled w w' levels (level + 1) v) (here : levels level) :
    Mirrors E (Steady w w') (bracedText p level v) (bracedText q level v) := by
  refine (alike.line settled.here).bind fun line steady => ?_
  refine (alike.statement _ v settled).bind fun text steady' => ?_
  refine (alike.line here).bind fun last steady'' => .pure ?_
  exact ((((Steady.word _).append steady).append steady').append steady'').append (.word _)

/-- Whether the branch gets braces is read off the tree. -/
theorem consequentText {v : Value} (settled : Settled w w' levels (level + 1) v)
    (here : levels level) :
    Mirrors E (Steady w w') (consequentText p level v) (consequentText q level v) := by
  have body := alike.bodyText settled here
  refine .after fun _ _ => .ite ?_ (.after fun _ _ => .ite (alike.bracedText settled here) body)
  exact body

theorem elseKeyword (here : levels level) (isBlock : Bool) {text : Doc} (steady : Steady w w' text) :
    Mirrors E (Steady w w') (elseKeyword p level isBlock text) (elseKeyword q level isBlock text) := by
  unfold Print.elseKeyword
  rw [alike.width, alike.width', steady.endsWith_eq (by decide) (by decide)]
  refine .ite (.pure (steady.append (.word _))) ?_
  exact (alike.line here).bind fun line steady' => .pure ((steady.append steady').append (.word _))

theorem alternateText {v : Value} (settled : Settled w w' levels (level + 1) v) (here : levels level) :
    Mirrors E (Steady w w') (alternateText p level v) (alternateText q level v) := by
  refine .after fun _ _ => .ite ?_ (alike.bodyText settled here)
  exact (alike.statement level v (settled.outer here)).bind fun text steady =>
    .pure ((Steady.word _).append steady)

/-- Where `else` goes depends on the end of the text before it, which is the same in every width. -/
theorem ifText (opened : Opened w w' levels level n) :
    Mirrors E (Steady w w') (ifText p level n) (ifText q level n) := by
  refine .after fun test read => ?_
  refine (alike.shown (.plain level) _ (opened.field read)).bind fun text steady => ?_
  have head : Steady w w' (Doc.text "if (" ++ text ++ Doc.text ")") :=
    ((Steady.word _).append steady).append (.word _)
  refine .after fun consequent read => .after fun alternate readElse => ?_
  have settled := opened.inner read
  cases alternate with
  | none => exact (alike.bodyText settled opened.here).bind fun body steady => .pure (head.append steady)
  | some alternate =>
    refine .after fun isBlock _ => ?_
    refine (alike.consequentText settled opened.here).bind fun body steady => ?_
    refine (alike.elseKeyword opened.here isBlock (head.append steady)).bind fun front steady => ?_
    refine (alike.alternateText (opened.parts _ _ (.inr readElse)) opened.here).bind ?_
    exact fun body steady' => .pure (steady.append steady')

omit alike in
theorem jumpText_steady (keyword : String) (n : Value) :
    Mirrors E (Steady w w') (jumpText keyword n) (jumpText keyword n) := by
  refine .after fun label _ => ?_
  split
  · refine .after fun name _ => .pure ?_
    exact ((Steady.word _).append (shownValue_steady name)).append (.word _)
  · exact .pure (.word _)

theorem guardedText (opened : Opened w w' levels level n) (keyword name : String) :
    Mirrors E (Steady w w') (guardedText p level keyword name n) (guardedText q level keyword name n) := by
  refine .after fun guard read => ?_
  refine (alike.shown (.plain level) _ (opened.field read)).bind fun text steady => ?_
  refine .after fun body read => ?_
  refine (alike.bodyText (opened.inner read) opened.here).bind fun rest steady' => .pure ?_
  exact (((Steady.word _).append steady).append (.word _)).append steady'

theorem switchText (opened : Opened w w' levels level n) :
    Mirrors E (Steady w w') (switchText p level n) (switchText q level n) := by
  refine .after fun discriminant read => ?_
  refine (alike.shown (.plain level) _ (opened.field read)).bind fun text steady => ?_
  refine .after fun list read => .after fun cases listed => ?_
  refine Mirrors.bind (.mapM (Q := Steady w w') fun case member => ?_) fun docs each => ?_
  · have inside := (opened.inner read).items listed case member
    refine (alike.line inside.here).bind fun line steady => ?_
    exact (alike.statement _ case inside).bind fun text steady' => .pure (steady.append steady')
  · refine (alike.line opened.here).bind fun line steady' => .pure ?_
    exact (((((Steady.word _).append steady).append (.word _)).append (.flatten each)).append steady').append
      (.word _)

/-- The statements of a case are laid out one level deeper, after the head that both printers give
alike. -/
theorem caseText (opened : Opened w w' levels level n) :
    Mirrors E (Steady w w') (caseText p level n) (caseText q level n) := by
  refine .after fun test read => ?_
  have rest : ∀ head, Steady w w' head → Mirrors E (Steady w w')
      (do
        let consequent ← n.field "consequent"
        if consequent.truthy then
          return head ++ [.newline] ++ (← p.statementLines (level + 1) consequent)
        else return head)
      (do
        let consequent ← n.field "consequent"
        if consequent.truthy then
          return head ++ [.newline] ++ (← q.statementLines (level + 1) consequent)
        else return head) := by
    refine fun head steady => .after fun consequent read => .ite ?_ (.pure steady)
    refine (alike.statementLines (opened.inner read)).bind fun lines begins => .pure ?_
    rw [List.append_assoc]
    exact steady.append begins.after_newline
  cases test with
  | none => exact rest _ (.word _)
  | some test =>
    refine (alike.shown (.plain level) _ (opened.optional read)).bind fun text steady => ?_
    exact rest _ (((Steady.word _).append steady).append (.word _))

theorem returnText (opened : Opened w w' levels level n) :
    Mirrors E (Steady w w') (returnText p level n) (returnText q level n) := by
  refine .after fun argument read => ?_
  cases argument with
  | none => exact .pure (.word _)
  | some argument =>
    refine (alike.shown (.plain level) _ (opened.optional read)).bind fun text steady => .pure ?_
    exact ((Steady.word _).append steady).append (.word _)

theorem clauseText (opened : Opened w w' levels level n) (keyword : String) {name : String}
    {clause : Option Value} (read : n.optional name = .ok clause) :
    Mirrors E (Steady w w') (clauseText p level keyword clause) (clauseText q level keyword clause) := by
  cases clause with
  | none => exact .pure .nil
  | some v =>
    exact (alike.statement level v (opened.optional read)).bind fun text steady =>
      .pure ((Steady.word _).append steady)

theorem tryText (opened : Opened w w' levels level n) :
    Mirrors E (Steady w w') (tryText p level n) (tryText q level n) := by
  refine .after fun block read => ?_
  refine (alike.statement level block (opened.field read)).bind fun text steady => ?_
  refine .after fun handler read => (alike.clauseText opened _ read).bind fun text steady' => ?_
  refine .after fun finalizer read => (alike.clauseText opened _ read).bind fun text steady'' => .pure ?_
  exact (((Steady.word _).append steady).append steady').append steady''

theorem catchText (opened : Opened w w' levels level n) :
    Mirrors E (Steady w w') (catchText p level n) (catchText q level n) := by
  refine .after fun param read => ?_
  cases param with
  | none =>
    refine .after fun body read => ?_
    exact (alike.statement level body (opened.field read)).bind fun text steady =>
      .pure ((Steady.word _).append steady)
  | some param =>
    refine (alike.shown (.plain level) _ (opened.optional read)).bind fun text steady => ?_
    refine .after fun body read => ?_
    refine (alike.statement level body (opened.field read)).bind fun rest steady' => .pure ?_
    exact (((Steady.word _).append steady).append (.word _)).append steady'

/-- Where `while` goes is read off the end of the body. -/
theorem doWhileText (opened : Opened w w' levels level n) :
    Mirrors E (Steady w w') (doWhileText p level n) (doWhileText q level n) := by
  refine .after fun body read => ?_
  refine (alike.bodyText (opened.inner read) opened.here).bind fun text steady => ?_
  have rest : ∀ gap, Steady w w' gap → Mirrors E (Steady w w')
      (do
        let test ← p.shown (.plain level) Precedence.sequence (← n.field "test")
        return Doc.text "do" ++ text ++ gap ++ Doc.text "while (" ++ test ++ Doc.text ");")
      (do
        let test ← q.shown (.plain level) Precedence.sequence (← n.field "test")
        return Doc.text "do" ++ text ++ gap ++ Doc.text "while (" ++ test ++ Doc.text ");") := by
    refine fun gap steady' => .after fun test read => ?_
    refine (alike.shown (.plain level) _ (opened.field read)).bind fun test steady'' => .pure ?_
    exact (((((Steady.word _).append steady).append steady').append (.word _)).append steady'').append
      (.word _)
  exact .ite (rest _ (.word _)) ((alike.line opened.here).bind rest)

theorem declaratorText (opened : Opened w w' levels place.level n) :
    Mirrors E (Phrase.IsSteady w w') (declaratorText p place n) (declaratorText q place n) := by
  refine .after fun target read => ?_
  refine (alike.expression place _ target (opened.field read)).bind fun phrase steady => ?_
  refine .after fun init read => ?_
  cases init with
  | none => exact .pure steady
  | some init =>
    refine (alike.shown place _ (opened.optional read)).bind fun text steady' => .pure ?_
    exact (steady.append (.word _)).append steady'

theorem declarationText (place : Place) (opened : Opened w w' levels place.level n) :
    Mirrors E (Steady w w') (declarationText p place n) (declarationText q place n) := by
  refine .after fun list read => .after fun items listed => ?_
  refine Mirrors.bind (.mapM (Q := Phrase.IsSteady w w') fun item member => ?_) fun phrases each => ?_
  · exact alike.declaratorText ((opened.field read).items listed item member).opened
  · refine (joined_steady ", " each).bind fun text steady => .after fun kind _ => .pure ?_
    exact ((shownValue_steady kind).append (.word _)).append steady

/-- The head of a loop is a declaration or an expression, both in the place of a loop head. -/
theorem loopHead {v : Value} (settled : Settled w w' levels level v) :
    Mirrors E (Phrase.IsSteady w w') (loopHead p level v) (loopHead q level v) := by
  refine .after fun _ _ => .ite ?_ ?_
  · refine Mirrors.bind (alike.declarationText { level, noIn := true } settled.opened) ?_
    exact fun text steady => .pure steady
  · exact alike.expression { level, noIn := true } _ v settled

theorem headPart (opened : Opened w w' levels level n) {name : String} {part : Option Value}
    (read : n.optional name = .ok part) :
    Mirrors E (Steady w w') (headPart p level part) (headPart q level part) := by
  cases part with
  | none => exact .pure .nil
  | some v =>
    refine (alike.glued (.plain level) _ (opened.optional read)).bind fun text steady => ?_
    exact .pure ((Steady.word _).append steady)

theorem initText (opened : Opened w w' levels level n) {name : String} {init : Option Value}
    (read : n.optional name = .ok init) :
    Mirrors E (Steady w w') (initText p level init) (initText q level init) := by
  cases init with
  | none => exact .pure .nil
  | some v => exact (alike.loopHead (opened.optional read)).bind fun phrase steady => glue_steady steady

theorem forText (opened : Opened w w' levels level n) :
    Mirrors E (Steady w w') (forText p level n) (forText q level n) := by
  refine .after fun init readInit => .after fun test readTest => .after fun update readUpdate => ?_
  refine (alike.initText opened readInit).bind fun init steady => ?_
  refine (alike.headPart opened readTest).bind fun test steady' => ?_
  refine (alike.headPart opened readUpdate).bind fun update steady'' => .after fun body read => ?_
  refine (alike.bodyText (opened.inner read) opened.here).bind fun text body => .pure ?_
  exact (((((((Steady.word _).append steady).append (.word _)).append steady').append (.word _)).append
    steady'').append (.word _)).append body

theorem forEachText (opened : Opened w w' levels level n) (keyword : String) :
    Mirrors E (Steady w w') (forEachText p level keyword n) (forEachText q level keyword n) := by
  refine .after fun left read => (alike.loopHead (opened.field read)).bind fun head steady => ?_
  refine .after fun right read => ?_
  refine (alike.shown (.plain level) _ (opened.field read)).bind fun text steady' => ?_
  refine .after fun body read => ?_
  refine (alike.bodyText (opened.inner read) opened.here).bind fun text body => .pure ?_
  exact (((((Steady.word _).append steady).append (.word _)).append steady').append (.word _)).append body

theorem labeledText (opened : Opened w w' levels level n) :
    Mirrors E (Steady w w') (labeledText p level n) (labeledText q level n) := by
  refine .after fun label _ => .after fun name _ => .after fun body read => ?_
  refine (alike.statement level body (opened.field read)).bind fun text steady => .pure ?_
  exact ((shownValue_steady name).append (.word _)).append steady

/-- A statement, which is no program if the widths differ. -/
theorem statementText (opened : Opened w w' levels level n)
    (other : w ≠ w' → n.hasTag "Program" = false) :
    Mirrors E (Steady w w') (statementText p level n) (statementText q level n) := by
  refine .after fun tag chosen => ?_
  obtain ⟨fields, rfl⟩ := tagged_of_chosenBy chosen
  split
  · refine .after fun body read => (alike.statementLines (opened.field read)).imp ?_
    exact fun _ _ differ => by cases other differ
  · exact alike.blockText opened
  · exact .pure (.word _)
  · exact alike.expressionStatementText opened
  · exact alike.ifText opened
  · exact alike.labeledText opened
  · exact jumpText_steady _ _
  · exact jumpText_steady _ _
  · exact alike.guardedText opened _ _
  · exact alike.switchText opened
  · exact alike.caseText opened
  · exact alike.returnText opened
  · refine .after fun argument read => ?_
    refine (alike.shown (.plain level) _ (opened.field read)).bind fun text steady => .pure ?_
    exact ((Steady.word _).append steady).append (.word _)
  · exact alike.tryText opened
  · exact alike.catchText opened
  · exact alike.guardedText opened _ _
  · exact alike.doWhileText opened
  · exact alike.forText opened
  · exact alike.forEachText opened _
  · exact alike.forEachText opened _
  · exact .pure (.word _)
  · exact Mirrors.bind (alike.declarationText (.plain level) opened) fun text steady =>
      .pure (steady.append (.word _))
  · exact alike.functionText (.plain level) opened
  · exact alike.classText (.plain level) opened
  · exact .throw _

/-! ## Trees -/

/-- The printers one level up are alike too. -/
theorem above : Alike E levels w w' p.above q.above where
  width := alike.width
  width' := alike.width'
  margin := alike.margin
  expression place precedence v settled := alike.expressionPhrase place settled.opened precedence
  statement level v settled := by
    refine alike.statementText settled.opened fun differ => ?_
    have free := settled.free differ
    cases v with
    | node tag fields =>
      simp only [programFree, Bool.and_eq_true, Bool.not_eq_true'] at free
      exact free.1
    | _ => rfl

end Alike

/-- A ruler that can indent to every level. -/
def freeRuler (width : Nat) : Ruler where
  width := width
  check _ := .ok ()

/-- A printer is like the one with another width and without limits. -/
theorem alike_ofDepth {ruler : Ruler} (checked : ∀ level, levels level → Answers E (ruler.check level))
    (width depth : Nat) :
    Alike E levels ruler.width width (Printer.ofDepth ruler depth)
      (Printer.ofDepth (freeRuler width) depth) := by
  induction depth with
  | zero =>
    refine ⟨rfl, rfl, fun level allowed => ?_, fun _ _ _ _ => .throw _, fun _ _ _ => .throw _⟩
    have answers := checked level allowed
    show Mirrors E _ (ruler.check level >>= fun _ => pure [Piece.pad level]) (pure [Piece.pad level])
    cases answer : ruler.check level with
    | ok _ => exact .pure rfl
    | error fault =>
      rw [answer] at answers
      exact Or.inl ⟨fault, answers, rfl⟩
  | succ depth ih => exact ih.above

/-- A statement is laid out against a ruler as it is without limits, or blanks are wanting. -/
theorem statement_mirrors {ruler : Ruler} {level : Int} {v : Value}
    (checked : ∀ inner, level ≤ inner → inner ≤ level + v.depth → Answers E (ruler.check inner)) :
    Mirrors E (fun _ => True) (statement ruler level v)
      (statement (freeRuler ruler.width) level v) := by
  have alike := @alike_ofDepth E (fun inner => level ≤ inner ∧ inner ≤ level + v.depth) ruler
    (fun inner allowed => checked inner allowed.1 allowed.2) ruler.width v.depth
  have settled : Settled ruler.width ruler.width (fun inner => level ≤ inner ∧ inner ≤ level + v.depth)
      level v := ⟨fun differ => absurd rfl differ, fun further within => by omega⟩
  exact (alike.statement level v settled).imp fun _ _ => trivial

/-! ## Whole trees -/

/-- Whether no node of a tree is a program, the tree itself apart. -/
def programOnTop : Value → Bool
  | .node _ fields => programFreeFields fields
  | v => programFree v

/-- The phrase has lines, the same for every width. -/
def Phrase.HasLines (phrase : Phrase) : Prop :=
  ∃ lines, Single lines ∧ ∀ width, phrase.render width = page width lines

/-- Text that is a page in every width is laid out in lines. -/
theorem hasLines_of_paged {phrase : Phrase} (paged : Paged fun width => phrase.shown.chars width) :
    phrase.HasLines := by
  obtain ⟨first, rest, single, same⟩ := paged
  refine ⟨_, single, fun width => ?_⟩
  have text := congrArg String.ofList (same width)
  rwa [String.ofList_toList] at text

/-- The first line of a program is not indented. -/
theorem Begins.paged {d : Doc} (begins : Begins 0 d) : Paged d.chars := by
  cases begins with
  | nil => exact .empty
  | pad laid => simpa [Doc.chars, Piece.chars] using laid.paged

/-- Laying out against a ruler gives what laying out without limits and with any width gives, or fails
for want of blanks. If the widths differ it gives lines. -/
theorem layout_mirrors {ruler : Ruler} {v : Value} {width : Nat}
    (onTop : ruler.width ≠ width → programOnTop v = true)
    (checked : ∀ level : Int, 0 ≤ level → level ≤ v.depth → Answers E (ruler.check level)) :
    Mirrors E (fun phrase => ruler.width ≠ width → phrase.HasLines) (layout ruler v)
      (layout (freeRuler width) v) := by
  cases v with
  | node tag fields =>
    have opened : Opened ruler.width width (fun level => 0 ≤ level ∧
        level ≤ (Value.node tag fields).depth) 0 (.node tag fields) :=
      opened_of_fields onTop fun further within => by omega
    -- The tree is printed by the printer above the one that its parts are left to.
    have alike := @alike_ofDepth E (fun level => 0 ≤ level ∧ level ≤ (Value.node tag fields).depth) ruler
      (fun level allowed => checked level allowed.1 allowed.2) width (Value.depthEntries fields)
    have lined : ∀ {phrase : Phrase}, phrase.IsSteady ruler.width width →
        ruler.width ≠ width → phrase.HasLines :=
      fun steady differ => hasLines_of_paged (steady differ).paged
    refine .after fun isProgram read => .after fun isStatement _ => .ite ?_ ?_
    · have named : tag.isText "Program" = isProgram := Except.ok.inj read
      cases isProgram with
      | false =>
        exact (alike.statementText opened fun _ => named).bind fun text steady => .pure (lined steady)
      | true =>
        obtain rfl := Value.eq_str_of_isText named
        have lines : Mirrors E (Starting ruler.width width 0)
            (statement ruler 0 (.tagged "Program" fields))
            (statement (freeRuler width) 0 (.tagged "Program" fields)) := by
          refine .after fun chosen isChosen => ?_
          cases isChosen
          exact .after fun body read => alike.statementLines (opened.field read)
        exact lines.bind fun text starting =>
          .pure fun differ => hasLines_of_paged (starting differ).paged
    · exact (alike.expressionPhrase (.plain 0) opened _).imp fun phrase => lined
  | _ => exact .throw _

/-! ## In memory -/

/-- There is room for the blanks of one level and for those of every line from the lowest level to the
deepest one, and an index can count the blanks and the levels. -/
structure Indents (memory : Text.Memory) (indent lowest deepest : Int) : Prop where
  width : memory.HoldsUpTo indent.toNat
  blanks : memory.HoldsUpTo (indent.toNat * deepest.toNat)
  indentCounted : -(Text.indexLimit : Int) - 1 ≤ indent
  lowestCounted : -(Text.indexLimit : Int) - 1 ≤ lowest
  deepestCounted : deepest ≤ Text.indexLimit

section Memory

variable {memory : Text.Memory} {lay : Ruler → Except Fault Phrase} {indent lowest deepest : Int}

/-- The unit of indentation fits in memory, as the indentation of level one. -/
theorem Indents.one (indents : Indents memory indent lowest deepest) :
    memory.checkRepeat 1 indent = .ok () := by
  have counted := indents.width.counted
  have room : memory.HoldsUpTo (1 * indent.toNat) := by
    rw [Nat.one_mul]
    exact indents.width
  exact room.checkRepeat indents.indentCounted (Int.le_refl _) (by omega)

/-- A level in the range can be indented. -/
theorem Indents.line (indents : Indents memory indent lowest deepest) {level : Int}
    (above : lowest ≤ level) (below : level ≤ deepest) :
    memory.checkRepeat indent.toNat level = .ok () :=
  indents.blanks.checkRepeat (Int.le_trans indents.lowestCounted above) below indents.deepestCounted

/-- Laying out against a ruler of the width gives what it gives without limits, or fails for a reason
for which blanks cannot be made. -/
def Unhindered (lay : Ruler → Except Fault Phrase) (lowest deepest : Int) (width : Nat) : Prop :=
  ∀ (E : Fault → Prop) (check : Int → Except Fault Unit),
    (∀ level, lowest ≤ level → level ≤ deepest → Answers E (check level)) →
    Mirrors E (fun _ => True) (lay { width, check }) (lay (freeRuler width))

/-- What is written is the laid-out text, unless the memory is short of a line or of the unit of
indentation. -/
theorem written_mirrors (unhindered : Unhindered lay lowest deepest indent.toNat) {E : Fault → Prop}
    (width : Answers E (memory.checkRepeat 1 indent))
    (lines : ∀ level, lowest ≤ level → level ≤ deepest →
      Answers E (memory.checkRepeat indent.toNat level)) :
    Mirrors E (fun _ => True) (written memory indent lay)
      (lay (freeRuler indent.toNat) >>= fun phrase => memory.make (phrase.render indent.toNat)) := by
  have made : written memory indent lay = (do
      memory.checkRepeat 1 indent
      memory.make ((← lay { width := indent.toNat, check := memory.checkRepeat indent.toNat }).render
        indent.toNat)) := by
    unfold written Ruler.ofWidth
    cases memory.checkRepeat 1 indent <;> rfl
  rw [made]
  cases checked : memory.checkRepeat 1 indent with
  | error fault =>
    rw [checked] at width
    exact Or.inl ⟨fault, width, rfl⟩
  | ok _ =>
    exact (unhindered E _ lines).bind fun phrase _ => (Mirrors.both _).imp fun _ _ => trivial

/-- Without limits in the way, writing fails for want of room only or does what making the text does. -/
theorem written_cases (unhindered : Unhindered lay lowest deepest indent.toNat) (memory : Text.Memory) :
    (∃ fault, Text.TooLong fault ∧ written memory indent lay = .error fault) ∨
      written memory indent lay =
        (lay (freeRuler indent.toNat) >>= fun phrase => memory.make (phrase.render indent.toNat)) :=
  (written_mirrors unhindered (memory.checkRepeat_answers 1 indent) fun level _ _ =>
    memory.checkRepeat_answers _ level).imp_right And.left

/-- With memory for every indentation, only the text as a whole is left to be checked. -/
theorem written_eq (unhindered : Unhindered lay lowest deepest indent.toNat)
    (indents : Indents memory indent lowest deepest) :
    written memory indent lay =
      (lay (freeRuler indent.toNat) >>= fun phrase => memory.make (phrase.render indent.toNat)) := by
  refine (written_mirrors unhindered ?_ fun level above below => ?_).eq
  · rw [indents.one]
    trivial
  · rw [indents.line above below]
    trivial

/-- What is laid out without limits is the text that is written in a memory with room for it. -/
theorem written_makes (unhindered : Unhindered lay lowest deepest indent.toNat) {phrase : Phrase}
    (free : lay (freeRuler indent.toNat) = .ok phrase) :
    Text.Memory.Makes (Indents · indent lowest deepest) (phrase.render indent.toNat)
      (written · indent lay) := by
  refine ⟨fun memory => ?_, fun memory indents holds => ?_, fun memory gives => ?_⟩
  · obtain ⟨fault, tooLong, fails⟩ | same := written_cases unhindered memory
    · rw [fails]
      exact tooLong
    · rw [same, free]
      exact memory.make_gives _
  · rw [written_eq unhindered indents, free]
    exact holds.make
  · obtain ⟨fault, tooLong, fails⟩ | same := written_cases unhindered memory
    · rw [fails] at gives
      cases gives
    · rw [same, free] at gives
      exact Text.Memory.fitting_of_make gives

end Memory

/-- Laying out a tree asks for no level beyond its depth. -/
theorem layout_unhindered (v : Value) (width : Nat) : Unhindered (layout · v) 0 v.depth width :=
  fun _ _ checked => (layout_mirrors (fun differ => absurd rfl differ) checked).imp fun _ _ => trivial

/-- Laying out a statement asks for no level before its own, and for none beyond its depth. -/
theorem statement_unhindered (v : Value) (level : Int) (width : Nat) :
    Unhindered (fun ruler => Phrase.doc <$> statement ruler level v) level (level + v.depth) width :=
  fun _ _ checked => (statement_mirrors checked).bind fun _ _ => .pure trivial

/-- A program is laid out alike in every width: its layout has the levels, not the blanks. -/
theorem layout_freeRuler {v : Value} (onTop : programOnTop v = true) (width width' : Nat) :
    layout (freeRuler width) v = layout (freeRuler width') v :=
  (@layout_mirrors _ (freeRuler width) v width' (fun _ => onTop) fun _ _ _ => trivial).eq

/-- A loop whose body is a block with a branch. -/
def nestedBranch : Value :=
  let name (text : String) : Value := .tagged "Identifier" [("name", .str text)]
  let branch := Value.ifStatement (name "b") (.tagged "ContinueStatement" [("label", .null)]) .null
  let loop := Value.tagged "WhileStatement" [("test", name "a"), ("body", Value.blockStatement [branch])]
  .tagged "Program" [("body", .seq [loop])]

end Untangle.Print
