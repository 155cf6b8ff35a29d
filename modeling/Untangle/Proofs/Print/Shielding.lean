import Untangle.Proofs.Print.Indentation
import Untangle.Proofs.Print.Marking
import Untangle.Proofs.Print.PlainTrees

/-!
# No bare `in` in the head of a loop

The head of a loop ends at an `in` that stands in it outside of brackets. What is printed there closes
every bracket that it opens, and keeps each `in` in brackets: an `in` of its own is put in parentheses,
and statements stand between braces.

The construct by construct part says of each text from where to where reading it goes. `Tidies.above`
puts them together, and `loopHead_noBareIn` is the statement about heads of loops.
-/

namespace Untangle.Print

/-- The phrase is tidy, once it is inserted into text. -/
def Phrase.IsTidy (asked : Prop) (phrase : Phrase) : Prop :=
  Tidy asked phrase.shown

/-- A printer whose texts close their brackets. Expressions in the heads of loops keep each `in` in
brackets, and so do blocks wherever they stand. -/
structure Tidies (p : Printer) : Prop where
  margin : ∀ level, Ensures Closed (p.margin level)
  expression : ∀ {asked : Prop} {place : Place} {v : Value}, Calm asked place v →
    ∀ precedence, Ensures (Phrase.IsTidy asked) (p.expression place precedence v)
  statement : ∀ {v : Value}, isPlain v = true → ∀ level,
    Ensures (fun d => Closed d ∧ (v.hasTag "BlockStatement" = true → Tidy True d)) (p.statement level v)

variable {asked : Prop} {p : Printer} {place : Place} {level : Int} {n v : Value}

/-- Only a node has a tag that can be asked for without a fault. -/
theorem tagged_of_isTagged {tag : String} (tagged : v.isTagged tag = .ok true) :
    ∃ fields, v = .tagged tag fields := by
  cases v with
  | node own fields => exact ⟨fields, by rw [Value.eq_str_of_isText (Except.ok.inj tagged)]⟩
  | _ => cases tagged

/-! ## Phrases -/

theorem shown_ofValue (v : Value) : (Phrase.ofValue v).shown = shownValue v := by
  cases v <;> rfl

/-- Glueing a phrase fails or gives the text that it shows. -/
theorem glue_shown {P : Doc → Prop} {phrase : Phrase} (holds : P phrase.shown) :
    Ensures P phrase.glue := by
  cases phrase with
  | doc d => exact holds
  | bare v => trivial

/-- Looking into a phrase fails or gives the text that it shows. -/
theorem inspect_shown {P : Doc → Prop} {phrase : Phrase} (holds : P phrase.shown) :
    Ensures P phrase.inspect := by
  cases phrase with
  | doc d => exact holds
  | bare v => trivial

/-- A comma between phrases leaves no bare `in` between them. -/
theorem joined_tidy {phrases : List Phrase} (each : ∀ phrase ∈ phrases, phrase.IsTidy asked) :
    Ensures (Tidy asked) (Phrase.joined ", " phrases) :=
  (Gives.mapM fun phrase member => glue_shown (each phrase member)).bind fun _ tidy =>
    .joined (by decide) (.text (by decide)) tidy

/-- A phrase after laid-out text. -/
theorem plus_tidy {d : Doc} {phrase : Phrase} (first : Passes asked .before .before d)
    (tidy : phrase.IsTidy asked) : Ensures (Phrase.IsTidy asked) ((Phrase.doc d).plus phrase) := by
  cases phrase with
  | doc e => exact first.append tidy
  | bare w => trivial

/-- A phrase before laid-out text. -/
theorem tidy_plus {d : Doc} {phrase : Phrase} (tidy : phrase.IsTidy asked)
    (last : Passes asked .after .after d) : Ensures (Phrase.IsTidy asked) (phrase.plus (.doc d)) := by
  cases phrase with
  | doc e => exact tidy.append last
  | bare w => trivial

/-- A plain name has no brackets and no blanks, so it can stand anywhere. -/
theorem gluedName_passes (plain : isPlain v = true) :
    Ensures (Passes asked .before .anywhere) (gluedName v) := by
  refine .after fun name read => glue_shown ?_
  rw [shown_ofValue]
  exact .clean_anywhere (plainWord_name plain read)

/-- A name is not `in`, since the tree is calm. -/
theorem gluedName_tidy (calm : Calm asked place v) : Ensures (Tidy asked) (gluedName v) := by
  refine .after fun name read => glue_shown ?_
  rw [shown_ofValue]
  exact calm.name read

theorem methodMarks_closed (function : Value) : Ensures Closed (methodMarks function) := by
  refine .after fun async _ => .after fun generator _ => ?_
  cases async <;> cases generator <;> exact Rises.text (by decide)

theorem functionKeyword_passes (asked : Prop) (function : Value) :
    Ensures (Passes asked .before .before) (functionKeyword function) := by
  refine .after fun async _ => .after fun generator _ => ?_
  cases async <;> cases generator <;> exact Passes.text (by decide)

/-- The words `get` and `set` have no brackets. -/
theorem accessorKind_closed (n : Value) :
    Ensures (∀ kind ∈ ·, Closed (Doc.text (kind ++ " "))) (accessorKind n) := by
  refine .after fun kind _ => ?_
  split
  · rintro kind ⟨⟩
    exact Rises.text (by decide)
  · rintro kind ⟨⟩
    exact Rises.text (by decide)
  · exact nofun

namespace Tidies

variable (tidies : Tidies p)
include tidies

/-! ## Parts -/

theorem shown (calm : Calm asked place v) (precedence : Precedence) :
    Ensures (Tidy asked) (p.shown place precedence v) :=
  (tidies.expression calm precedence).bind fun _ tidy => tidy

theorem glued (calm : Calm asked place v) (precedence : Precedence) :
    Ensures (Tidy asked) (p.glued place precedence v) :=
  (tidies.expression calm precedence).bind fun _ tidy => glue_shown tidy

theorem commaList (calm : Calm asked place v) : Ensures (Tidy asked) (p.commaList place v) := by
  refine .after fun items read => ?_
  refine Gives.bind (.mapM fun item member => ?_) fun phrases tidy => joined_tidy tidy
  exact tidies.expression (calm.items read item member) _

/-- An expression of which nothing is asked but that it closes its brackets. -/
theorem closedPhrase (plain : isPlain v = true) (place : Place) (precedence : Precedence) :
    Ensures (fun phrase => Closed phrase.shown) (p.expression place precedence v) :=
  (tidies.expression (.unasked plain) precedence).imp fun _ tidy => tidy.inside

theorem closedShown (plain : isPlain v = true) (place : Place) (precedence : Precedence) :
    Ensures Closed (p.shown place precedence v) :=
  (tidies.shown (.unasked plain) precedence).imp fun _ tidy => tidy.inside

theorem closedGlued (plain : isPlain v = true) (place : Place) (precedence : Precedence) :
    Ensures Closed (p.glued place precedence v) :=
  (tidies.glued (.unasked plain) precedence).imp fun _ tidy => tidy.inside

theorem closedList (plain : isPlain v = true) (place : Place) : Ensures Closed (p.commaList place v) :=
  (tidies.commaList (.unasked plain)).imp fun _ tidy => tidy.inside

/-- A statement closes every bracket that it opens. -/
theorem closedStatement (plain : isPlain v = true) (level : Int) :
    Ensures Closed (p.statement level v) :=
  (tidies.statement plain level).imp fun _ closed => closed.1

theorem line (level : Int) : Ensures Closed (p.line level) :=
  (tidies.margin level).bind fun _ closed => Rises.newline.append closed

/-- So do statements one below the other. -/
theorem statementLines (plain : isPlain v = true) (level : Int) :
    Ensures Closed (p.statementLines level v) := by
  refine .after fun items read => ?_
  refine Gives.bind (.mapM (Q := Closed) fun item member => ?_) fun lines each =>
    Rises.joined .newline each
  have inner := isPlain_items plain read item member
  refine (tidies.margin level).bind fun pad closed => ?_
  exact (tidies.closedStatement inner level).bind fun text closed' => closed.append closed'

/-! ## Functions, classes and properties -/

/-- The parameters and the body of a function, whose body must be a block if it stands in the head of
a loop. -/
theorem functionTail (plain : isPlain n = true) (place : Place)
    (block : asked → ∀ body, n.field "body" = .ok body → body.hasTag "BlockStatement" = true) :
    Ensures (Passes asked .anywhere .after) (functionTail p place n) := by
  refine .after fun params read => ?_
  refine (tidies.closedList (isPlain_field plain read) place).bind fun list closed => ?_
  refine .after fun body read => ?_
  refine (tidies.statement (isPlain_field plain read) _).bind fun text ⟨closedBody, tidyBody⟩ => ?_
  have tidy : Tidy asked text :=
    ⟨closedBody, fun isAsked => (tidyBody (block isAsked body read)).outside trivial⟩
  exact (((Passes.text (by decide)).append (.within closed)).append (.text (by decide))).append tidy

/-- The parameters and the body of a method. -/
theorem closedTail (plain : isPlain n = true) (place : Place) :
    Ensures Closed (Print.functionTail p place n) :=
  (tidies.functionTail plain place False.elim).imp fun _ passes => passes.inside

/-- The body of a function stands in braces, if it is a block, and shields what is in it. -/
theorem functionText (calm : Calm asked place n)
    (block : asked → ∀ body, n.field "body" = .ok body → body.hasTag "BlockStatement" = true) :
    Ensures (Tidy asked) (functionText p place n) := by
  refine .after fun name read => (functionKeyword_passes asked n).bind fun keyword passes => ?_
  -- The name may end anywhere, even in `in`: the parenthesis after it ends the word.
  have named : ∀ name, Passes asked .before .anywhere name → Ensures (Tidy asked)
      (do return keyword ++ name ++ (← Print.functionTail p place n)) :=
    fun name passes' => (tidies.functionTail calm.plain place block).bind fun tail passes'' =>
      (passes.append passes').append passes''
  cases name with
  | none => exact named [] (.nil (by decide))
  | some name => exact (gluedName_passes (isPlain_optional calm.plain read)).bind named

theorem propertyKey (plain : isPlain n = true) (place : Place) :
    Ensures (fun phrase => Closed phrase.shown) (propertyKey p place n) := by
  refine .after fun _ _ => .ite ?_ ?_
  · refine .after fun key read => ?_
    refine (tidies.closedShown (isPlain_field plain read) place _).bind fun text closed => ?_
    exact ((Rises.text (by decide)).append closed.within).append (.text (by decide))
  · exact .after fun key read => tidies.closedPhrase (isPlain_field plain read) place _

/-- What stands in an object is shielded by the braces around it, so only its brackets count. -/
theorem property (plain : isPlain n = true) (place : Place) :
    Ensures (fun phrase => Closed phrase.shown) (property p place n) := by
  refine .after fun _ _ => .ite (tidies.closedPhrase plain place _) ?_
  refine (tidies.propertyKey plain place).bind fun key closed => ?_
  refine (accessorKind_closed n).bind fun kind closedKind => ?_
  cases kind with
  | some kind =>
    refine .after fun value read => ?_
    refine (tidies.closedTail (isPlain_field plain read) place).bind fun tail closed' => ?_
    exact ((closedKind kind rfl).append closed).append closed'
  | none =>
    refine .after fun _ _ => .ite ?_ (.after fun _ _ => .ite ?_ ?_)
    · refine .after fun value _ => (methodMarks_closed value).bind fun marks closedMarks => ?_
      refine (glue_shown (P := Closed) closed).bind fun key closedKey => .after fun value read => ?_
      refine (tidies.closedTail (isPlain_field plain read) place).bind fun tail closed' => ?_
      exact (closedMarks.append closedKey).append closed'
    · exact .after fun value read => tidies.closedPhrase (isPlain_field plain read) place _
    · refine .after fun value read => ?_
      refine (tidies.closedShown (isPlain_field plain read) place _).bind fun text closed' => ?_
      exact (Rises.append closed (.text (by decide))).append closed'

theorem method (plain : isPlain n = true) (place : Place) : Ensures Closed (method p place n) := by
  refine .after fun static _ => (tidies.propertyKey plain place).bind fun key closed => ?_
  have closedStatic : Closed (Doc.text (if static then "static " else "")) := by
    cases static <;> exact Rises.text (by decide)
  refine (accessorKind_closed n).bind fun kind closedKind => ?_
  have marked : ∀ marks, Closed marks → Ensures Closed
      (do
        let key ← key.glue
        let tail ← Print.functionTail p place (← n.field "value")
        return Doc.text (if static then "static " else "") ++ marks ++ key ++ tail) := by
    intro marks closedMarks
    refine (glue_shown (P := Closed) closed).bind fun key closedKey => .after fun value read => ?_
    refine (tidies.closedTail (isPlain_field plain read) place).bind fun tail closed' => ?_
    exact ((closedStatic.append closedMarks).append closedKey).append closed'
  cases kind with
  | some kind => exact marked _ (closedKind kind rfl)
  | none => exact .after fun value _ => (methodMarks_closed value).bind marked

omit tidies in
theorem className_passes (calm : Calm asked place n) :
    Ensures (Passes asked .apart .after) (className n) := by
  refine .after fun name read => ?_
  cases name with
  | none => exact Passes.nil (by decide)
  | some name =>
    refine (gluedName_tidy (calm.optional read rfl)).bind fun text tidy => ?_
    exact Passes.append (.text (by decide)) tidy

theorem classParent (calm : Calm asked place n) :
    Ensures (Passes asked .after .after) (classParent p place n) := by
  refine .after fun parent read => ?_
  cases parent with
  | none => exact Passes.nil (by decide)
  | some parent =>
    refine (tidies.glued (calm.optional read rfl) _).bind fun text tidy => ?_
    exact Passes.append (.text (by decide)) tidy

/-- The methods stand between braces. -/
theorem classBody (calm : Calm asked place n) :
    Ensures (Passes asked .after .after) (classBody p place n) := by
  refine .after fun body read => .after fun methods readMethods => .ite (Passes.text (by decide)) ?_
  have inner := isPlain_field (isPlain_field calm.plain read) readMethods
  refine .after fun items listed => ?_
  refine Gives.bind (.mapM (Q := Closed) fun m member => ?_) fun lines each => ?_
  · refine (tidies.margin _).bind fun pad closed => ?_
    have plainMethod := isPlain_items inner listed m member
    exact Gives.bind (tidies.method plainMethod place.deeper) fun text closed' => closed.append closed'
  · refine (tidies.line _).bind fun line closed => ?_
    exact (((((Passes.text (by decide)).append (.within .newline)).append
      (.within (.joined .newline each))).append (.within closed)).append (.text (by decide)))

/-- Only the parent of a class can show an `in`, and it is printed in the place of the class. -/
theorem classText (calm : Calm asked place n) : Ensures (Tidy asked) (classText p place n) := by
  refine (className_passes calm).bind fun name passes => ?_
  refine (tidies.classParent calm).bind fun parent passes' => ?_
  refine (tidies.classBody calm).bind fun body passes'' => ?_
  exact (((Passes.text (by decide)).append passes).append passes').append passes''

/-! ## Expressions -/

/-- The brackets of an array shield its elements. -/
theorem arrayText (plain : isPlain n = true) (place : Place) :
    Ensures (Tidy asked) (arrayText p place n) := by
  refine .after fun list read => .after fun elements listed => ?_
  have inner := isPlain_items (isPlain_field plain read) listed
  refine Gives.bind (.mapM (Q := Phrase.IsTidy False) fun element member =>
    .ite (Passes.nil (by decide)) ?_) fun phrases each => ?_
  · exact tidies.expression (.unasked (inner element member)) _
  · have all : ∀ phrase ∈ (if elements.getLast?.any Value.isNull then phrases ++ [Phrase.doc []]
        else phrases), phrase.IsTidy False := by
      split
      · intro phrase member
        rcases List.mem_append.mp member with member | member
        · exact each phrase member
        · obtain rfl := List.mem_singleton.mp member
          exact Passes.nil (by decide)
      · exact each
    refine (joined_tidy all).bind fun inner tidy => ?_
    exact ((Passes.text (by decide)).append (.within tidy.inside)).append (.text (by decide))

/-- The braces of an object shield its properties. -/
theorem objectText (plain : isPlain n = true) (place : Place) :
    Ensures (Tidy asked) (objectText p place n) := by
  refine .after fun properties read => .ite (Passes.text (by decide)) ?_
  refine (tidies.line _).bind fun line closedLine => .after fun items listed => ?_
  have inner := isPlain_items (isPlain_field plain read) listed
  refine Gives.bind (.mapM (Q := fun phrase => Closed phrase.shown) fun item member => ?_)
    fun phrases each => ?_
  · exact tidies.property (inner item member) place.deeper
  · refine (Gives.mapM fun phrase member => glue_shown (P := Closed) (each phrase member)).bind
      fun docs closed => ?_
    refine (tidies.line _).bind fun last closedLast => ?_
    have between : Closed (Doc.text "," ++ line) := (Rises.text (by decide)).append closedLine
    have members := Rises.joined between closed
    exact ((((Passes.text (by decide)).append (.within closedLine)).append (.within members)).append
      (.within closedLast)).append (.text (by decide))

theorem objectPatternText (plain : isPlain n = true) (place : Place) :
    Ensures (Tidy asked) (objectPatternText p place n) := by
  refine .after fun properties read => .after fun items listed => ?_
  have inner := isPlain_items (isPlain_field plain read) listed
  refine Gives.bind (.mapM (Q := Phrase.IsTidy False) fun item member => ?_) fun phrases each => ?_
  · exact (tidies.property (inner item member) place).imp fun _ closed => ⟨closed, False.elim⟩
  · refine (joined_tidy each).bind fun inner tidy => ?_
    exact ((Passes.text (by decide)).append (.within tidy.inside)).append (.text (by decide))

/-- An arrow function is the one function whose body may be unshielded, so an expression there keeps
the place of the arrow. -/
theorem arrowText (calm : Calm asked place n) : Ensures (Tidy asked) (arrowText p place n) := by
  refine .after fun async _ => .after fun params read => ?_
  refine (tidies.closedList (isPlain_field calm.plain read) place).bind fun list closed => ?_
  have mark : Passes asked .before .before (Doc.text (if async then "async " else "")) := by
    cases async <;> exact Passes.text (by decide)
  have head : Passes asked .before .before (Doc.text (if async then "async " else "") ++
      Doc.text "(" ++ list ++ Doc.text ") => ") :=
    ((mark.append (.text (by decide))).append (.within closed)).append (.text (by decide))
  refine .after fun body read => .after fun isBlock tagged => .ite_of (fun isTrue => ?_) fun _ => ?_
  · subst isTrue
    obtain ⟨fields, rfl⟩ := tagged_of_isTagged tagged
    refine (tidies.statement (isPlain_field calm.plain read) _).bind fun text ⟨_, tidy⟩ => ?_
    exact head.append ((tidy rfl).imp fun _ => trivial)
  · refine (tidies.expression (calm.field read rfl) _).bind fun phrase tidy => ?_
    refine (inspect_shown (P := Tidy asked) tidy).bind fun text tidy => head.append ?_
    split
    · exact .parenthesized tidy.inside
    · exact tidy

/-- The parts of a template stand between backquotes, so no word goes on into them. -/
theorem templateParts (asked : Prop) {expressions : Value} (plain : isPlain expressions = true)
    (place : Place) {chunks : List Value} (plainChunks : ∀ chunk ∈ chunks, isPlain chunk = true)
    (index : Nat) :
    Ensures (∀ phrase ∈ ·, Passes asked .apart .apart phrase.shown)
      (templateParts p place expressions index chunks) := by
  induction chunks generalizing index with
  | nil => exact nofun
  | cons chunk rest ih =>
    have others := ih fun other member => plainChunks other (by simp [member])
    refine .after fun value read => .after fun raw spelled => .after fun found readMember => ?_
    have isClean := plainWord_chunk (plainChunks chunk (by simp)) read spelled
    have onward : ∀ inserted : List Phrase,
        (∀ phrase ∈ inserted, Passes asked .apart .apart phrase.shown) →
        Ensures (∀ phrase ∈ ·, Passes asked .apart .apart phrase.shown)
          (do return Phrase.ofValue raw :: inserted ++
            (← Print.templateParts p place expressions (index + 1) rest)) := by
      refine fun inserted passes => (others (index + 1)).bind fun parts passes' => ?_
      intro phrase member
      rcases List.mem_cons.mp member with rfl | member
      · rw [shown_ofValue]
        exact .clean_apart isClean
      · exact (List.mem_append.mp member).elim (passes phrase) (passes' phrase)
    cases found with
    | none => exact onward [] nofun
    | some expression =>
      have inner := isPlain_memberAt plain readMember
      refine (tidies.closedGlued inner place _).bind fun text closed => onward _ ?_
      intro phrase member
      obtain rfl := List.mem_singleton.mp member
      exact ((Passes.text (by decide)).append (.within closed)).append (.text (by decide))

/-- A template may follow the function that it is handed to. -/
theorem templateText (asked : Prop) (plain : isPlain n = true) (place : Place) :
    Ensures (Passes asked .after .after) (templateText p place n) := by
  refine .after fun expressions read => .after fun quasis readQuasis => .after fun chunks listed => ?_
  refine (tidies.templateParts asked (isPlain_field plain read) place
    (isPlain_items (isPlain_field plain readQuasis) listed) 0).bind fun parts each => ?_
  have inner : Ensures (Passes asked .apart .apart) (Phrase.joined "" parts) :=
    (Gives.mapM fun phrase member => glue_shown (each phrase member)).bind fun docs passes =>
      .joined (by decide) (.text (by decide)) passes
  refine inner.bind fun text passes => ?_
  exact ((Passes.text (by decide)).append passes).append (.text (by decide))

theorem taggedTemplateText (calm : Calm asked place n) :
    Ensures (Tidy asked) (taggedTemplateText p place n) := by
  refine .after fun tag read => ?_
  refine (tidies.expression (calm.field read rfl) _).bind fun callee tidy => .after fun quasi read => ?_
  refine (tidies.templateText asked (isPlain_field calm.plain read) place).bind fun template passes => ?_
  exact (glue_shown (P := Tidy asked) tidy).bind fun text tidy => tidy.append passes

/-- An operator of a well-formed node is no `in`, and the operand is printed in the same place. -/
theorem unaryText {fields : Fields} (calm : Calm asked place (.tagged "UnaryExpression" fields)) :
    Ensures (Phrase.IsTidy asked) (unaryText p place (.tagged "UnaryExpression" fields)) := by
  refine .after fun operator readOperator => .after fun argument read => ?_
  refine (tidies.expression (calm.field read rfl) _).bind fun phrase tidy => ?_
  have plain := plainOperator_field calm.plain (by decide) readOperator
  cases operator with
  | str word =>
    have first : Passes asked .before .before (Doc.text word) := operator_passes plain (.inl rfl)
    have spaced := first.text_append (.text (by decide) : Passes asked .before .before (Doc.text " "))
    refine .ite (spaced.append tidy) (.ite ?_ (plus_tidy first tidy))
    refine (inspect_shown (P := Tidy asked) tidy).bind fun text tidy => .ite ?_ ?_
    · exact spaced.append tidy
    · exact first.append tidy
  | _ => cases plain

theorem updateText {fields : Fields} (calm : Calm asked place (.tagged "UpdateExpression" fields)) :
    Ensures (fun answer => answer.1.IsTidy asked)
      (updateText p place (.tagged "UpdateExpression" fields)) := by
  refine .after fun _ _ => .ite ?_ ?_
  · refine .after fun operator readOperator => .after fun argument read => ?_
    refine (tidies.expression (calm.field read rfl) _).bind fun phrase tidy => ?_
    have plain := plainOperator_field calm.plain (by decide) readOperator
    cases operator with
    | str word => exact (plus_tidy (operator_passes plain (.inl rfl)) tidy).bind fun _ tidy => tidy
    | _ => cases plain
  · refine .after fun argument read => ?_
    refine (tidies.expression (calm.field read rfl) _).bind fun phrase tidy => ?_
    refine .after fun operator readOperator => ?_
    have plain := plainOperator_field calm.plain (by decide) readOperator
    cases operator with
    | str word => exact (tidy_plus tidy (operator_passes plain (.inr rfl))).bind fun _ tidy => tidy
    | _ => cases plain

omit tidies in
/-- What has a precedence between two operands is a word or signs. -/
theorem binaryPrecedence_clean {operator : Value} {precedence : Precedence}
    (listed : binaryPrecedence operator = .ok precedence) :
    ∃ word, operator = .str word ∧ clean word.toList = true := by
  have table : ∀ entry ∈ Precedence.binaryTable, clean entry.1.toList = true := by decide
  -- Only a text is found in the table, so what is shown is the word that was looked up.
  have asKey : ∀ word, operator.key? = .ok (some word) → operator = .str word := by
    intro word isKey
    cases operator with
    | str own =>
      cases isKey
      rfl
    | _ =>
      simp only [Value.key?] at isKey
      split at isKey <;> cases isKey
  unfold binaryPrecedence at listed
  split at listed
  · cases listed
  · rename_i word isKey
    split at listed
    · rename_i own found
      obtain ⟨word, rfl, found⟩ := Option.bind_eq_some_iff.mp found
      obtain ⟨_, _, whole, -⟩ := List.lookup_eq_some_iff.mp found
      exact ⟨word, asKey word isKey, table (word, own) (by simp [whole])⟩
    · cases listed

/-- Two operands with anything but an `in` between them. -/
theorem binaryText (calm : Calm asked place n)
    (other : asked → n.field "operator" ≠ .ok (.str "in")) :
    Ensures (fun answer => Tidy asked answer.1) (binaryText p place n) := by
  refine .after fun operator readOperator => .after fun precedence listed => .after fun left read => ?_
  refine (tidies.shown (calm.field read rfl) _).bind fun first tidy => .after fun right read => ?_
  refine (tidies.shown (calm.field read rfl) _).bind fun second tidy' => ?_
  obtain ⟨word, rfl, isClean⟩ := binaryPrecedence_clean listed
  have middle : Tidy asked (Doc.text word) :=
    .clean_word isClean fun isAsked same => other isAsked (same ▸ readOperator)
  exact (((tidy.append (.text (by decide))).append middle).append (.text (by decide))).append tidy'

/-- The operator is not `in`, so an `in` could only come from the two sides. -/
theorem assignmentText {fields : Fields}
    (calm : Calm asked place (.tagged "AssignmentExpression" fields)) :
    Ensures (Tidy asked) (assignmentText p place (.tagged "AssignmentExpression" fields)) := by
  refine .after fun left read => (tidies.shown (calm.field read rfl) _).bind fun first tidy => ?_
  refine .after fun right read => (tidies.shown (calm.field read rfl) _).bind fun second tidy' => ?_
  refine .after fun operator readOperator => ?_
  obtain ⟨isClean, other⟩ := between_field calm.plain (by decide) readOperator
  have middle : Tidy asked (shownValue operator) :=
    .clean_word isClean fun _ => by simpa [isIn] using other
  exact (((tidy.append (.text (by decide))).append middle).append (.text (by decide))).append tidy'

theorem assignmentPatternText (calm : Calm asked place n) :
    Ensures (Tidy asked) (assignmentPatternText p place n) := by
  refine .after fun left read => (tidies.shown (calm.field read rfl) _).bind fun first tidy => ?_
  refine .after fun right read => (tidies.shown (calm.field read rfl) _).bind fun second tidy' => ?_
  exact (tidy.append (.text (by decide))).append tidy'

/-- All three parts are printed in the place of the conditional. -/
theorem conditionalText (calm : Calm asked place n) :
    Ensures (Tidy asked) (conditionalText p place n) := by
  refine .after fun test read => (tidies.shown (calm.field read rfl) _).bind fun first tidy => ?_
  refine .after fun yes read => (tidies.shown (calm.field read rfl) _).bind fun second tidy' => ?_
  refine .after fun no read => (tidies.shown (calm.field read rfl) _).bind fun third tidy'' => ?_
  exact (((tidy.append (.text (by decide))).append tidy').append (.text (by decide))).append tidy''

theorem argumentsText (asked : Prop) (plain : isPlain n = true) (place : Place) :
    Ensures (Passes asked .after .after) (argumentsText p place n) := by
  refine .after fun list read => ?_
  refine (tidies.closedList (isPlain_field plain read) place).bind fun text closed => ?_
  exact ((Passes.text (by decide)).append (.within closed)).append (.text (by decide))

theorem callText (calm : Calm asked place n) : Ensures (Tidy asked) (callText p place n) := by
  refine .after fun callee read => ?_
  refine (tidies.expression (calm.field read rfl) _).bind fun phrase tidy => ?_
  refine (tidies.argumentsText asked calm.plain place).bind fun list passes => ?_
  exact (glue_shown (P := Tidy asked) tidy).bind fun text tidy => tidy.append passes

/-- The callee is printed in the place of the construction, its arguments stand in parentheses. -/
theorem newText (calm : Calm asked place n) : Ensures (Tidy asked) (newText p place n) := by
  refine .after fun callee read => ?_
  refine (tidies.expression (calm.field read rfl) _).bind fun phrase tidy => ?_
  have called : ∀ callee, Tidy asked callee → Ensures (Tidy asked)
      (do
        let arguments ← Print.argumentsText p place n
        return Doc.text "new " ++ callee ++ arguments) :=
    fun callee tidy => (tidies.argumentsText asked calm.plain place).bind fun list passes =>
      ((Passes.text (by decide)).append tidy).append passes
  refine .after fun _ _ => .ite ?_ ((glue_shown (P := Tidy asked) tidy).bind called)
  refine (inspect_shown (P := Tidy asked) tidy).bind fun text tidy => called _ ?_
  split
  · exact tidy
  · exact .parenthesized tidy.inside

/-- The object is printed in the place of the access, with or without parentheses around it; a
computed key stands in brackets. -/
theorem memberText (calm : Calm asked place n) : Ensures (Tidy asked) (memberText p place n) := by
  refine .after fun object read => ?_
  refine (tidies.expression (calm.field read rfl) _).bind fun phrase tidy => ?_
  have named : ∀ bare : Bool, Ensures (Tidy asked)
      (do
        let object := if bare then phrase.shown.parenthesized else phrase.shown
        if (← n.field "computed").truthy then
          let key ← p.shown place Precedence.sequence (← n.field "property")
          return object ++ Doc.text "[" ++ key ++ Doc.text "]"
        else
          let name ← (← n.field "property").field "name"
          return object ++ Doc.text "." ++ shownValue name) := by
    intro bare
    have object : Tidy asked (if bare then phrase.shown.parenthesized else phrase.shown) := by
      split
      · exact .parenthesized tidy.inside
      · exact tidy
    refine .after fun _ _ => .ite ?_ ?_
    · refine .after fun key read => ?_
      refine (tidies.closedShown (isPlain_field calm.plain read) place _).bind fun text closed => ?_
      exact ((object.append (.text (by decide))).append (.within closed)).append (.text (by decide))
    · refine .after fun key read => .after fun name readName => ?_
      have isClean := plainWord_name (isPlain_field calm.plain read) readName
      exact ((object.append (.text (by decide))).append (.clean_apart isClean)).weaken (by decide)
  refine .after fun _ _ => .ite (.after fun _ _ => ?_) ?_
  · exact named _
  · exact named _

theorem yieldText (calm : Calm asked place n) : Ensures (Tidy asked) (yieldText p place n) := by
  refine .after fun delegate _ => .after fun argument read => ?_
  have keyword : Tidy asked (Doc.text (if delegate then "yield*" else "yield")) := by
    cases delegate <;> exact Passes.text (by decide)
  cases argument with
  | none => exact keyword
  | some argument =>
    refine (tidies.shown (calm.optional read rfl) _).bind fun text tidy => ?_
    exact (keyword.append (.text (by decide))).append tidy

omit tidies in
theorem metaPropertyText_tidy (plain : isPlain n = true) :
    Ensures (Tidy asked) (metaPropertyText n) := by
  refine .after fun owner readOwner => .after fun ownerName readOwnerName => ?_
  refine .after fun property readProperty => .after fun name readName => ?_
  have first := plainWord_name (isPlain_field plain readOwner) readOwnerName
  have last := plainWord_name (isPlain_field plain readProperty) readName
  exact (((Passes.clean_anywhere first).append (.text (by decide))).append (.clean_apart last)).weaken
    (by decide)

/-- An expression shows no bare `in` where none is asked for, unless it is an `in` operation itself:
by the cases of its tag. -/
theorem expressionText (calm : Calm asked place n) (other : asked → isInOperation n = false) :
    Ensures (fun answer => answer.1.IsTidy asked) (expressionText p place n) := by
  have docs : ∀ {x : Except Fault Doc} (own : Precedence), Ensures (Tidy asked) x →
      Ensures (fun answer : Phrase × Precedence => answer.1.IsTidy asked) (do return (.doc (← x), own)) :=
    fun own text => text.bind fun _ tidy => tidy
  have marked : ∀ {mark : String} (_ : Passes asked .before .before (Doc.text mark))
      (own : Precedence) {precedence : Precedence},
      Ensures (fun answer : Phrase × Precedence => answer.1.IsTidy asked)
        (do
          let argument ← p.glued place precedence (← n.field "argument")
          return (.doc (Doc.text mark ++ argument), own)) :=
    fun mark own => .after fun _ read => (tidies.glued (calm.field read rfl) _).bind fun _ tidy =>
      mark.append tidy
  refine .after fun tag chosen => ?_
  obtain ⟨fields, rfl⟩ := tagged_of_chosenBy chosen
  split
  · refine .after fun name read => ?_
    show Tidy asked (Phrase.ofValue name).shown
    rw [shown_ofValue]
    exact calm.name read
  · exact calm.literal
  · exact Passes.text (by decide)
  · exact Passes.text (by decide)
  · exact docs _ (tidies.arrayText calm.plain place)
  · exact docs _ (tidies.arrayText calm.plain place)
  · exact docs _ (tidies.objectText calm.plain place)
  · exact docs _ (tidies.objectPatternText calm.plain place)
  · exact docs _ (tidies.functionText calm fun _ _ read => block_of_isPlain calm.plain read)
  · exact docs _ (tidies.arrowText calm)
  · exact docs _ (tidies.classText calm)
  · exact docs _ ((tidies.templateText asked calm.plain place).imp fun _ passes =>
      passes.narrow (by decide))
  · exact docs _ (tidies.taggedTemplateText calm)
  · exact (tidies.unaryText calm).bind fun _ tidy => tidy
  · exact tidies.updateText calm
  · refine (tidies.binaryText calm fun isAsked read => ?_).bind fun _ tidy => tidy
    obtain ⟨_, _, same, found⟩ := Value.lookup_of_field read
    cases same
    have notIn := other isAsked
    simp [isInOperation, found, Value.isText] at notIn
  · -- The parentheses look at the tag too, so an `in` under this one would be bare.
    refine (tidies.binaryText calm fun _ read => ?_).bind fun _ tidy => tidy
    exact absurd (between_field calm.plain (by decide) read).2 (by decide)
  · exact docs _ (tidies.assignmentText calm)
  · exact docs _ (tidies.assignmentPatternText calm)
  · exact docs _ (tidies.conditionalText calm)
  · exact docs _ (tidies.callText calm)
  · exact docs _ (tidies.newText calm)
  · exact docs _ (tidies.memberText calm)
  · exact .after fun _ read => docs _ (tidies.commaList (calm.field read rfl))
  · exact docs _ (tidies.yieldText calm)
  · exact marked (.text (by decide)) _
  · exact marked (.text (by decide)) _
  · exact marked (.text (by decide)) _
  · exact docs _ (metaPropertyText_tidy calm.plain)
  · trivial

/-- An `in` of its own is put in parentheses in the head of a loop. -/
theorem expressionPhrase (calm : Calm asked place n) (precedence : Precedence) :
    Ensures (Phrase.IsTidy asked) (expressionPhrase p place precedence n) := by
  -- The text of an `in` is only asked to close its brackets; it is shown bare nowhere in a head.
  have apart : Calm (asked ∧ isInOperation n = false) place n := calm.imp And.left
  refine (tidies.expressionText apart And.right).bind fun answer tidy => ?_
  refine .ite_of (fun _ => Passes.parenthesized tidy.inside) fun bare => ?_
  refine tidy.imp fun isAsked => ⟨isAsked, ?_⟩
  have inHead := (calm.unnamed isAsked).1
  simp only [inHead, Bool.true_and, Bool.or_eq_true, not_or, Bool.not_eq_true] at bare
  exact bare.2

/-! ## Statements -/

/-- Statements need only be closed, since every statement in a loop head stands in the braces of a
function. -/
theorem bodyText (plain : isPlain v = true) (level : Int) : Ensures Closed (bodyText p level v) := by
  refine .after fun _ _ => .ite ?_ (.ite (Rises.text (by decide)) ?_)
  · refine (tidies.closedStatement plain level).bind fun text closed => ?_
    exact (Rises.text (by decide)).append closed
  · refine (tidies.line _).bind fun line closed => ?_
    exact (tidies.closedStatement plain _).bind fun text closed' => closed.append closed'

/-- A block stands between braces. -/
theorem blockText (plain : isPlain n = true) (level : Int) : Ensures (Tidy True) (blockText p level n) := by
  refine .after fun body read => .ite (Passes.text (by decide)) ?_
  refine (tidies.statementLines (isPlain_field plain read) _).bind fun lines closed => ?_
  refine (tidies.line _).bind fun line closed' => ?_
  exact ((((Passes.text (by decide)).append (.within .newline)).append (.within closed)).append
    (.within closed')).append (.text (by decide))

theorem expressionStatementText (plain : isPlain n = true) (level : Int) :
    Ensures Closed (expressionStatementText p level n) := by
  refine .after fun expression read => ?_
  refine (tidies.closedGlued (isPlain_field plain read) _ _).bind fun text closed => ?_
  have inner : Closed (if isAmbiguousStart (text.chars p.width) then text.parenthesized else text) := by
    split
    · exact closed.parenthesized
    · exact closed
  exact inner.append (.text (by decide))

theorem bracedText (plain : isPlain v = true) (level : Int) : Ensures Closed (bracedText p level v) := by
  refine (tidies.line _).bind fun line closed => ?_
  refine (tidies.closedStatement plain _).bind fun text closed' => ?_
  refine (tidies.line _).bind fun last closed'' => ?_
  exact ((((Rises.text (by decide)).append closed.within).append closed'.within).append
    closed''.within).append (.text (by decide))

theorem consequentText (plain : isPlain v = true) (level : Int) :
    Ensures Closed (consequentText p level v) := by
  have body := tidies.bodyText plain level
  refine .after fun _ _ => .ite ?_ (.after fun _ _ => .ite (tidies.bracedText plain level) body)
  exact body

theorem elseKeyword (level : Int) (isBlock : Bool) {text : Doc} (closed : Closed text) :
    Ensures Closed (elseKeyword p level isBlock text) := by
  refine .ite (closed.append (.text (by decide))) ?_
  exact (tidies.line _).bind fun line closed' => (closed.append closed').append (.text (by decide))

theorem alternateText (plain : isPlain v = true) (level : Int) :
    Ensures Closed (alternateText p level v) := by
  refine .after fun _ _ => .ite ?_ (tidies.bodyText plain level)
  exact (tidies.closedStatement plain level).bind fun text closed =>
    (Rises.text (by decide)).append closed

/-- A branch closes the brackets of its parts, with or without an alternate. -/
theorem ifText (plain : isPlain n = true) (level : Int) : Ensures Closed (ifText p level n) := by
  refine .after fun test read => ?_
  refine (tidies.closedShown (isPlain_field plain read) _ _).bind fun text closed => ?_
  have head : Closed (Doc.text "if (" ++ text ++ Doc.text ")") :=
    ((Rises.text (by decide)).append closed.within).append (.text (by decide))
  refine .after fun consequent read => .after fun alternate readElse => ?_
  have inner := isPlain_field plain read
  cases alternate with
  | none => exact (tidies.bodyText inner level).bind fun body closed => head.append closed
  | some alternate =>
    refine .after fun isBlock _ => (tidies.consequentText inner level).bind fun body closed => ?_
    refine (tidies.elseKeyword level isBlock (head.append closed)).bind fun front closed => ?_
    refine (tidies.alternateText (isPlain_optional plain readElse) level).bind fun body closed' => ?_
    exact closed.append closed'

omit tidies in
/-- The two ways to print a jump differ in what follows the keyword, so both are asked to be closed.
-/
theorem jumpText_closed {keyword : String} (closed : Closed (Doc.text (keyword ++ " ")))
    (closed' : Closed (Doc.text (keyword ++ ";"))) (plain : isPlain n = true) :
    Ensures Closed (jumpText keyword n) := by
  refine .after fun label read => ?_
  split
  · rename_i label' found
    refine .after fun name readName => ?_
    have given : label = some label' := by
      cases label with
      | none => cases found
      | some _ => simpa using (Option.filter_eq_some_iff.mp found).1
    subst given
    have isClean := plainWord_name (isPlain_optional plain read) readName
    exact (closed.append (.free (free_of_clean isClean))).append (.text (by decide))
  · exact closed'

/-- The keyword comes with the parenthesis that is closed after the expression. -/
theorem guardedText {keyword : String} (opens : Rises 0 1 (Doc.text (keyword ++ " (")))
    (name : String) (plain : isPlain n = true) (level : Int) :
    Ensures Closed (guardedText p level keyword name n) := by
  refine .after fun guard read => ?_
  refine (tidies.closedShown (isPlain_field plain read) _ _).bind fun text closed => ?_
  refine .after fun body read => ?_
  refine (tidies.bodyText (isPlain_field plain read) level).bind fun rest closed' => ?_
  exact ((opens.append closed.within).append (.text (by decide))).append closed'

theorem switchText (plain : isPlain n = true) (level : Int) : Ensures Closed (switchText p level n) := by
  refine .after fun discriminant read => ?_
  refine (tidies.closedShown (isPlain_field plain read) _ _).bind fun text closed => ?_
  refine .after fun list read => .after fun cases listed => ?_
  have inner := isPlain_items (isPlain_field plain read) listed
  refine Gives.bind (.mapM (Q := Closed) fun case member => ?_) fun docs each => ?_
  · refine (tidies.line _).bind fun line closed => ?_
    exact (tidies.closedStatement (inner case member) _).bind fun text closed' => closed.append closed'
  · refine (tidies.line _).bind fun line closed' => ?_
    exact (((((Rises.text (by decide)).append closed.within).append (.text (by decide))).append
      (Rises.flatten each).within).append closed'.within).append (.text (by decide))

theorem caseText (plain : isPlain n = true) (level : Int) : Ensures Closed (caseText p level n) := by
  refine .after fun test read => ?_
  have rest : ∀ head, Closed head → Ensures Closed
      (do
        let consequent ← n.field "consequent"
        if consequent.truthy then
          return head ++ [.newline] ++ (← p.statementLines (level + 1) consequent)
        else return head) := by
    refine fun head closed => .after fun consequent read => .ite ?_ closed
    refine (tidies.statementLines (isPlain_field plain read) _).bind fun lines closed' => ?_
    exact (closed.append .newline).append closed'
  cases test with
  | none => exact rest _ (.text (by decide))
  | some test =>
    refine (tidies.closedShown (isPlain_optional plain read) _ _).bind fun text closed => ?_
    exact rest _ (((Rises.text (by decide)).append closed).append (.text (by decide)))

theorem returnText (plain : isPlain n = true) (level : Int) : Ensures Closed (returnText p level n) := by
  refine .after fun argument read => ?_
  cases argument with
  | none => exact Rises.text (by decide)
  | some argument =>
    refine (tidies.closedShown (isPlain_optional plain read) _ _).bind fun text closed => ?_
    exact ((Rises.text (by decide)).append closed).append (.text (by decide))

theorem clauseText {keyword : String} (closed : Closed (Doc.text keyword)) (plain : isPlain n = true)
    (level : Int) {name : String} {clause : Option Value} (read : n.optional name = .ok clause) :
    Ensures Closed (clauseText p level keyword clause) := by
  cases clause with
  | none => exact Rises.nil
  | some v =>
    exact (tidies.closedStatement (isPlain_optional plain read) level).bind fun text closed' =>
      closed.append closed'

theorem tryText (plain : isPlain n = true) (level : Int) : Ensures Closed (tryText p level n) := by
  refine .after fun block read => ?_
  refine (tidies.closedStatement (isPlain_field plain read) level).bind fun text closed => ?_
  refine .after fun handler read => ?_
  refine (tidies.clauseText (.text (by decide)) plain level read).bind fun text closed' => ?_
  refine .after fun finalizer read => ?_
  refine (tidies.clauseText (.text (by decide)) plain level read).bind fun text closed'' => ?_
  exact (((Rises.text (by decide)).append closed).append closed').append closed''

theorem catchText (plain : isPlain n = true) (level : Int) : Ensures Closed (catchText p level n) := by
  refine .after fun param read => ?_
  cases param with
  | none =>
    refine .after fun body read => ?_
    exact (tidies.closedStatement (isPlain_field plain read) level).bind fun text closed =>
      (Rises.text (by decide)).append closed
  | some param =>
    refine (tidies.closedShown (isPlain_optional plain read) _ _).bind fun text closed => ?_
    refine .after fun body read => ?_
    refine (tidies.closedStatement (isPlain_field plain read) level).bind fun rest closed' => ?_
    exact (((Rises.text (by decide)).append closed.within).append (.text (by decide))).append closed'

theorem doWhileText (plain : isPlain n = true) (level : Int) : Ensures Closed (doWhileText p level n) := by
  refine .after fun body read => ?_
  refine (tidies.bodyText (isPlain_field plain read) level).bind fun text closed => ?_
  have rest : ∀ gap, Closed gap → Ensures Closed
      (do
        let test ← p.shown (.plain level) Precedence.sequence (← n.field "test")
        return Doc.text "do" ++ text ++ gap ++ Doc.text "while (" ++ test ++ Doc.text ");") := by
    refine fun gap closed' => .after fun test read => ?_
    refine (tidies.closedShown (isPlain_field plain read) _ _).bind fun test closed'' => ?_
    exact (((((Rises.text (by decide)).append closed).append closed').append (.text (by decide))).append
      closed''.within).append (.text (by decide))
  exact .ite (rest _ (.text (by decide))) ((tidies.line _).bind rest)

/-- A declarator in a loop head prints its target and its initializer in that place. -/
theorem declaratorText (calm : Calm asked place n) :
    Ensures (Phrase.IsTidy asked) (declaratorText p place n) := by
  refine .after fun target read => ?_
  refine (tidies.expression (calm.field read rfl) _).bind fun phrase tidy => ?_
  refine .after fun init read => ?_
  cases init with
  | none => exact tidy
  | some init =>
    refine (tidies.shown (calm.optional read rfl) _).bind fun text tidy' => ?_
    exact (Passes.append tidy (.text (by decide))).append tidy'

/-- The kind of a declaration is a word, and the commas stand between declarators. -/
theorem declarationText {fields : Fields}
    (calm : Calm asked place (.tagged "VariableDeclaration" fields)) :
    Ensures (Passes asked .apart .after)
      (declarationText p place (.tagged "VariableDeclaration" fields)) := by
  refine .after fun list read => .after fun items listed => ?_
  refine Gives.bind (.mapM (Q := Phrase.IsTidy asked) fun item member => ?_) fun phrases each => ?_
  · exact tidies.declaratorText ((calm.field read rfl).items listed item member)
  · refine (joined_tidy each).bind fun text tidy => .after fun kind readKind => ?_
    -- The keyword stands first, so no blank is before it, and it may be any word.
    have keyword : Passes asked .apart .apart (shownValue kind) :=
      .clean_apart (plainWord_kind calm.plain readKind)
    have gap : Passes asked .apart .before (Doc.text " ") := .text (by decide)
    exact (keyword.append gap).append tidy

/-- The head of a loop is printed without a bare `in`, whether it is a declaration or an expression.
-/
theorem loopHead (calm : Calm asked { level, noIn := true } v) :
    Ensures (fun phrase => Passes asked .apart .after phrase.shown) (loopHead p level v) := by
  refine .after fun isDeclaration tagged => .ite_of (fun isTrue => ?_) fun _ => ?_
  · subst isTrue
    obtain ⟨fields, rfl⟩ := tagged_of_isTagged tagged
    exact Gives.bind (tidies.declarationText calm) fun text passes => passes
  · exact (tidies.expression calm _).imp fun _ tidy => Passes.narrow tidy (by decide)

theorem headPart (plain : isPlain n = true) (level : Int) {name : String} {part : Option Value}
    (read : n.optional name = .ok part) : Ensures Closed (headPart p level part) := by
  cases part with
  | none => exact Rises.nil
  | some v =>
    refine (tidies.closedGlued (isPlain_optional plain read) _ _).bind fun text closed => ?_
    exact (Rises.text (by decide)).append closed

theorem initText (plain : isPlain n = true) (level : Int) {name : String} {init : Option Value}
    (read : n.optional name = .ok init) : Ensures Closed (initText p level init) := by
  cases init with
  | none => exact Rises.nil
  | some v =>
    refine (tidies.loopHead (.unasked (isPlain_optional plain read))).bind fun phrase tidy => ?_
    exact glue_shown tidy.inside

theorem forText (plain : isPlain n = true) (level : Int) : Ensures Closed (forText p level n) := by
  refine .after fun init readInit => .after fun test readTest => .after fun update readUpdate => ?_
  refine (tidies.initText plain level readInit).bind fun init closed => ?_
  refine (tidies.headPart plain level readTest).bind fun test closed' => ?_
  refine (tidies.headPart plain level readUpdate).bind fun update closed'' => .after fun body read => ?_
  refine (tidies.bodyText (isPlain_field plain read) level).bind fun text body => ?_
  exact (((((((Rises.text (by decide)).append closed.within).append (.text (by decide))).append
    closed'.within).append (.text (by decide))).append closed''.within).append (.text (by decide))).append
      body

theorem forEachText {keyword : String} (between : Closed (Doc.text (" " ++ keyword ++ " ")))
    (plain : isPlain n = true) (level : Int) : Ensures Closed (forEachText p level keyword n) := by
  refine .after fun left read => ?_
  refine (tidies.loopHead (.unasked (isPlain_field plain read))).bind fun head tidy => ?_
  refine .after fun right read => ?_
  refine (tidies.closedShown (isPlain_field plain read) _ _).bind fun text closed => ?_
  refine .after fun body read => ?_
  refine (tidies.bodyText (isPlain_field plain read) level).bind fun text body => ?_
  have head := Rises.within tidy.inside
  exact (((((Rises.text (by decide)).append head).append between.within).append closed.within).append
    (.text (by decide))).append body

theorem labeledText (plain : isPlain n = true) (level : Int) : Ensures Closed (labeledText p level n) := by
  refine .after fun label readLabel => .after fun name readName => .after fun body read => ?_
  refine (tidies.closedStatement (isPlain_field plain read) level).bind fun text closed => ?_
  have isClean := plainWord_name (isPlain_field plain readLabel) readName
  exact ((Rises.free (free_of_clean isClean)).append (.text (by decide))).append closed

/-- A statement closes its brackets, and a block shields what it contains: by the cases of its tag.
-/
theorem statementText (plain : isPlain n = true) (level : Int) :
    Ensures (fun d => Closed d ∧ (n.hasTag "BlockStatement" = true → Tidy True d))
      (statementText p level n) := by
  have other : ∀ {tag : String} {fields : Fields} {x : Except Fault Doc}, tag ≠ "BlockStatement" →
      Ensures Closed x → Ensures (fun d => Closed d ∧
        ((Value.tagged tag fields).hasTag "BlockStatement" = true → Tidy True d)) x :=
    fun differs closed => closed.imp fun _ closed =>
      ⟨closed, fun same => absurd (beq_iff_eq.mp same) differs⟩
  refine .after fun tag chosen => ?_
  obtain ⟨fields, rfl⟩ := tagged_of_chosenBy chosen
  split
  · exact other (by decide) (.after fun body read => tidies.statementLines (isPlain_field plain read) _)
  · exact (tidies.blockText plain level).imp fun _ tidy => ⟨tidy.inside, fun _ => tidy⟩
  · exact other (by decide) (Rises.text (by decide))
  · exact other (by decide) (tidies.expressionStatementText plain level)
  · exact other (by decide) (tidies.ifText plain level)
  · exact other (by decide) (tidies.labeledText plain level)
  · exact other (by decide) (jumpText_closed (.text (by decide)) (.text (by decide)) plain)
  · exact other (by decide) (jumpText_closed (.text (by decide)) (.text (by decide)) plain)
  · exact other (by decide) (tidies.guardedText (.text (by decide)) _ plain level)
  · exact other (by decide) (tidies.switchText plain level)
  · exact other (by decide) (tidies.caseText plain level)
  · exact other (by decide) (tidies.returnText plain level)
  · refine other (by decide) (.after fun argument read => ?_)
    refine (tidies.closedShown (isPlain_field plain read) _ _).bind fun text closed => ?_
    exact ((Rises.text (by decide)).append closed).append (.text (by decide))
  · exact other (by decide) (tidies.tryText plain level)
  · exact other (by decide) (tidies.catchText plain level)
  · exact other (by decide) (tidies.guardedText (.text (by decide)) _ plain level)
  · exact other (by decide) (tidies.doWhileText plain level)
  · exact other (by decide) (tidies.forText plain level)
  · exact other (by decide) (tidies.forEachText (.text (by decide)) plain level)
  · exact other (by decide) (tidies.forEachText (.text (by decide)) plain level)
  · exact other (by decide) (Rises.text (by decide))
  · refine other (by decide) (Gives.bind (tidies.declarationText (.unasked plain)) ?_)
    exact fun text tidy => Rises.append tidy.inside (.text (by decide))
  · refine other (by decide) ((tidies.functionText (.unasked plain) False.elim).imp ?_)
    exact fun _ tidy => tidy.inside
  · exact other (by decide) ((tidies.classText (.unasked plain)).imp fun _ tidy => tidy.inside)
  · trivial

/-! ## Trees -/

/-- The printer one level up is tidy too. -/
theorem above : Tidies p.above where
  margin := tidies.margin
  expression calm precedence := tidies.expressionPhrase calm precedence
  statement plain level := tidies.statementText plain level

end Tidies

/-- By induction on the depth: the printer for one more level prints tidily if the one below does.
-/
theorem tidies_ofDepth (ruler : Ruler) (depth : Nat) : Tidies (Printer.ofDepth ruler depth) := by
  induction depth with
  | zero =>
    refine ⟨fun level => .after fun _ _ => ?_, fun _ _ => trivial, fun _ _ => trivial⟩
    exact Rises.pad level
  | succ depth ih => exact ih.above

/-- The head of a loop in which nothing is called `in` has no bare `in`. -/
theorem not_bareIn_loopHead (tidies : Tidies p) {phrase : Phrase} (plain : isPlain v = true)
    (unnamed : namesIn false v = false) (printed : loopHead p level v = .ok phrase) (width : Nat) :
    ¬ BareIn (phrase.render width).toList := by
  have calm : Calm True { level, noIn := true } v := ⟨plain, fun _ => ⟨rfl, unnamed⟩⟩
  have tidy := (tidies.loopHead calm).apply printed
  obtain ⟨next, -, reads⟩ := tidy.outside trivial width (.outside .other) (by decide)
  rw [Phrase.render, Doc.render, String.toList_ofList]
  exact not_bareIn reads

section Heads

def headName (text : String) : Value :=
  .tagged "Identifier" [("name", .str text)]

/-- Whether `a` is in `b`, as a node with the given tag. -/
def membership (tag : String) : Value :=
  .tagged tag [("operator", .str "in"), ("left", headName "a"), ("right", headName "b")]

/-- A declaration whose first initializer is a function with an `in` in its body, and whose second one
chooses by an `in`. -/
def choosingHead : Value :=
  let isMember := membership "BinaryExpression"
  let body := Value.blockStatement [.tagged "ReturnStatement" [("argument", isMember)]]
  let function := Value.tagged "FunctionExpression"
    [("id", .null), ("params", .seq []), ("body", body)]
  let choice := Value.tagged "ConditionalExpression"
    [("test", isMember), ("consequent", headName "y"), ("alternate", headName "z")]
  let declarator (target init : Value) := Value.tagged "VariableDeclarator"
    [("id", target), ("init", init)]
  .tagged "VariableDeclaration"
    [("kind", .str "var"), ("declarations", .seq [declarator (headName "f") function,
      declarator (headName "x") choice])]

/-- A function whose body is a statement without braces. -/
def unbracedFunction : Value :=
  .tagged "FunctionExpression" [("id", .null), ("params", .seq []),
    ("body", .tagged "ExpressionStatement" [("expression", membership "BinaryExpression")])]

end Heads

end Untangle.Print
