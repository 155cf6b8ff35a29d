import Untangle.Print.Generate

/-!
# A mark for the heads of loops

Whether an expression stands in the head of a loop can also be kept in a variable: a mark that is set
where a head begins, cleared where a statement begins, and put back where either ends, also when it
fails. A generator that works so runs the text of each construct call by call, and every call finds the
mark that the one before it left.

* `Runs` says how the text of a construct is run, and `Generates` what a generator for trees up to a
  depth does.
* `Generates.agrees` is the result: such a generator prints what the printer prints that is told the
  place of each part, and leaves the mark as it was.
* `exists_generates` runs the text of every construct, so there are such generators.
-/

namespace Untangle.Print

/-! ## Computations with a mark -/

/-- A computation that may fail and that keeps a mark. What it does to the mark stays if it fails. -/
abbrev Marking (α : Type) := ExceptT Fault (StateM Bool) α

/-- What a computation gives from a mark, and the mark that it leaves. -/
def Marking.outcome {α : Type} (x : Marking α) (mark : Bool) : Except Fault α × Bool :=
  x.run.run mark

/-- A computation with a mark of its own. The mark is put back when the computation is over, whether
it gave something or failed. -/
def marked {α : Type} (mark : Bool) (x : Marking α) : Marking α := ExceptT.mk do
  let outer ← get
  set mark
  let answer ← x.run
  set outer
  return answer

section Marking

variable {α β : Type} (mark : Bool)

theorem outcome_ofExcept (x : Except Fault α) :
    (MonadExcept.ofExcept x : Marking α).outcome mark = (x, mark) := by
  cases x <;> rfl

/-- A computation that keeps the mark, and one that goes on from there. -/
theorem outcome_bind {mark : Bool} {x : Marking α} {y : Except Fault α} {f : α → Marking β}
    {k : α → Except Fault β} (first : x.outcome mark = (y, mark))
    (next : ∀ a, (f a).outcome mark = (k a, mark)) : (x >>= f).outcome mark = (y >>= k, mark) := by
  have opened : (x >>= f).outcome mark =
      (ExceptT.bindCont f (x.outcome mark).1).run (x.outcome mark).2 := rfl
  rw [opened, first]
  cases y with
  | ok a => exact next a
  | error fault => rfl

/-- Whatever happens inside, the mark outside is put back. -/
theorem outcome_marked (own : Bool) (x : Marking α) :
    (marked own x).outcome mark = ((x.outcome own).1, mark) :=
  rfl

end Marking

/-! ## Running a construct -/

/-- A generator that keeps the mark in a variable. -/
structure Generator where
  width : Nat
  margin : Int → Except Fault Doc
  expression : Int → Precedence → Value → Marking Phrase
  statement : Int → Value → Marking Doc

/-- The text of a construct, written for a printer that is told the place of each part, is run by a
generator call by call. A part that the text places in the head of a loop must find the mark there, and
the head of a loop is run with the mark set. -/
inductive Runs (g : Generator) : Bool → {α : Type} → (Printer → Except Fault α) → Marking α → Prop
  | given {mark : Bool} {α : Type} (x : Except Fault α) :
      Runs g mark (fun _ => x) (MonadExcept.ofExcept x)
  | width {mark : Bool} {α : Type} {text : Nat → Printer → Except Fault α} {run : Nat → Marking α}
      (next : ∀ width, Runs g mark (text width) (run width)) :
      Runs g mark (fun p => text p.width p) (run g.width)
  | margin {mark : Bool} {α : Type} (level : Int) {text : Doc → Printer → Except Fault α}
      {run : Doc → Marking α} (next : ∀ d, Runs g mark (text d) (run d)) :
      Runs g mark (fun p => p.margin level >>= fun d => text d p)
        (MonadExcept.ofExcept (g.margin level) >>= run)
  | expression {mark : Bool} {α : Type} (level : Int) (precedence : Precedence) (v : Value)
      {text : Phrase → Printer → Except Fault α} {run : Phrase → Marking α}
      (next : ∀ phrase, Runs g mark (text phrase) (run phrase)) :
      Runs g mark
        (fun p => p.expression { level, noIn := mark } precedence v >>= fun phrase => text phrase p)
        (g.expression level precedence v >>= run)
  | statement {mark : Bool} {α : Type} (level : Int) (v : Value)
      {text : Doc → Printer → Except Fault α} {run : Doc → Marking α}
      (next : ∀ d, Runs g mark (text d) (run d)) :
      Runs g mark (fun p => p.statement level v >>= fun d => text d p) (g.statement level v >>= run)
  | head {mark : Bool} {α : Type} (level : Int) (v : Value) {inner : Marking Phrase}
      {text : Phrase → Printer → Except Fault α} {run : Phrase → Marking α}
      (head : Runs g true (fun p => loopHead p level v) inner)
      (next : ∀ phrase, Runs g mark (text phrase) (run phrase)) :
      Runs g mark (fun p => loopHead p level v >>= fun phrase => text phrase p)
        (marked true inner >>= run)

/-- The generator prints what the printer prints in the place that the mark tells, and leaves the mark
as it was. -/
structure Agrees (g : Generator) (p : Printer) : Prop where
  width : g.width = p.width
  margin : ∀ level, g.margin level = p.margin level
  expression : ∀ level precedence v mark, (g.expression level precedence v).outcome mark =
    (p.expression { level, noIn := mark } precedence v, mark)
  statement : ∀ level v mark, (g.statement level v).outcome mark = (p.statement level v, mark)

section Runs

variable {g : Generator} {mark : Bool} {α β : Type}

/-- A text whose parts are printed alike is printed alike, and the mark is left as it was. -/
theorem Runs.outcome_eq {p : Printer} (agrees : Agrees g p) {text : Printer → Except Fault α}
    {run : Marking α} (runs : Runs g mark text run) : run.outcome mark = (text p, mark) := by
  induction runs with
  | given x => exact outcome_ofExcept _ x
  | width next ih =>
    rw [agrees.width]
    exact ih p.width
  | margin level next ih =>
    refine outcome_bind ?_ ih
    rw [outcome_ofExcept, agrees.margin]
  | expression level precedence v next ih =>
    exact outcome_bind (agrees.expression level precedence v _) ih
  | statement level v next ih => exact outcome_bind (agrees.statement level v _) ih
  | head level v head next ihHead ih =>
    refine outcome_bind ?_ ih
    rw [outcome_marked, ihHead]

/-- One text after the other is run by one run after the other, since the first leaves the mark as
it found it. -/
theorem Runs.bind {text : Printer → Except Fault α} {run : Marking α} (first : Runs g mark text run)
    {text' : α → Printer → Except Fault β} {run' : α → Marking β}
    (next : ∀ a, Runs g mark (text' a) (run' a)) :
    Runs g mark (fun p => text p >>= fun a => text' a p) (run >>= run') := by
  -- The second text is put at the end of the first one, behind its last call.
  induction first with
  | given x =>
    cases x with
    | ok a => exact next a
    | error fault => exact .given (.error fault)
  | width _ ih => exact .width fun width => ih width next
  | margin level _ ih =>
    simp only [bind_assoc]
    exact .margin level fun d => ih d next
  | expression level precedence v _ ih =>
    simp only [bind_assoc]
    exact .expression level precedence v fun phrase => ih phrase next
  | statement level v _ ih =>
    simp only [bind_assoc]
    exact .statement level v fun d => ih d next
  | head level v head _ _ ih =>
    simp only [bind_assoc]
    exact .head level v head fun phrase => ih phrase next

end Runs

/-! ## Every construct can be run -/

/-- The text of a construct can be run from each of the marks, by the same calls. -/
def Runnable (g : Generator) (marks : Bool → Prop) {α : Type} (text : Bool → Printer → Except Fault α) :
    Prop :=
  ∃ run, ∀ mark, marks mark → Runs g mark (text mark) run

variable {g : Generator} {marks : Bool → Prop} {level : Int} {n v : Value}

namespace Runnable

variable {α β : Type}

theorem bind_ok (x : Except Fault α) : (x >>= fun a => .ok a) = x := by
  cases x <;> rfl

/-- What does not ask the printer for anything is run as it is. -/
theorem given (x : Except Fault α) : Runnable g marks fun _ _ => x :=
  ⟨_, fun _ _ => .given x⟩

/-- A text that looks at the width of a level is run for each width. -/
theorem sized {text : Bool → Printer → Except Fault α}
    (each : ∀ width, Runnable g marks fun mark p => text mark { p with width := width }) :
    Runnable g marks text := by
  obtain ⟨run, runs⟩ := Classical.skolem.mp each
  exact ⟨_, fun mark holds => .width fun width => runs width mark holds⟩

/-- Runs of two texts, one after the other. -/
theorem bind {text : Bool → Printer → Except Fault α} {text' : α → Bool → Printer → Except Fault β}
    (first : Runnable g marks text) (next : ∀ a, Runnable g marks (text' a)) :
    Runnable g marks fun mark p => text mark p >>= fun a => text' a mark p := by
  obtain ⟨run, runs⟩ := first
  obtain ⟨run', runs'⟩ := Classical.skolem.mp next
  exact ⟨_, fun mark holds => (runs mark holds).bind fun a => runs' a mark holds⟩

/-- A step that prints nothing. -/
theorem after {x : Except Fault α} {text : α → Bool → Printer → Except Fault β}
    (next : ∀ a, Runnable g marks (text a)) :
    Runnable g marks fun mark p => x >>= fun a => text a mark p :=
  (given x).bind next

/-- A text may be exchanged for one that is equal under the marks in question. -/
theorem congr {text text' : Bool → Printer → Except Fault α} (runnable : Runnable g marks text)
    (same : ∀ mark, marks mark → text mark = text' mark) : Runnable g marks text' := by
  obtain ⟨run, runs⟩ := runnable
  exact ⟨run, fun mark holds => same mark holds ▸ runs mark holds⟩

theorem ite {condition : Prop} [Decidable condition] {yes no : Bool → Printer → Except Fault α}
    (first : Runnable g marks yes) (second : Runnable g marks no) :
    Runnable g marks fun mark p => if condition then yes mark p else no mark p := by
  by_cases holds : condition
  · simpa only [if_pos holds] using first
  · simpa only [if_neg holds] using second

/-- Texts of a list are run from left to right, by induction on the list. -/
theorem mapM {items : List α} {text : Bool → Printer → α → Except Fault β}
    (each : ∀ item, Runnable g marks fun mark p => text mark p item) :
    Runnable g marks fun mark p => items.mapM (text mark p) := by
  induction items with
  | nil => exact given (.ok [])
  | cons item rest ih =>
    simp only [List.mapM_cons]
    exact (each item).bind fun b => ih.bind fun results => given (.ok (b :: results))

/-- An expression in the place of its node: the mark that says so is the one that is set already. -/
theorem expression (level : Int) (precedence : Precedence) (v : Value) :
    Runnable g marks fun mark p => p.expression { level, noIn := mark } precedence v := by
  refine ⟨g.expression level precedence v >>= fun phrase => MonadExcept.ofExcept (.ok phrase), ?_⟩
  intro mark _
  have runs := @Runs.expression g mark _ level precedence v _ _ fun phrase => .given (.ok phrase)
  simpa only [bind_ok] using runs

/-- A statement clears the mark for itself, so the place of the node that asks for it does not
matter. -/
theorem statement (level : Int) (v : Value) : Runnable g marks fun _ p => p.statement level v := by
  refine ⟨g.statement level v >>= fun d => MonadExcept.ofExcept (.ok d), fun mark _ => ?_⟩
  have runs := @Runs.statement g mark _ level v _ _ fun d => .given (.ok d)
  simpa only [bind_ok] using runs

theorem margin (level : Int) : Runnable g marks fun _ p => p.margin level := by
  refine ⟨MonadExcept.ofExcept (g.margin level) >>= fun d => MonadExcept.ofExcept (.ok d), ?_⟩
  intro mark _
  have runs := @Runs.margin g mark _ level _ _ fun d => .given (.ok d)
  simpa only [bind_ok] using runs

theorem shown (level : Int) (precedence : Precedence) (v : Value) :
    Runnable g marks fun mark p => p.shown { level, noIn := mark } precedence v :=
  (expression level precedence v).bind fun phrase => given (.ok phrase.shown)

theorem glued (level : Int) (precedence : Precedence) (v : Value) :
    Runnable g marks fun mark p => p.glued { level, noIn := mark } precedence v :=
  (expression level precedence v).bind fun phrase => given phrase.glue

/-- An argument or a parameter is in a loop head where its list is. -/
theorem commaList (level : Int) (v : Value) :
    Runnable g marks fun mark p => p.commaList { level, noIn := mark } v :=
  .after fun _ => (mapM fun item => expression level _ item).bind fun _ => given _

theorem line (level : Int) : Runnable g marks fun _ p => p.line level :=
  (margin level).bind fun _ => given (.ok _)

theorem statementLines (level : Int) (v : Value) :
    Runnable g marks fun _ p => p.statementLines level v := by
  refine .after fun items => bind (mapM fun item => ?_) fun _ => given (.ok _)
  exact (margin level).bind fun _ => (statement level item).bind fun _ => given (.ok _)

/-! ### Functions, classes and properties -/

theorem functionTail (level : Int) (n : Value) :
    Runnable g marks fun mark p => functionTail p { level, noIn := mark } n :=
  .after fun params => (commaList level params).bind fun _ => .after fun body =>
    (statement level body).bind fun _ => given (.ok _)

theorem functionText (level : Int) (n : Value) :
    Runnable g marks fun mark p => functionText p { level, noIn := mark } n := by
  refine .after fun name => .after fun keyword => ?_
  cases name with
  | none => exact (functionTail level n).bind fun _ => given (.ok _)
  | some name => exact .after fun _ => (functionTail level n).bind fun _ => given (.ok _)

theorem propertyKey (level : Int) (n : Value) :
    Runnable g marks fun mark p => propertyKey p { level, noIn := mark } n := by
  refine .after fun _ => .ite ?_ ?_
  · exact .after fun key => (shown level _ key).bind fun _ => given (.ok _)
  · exact .after fun key => expression level _ key

/-- A property hands the place of its object to its key and to its value. -/
theorem property (level : Int) (n : Value) :
    Runnable g marks fun mark p => property p { level, noIn := mark } n := by
  refine .after fun _ => .ite (expression level _ n) ?_
  refine (propertyKey level n).bind fun key => .after fun kind => ?_
  cases kind with
  | some kind => exact .after fun value => (functionTail level value).bind fun _ => given (.ok _)
  | none =>
    refine .after fun _ => .ite ?_ (.after fun _ => .ite ?_ ?_)
    · exact .after fun _ => .after fun _ => .after fun _ => .after fun value =>
        (functionTail level value).bind fun _ => given (.ok _)
    · exact .after fun value => expression level _ value
    · exact .after fun value => (shown level _ value).bind fun _ => given (.ok _)

theorem method (level : Int) (n : Value) :
    Runnable g marks fun mark p => method p { level, noIn := mark } n := by
  refine .after fun static => (propertyKey level n).bind fun key => .after fun kind => ?_
  have tailed : ∀ marks' : Doc, Runnable g marks fun mark p => do
      let key ← key.glue
      let tail ← Print.functionTail p { level, noIn := mark } (← n.field "value")
      return Doc.text (if static then "static " else "") ++ marks' ++ key ++ tail :=
    fun _ => .after fun _ => .after fun value => (functionTail level value).bind fun _ => given (.ok _)
  cases kind with
  | some kind => exact tailed _
  | none => exact .after fun value => .after tailed

theorem classText (level : Int) (n : Value) :
    Runnable g marks fun mark p => classText p { level, noIn := mark } n := by
  have parent : Runnable g marks fun mark p => classParent p { level, noIn := mark } n := by
    refine .after fun parent => ?_
    cases parent with
    | none => exact given (.ok [])
    | some parent => exact (glued level _ parent).bind fun _ => given (.ok _)
  have body : Runnable g marks fun mark p => classBody p { level, noIn := mark } n := by
    refine .after fun _ => .after fun methods => .ite (given (.ok _)) (.after fun items => ?_)
    refine bind (mapM fun m => ?_) fun _ => (line level).bind fun _ => given (.ok _)
    exact (margin (level + 1)).bind fun _ => (method (level + 1) m).bind fun _ => given (.ok _)
  exact .after fun _ => parent.bind fun _ => body.bind fun _ => given (.ok _)

/-! ### Expressions -/

theorem arrayText (level : Int) (n : Value) :
    Runnable g marks fun mark p => arrayText p { level, noIn := mark } n := by
  refine .after fun _ => .after fun elements => ?_
  refine bind (mapM fun element => .ite (given (.ok _)) ?_) fun _ => .after fun _ => given (.ok _)
  exact expression level _ element

theorem objectText (level : Int) (n : Value) :
    Runnable g marks fun mark p => objectText p { level, noIn := mark } n := by
  refine .after fun properties => .ite (given (.ok _)) ?_
  refine (line (level + 1)).bind fun _ => .after fun items => ?_
  refine bind (mapM fun item => property (level + 1) item) fun _ => .after fun _ => ?_
  exact (line level).bind fun _ => given (.ok _)

theorem objectPatternText (level : Int) (n : Value) :
    Runnable g marks fun mark p => objectPatternText p { level, noIn := mark } n :=
  .after fun _ => .after fun _ => bind (mapM fun item => property level item) fun _ =>
    .after fun _ => given (.ok _)

theorem arrowText (level : Int) (n : Value) :
    Runnable g marks fun mark p => arrowText p { level, noIn := mark } n := by
  refine .after fun _ => .after fun params => (commaList level params).bind fun _ => ?_
  refine .after fun body => .after fun _ => .ite ?_ ?_
  · exact (statement level body).bind fun _ => given (.ok _)
  · refine (expression level _ body).bind fun _ => .after fun _ => .sized fun width => ?_
    dsimp +instances only
    exact given _

theorem templateParts (level : Int) (expressions : Value) (index : Nat) (chunks : List Value) :
    Runnable g marks fun mark p =>
      templateParts p { level, noIn := mark } expressions index chunks := by
  induction chunks generalizing index with
  | nil => exact given (.ok [])
  | cons chunk rest ih =>
    refine .after fun _ => .after fun raw => .after fun found => ?_
    cases found with
    | none => exact (ih (index + 1)).bind fun _ => given (.ok _)
    | some inner => exact (glued level _ inner).bind fun _ => (ih (index + 1)).bind fun _ => given (.ok _)

theorem templateText (level : Int) (n : Value) :
    Runnable g marks fun mark p => templateText p { level, noIn := mark } n :=
  .after fun expressions => .after fun _ => .after fun chunks =>
    (templateParts level expressions 0 chunks).bind fun _ => .after fun _ => given (.ok _)

theorem taggedTemplateText (level : Int) (n : Value) :
    Runnable g marks fun mark p => taggedTemplateText p { level, noIn := mark } n :=
  .after fun tag => (expression level _ tag).bind fun _ => .after fun quasi =>
    (templateText level quasi).bind fun _ => .after fun _ => given (.ok _)

theorem unaryText (level : Int) (n : Value) :
    Runnable g marks fun mark p => unaryText p { level, noIn := mark } n :=
  .after fun _ => .after fun argument => (expression level _ argument).bind fun _ => by
    refine .sized fun width => ?_
    dsimp +instances only
    exact given _

theorem updateText (level : Int) (n : Value) :
    Runnable g marks fun mark p => updateText p { level, noIn := mark } n := by
  refine .after fun _ => .ite ?_ ?_
  · exact .after fun _ => .after fun argument => (expression level _ argument).bind fun _ => given _
  · exact .after fun argument => (expression level _ argument).bind fun _ => given _

theorem binaryText (level : Int) (n : Value) :
    Runnable g marks fun mark p => binaryText p { level, noIn := mark } n :=
  .after fun _ => .after fun _ => .after fun left => (shown level _ left).bind fun _ =>
    .after fun right => (shown level _ right).bind fun _ => given (.ok _)

theorem assignmentText (level : Int) (n : Value) :
    Runnable g marks fun mark p => assignmentText p { level, noIn := mark } n :=
  .after fun left => (shown level _ left).bind fun _ =>
    .after fun right => (shown level _ right).bind fun _ => given _

theorem assignmentPatternText (level : Int) (n : Value) :
    Runnable g marks fun mark p => assignmentPatternText p { level, noIn := mark } n :=
  .after fun left => (shown level _ left).bind fun _ =>
    .after fun right => (shown level _ right).bind fun _ => given (.ok _)

theorem conditionalText (level : Int) (n : Value) :
    Runnable g marks fun mark p => conditionalText p { level, noIn := mark } n :=
  .after fun test => (shown level _ test).bind fun _ => .after fun yes =>
    (shown level _ yes).bind fun _ => .after fun no => (shown level _ no).bind fun _ => given (.ok _)

theorem argumentsText (level : Int) (n : Value) :
    Runnable g marks fun mark p => argumentsText p { level, noIn := mark } n :=
  .after fun list => (commaList level list).bind fun _ => given (.ok _)

theorem callText (level : Int) (n : Value) :
    Runnable g marks fun mark p => callText p { level, noIn := mark } n :=
  .after fun callee => (expression level _ callee).bind fun _ =>
    (argumentsText level n).bind fun _ => given _

theorem newText (level : Int) (n : Value) :
    Runnable g marks fun mark p => newText p { level, noIn := mark } n := by
  refine .after fun callee => (expression level _ callee).bind fun _ => .after fun _ => .ite ?_ ?_
  · refine .after fun _ => (argumentsText level n).bind fun _ => .sized fun width => ?_
    dsimp +instances only
    exact given (.ok _)
  · exact .after fun _ => (argumentsText level n).bind fun _ => given (.ok _)

theorem memberText (level : Int) (n : Value) :
    Runnable g marks fun mark p => memberText p { level, noIn := mark } n := by
  refine .after fun object => (expression level _ object).bind fun phrase => ?_
  have named : ∀ bare : Bool, Runnable g marks fun mark p => do
      let object := if bare then phrase.shown.parenthesized else phrase.shown
      if (← n.field "computed").truthy then
        let key ← p.shown { level, noIn := mark } Precedence.sequence (← n.field "property")
        return object ++ Doc.text "[" ++ key ++ Doc.text "]"
      else
        let name ← (← n.field "property").field "name"
        return object ++ Doc.text "." ++ shownValue name := by
    refine fun bare => .after fun _ => .ite ?_ (given _)
    exact .after fun key => (shown level _ key).bind fun _ => given (.ok _)
  refine .sized fun width => ?_
  dsimp +instances only
  exact .after fun _ => .ite (.after fun _ => named _) (named _)

theorem yieldText (level : Int) (n : Value) :
    Runnable g marks fun mark p => yieldText p { level, noIn := mark } n := by
  refine .after fun _ => .after fun argument => ?_
  cases argument with
  | none => exact given (.ok _)
  | some argument => exact (shown level _ argument).bind fun _ => given (.ok _)

/-- The text of every kind of expression, by the cases of its tag. None of them sets the mark. -/
theorem expressionText (level : Int) (n : Value) :
    Runnable g marks fun mark p => expressionText p { level, noIn := mark } n := by
  have docs : ∀ {text : Bool → Printer → Except Fault Doc} (own : Precedence), Runnable g marks text →
      Runnable g marks fun mark p => do return (Phrase.doc (← text mark p), own) :=
    fun own runnable => runnable.bind fun _ => given (.ok _)
  have argued : ∀ (mark' : String) (own precedence : Precedence), Runnable g marks fun mark p => do
      let argument ← p.glued { level, noIn := mark } precedence (← n.field "argument")
      return (Phrase.doc (Doc.text mark' ++ argument), own) :=
    fun _ _ _ => .after fun argument => (glued level _ argument).bind fun _ => given (.ok _)
  refine .after fun tag => ?_
  split
  · exact given _
  · exact given _
  · exact given _
  · exact given _
  · exact docs _ (arrayText level n)
  · exact docs _ (arrayText level n)
  · exact docs _ (objectText level n)
  · exact docs _ (objectPatternText level n)
  · exact docs _ (functionText level n)
  · exact docs _ (arrowText level n)
  · exact docs _ (classText level n)
  · exact docs _ (templateText level n)
  · exact docs _ (taggedTemplateText level n)
  · exact (unaryText level n).bind fun _ => given (.ok _)
  · exact updateText level n
  · exact (binaryText level n).bind fun _ => given (.ok _)
  · exact (binaryText level n).bind fun _ => given (.ok _)
  · exact docs _ (assignmentText level n)
  · exact docs _ (assignmentPatternText level n)
  · exact docs _ (conditionalText level n)
  · exact docs _ (callText level n)
  · exact docs _ (newText level n)
  · exact docs _ (memberText level n)
  · exact .after fun list => docs _ (commaList level list)
  · exact docs _ (yieldText level n)
  · exact argued _ _ _
  · exact argued _ _ _
  · exact argued _ _ _
  · exact given _
  · exact given _

/-! ### Heads of loops -/

theorem declarationText (level : Int) (n : Value) :
    Runnable g marks fun mark p => declarationText p { level, noIn := mark } n := by
  refine .after fun _ => .after fun items => bind (mapM fun item => ?_) fun _ => given _
  refine .after fun target => (expression level _ target).bind fun _ => .after fun init => ?_
  cases init with
  | none => exact given (.ok _)
  | some init => exact (shown level _ init).bind fun _ => given (.ok _)

/-- What stands in the head of a loop is run with the mark set. -/
theorem headParts (level : Int) (v : Value) :
    Runnable g (· = true) fun _ p => loopHead p level v := by
  -- The text says that it stands in a head; said with the mark instead, it is run like any other.
  have placed : Runnable g (· = true) fun mark p => (do
      if ← v.isTagged "VariableDeclaration" then
        return Phrase.doc (← Print.declarationText p { level, noIn := mark } v)
      else p.expression { level, noIn := mark } Precedence.sequence v) := by
    refine .after fun _ => .ite ?_ (expression level _ v)
    exact (declarationText level v).bind fun _ => given (.ok _)
  refine placed.congr ?_
  rintro _ rfl
  rfl

/-- The head of a loop sets the mark, whatever it was before. -/
theorem loopHead (level : Int) (v : Value) : Runnable g marks fun _ p => loopHead p level v := by
  obtain ⟨inner, runs⟩ := @headParts g level v
  refine ⟨marked true inner >>= fun phrase => MonadExcept.ofExcept (.ok phrase), fun mark _ => ?_⟩
  have runs := @Runs.head g mark _ level v _ _ _ (runs true rfl) fun phrase => .given (.ok phrase)
  simpa only [bind_ok] using runs

/-! ### Statements

A statement clears the mark, so its parts are placed outside of the heads of loops. -/

/-- Where the mark is clear already, an expression outside of loop heads can be run without clearing
it. -/
theorem plainShown (level : Int) (precedence : Precedence) (v : Value) :
    Runnable g (· = false) fun _ p => p.shown (.plain level) precedence v := by
  refine (shown level precedence v).congr ?_
  rintro _ rfl
  rfl

theorem plainGlued (level : Int) (precedence : Precedence) (v : Value) :
    Runnable g (· = false) fun _ p => p.glued (.plain level) precedence v := by
  refine (glued level precedence v).congr ?_
  rintro _ rfl
  rfl

/-- A body is a statement, so it is run from every mark. -/
theorem bodyText (level : Int) (v : Value) : Runnable g marks fun _ p => bodyText p level v := by
  refine .after fun _ => .ite ?_ (.ite (given (.ok _)) ?_)
  · exact (statement level v).bind fun _ => given (.ok _)
  · exact (line _).bind fun _ => (statement _ v).bind fun _ => given (.ok _)

theorem blockText (level : Int) (n : Value) : Runnable g marks fun _ p => blockText p level n :=
  .after fun body => .ite (given (.ok _)) <|
    (statementLines _ body).bind fun _ => (line level).bind fun _ => given (.ok _)

theorem consequentText (level : Int) (v : Value) :
    Runnable g marks fun _ p => consequentText p level v := by
  have braced : Runnable g marks fun _ p => bracedText p level v :=
    (line _).bind fun _ => (statement _ v).bind fun _ => (line level).bind fun _ => given (.ok _)
  refine .after fun _ => .ite (.after fun _ => ?_) (.after fun _ => ?_)
  · exact .ite braced (bodyText level v)
  · exact .ite braced (bodyText level v)

theorem elseKeyword (level : Int) (isBlock : Bool) (text : Doc) :
    Runnable g marks fun _ p => elseKeyword p level isBlock text := by
  refine .sized fun width => ?_
  dsimp +instances only [Print.elseKeyword]
  exact .ite (given (.ok _)) ((line level).bind fun _ => given (.ok _))

theorem alternateText (level : Int) (v : Value) :
    Runnable g marks fun _ p => alternateText p level v :=
  .after fun _ => .ite ((statement level v).bind fun _ => given (.ok _)) (bodyText level v)

theorem ifText (level : Int) (n : Value) : Runnable g (· = false) fun _ p => ifText p level n := by
  refine .after fun test => (plainShown level _ test).bind fun _ => ?_
  refine .after fun consequent => .after fun alternate => ?_
  cases alternate with
  | none => exact (bodyText level consequent).bind fun _ => given (.ok _)
  | some alternate =>
    exact .after fun isBlock => (consequentText level consequent).bind fun _ =>
      (elseKeyword level isBlock _).bind fun _ => (alternateText level alternate).bind fun _ =>
        given (.ok _)

theorem guardedText (level : Int) (keyword name : String) (n : Value) :
    Runnable g (· = false) fun _ p => guardedText p level keyword name n :=
  .after fun test => (plainShown level _ test).bind fun _ =>
    .after fun body => (bodyText level body).bind fun _ => given (.ok _)

theorem switchText (level : Int) (n : Value) :
    Runnable g (· = false) fun _ p => switchText p level n := by
  refine .after fun value => (plainShown level _ value).bind fun _ => .after fun _ => .after fun cases => ?_
  refine bind (mapM fun case => ?_) fun _ => (line level).bind fun _ => given (.ok _)
  exact (line _).bind fun _ => (statement _ case).bind fun _ => given (.ok _)

theorem caseText (level : Int) (n : Value) : Runnable g (· = false) fun _ p => caseText p level n := by
  have rest : ∀ head : Doc, Runnable g (· = false) fun _ p => do
      let consequent ← n.field "consequent"
      if consequent.truthy then
        return head ++ [.newline] ++ (← p.statementLines (level + 1) consequent)
      else return head :=
    fun _ => .after fun consequent =>
      .ite ((statementLines _ consequent).bind fun _ => given (.ok _)) (given (.ok _))
  refine .after fun test => ?_
  cases test with
  | none => exact rest _
  | some test => exact (plainShown level _ test).bind fun _ => rest _

theorem returnText (level : Int) (n : Value) :
    Runnable g (· = false) fun _ p => returnText p level n := by
  refine .after fun argument => ?_
  cases argument with
  | none => exact given (.ok _)
  | some argument => exact (plainShown level _ argument).bind fun _ => given (.ok _)

theorem clauseText (level : Int) (keyword : String) (clause : Option Value) :
    Runnable g marks fun _ p => clauseText p level keyword clause := by
  cases clause with
  | none => exact given (.ok _)
  | some v => exact (statement level v).bind fun _ => given (.ok _)

theorem tryText (level : Int) (n : Value) : Runnable g marks fun _ p => tryText p level n :=
  .after fun block => (statement level block).bind fun _ => .after fun handler =>
    (clauseText level _ handler).bind fun _ => .after fun finalizer =>
      (clauseText level _ finalizer).bind fun _ => given (.ok _)

theorem catchText (level : Int) (n : Value) :
    Runnable g (· = false) fun _ p => catchText p level n := by
  refine .after fun param => ?_
  cases param with
  | none => exact .after fun body => (statement level body).bind fun _ => given (.ok _)
  | some param =>
    exact (plainShown level _ param).bind fun _ =>
      .after fun body => (statement level body).bind fun _ => given (.ok _)

theorem doWhileText (level : Int) (n : Value) :
    Runnable g (· = false) fun _ p => doWhileText p level n := by
  refine .after fun bodyNode => (bodyText level bodyNode).bind fun body => ?_
  have rest : ∀ gap : Doc, Runnable g (· = false) fun _ p => do
      let test ← p.shown (.plain level) Precedence.sequence (← n.field "test")
      return Doc.text "do" ++ body ++ gap ++ Doc.text "while (" ++ test ++ Doc.text ");" :=
    fun _ => .after fun test => (plainShown level _ test).bind fun _ => given (.ok _)
  exact .ite (rest _) ((line level).bind rest)

theorem headPart (level : Int) (part : Option Value) :
    Runnable g (· = false) fun _ p => headPart p level part := by
  cases part with
  | none => exact given (.ok _)
  | some v => exact (plainGlued level _ v).bind fun _ => given (.ok _)

theorem initText (level : Int) (init : Option Value) :
    Runnable g marks fun _ p => initText p level init := by
  cases init with
  | none => exact given (.ok _)
  | some v => exact (loopHead level v).bind fun _ => given _

/-- Only the initializer of the head is marked; the test and the update are not. -/
theorem forText (level : Int) (n : Value) : Runnable g (· = false) fun _ p => forText p level n :=
  .after fun init => .after fun test => .after fun update => (initText level init).bind fun _ =>
    (headPart level test).bind fun _ => (headPart level update).bind fun _ =>
      .after fun body => (bodyText level body).bind fun _ => given (.ok _)

theorem forEachText (level : Int) (keyword : String) (n : Value) :
    Runnable g (· = false) fun _ p => forEachText p level keyword n :=
  .after fun left => (loopHead level left).bind fun _ => .after fun right =>
    (plainShown level _ right).bind fun _ => .after fun body => (bodyText level body).bind fun _ =>
      given (.ok _)

theorem labeledText (level : Int) (n : Value) : Runnable g marks fun _ p => labeledText p level n :=
  .after fun _ => .after fun _ => .after fun body => (statement level body).bind fun _ => given (.ok _)

/-- The text of every kind of statement, by the cases of its tag. It is run where the mark is clear,
which is how every statement begins. -/
theorem statementText (level : Int) (n : Value) :
    Runnable g (· = false) fun _ p => statementText p level n := by
  refine .after fun tag => ?_
  split
  · exact .after fun body => statementLines level body
  · exact blockText level n
  · exact given _
  · refine .after fun expression => (plainGlued level _ expression).bind fun _ => .sized fun width => ?_
    dsimp +instances only
    exact given (.ok _)
  · exact ifText level n
  · exact labeledText level n
  · exact given _
  · exact given _
  · exact guardedText level _ _ n
  · exact switchText level n
  · exact caseText level n
  · exact returnText level n
  · exact .after fun argument => (plainShown level _ argument).bind fun _ => given (.ok _)
  · exact tryText level n
  · exact catchText level n
  · exact guardedText level _ _ n
  · exact doWhileText level n
  · exact forText level n
  · exact forEachText level _ n
  · exact forEachText level _ n
  · exact given _
  · have declaration : Runnable g (· = false) fun _ p => Print.declarationText p (.plain level) n :=
      (declarationText level n).congr (by rintro _ rfl; rfl)
    exact declaration.bind fun _ => given (.ok _)
  · exact (functionText level n).congr (by rintro _ rfl; rfl)
  · exact (classText level n).congr (by rintro _ rfl; rfl)
  · exact given _

end Runnable

/-! ## Generators -/

/-- A text with its precedence in its place: in parentheses when it is too loose for it, or when it is
an `in` and the mark is set. -/
def placed (precedence : Precedence) (v : Value) (answer : Phrase × Precedence) : Marking Phrase := do
  let inHead ← get
  if answer.2 < precedence || (inHead && isInOperation v) then
    return .doc answer.1.shown.parenthesized
  else return answer.1

/-- A generator for trees one level deeper: it runs the text of an expression and looks at the mark
then, and it runs the text of a statement with the mark cleared. -/
structure Above (below g : Generator) : Prop where
  width : g.width = below.width
  margin : ∀ level, g.margin level = below.margin level
  expression : ∀ level precedence v, ∃ run,
    (∀ mark, Runs below mark (fun p => expressionText p { level, noIn := mark } v) run) ∧
      g.expression level precedence v = run >>= placed precedence v
  statement : ∀ level v, ∃ run, Runs below false (fun p => statementText p level v) run ∧
    g.statement level v = marked false run

/-- The generators for trees up to a depth. -/
inductive Generates (ruler : Ruler) : Nat → Generator → Prop
  | bottom : Generates ruler 0
      { width := ruler.width
        margin := (Printer.ofDepth ruler 0).margin
        expression := fun _ _ _ => throw .tooDeep
        statement := fun _ _ => throw .tooDeep }
  | above {depth : Nat} {below g : Generator} :
      Generates ruler depth below → Above below g → Generates ruler (depth + 1) g

/-- Parentheses are put around an answer that the context would take apart, or that contains an `in`
where the mark is set. -/
theorem outcome_placed (precedence : Precedence) (v : Value) (answer : Phrase × Precedence)
    (mark : Bool) : (placed precedence v answer).outcome mark =
      (if answer.2 < precedence || (mark && isInOperation v) then
        .ok (.doc answer.1.shown.parenthesized) else .ok answer.1, mark) := by
  have opened : (placed precedence v answer).outcome mark =
      (if answer.2 < precedence || (mark && isInOperation v) then
        pure (.doc answer.1.shown.parenthesized) else pure answer.1 : Marking Phrase).outcome mark := rfl
  rw [opened]
  split <;> rfl

/-- The generator one level up prints what the printer one level up prints. -/
theorem Above.agrees {below g : Generator} {p : Printer} (above : Above below g)
    (agrees : Agrees below p) : Agrees g p.above where
  width := above.width.trans agrees.width
  margin level := (above.margin level).trans (agrees.margin level)
  expression level precedence v mark := by
    obtain ⟨run, runs, same⟩ := above.expression level precedence v
    rw [same]
    exact outcome_bind ((runs mark).outcome_eq agrees) fun answer => outcome_placed precedence v answer mark
  statement level v mark := by
    obtain ⟨run, runs, same⟩ := above.statement level v
    rw [same, outcome_marked, runs.outcome_eq agrees]
    rfl

/-- Whatever happens on the way, the mark is left as it was, and it tells each part its place. -/
theorem Generates.agrees {ruler : Ruler} {depth : Nat} {g : Generator}
    (generates : Generates ruler depth g) : Agrees g (Printer.ofDepth ruler depth) := by
  induction generates with
  | bottom => exact ⟨rfl, fun _ => rfl, fun _ _ _ _ => rfl, fun _ _ _ => rfl⟩
  | above _ above ih => exact above.agrees ih

/-- There is a generator one level up. -/
theorem exists_above (below : Generator) : ∃ g, Above below g := by
  have expressions : ∀ part : Int × Value, ∃ run, ∀ mark,
      Runs below mark (fun p => expressionText p { level := part.1, noIn := mark } part.2) run := by
    intro part
    obtain ⟨run, runs⟩ : Runnable below (fun _ => True) _ := .expressionText part.1 part.2
    exact ⟨run, fun mark => runs mark trivial⟩
  have statements : ∀ part : Int × Value, ∃ run,
      Runs below false (fun p => statementText p part.1 part.2) run := by
    intro part
    obtain ⟨run, runs⟩ := Runnable.statementText part.1 part.2
    exact ⟨run, runs false rfl⟩
  obtain ⟨expression, runsExpression⟩ := Classical.skolem.mp expressions
  obtain ⟨statement, runsStatement⟩ := Classical.skolem.mp statements
  exact ⟨{ width := below.width
           margin := below.margin
           expression := fun level precedence v => expression (level, v) >>= placed precedence v
           statement := fun level v => marked false (statement (level, v)) },
    rfl, fun _ => rfl, fun level _ v => ⟨_, runsExpression (level, v), rfl⟩,
    fun level v => ⟨_, runsStatement (level, v), rfl⟩⟩

/-- Such a generator exists for every depth: the next one runs the texts of all constructs with the
one before. -/
theorem exists_generates (ruler : Ruler) (depth : Nat) : ∃ g, Generates ruler depth g := by
  induction depth with
  | zero => exact ⟨_, .bottom⟩
  | succ depth ih =>
    obtain ⟨below, generates⟩ := ih
    obtain ⟨g, above⟩ := exists_above below
    exact ⟨g, .above generates above⟩

end Untangle.Print
