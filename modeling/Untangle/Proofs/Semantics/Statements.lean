import Untangle.Proofs.Reshape.Made
import Untangle.Proofs.Semantics.Heads

/-!
# Reshaping keeps what statements do

A reshaped statement does what the statement did, however it is split up: the same completion, the
same store and the same calls, with the same fuel. Two things are said of every statement. Run one
after the other, the nodes that take its place do what it did. And if it is a loop, perhaps under
labels, then so is the last of these nodes, and under any labels the whole does what the loop did
under them; that is what a label on the loop needs.

* `settledIf_does`, `settledLabel_does` and `settledLabel_relocates` are the rules for branches and
  labels.
* `Stmt.IsKept` says that a statement is kept; the lemmas under its name take the parts of a statement
  to be kept and say so of the statement.
* `reshaped_keeps` is the statement about every statement.
-/

namespace Untangle.Semantics

open Reshape Syntax Behaviour

variable {off : List String}

/-- What stands for a statement is a node of the syntax of statements. -/
theorem Stmt.Reads.tagged {s : Stmt} {v : Value} (reads : s.Reads v) :
    ∃ tag fields, v = .tagged tag fields ∧ tag ∈ statementTags := by
  cases s with
  | empty =>
    obtain ⟨fields, rfl⟩ := reads
    exact ⟨_, fields, rfl, by decide⟩
  | leave =>
    obtain ⟨fields, rfl, -⟩ := reads
    exact ⟨_, fields, rfl, by decide⟩
  | expression | block | give | declare =>
    obtain ⟨fields, _, rfl, -⟩ := reads
    exact ⟨_, fields, rfl, by decide⟩
  | when | «repeat» | label =>
    obtain ⟨fields, _, _, rfl, -⟩ := reads
    exact ⟨_, fields, rfl, by decide⟩
  | choose =>
    obtain ⟨fields, _, _, _, rfl, -⟩ := reads
    exact ⟨_, fields, rfl, by decide⟩
  | loop =>
    obtain ⟨fields, _, _, _, _, rfl, -⟩ := reads
    exact ⟨_, fields, rfl, by decide⟩
  | «break» label | «continue» label =>
    cases label with
    | none =>
      obtain ⟨fields, rfl, -⟩ := reads
      exact ⟨_, fields, rfl, by decide⟩
    | some label =>
      obtain ⟨fields, _, rfl, -⟩ := reads
      exact ⟨_, fields, rfl, by decide⟩

/-- A tree that stands for a statement is one. -/
theorem Stmt.Reads.fits_statement {s : Stmt} {v : Value} {slot : Slot} (reads : s.Reads v)
    (fit : fits slot v = true) : fits statement v = true := by
  obtain ⟨tag, fields, rfl, admitted⟩ := reads.tagged
  exact fits_node.mpr ⟨admitted, (fits_node.mp fit).2⟩

/-! ## Branches -/

section Branch

variable {fields : Fields}

theorem lacks_optional {tag : Value} {name : String} (lacks : Lacks fields name) :
    (Value.node tag fields).optional name = .ok none := by
  rcases lacks with missing | isNull
  · exact Value.optional_of_none missing
  · exact Value.optional_of_null isNull

/-- What a branch without an else becomes. -/
theorem settledIf_when {test : Expr} {yes : Stmt} (formed : Formed "IfStatement" fields)
    (reads : (Stmt.when test yes).Reads (.tagged "IfStatement" fields)) :
    Does (settledIf off (.tagged "IfStatement" fields) fields) fun w fuel =>
      (Stmt.when test yes).exec w fuel [] := by
  obtain ⟨_, t, y, same, testIs, testReads, yesIs, yesReads, lacks⟩ := reads
  cases same
  have testFits := fits_lookup_expression formed rfl testIs
  obtain ⟨es, last, hoists⟩ := commaSplit_hoists testReads testFits
  have kept : DoesOne ((Value.tagged "IfStatement" fields).withField "test" (commaSplit t).2)
      fun w fuel => (Stmt.when last yes).exec w fuel [] := by
    refine ⟨.when last yes, ⟨_, _, y, rfl, Fields.lookup_set_self .., hoists.reads, ?_, yesReads, ?_⟩,
      fun w fuel => rfl⟩
    · rw [Fields.lookup_set_of_ne _ _ (by decide), yesIs]
    · simpa [Lacks, Fields.lookup_set_of_ne _ _ (show "alternate" ≠ "test" by decide)] using lacks
  simp only [settledIf, testIs, @braced_without "IfStatement" _ _ (lacks_optional lacks)]
  refine ((unpackedAll_does off hoists.each (commaSplit_fits testFits).1).append
    kept.single).congr fun w fuel => ?_
  simp only [Stmt.exec, hoists.same]

/-- What a branch with an else becomes. -/
theorem settledIf_choose {test : Expr} {yes no : Stmt} (formed : Formed "IfStatement" fields)
    (reads : (Stmt.choose test yes no).Reads (.tagged "IfStatement" fields)) :
    Does (settledIf off (.tagged "IfStatement" fields) fields) fun w fuel =>
      (Stmt.choose test yes no).exec w fuel [] := by
  obtain ⟨_, t, y, n, same, testIs, testReads, yesIs, yesReads, noIs, noReads⟩ := reads
  cases same
  have testFits := fits_lookup_expression formed rfl testIs
  have yesFits : fits statement y = true := formed.fits_lookup yesIs
  obtain ⟨es, last, hoists⟩ := commaSplit_hoists testReads testFits
  obtain ⟨b, ends⟩ := endsWithoutElse_ok y yesFits
  have noFits : fits statement n = true := noReads.fits_statement (formed.fits_lookup noIs)
  have rebuilt : ∀ {y' : Value} {yes' : Stmt}, yes'.Reads y' →
      (∀ w fuel, yes'.exec w fuel [] = yes.exec w fuel []) →
      DoesOne (((Value.tagged "IfStatement" fields).withField "test" (commaSplit t).2).withField
        "consequent" y') fun w fuel => (Stmt.choose last yes no).exec w fuel [] := by
    intro y' yes' isRead equal
    refine ⟨.choose last yes' no, ⟨_, _, y', n, rfl, ?_, hoists.reads, Fields.lookup_set_self ..,
      isRead, ?_, noReads⟩, fun w fuel => by simp only [Stmt.exec, equal]⟩
    · rw [Fields.lookup_set_of_ne _ _ (by decide), Fields.lookup_set_self]
    · rw [Fields.lookup_set_of_ne _ _ (by decide), Fields.lookup_set_of_ne _ _ (by decide), noIs]
  have kept : DoesOne (braced ((Value.tagged "IfStatement" fields).withField "test" (commaSplit t).2)
      fields) fun w fuel => (Stmt.choose last yes no).exec w fuel [] := by
    rw [braced_with _ yesIs noIs noFits ends]
    split
    · obtain ⟨yes', isRead, equal⟩ := DoesOne.enclosed ⟨yes, yesReads, fun w fuel => rfl⟩
      exact rebuilt isRead equal
    · have found : (Fields.set "test" (commaSplit t).2 fields).lookup "consequent" = some y := by
        rw [Fields.lookup_set_of_ne _ _ (by decide), yesIs]
      have whole := rebuilt yesReads fun w fuel => rfl
      rwa [Value.withField, Value.withField_lookup found] at whole
  simp only [settledIf, testIs]
  refine ((unpackedAll_does off hoists.each (commaSplit_fits testFits).1).append
    kept.single).congr fun w fuel => ?_
  simp only [Stmt.exec, hoists.same]

end Branch

/-! ## Labels -/

/-- Ends normally or with something thrown. -/
def Smooth (c : Completion) : Prop :=
  c = .normal ∨ ∃ d, c = .throw d

/-- What stands in a declaration or an expression statement. -/
theorem Stmt.Reads.of_plain {s : Stmt} {n : Value} (reads : s.Reads n) (plain : Plain n) :
    (∃ e, s = .expression e) ∨ ∃ ds, s = .declare ds := by
  cases s with
  | expression e => exact Or.inl ⟨e, rfl⟩
  | declare ds => exact Or.inr ⟨ds, rfl⟩
  | «break» label | «continue» label =>
    cases label <;> rcases plain with ⟨_, rfl, -⟩ | ⟨_, rfl⟩ <;> simp [Stmt.Reads, readsJump] at reads
  | _ => rcases plain with ⟨_, rfl, -⟩ | ⟨_, rfl⟩ <;> simp [Stmt.Reads] at reads

/-- A statement that declares or evaluates something ends normally, or something is thrown. -/
theorem smooth_exec {s : Stmt} {n : Value} (reads : s.Reads n) (plain : Plain n) (w : World)
    (fuel : Nat) (labels : List String) : Ends Smooth (s.exec w fuel labels) := by
  have throw : ∀ d, Smooth (.throw d) := fun d => Or.inr ⟨d, rfl⟩
  rcases reads.of_plain plain with ⟨e, rfl⟩ | ⟨ds, rfl⟩
  · rw [Stmt.exec]
    exact .effect (Or.inl rfl) throw
  · rw [Stmt.exec]
    exact .declareAll (Or.inl rfl) throw ds

/-- So does a list of them. -/
theorem smooth_execAll {front : List Stmt} {nodes : List Value} (reads : readsBody front nodes)
    (plain : ∀ n ∈ nodes, Plain n) (w : World) (fuel : Nat) :
    Ends Smooth (execAll w fuel front) := by
  induction front generalizing nodes with
  | nil =>
    rw [execAll]
    exact .skip (Or.inl rfl)
  | cons s rest ih =>
    obtain ⟨n, more, rfl, first, others⟩ := reads
    rw [execAll]
    exact .seq (smooth_exec first (plain n (by simp)) w fuel [])
      (ih others fun m member => plain m (by simp [member]))

/-- A label can be moved past what cannot jump to it. -/
theorem leaving_seq {a b : Behaviour} (smooth : Ends Smooth a) (label : String) :
    leaving label (seq a b) = seq a (leaving label b) := by
  funext st
  simp only [leaving, seq]
  cases ended : a st with
  | none => rfl
  | some outcome =>
    obtain ⟨c, mid⟩ := outcome
    rcases smooth st c mid ended with rfl | ⟨d, rfl⟩ <;> rfl

/-- A loop in the language is one in the tree. -/
theorem looping_of_reads : ∀ {s : Stmt} {n : Value}, s.Reads n → s.isLoop = true → Looping n
  | .loop .., _, reads, _ => by
    obtain ⟨fields, _, _, _, _, rfl, -⟩ := reads
    exact .loop _ fields (by decide)
  | .repeat .., _, reads, _ => by
    obtain ⟨fields, _, _, rfl, -⟩ := reads
    exact .loop _ fields (by decide)
  | .label _ body, _, reads, isLoop => by
    obtain ⟨fields, _, inner, rfl, -, -, innerIs, inside⟩ := reads
    exact .label fields inner innerIs (looping_of_reads inside isLoop)

section Label

variable {fields : Fields} {label : String} {target body : Value} {s : Stmt}

theorem reads_label (targetIs : fields.lookup "label" = some target) (named : Named label target)
    {v : Value} (reads : s.Reads v) :
    (Stmt.label label s).Reads ((Value.tagged "LabeledStatement" fields).withField "body" v) := by
  refine ⟨_, target, v, rfl, ?_, named, Fields.lookup_set_self .., reads⟩
  rw [Fields.lookup_set_of_ne _ _ (by decide), targetIs]

/-- The label of a loop stays on the loop. -/
theorem settledLabel_relocates {nodes : List Value}
    (targetIs : fields.lookup "label" = some target) (named : Named label target)
    (bodyIs : fields.lookup "body" = some (one nodes)) (bodyFits : fits statement (one nodes) = true)
    (relocates : Relocates s nodes) (flat : s.headIsFlat = true) :
    Relocates (.label label s) (settledLabel (.tagged "LabeledStatement" fields) fields) := by
  obtain ⟨front, last, leading, n, frontReads, lastReads, loops, leave, same⟩ := relocates
  have isLoop := looping_of_reads lastReads loops
  have labelled := @reads_label fields label target last targetIs named n lastReads
  have leaves := leave flat
  cases leading with
  | nil =>
    have alone : one ([] ++ [n]) = n := rfl
    rw [alone] at bodyIs bodyFits
    rw [settledLabel_stays targetIs named bodyIs bodyFits fun _ _ => not_leaving_of_looping isLoop]
    refine .intro [] _ [] _ rfl labelled loops (by simp) fun w fuel labels => ?_
    obtain rfl : front = [] := by
      cases front with
      | nil => rfl
      | cons => simp [readsBody] at frontReads
    simp only [Stmt.exec, same]
    rfl
  | cons first rest =>
    have block : one (first :: rest ++ [n]) = Value.blockStatement (first :: rest ++ [n]) := by
      cases rest <;> rfl
    rw [block] at bodyIs bodyFits
    rw [settledLabel_moves targetIs named bodyIs bodyFits
      ⟨⟨_, rfl, rfl⟩, by simp, isLoop, fun m member => leaves m member label⟩]
    refine .intro front _ _ _ frontReads labelled loops (fun _ => leaves) fun w fuel labels => ?_
    simp only [Stmt.exec, same]
    exact leaving_seq (smooth_execAll frontReads (fun m member => (leaves m member label).plain) w fuel)
      label

/-- A body ends with its last statement. -/
theorem readsBody_split {body : List Stmt} {leading : List Value} {n : Value}
    (reads : readsBody body (leading ++ [n])) :
    ∃ front last, body = front ++ [last] ∧ readsBody front leading ∧ last.Reads n := by
  induction leading generalizing body with
  | nil =>
    cases body with
    | nil => simp [readsBody] at reads
    | cons s rest =>
      obtain ⟨_, _, isList, first, others⟩ := reads
      cases isList
      cases rest with
      | nil => exact ⟨[], s, rfl, rfl, first⟩
      | cons => simp [readsBody] at others
  | cons m more ih =>
    cases body with
    | nil => simp [readsBody] at reads
    | cons s rest =>
      obtain ⟨_, _, isList, first, others⟩ := reads
      cases isList
      obtain ⟨front, last, rfl, frontReads, lastReads⟩ := ih others
      exact ⟨s :: front, last, rfl, ⟨_, _, rfl, first, frontReads⟩, lastReads⟩

/-- Reading a tree backwards: only a block stands for a block. -/
theorem Stmt.Reads.of_block {t : Stmt} {inner : Fields} {items : List Value}
    (reads : t.Reads (.tagged "BlockStatement" inner))
    (itemsAre : inner.lookup "body" = some (.seq items)) :
    ∃ ss, t = .block ss ∧ readsBody ss items := by
  cases t with
  | block ss =>
    obtain ⟨_, _, same, otherAre, ssRead⟩ := reads
    cases same
    rw [itemsAre] at otherAre
    cases otherAre
    exact ⟨ss, rfl, ssRead⟩
  | «break» label | «continue» label => cases label <;> simp [Stmt.Reads, readsJump] at reads
  | _ => simp [Stmt.Reads, readsDeclaration] at reads

/-- A label that no continue asks for may stand on a loop inside the statement instead. -/
theorem settledLabel_does (targetIs : fields.lookup "label" = some target)
    (named : Named label target) (bodyIs : fields.lookup "body" = some body)
    (bodyFits : fits statement body = true)
    (does : DoesOne body fun w fuel => s.exec w fuel [])
    (free : ∀ w fuel st st', s.exec w fuel [] st ≠ some (.continue (some label), st')) :
    Does (settledLabel (.tagged "LabeledStatement" fields) fields) fun w fuel =>
      (Stmt.label label s).exec w fuel [] := by
  have unlabelled : ∀ w fuel, s.exec w fuel [label] = s.exec w fuel [] := fun w fuel =>
    funext fun st => exec_append_label w fuel label s [] st (free w fuel st)
  obtain ⟨t, reads, same⟩ : ∃ t : Stmt, t.Reads body ∧
    ∀ w fuel, t.exec w fuel [] = s.exec w fuel [] := does
  by_cases leaves : ∃ leading last, Leaving label body leading last
  · obtain ⟨leading, last, leaves⟩ := leaves
    rw [settledLabel_moves targetIs named bodyIs bodyFits leaves]
    obtain ⟨inner, rfl, itemsAre⟩ := leaves.block
    obtain ⟨ss, rfl, ssRead⟩ := reads.of_block itemsAre
    obtain ⟨front, final, rfl, frontReads, finalReads⟩ := readsBody_split ssRead
    refine ⟨front ++ [.label label final], readsBody_append frontReads
      ⟨_, [], rfl, reads_label targetIs named finalReads, rfl⟩, fun w fuel => ?_⟩
    have smooth := smooth_execAll frontReads (fun m member => (leaves.leave m member).plain) w fuel
    have whole : s.exec w fuel [] = seq (execAll w fuel front) (final.exec w fuel []) := by
      rw [← same, Stmt.exec, execAll_append, execAll_single]
    have parts : seq (execAll w fuel front) (final.exec w fuel [label]) = s.exec w fuel [] := by
      rw [whole]
      refine funext fun st => seq_congr fun mid normal => ?_
      exact exec_append_label w fuel label final [] mid (seq_free normal (whole ▸ free w fuel st))
    rw [execAll_append, execAll_single]
    simp only [Stmt.exec, unlabelled]
    rw [← leaving_seq smooth, parts]
  · have stays : ∀ leading last, ¬ Leaving label body leading last := fun leading last leaving =>
      leaves ⟨leading, last, leaving⟩
    rw [settledLabel_stays targetIs named bodyIs bodyFits stays]
    refine DoesOne.single ⟨.label label t, reads_label targetIs named reads, fun w fuel => ?_⟩
    have bodySame : t.exec w fuel [label] = s.exec w fuel [label] := by
      rw [unlabelled, ← same]
      exact funext fun st => exec_append_label w fuel label t [] st (same w fuel ▸ free w fuel st)
    simp only [Stmt.exec, bodySame]

end Label

/-! ## Parts of loops -/

/-- A loop depends on what its test and its update do, not on how they are written. -/
theorem iterate_congr {w : World} {labels : List String} {test test' update update' : Option Expr}
    {body : Behaviour} (testSame : evalTest w test' = evalTest w test)
    (updateSame : effect w update' = effect w update) (n : Nat) :
    iterate w labels test' update' body n = iterate w labels test update body n := by
  induction n with
  | zero => rfl
  | succ n ih => simp only [iterate, testSame, updateSame, ih]

/-- A part of a head that may be missing does the same after reshaping. -/
theorem readsOptional_reshaped {e : Option Expr} {slot : Slot} {v : Value} (reads : readsOptional e v)
    (fit : fits slot v = true) (calm : CalmUnless off (e.all Expr.isCalm)) :
    ∃ e', readsOptional e' (reshapedField off v) ∧ (∀ w, evalTest w e' = evalTest w e) ∧
      ∀ w, effect w e' = effect w e := by
  cases e with
  | none =>
    obtain rfl := reads
    exact ⟨none, rfl, fun _ => rfl, fun _ => rfl⟩
  | some e =>
    have isExpression := Expr.Reads.fits_expression reads fit
    obtain ⟨e', isRead, same, -⟩ := reshapedField_keeps e calm reads isExpression
    exact ⟨some e', isRead, fun w => by rw [evalTest, evalTest, same],
      fun w => by rw [effect, effect, same]⟩

theorem readsDeclaration_reshaped {ds : List (String × Option Expr)} {slot : Slot} {v : Value}
    (reads : readsDeclaration ds v) (fit : fits slot v = true)
    (calm : CalmUnless off (calmDeclarators ds)) :
    ∃ ds', readsDeclaration ds' (reshapedField off v) ∧ ∀ w, declareAll w ds' = declareAll w ds := by
  obtain ⟨fields, items, rfl, kindIs, itemsAre, each⟩ := reads
  have formed := (fits_node.mp fit).2
  obtain ⟨_, same, itemsFit⟩ := fits_many.mp (formed.fits_lookup itemsAre)
  cases same
  obtain ⟨ds', isRead, equal⟩ := readsDeclarators_reshaped each itemsFit calm
  exact ⟨ds', ⟨_, _, reshapedField_other off fields (by decide), lookup_reshaped kindIs,
    lookup_reshaped itemsAre, isRead⟩, equal⟩

/-- The start of a loop runs the same after reshaping. -/
theorem startReads_reshaped {start : Start} {slot : Slot} {v : Value} (reads : start.Reads v)
    (fit : fits slot v = true) (calm : CalmUnless off start.isCalm) :
    ∃ start' : Start, start'.Reads (reshapedField off v) ∧ (∀ w, start'.run w = start.run w) ∧
      (start.isFlat = true → start'.isFlat = true) := by
  cases start with
  | nothing =>
    obtain rfl := reads
    exact ⟨.nothing, rfl, fun _ => rfl, fun _ => rfl⟩
  | declare ds =>
    obtain ⟨ds', isRead, same⟩ := readsDeclaration_reshaped reads fit calm
    exact ⟨.declare ds', isRead, same, fun _ => rfl⟩
  | expression e =>
    have isExpression := Expr.Reads.fits_expression reads fit
    obtain ⟨e', isRead, same, flat, -⟩ := reshapedField_keeps e calm reads isExpression
    exact ⟨.expression e', isRead, fun w => by rw [Start.run, Start.run, effect, effect, same],
      flat.2⟩

/-! ## What takes the place of a statement -/

/-- What is said of the nodes that take the place of a statement. -/
def Stmt.Keeps (s : Stmt) (nodes : List Value) : Prop :=
  (Does nodes fun w fuel => s.exec w fuel []) ∧ (s.isLoop = true → Relocates s nodes)

theorem Stmt.Keeps.of_does {s : Stmt} {nodes : List Value}
    (does : Does nodes fun w fuel => s.exec w fuel []) (noLoop : s.isLoop = false) : s.Keeps nodes :=
  ⟨does, fun isLoop => absurd isLoop (by simp [noLoop])⟩

/-- A statement that moves out of its labels does the same without labels. -/
theorem Stmt.Keeps.of_relocates {s : Stmt} {nodes : List Value} (relocates : Relocates s nodes) :
    s.Keeps nodes :=
  ⟨relocates.does, fun _ => relocates⟩

/-- A statement without a rule of its own that is no loop. -/
theorem Stmt.Keeps.of_other {s t : Stmt} {tag : String} {fields : Fields}
    (other : tag ∉ settledTags) (reads : t.Reads (.tagged tag (reshapedFields off fields)))
    (same : ∀ w fuel, t.exec w fuel [] = s.exec w fuel []) (noLoop : s.isLoop = false) :
    s.Keeps (reshaped off (.tagged tag fields)) := by
  refine .of_does ?_ noLoop
  rw [reshaped_other off _ other]
  exact DoesOne.single ⟨t, reads, same⟩

/-- A jump stays as it is. -/
theorem jump_does {t : Stmt} {tag : String} {label : Option String} {slot : Slot} {v : Value}
    (other : tag ∉ settledTags) (reads : readsJump tag label v) (fit : fits slot v = true)
    (isJump : ∀ {n : Value}, readsJump tag label n → t.Reads n) :
    Does (reshaped off v) fun w fuel => t.exec w fuel [] := by
  cases label with
  | none =>
    obtain ⟨fields, rfl, lacks⟩ := reads
    rw [reshaped_other off _ other]
    exact DoesOne.single ⟨t, isJump ⟨_, rfl, lacks_reshaped lacks⟩, fun _ _ => rfl⟩
  | some label =>
    obtain ⟨fields, target, rfl, targetIs, named⟩ := reads
    rw [reshaped_other off _ other]
    refine DoesOne.single ⟨t, isJump ⟨_, _, rfl, lookup_reshaped targetIs, ?_⟩, fun _ _ => rfl⟩
    exact named_reshaped ((fits_node.mp fit).2.fits_lookup targetIs) named

/-- The statement that stands in a field where the given one stood. -/
theorem Stmt.Keeps.field {s : Stmt} {v : Value} (reads : s.Reads v)
    (keeps : s.Keeps (reshaped off v)) :
    ∃ t : Stmt, t.Reads (reshapedField off v) ∧ ∀ w fuel, t.exec w fuel [] = s.exec w fuel [] := by
  obtain ⟨tag, fields, rfl, -⟩ := reads.tagged
  exact keeps.1.one

/-- A rule that keeps what a statement does, or no rule. -/
theorem settled_does {b : World → Nat → Behaviour} {tag : String} {fields : Fields}
    (stays : DoesOne (.tagged tag fields) b)
    (settles : Does (settledBy off tag (.tagged tag fields) fields) b) :
    Does (settled off (.tagged tag fields)) b := by
  simp only [settled]
  split
  · exact stays.single
  · exact settles

/-- Whatever node stands for the statement, the nodes that take its place do what it did. -/
def Stmt.IsKept (off : List String) (s : Stmt) : Prop :=
  ∀ ⦃v : Value⦄ ⦃slot : Slot⦄, s.Reads v → fits slot v = true → s.Keeps (reshaped off v)

/-- Whatever nodes stand for the statements, those that take their place do what they did. -/
def BodyIsKept (off : List String) (body : List Stmt) : Prop :=
  ∀ ⦃items : List Value⦄ ⦃slot : Slot⦄, readsBody body items →
    (∀ item ∈ items, fits slot item = true) →
    Does (reshapedItems off items) fun w fuel => execAll w fuel body

/-! ## One kind of statement at a time

Each lemma takes the parts of a statement to be kept and says that the statement is. -/

section Steps

variable {e test : Expr} {s yes no body : Stmt}

/-- What a statement does is kept by reshaping, case by case: first an expression. -/
theorem Stmt.IsKept.expression (calm : CalmUnless off e.isCalm) : (Stmt.expression e).IsKept off := by
  intro v slot reads fit
  obtain ⟨fields, inner, rfl, innerIs, inside⟩ := reads
  have formed := (fits_node.mp fit).2
  have formed' := reshapedFields_formed off fields formed
  obtain ⟨e', isRead, same, -⟩ := reshapedField_keeps e calm inside
    (fits_lookup_expression formed rfl innerIs)
  have effects : ∀ w, effect w (some e') = effect w (some e) := fun w => by rw [effect, effect, same]
  have stays : DoesOne (.tagged "ExpressionStatement" (reshapedFields off fields)) fun w _ =>
      effect w (some e) :=
    ⟨.expression e', ⟨_, _, rfl, lookup_reshaped innerIs, isRead⟩, fun w fuel => by
      rw [Stmt.exec, effects]⟩
  refine .of_does (Does.congr (settled_does stays ?_) fun w fuel => by rw [Stmt.exec]) rfl
  simp only [settledBy, settledExpression, lookup_reshaped innerIs]
  split
  · exact (unpacked_does off isRead (fits_lookup_expression formed' rfl
      (lookup_reshaped innerIs))).congr fun w _ => effects w
  · exact stays.single

/-- A block does what its statements do. -/
theorem Stmt.IsKept.block {body : List Stmt} (kept : BodyIsKept off body) :
    (Stmt.block body).IsKept off := by
  intro v slot reads fit
  obtain ⟨fields, items, rfl, itemsAre, each⟩ := reads
  obtain ⟨_, same, itemsFit⟩ := fits_many.mp ((fits_node.mp fit).2.fits_lookup itemsAre)
  cases same
  obtain ⟨ss, ssRead, ssDo⟩ := kept each itemsFit
  exact .of_other (t := .block ss) (by decide) ⟨_, _, rfl, lookup_reshaped itemsAre, ssRead⟩
    (fun w fuel => by rw [Stmt.exec, Stmt.exec, ssDo]) rfl

theorem Stmt.IsKept.empty : Stmt.empty.IsKept off := by
  intro v slot reads fit
  obtain ⟨fields, rfl⟩ := reads
  exact .of_other (t := .empty) (by decide) ⟨_, rfl⟩ (fun _ _ => rfl) rfl

theorem Stmt.IsKept.when (calm : CalmUnless off test.isCalm) (kept : yes.IsKept off) :
    (Stmt.when test yes).IsKept off := by
  intro v slot reads fit
  obtain ⟨fields, a, b, rfl, testIs, testReads, yesIs, yesReads, lacks⟩ := reads
  have formed := (fits_node.mp fit).2
  obtain ⟨t, tRead, tSame, -⟩ := reshapedField_keeps test calm testReads
    (fits_lookup_expression formed rfl testIs)
  obtain ⟨y, yRead, ySame⟩ := (kept yesReads (formed.fits_lookup yesIs)).field yesReads
  have reads' : (Stmt.when t y).Reads (.tagged "IfStatement" (reshapedFields off fields)) :=
    ⟨_, _, _, rfl, lookup_reshaped testIs, tRead, lookup_reshaped yesIs, yRead, lacks_reshaped lacks⟩
  refine .of_does (Does.congr (settled_does ⟨_, reads', fun _ _ => rfl⟩
    (settledIf_when (reshapedFields_formed off fields formed) reads')) fun w fuel => ?_) rfl
  simp only [Stmt.exec, tSame, ySame]

theorem Stmt.IsKept.choose (calm : CalmUnless off test.isCalm) (yesKept : yes.IsKept off)
    (noKept : no.IsKept off) : (Stmt.choose test yes no).IsKept off := by
  intro v slot reads fit
  obtain ⟨fields, a, b, c, rfl, testIs, testReads, yesIs, yesReads, noIs, noReads⟩ := reads
  have formed := (fits_node.mp fit).2
  obtain ⟨t, tRead, tSame, -⟩ := reshapedField_keeps test calm testReads
    (fits_lookup_expression formed rfl testIs)
  obtain ⟨y, yRead, ySame⟩ := (yesKept yesReads (formed.fits_lookup yesIs)).field yesReads
  obtain ⟨z, zRead, zSame⟩ := (noKept noReads (formed.fits_lookup noIs)).field noReads
  have reads' : (Stmt.choose t y z).Reads (.tagged "IfStatement" (reshapedFields off fields)) :=
    ⟨_, _, _, _, rfl, lookup_reshaped testIs, tRead, lookup_reshaped yesIs, yRead,
      lookup_reshaped noIs, zRead⟩
  refine .of_does (Does.congr (settled_does ⟨_, reads', fun _ _ => rfl⟩
    (settledIf_choose (reshapedFields_formed off fields formed) reads')) fun w fuel => ?_) rfl
  simp only [Stmt.exec, tSame, ySame, zSame]

theorem Stmt.IsKept.leave : Stmt.leave.IsKept off := by
  intro v slot reads fit
  obtain ⟨fields, rfl, lacks⟩ := reads
  have stays : DoesOne (.tagged "ReturnStatement" (reshapedFields off fields)) fun w fuel =>
      Stmt.leave.exec w fuel [] :=
    ⟨.leave, ⟨_, rfl, lacks_reshaped lacks⟩, fun _ _ => rfl⟩
  refine .of_does (settled_does stays ?_) rfl
  rcases @lacks_reshaped off _ _ lacks with missing | isNull
  · simpa only [settledBy, settledReturn, missing] using stays.single
  · simpa only [settledBy, settledReturn, isNull] using stays.single

theorem Stmt.IsKept.give (calm : CalmUnless off e.isCalm) : (Stmt.give e).IsKept off := by
  intro v slot reads fit
  obtain ⟨fields, inner, rfl, innerIs, inside⟩ := reads
  have formed := (fits_node.mp fit).2
  obtain ⟨e', isRead, same, -⟩ := reshapedField_keeps e calm inside
    (inside.fits_expression (formed.fits_lookup innerIs))
  have isExpression := isRead.fits_expression
    ((reshapedFields_formed off fields formed).fits_lookup (lookup_reshaped innerIs))
  have rebuilds : ∀ {e : Expr} {v : Value}, e.Reads v → DoesOne
      ((Value.tagged "ReturnStatement" (reshapedFields off fields)).withField "argument" v)
      fun w _ => giving w e := fun reads =>
    ⟨.give _, ⟨_, _, rfl, Fields.lookup_set_self .., reads⟩, fun w fuel => by rw [Stmt.exec]; rfl⟩
  have stays := rebuilds isRead
  rw [Value.tagged, Value.withField_lookup (lookup_reshaped innerIs)] at stays
  refine .of_does (Does.congr (settled_does stays ?_) fun w fuel => ?_) rfl
  · obtain ⟨_, _, isNode, -⟩ := isRead.tagged
    simp only [settledBy, settledReturn, lookup_reshaped innerIs]
    rw [isNode] at isRead isExpression ⊢
    exact returned_does off isRead isExpression _ rebuilds
  · rw [Stmt.exec, giving, same]

theorem Stmt.IsKept.declare {ds : List (String × Option Expr)}
    (calm : CalmUnless off (calmDeclarators ds)) : (Stmt.declare ds).IsKept off := by
  intro v slot reads fit
  obtain ⟨ds', isRead, same⟩ := readsDeclaration_reshaped reads fit calm
  obtain ⟨fields, _, rfl, -⟩ := reads
  rw [reshapedField_other off fields (by decide)] at isRead
  exact .of_other (t := .declare ds') (by decide) isRead
    (fun w fuel => by rw [Stmt.exec, Stmt.exec, same]) rfl

/-- Loops are the case that labels are about: what moves before the loop leaves the labels of the
loop. -/
theorem Stmt.IsKept.loop {start : Start} {test update : Option Expr}
    (startCalm : CalmUnless off start.isCalm) (testCalm : CalmUnless off (test.all Expr.isCalm))
    (updateCalm : CalmUnless off (update.all Expr.isCalm)) (kept : body.IsKept off) :
    (Stmt.loop start test update body).IsKept off := by
  intro v slot reads fit
  obtain ⟨fields, a, b, c, d, rfl, aIs, aReads, bIs, bReads, cIs, cReads, dIs, dReads⟩ := reads
  have formed := (fits_node.mp fit).2
  obtain ⟨start', startRead, startSame, startFlat⟩ := startReads_reshaped aReads
    (formed.fits_lookup aIs) startCalm
  obtain ⟨test', testRead, testSame, -⟩ := readsOptional_reshaped bReads
    (formed.fits_lookup bIs) testCalm
  obtain ⟨update', updateRead, -, updateSame⟩ := readsOptional_reshaped cReads
    (formed.fits_lookup cIs) updateCalm
  obtain ⟨body', bodyRead, bodySame⟩ := (kept dReads (formed.fits_lookup dIs)).field dReads
  have reads' : (Stmt.loop start' test' update' body').Reads
      (.tagged "ForStatement" (reshapedFields off fields)) :=
    ⟨_, _, _, _, _, rfl, lookup_reshaped aIs, startRead, lookup_reshaped bIs, testRead,
      lookup_reshaped cIs, updateRead, lookup_reshaped dIs, bodyRead⟩
  have relocates : Relocates (.loop start' test' update' body')
      (settled off (.tagged "ForStatement" (reshapedFields off fields))) := by
    simp only [settled]
    split
    · exact .self reads' rfl
    · exact settledFor_relocates (reshapedFields_formed off fields formed) reads'
  refine .of_relocates (relocates.of_same startFlat fun w fuel labels => ?_)
  simp only [Stmt.exec, startSame, bodySame, iterate_congr (testSame w) (updateSame w)]

theorem Stmt.IsKept.repeat (calm : CalmUnless off test.isCalm) (kept : body.IsKept off) :
    (Stmt.repeat test body).IsKept off := by
  intro v slot reads fit
  obtain ⟨fields, a, b, rfl, aIs, aReads, bIs, bReads⟩ := reads
  have formed := (fits_node.mp fit).2
  obtain ⟨test', testRead, testSame, -⟩ := reshapedField_keeps test calm aReads
    (fits_lookup_expression formed rfl aIs)
  obtain ⟨body', bodyRead, bodySame⟩ := (kept bReads (formed.fits_lookup bIs)).field bReads
  have reads' : (Stmt.repeat test' body').Reads
      (.tagged "WhileStatement" (reshapedFields off fields)) :=
    ⟨_, _, _, rfl, lookup_reshaped aIs, testRead, lookup_reshaped bIs, bodyRead⟩
  have relocates : Relocates (.repeat test' body')
      (reshaped off (.tagged "WhileStatement" fields)) := by
    rw [reshaped_other off _ (by decide)]
    exact .self reads' rfl
  refine .of_relocates (relocates.of_same (fun _ => rfl) fun w fuel labels => ?_)
  have tests : evalTest w (some test') = evalTest w (some test) := by
    rw [evalTest, evalTest, testSame]
  simp only [Stmt.exec, bodySame]
  exact (iterate_congr tests rfl fuel).symm

/-- The label of a loop goes with the loop. Any other label may go to a loop inside, since no continue
asks for it. -/
theorem Stmt.IsKept.label (present : "LabeledStatement" ∉ off) {name : String} {loops : List String}
    (targets : body.targets (loopsUnder name body loops) = true) (headFlat : body.headIsFlat = true)
    (kept : body.IsKept off) : (Stmt.label name body).IsKept off := by
  intro v slot reads fit
  obtain ⟨fields, target, inner, rfl, targetIs, named, innerIs, inside⟩ := reads
  have formed := (fits_node.mp fit).2
  have formed' := reshapedFields_formed off fields formed
  have keeps := kept inside (formed.fits_lookup innerIs)
  have targetNamed := @named_reshaped off _ _ _ (formed.fits_lookup targetIs) named
  have innerFits : fits statement (reshapedField off inner) = true :=
    formed'.fits_lookup (lookup_reshaped innerIs)
  have settles : reshaped off (.tagged "LabeledStatement" fields) =
      settledLabel (.tagged "LabeledStatement" (reshapedFields off fields))
        (reshapedFields off fields) := by
    simp [reshaped, settled, settledBy, present]
  rw [settles]
  cases isLoop : body.isLoop with
  | true =>
    obtain ⟨tag, innerFields, rfl, -⟩ := inside.tagged
    exact .of_relocates (settledLabel_relocates (lookup_reshaped targetIs) targetNamed
      (lookup_reshaped innerIs) innerFits (keeps.2 isLoop) headFlat)
  | false =>
    refine .of_does (settledLabel_does (lookup_reshaped targetIs) targetNamed
      (lookup_reshaped innerIs) innerFits (keeps.field inside) ?_) isLoop
    intro w fuel st st' ended
    have asked := exec_continues w fuel body _ [] targets st _ st' ended name rfl
    simp [loopsUnder, isLoop] at asked

theorem BodyIsKept.nil : BodyIsKept off [] := by
  intro items slot reads fit
  obtain rfl := reads
  exact Does.nil

/-- From the first statement to the last. -/
theorem BodyIsKept.cons {rest : List Stmt} (first : s.IsKept off) (others : BodyIsKept off rest) :
    BodyIsKept off (s :: rest) := by
  intro items slot reads fit
  obtain ⟨v, more, rfl, firstReads, othersRead⟩ := reads
  obtain ⟨does, -⟩ := first firstReads (fit v (by simp))
  rw [reshapedItems_eq, List.flatMap_cons, ← reshapedItems_eq]
  exact does.append (others othersRead fun item member => fit item (by simp [member]))

end Steps

/-! ## Every statement -/

mutual

/-- The nodes that take the place of a statement do what it did. -/
theorem reshaped_keeps (present : "LabeledStatement" ∉ off) : ∀ (s : Stmt) (loops : List String),
    s.targets loops = true → s.isFlat = true → CalmUnless off s.isCalm → s.IsKept off
  | .expression _, _, _, _, calm => .expression calm
  | .block body, loops, targets, flat, calm =>
    .block (reshapedItems_does present body loops targets flat calm)
  | .empty, _, _, _, _ => .empty
  | .when _ yes, loops, targets, flat, calm =>
    .when calm.left (reshaped_keeps present yes loops targets flat calm.right)
  | .choose _ yes no, loops, targets, flat, calm => by
    obtain ⟨yesTargets, noTargets⟩ := Bool.and_eq_true_iff.mp targets
    obtain ⟨yesFlat, noFlat⟩ := Bool.and_eq_true_iff.mp flat
    exact .choose calm.left.left
      (reshaped_keeps present yes loops yesTargets yesFlat calm.left.right)
      (reshaped_keeps present no loops noTargets noFlat calm.right)
  | .leave, _, _, _, _ => .leave
  | .give _, _, _, _, calm => .give calm
  | .declare _, _, _, _, calm => .declare calm
  | .loop _ _ _ body, loops, targets, flat, calm =>
    .loop calm.left.left.left calm.left.left.right calm.left.right
      (reshaped_keeps present body loops targets flat calm.right)
  | .repeat _ body, loops, targets, flat, calm =>
    .repeat calm.left (reshaped_keeps present body loops targets flat calm.right)
  | .label name body, loops, targets, flat, calm => by
    obtain ⟨headFlat, bodyFlat⟩ := Bool.and_eq_true_iff.mp flat
    exact .label present targets headFlat
      (reshaped_keeps present body (loopsUnder name body loops) targets bodyFlat calm)
  | .break label, _, _, _, _ => fun _ _ reads fit =>
    .of_does (jump_does (t := .break label) (by decide) reads fit id) rfl
  | .continue label, _, _, _, _ => fun _ _ reads fit =>
    .of_does (jump_does (t := .continue label) (by decide) reads fit id) rfl

theorem reshapedItems_does (present : "LabeledStatement" ∉ off) : ∀ (body : List Stmt)
    (loops : List String), targetsBody loops body = true → flatBody body = true →
    CalmUnless off (calmBody body) → BodyIsKept off body
  | [], _, _, _, _ => .nil
  | s :: rest, loops, targets, flat, calm => by
    obtain ⟨firstTargets, restTargets⟩ := Bool.and_eq_true_iff.mp targets
    obtain ⟨firstFlat, restFlat⟩ := Bool.and_eq_true_iff.mp flat
    exact .cons (reshaped_keeps present s loops firstTargets firstFlat calm.left)
      (reshapedItems_does present rest loops restTargets restFlat calm.right)

end

end Untangle.Semantics
