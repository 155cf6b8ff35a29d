import Untangle.Proofs.Semantics.Expressions

/-!
# Unpacked expressions do what the expressions did

An expression in the place of a statement is evaluated for its effect. The statements it is unpacked
into have the same effect, in the same order: a comma sequence becomes its parts, a conditional and a
short circuit become branches, and what comes before the last comma of a test is done before the
branch.

* `Does` says what the statements do that trees stand for.
* `unpacked_does` is the statement for unpacking, `returned_does` the one for returns.
-/

namespace Untangle.Semantics

open Reshape Syntax Behaviour

/-! ## Packed expressions -/

/-- What an expression is, by the packing of its tree. -/
inductive Packs : Expr → Packing → Prop where
  | comma (leading : List Expr) (last : Expr) (items : List Value) (final : Value)
      (each : readsAll leading items) (reads : last.Reads final) :
      Packs (.comma leading last) (.comma (items ++ [final]))
  | choice (test yes no : Expr) (a b c : Value) (testReads : test.Reads a) (yesReads : yes.Reads b)
      (noReads : no.Reads c) : Packs (.choice test yes no) (.choice a b c)
  | both (left right : Expr) (a b : Value) (leftReads : left.Reads a) (rightReads : right.Reads b) :
      Packs (.both left right) (.guard a b)
  | either (left right : Expr) (a b : Value) (leftReads : left.Reads a)
      (rightReads : right.Reads b) : Packs (.either left right) (.fallback a b)
  | plain (e : Expr) : Packs e .plain

/-- An expression is packed like the tree that stands for it. -/
theorem Expr.Reads.packs {e : Expr} {v : Value} (reads : e.Reads v) : Packs e (packing v) := by
  cases e with
  | comma leading last =>
    obtain ⟨fields, items, final, rfl, itemsAre, each, lastReads⟩ := reads
    simp only [packing, itemsAre]
    exact .comma _ _ _ _ each lastReads
  | choice test yes no =>
    obtain ⟨fields, a, b, c, rfl, testIs, testReads, yesIs, yesReads, noIs, noReads⟩ := reads
    simp only [packing, testIs, yesIs, noIs]
    exact .choice _ _ _ _ _ _ testReads yesReads noReads
  | both left right =>
    obtain ⟨fields, a, b, rfl, operatorIs, leftIs, leftReads, rightIs, rightReads⟩ := reads
    simp only [packing, operatorIs, leftIs, rightIs]
    exact .both _ _ _ _ leftReads rightReads
  | either left right =>
    obtain ⟨fields, a, b, rfl, operatorIs, leftIs, leftReads, rightIs, rightReads⟩ := reads
    simp only [packing, operatorIs, leftIs, rightIs]
    exact .either _ _ _ _ leftReads rightReads
  | name x =>
    obtain ⟨fields, rfl, -⟩ := reads
    exact .plain _
  | literal fields =>
    obtain rfl := reads
    exact .plain _
  | call callee arguments =>
    obtain ⟨fields, _, _, rfl, -⟩ := reads
    exact .plain _
  | assign x value =>
    obtain ⟨fields, _, _, rfl, -⟩ := reads
    exact .plain _
  | unary operator argument =>
    obtain ⟨fields, _, rfl, -⟩ := reads
    exact .plain _
  | binary operator left right =>
    obtain ⟨fields, _, _, rfl, -⟩ := reads
    exact .plain _

/-- Evaluates expressions for what they do. -/
def effects (w : World) (es : List Expr) : Behaviour :=
  after (evalAll w es) fun _ => skip

theorem effects_nil (w : World) : effects w [] = skip := by
  rw [effects, evalAll]
  rfl

theorem effects_cons (w : World) (e : Expr) (rest : List Expr) :
    effects w (e :: rest) = seq (effect w (some e)) (effects w rest) := by
  rw [effects, evalAll, after_andThen, effect, seq_after]
  congr
  funext d
  rw [after_andThen, effects, skip_seq]
  rfl

/-- Two lists of expressions one after the other. -/
theorem effects_append (w : World) (first rest : List Expr) :
    effects w (first ++ rest) = seq (effects w first) (effects w rest) := by
  induction first with
  | nil => rw [List.nil_append, effects_nil, skip_seq]
  | cons e more ih => rw [List.cons_append, effects_cons, effects_cons, ih, seq_assoc]

/-- A comma sequence is evaluated for its last operand, after the effects of the others. -/
theorem after_comma (w : World) (leading : List Expr) (last : Expr) (next : Datum → Behaviour) :
    after ((Expr.comma leading last).eval w) next =
      seq (effects w leading) (after (last.eval w) next) := by
  rw [Expr.eval, after_andThen, effects, seq_after]
  rfl

/-- For its effect, a conditional evaluates one of its branches. -/
theorem effect_choice (w : World) (test yes no : Expr) :
    effect w (some (.choice test yes no)) =
      after (test.eval w) fun d => if d.truthy then effect w (some yes) else effect w (some no) := by
  rw [effect, Expr.eval, after_andThen]
  congr
  funext d
  split <;> rfl

/-- The right operand of `&&` is evaluated if the left one is truthy. -/
theorem effect_both (w : World) (left right : Expr) :
    effect w (some (.both left right)) =
      after (left.eval w) fun d => if d.truthy then effect w (some right) else skip := by
  rw [effect, Expr.eval, after_andThen]
  congr
  funext d
  split <;> rfl

/-- The right operand of `||` is evaluated if the left one is not. -/
theorem effect_either (w : World) (left right : Expr) :
    effect w (some (.either left right)) =
      after (left.eval w) fun d => if d.truthy then skip else effect w (some right) := by
  rw [effect, Expr.eval, after_andThen]
  congr
  funext d
  split <;> rfl

theorem readsAll_append {first second : List Expr} {items more : List Value}
    (a : readsAll first items) (b : readsAll second more) :
    readsAll (first ++ second) (items ++ more) := by
  induction first generalizing items with
  | nil =>
    obtain rfl := a
    exact b
  | cons e rest ih =>
    obtain ⟨v, tail, rfl, first, others⟩ := a
    exact ⟨v, tail ++ more, rfl, first, ih others⟩

/-- A test as the expressions in front of it and the expression that is tested. -/
structure Hoists (e : Expr) (parts : List Value) (final : Value) (es : List Expr) (last : Expr) :
    Prop where
  each : readsAll es parts
  reads : last.Reads final
  same : ∀ w next, after (e.eval w) next = seq (effects w es) (after (last.eval w) next)

theorem Hoists.none {e : Expr} {v : Value} (reads : e.Reads v) : Hoists e [] v [] e where
  each := rfl
  reads := reads
  same w next := by rw [effects_nil, skip_seq]

/-- Splitting a comma sequence, also one in its last operand, keeps what is evaluated and in which
order. -/
theorem commaSplit_hoists {e : Expr} {v : Value} (reads : e.Reads v)
    (fit : fits expression v = true) :
    ∃ es last, Hoists e (commaSplit v).1 (commaSplit v).2 es last := by
  induction h : v.size using Nat.strongRecOn generalizing e v with
  | ind n ih =>
    subst h
    rcases comma_cases fit with ⟨leading, final, packs, -⟩ | ⟨packs, -⟩
    · rw [commaSplit_comma packs]
      have shape := packs ▸ reads.packs
      generalize same : Packing.comma (leading ++ [final]) = p at shape
      cases shape with
      | comma es last items own each lastReads =>
        obtain ⟨rfl, rfl⟩ := List.append_singleton_inj.mp (Packing.comma.inj same)
        have member : final ∈ (packing v).parts := by simp [packs, Packing.parts]
        obtain ⟨more, inner, hoists⟩ := ih _ (size_lt_of_mem_parts rfl member) lastReads
          (packing_fits fit final member) rfl
        refine ⟨es ++ more, inner, readsAll_append each hoists.each, hoists.reads, fun w next => ?_⟩
        rw [after_comma, hoists.same, effects_append, seq_assoc]
      | choice => cases same
      | both => cases same
      | either => cases same
      | plain => cases same
    · rw [commaSplit_plain packs]
      exact ⟨[], e, .none reads⟩

theorem hoisted_hoists (off : List String) {e : Expr} {v : Value} (reads : e.Reads v)
    (fit : fits expression v = true) :
    ∃ es last, Hoists e (hoisted off v).1 (hoisted off v).2 es last := by
  unfold hoisted
  split
  · exact ⟨[], e, .none reads⟩
  · exact commaSplit_hoists reads fit

/-! ## What trees do -/

/-- The trees stand for statements that do this, one after the other. -/
def Does (nodes : List Value) (b : World → Nat → Behaviour) : Prop :=
  ∃ ss, readsBody ss nodes ∧ ∀ w fuel, execAll w fuel ss = b w fuel

/-- The tree stands for a statement that does this. -/
def DoesOne (n : Value) (b : World → Nat → Behaviour) : Prop :=
  ∃ s : Stmt, s.Reads n ∧ ∀ w fuel, s.exec w fuel [] = b w fuel

variable {nodes more : List Value} {n : Value} {b c : World → Nat → Behaviour}

theorem readsBody_append {first second : List Stmt} (a : readsBody first nodes)
    (b : readsBody second more) : readsBody (first ++ second) (nodes ++ more) := by
  induction first generalizing nodes with
  | nil =>
    obtain rfl := a
    exact b
  | cons s rest ih =>
    obtain ⟨v, tail, rfl, first, others⟩ := a
    exact ⟨v, tail ++ more, rfl, first, ih others⟩

theorem Does.nil : Does [] fun _ _ => skip :=
  ⟨[], rfl, fun _ _ => rfl⟩

/-- Trees that do one thing, and then trees that do another. -/
theorem Does.append (first : Does nodes b) (next : Does more c) :
    Does (nodes ++ more) fun w fuel => seq (b w fuel) (c w fuel) := by
  obtain ⟨ss, ssRead, ssDo⟩ := first
  obtain ⟨ts, tsRead, tsDo⟩ := next
  exact ⟨ss ++ ts, readsBody_append ssRead tsRead, fun w fuel => by
    rw [execAll_append, ssDo, tsDo]⟩

theorem DoesOne.single (does : DoesOne n b) : Does [n] b := by
  obtain ⟨s, reads, same⟩ := does
  exact ⟨[s], ⟨n, [], rfl, reads, rfl⟩, fun w fuel => by rw [execAll_single, same]⟩

theorem Does.block (does : Does nodes b) : DoesOne (Value.blockStatement nodes) b := by
  obtain ⟨ss, reads, same⟩ := does
  exact ⟨.block ss, ⟨_, nodes, rfl, rfl, reads⟩, fun w fuel => by rw [Stmt.exec, same]⟩

/-- Statements in a block do what they do one after the other. -/
theorem Does.one (does : Does nodes b) : DoesOne (one nodes) b := by
  unfold Reshape.one
  split
  · obtain ⟨ss, reads, same⟩ := does
    cases ss with
    | nil => simp [readsBody] at reads
    | cons s rest =>
      obtain ⟨v, tail, isList, first, others⟩ := reads
      cases isList
      cases rest with
      | nil => exact ⟨s, first, fun w fuel => by rw [← same, execAll_single]⟩
      | cons => simp [readsBody] at others
  · exact does.block

theorem DoesOne.enclosed (does : DoesOne n b) : DoesOne (enclosed n) b := by
  unfold Reshape.enclosed
  split
  · exact does
  · exact does.single.block

theorem DoesOne.guarded (does : DoesOne n b) : DoesOne (guarded n) b := by
  unfold Reshape.guarded
  split
  · exact does.enclosed
  · exact does

theorem DoesOne.elseForm (does : DoesOne n b) : DoesOne (elseForm n) b := by
  unfold Reshape.elseForm
  split
  · exact does
  · exact does.enclosed

/-- A branch with an else. -/
theorem DoesOne.choose {test : Expr} {t yes no : Value} (reads : test.Reads t) (first : DoesOne yes b)
    (second : DoesOne no c) :
    DoesOne (Value.ifStatement t yes no) fun w fuel =>
      after (test.eval w) fun d => if d.truthy then b w fuel else c w fuel := by
  obtain ⟨y, yReads, ySame⟩ := first
  obtain ⟨z, zReads, zSame⟩ := second
  exact ⟨.choose test y z, ⟨_, t, yes, no, rfl, rfl, reads, rfl, yReads, rfl, zReads⟩,
    fun w fuel => by rw [Stmt.exec, ySame, zSame]⟩

/-- A branch without an else. -/
theorem DoesOne.when {test : Expr} {t yes : Value} (reads : test.Reads t) (first : DoesOne yes b) :
    DoesOne (Value.ifStatement t yes .null) fun w fuel =>
      after (test.eval w) fun d => if d.truthy then b w fuel else skip := by
  obtain ⟨y, yReads, ySame⟩ := first
  exact ⟨.when test y, ⟨_, t, yes, rfl, rfl, reads, rfl, yReads, Or.inr rfl⟩,
    fun w fuel => by rw [Stmt.exec, ySame]⟩

/-- Behaviours may be exchanged for equal ones. -/
theorem Does.congr (does : Does nodes b) (same : ∀ w fuel, b w fuel = c w fuel) : Does nodes c := by
  obtain ⟨ss, reads, all⟩ := does
  exact ⟨ss, reads, fun w fuel => (all w fuel).trans (same w fuel)⟩

/-! ## Unpacked expressions -/

/-- The negation of an expression, as an expression. -/
theorem negated_reads (off : List String) {e : Expr} {v : Value} (reads : e.Reads v)
    (fit : fits expression v = true) :
    ∃ e' : Expr, e'.Reads (negated off v) ∧ ∀ w, e'.eval w = (Expr.unary "!" e).eval w := by
  obtain ⟨e', isRead, same, -⟩ := keeps_folded (negated_folds off fit) rfl rfl reads fun _ => rfl
  exact ⟨e', isRead, same⟩

theorem truthy_bang (w : World) (d : Datum) : (w.unaryOf "!" d).truthy = !d.truthy := rfl

/-- A branch on the negation of an expression. -/
theorem after_negation (w : World) (e : Expr) (b : Behaviour) :
    (after ((Expr.unary "!" e).eval w) fun d => if d.truthy then b else skip) =
      after (e.eval w) fun d => if d.truthy then skip else b := by
  rw [Expr.eval, after_andThen]
  congr
  funext d
  rw [after_give, truthy_bang]
  cases d.truthy <;> rfl

/-- By induction on the expressions: each becomes statements that have its effect. -/
theorem Does.flatMap {off : List String} {es : List Expr} {items : List Value}
    (each : readsAll es items)
    (does : ∀ item ∈ items, ∀ e : Expr, e.Reads item →
      Does (unpacked off item) fun w _ => effect w (some e)) :
    Does (items.flatMap (unpacked off)) fun w _ => effects w es := by
  induction es generalizing items with
  | nil =>
    obtain rfl := each
    exact Does.nil.congr fun w _ => (effects_nil w).symm
  | cons e rest ih =>
    obtain ⟨v, tail, rfl, first, others⟩ := each
    rw [List.flatMap_cons]
    refine ((does v (by simp) e first).append
      (ih others fun item member => does item (by simp [member]))).congr fun w _ => ?_
    rw [effects_cons]

/-- An expression in the place of a statement is evaluated as before by what it becomes. -/
theorem unpacked_does (off : List String) {e : Expr} {v : Value} (reads : e.Reads v)
    (fit : fits expression v = true) : Does (unpacked off v) fun w _ => effect w (some e) := by
  induction v using unpacked_induction off generalizing e with
  | comma v items packs ih =>
    have shape := packing_of_unpacking packs (by simp) ▸ reads.packs
    have each := unpacking_fits fit packs
    rw [unpacked_comma packs]
    cases shape with
    | comma leading last front final eachReads lastReads =>
      rw [List.flatMap_append, List.flatMap_singleton]
      refine ((Does.flatMap eachReads fun item member e isRead => ?_).append
        (ih final (by simp) lastReads (each final (by simp [Packing.parts])))).congr fun w _ => ?_
      · exact ih item (by simp [member]) isRead (each item (by simp [Packing.parts, member]))
      · rw [effect, effect, after_comma]
  | choice v test yes no packs ihParts ihYes ihNo =>
    have shape := packing_of_unpacking packs (by simp) ▸ reads.packs
    have each := unpacking_fits fit packs
    have head := hoisted_fits off (each test (by simp [Packing.parts]))
    rw [unpacked_choice packs]
    cases shape with
    | choice t y z _ _ _ tReads yReads zReads =>
      obtain ⟨es, last, hoists⟩ := hoisted_hoists off tReads (each test (by simp [Packing.parts]))
      refine ((Does.flatMap hoists.each fun item member e isRead =>
        ihParts item member isRead (head.1 item member)).append (DoesOne.choose hoists.reads
          (ihYes yReads (each yes (by simp [Packing.parts]))).one.guarded
          (ihNo zReads (each no (by simp [Packing.parts]))).one.elseForm).single).congr fun w _ => ?_
      rw [← hoists.same, effect_choice]
  | guard v test body packs ihParts ihBody =>
    have shape := packing_of_unpacking packs (by simp) ▸ reads.packs
    have each := unpacking_fits fit packs
    have head := hoisted_fits off (each test (by simp [Packing.parts]))
    rw [unpacked_guard packs]
    cases shape with
    | both t r _ _ tReads rReads =>
      obtain ⟨es, last, hoists⟩ := hoisted_hoists off tReads (each test (by simp [Packing.parts]))
      refine ((Does.flatMap hoists.each fun item member e isRead =>
        ihParts item member isRead (head.1 item member)).append (DoesOne.when hoists.reads
          (ihBody rReads (each body (by simp [Packing.parts]))).one).single).congr fun w _ => ?_
      rw [← hoists.same, effect_both]
  | fallback v test body packs ihBody =>
    have shape := packing_of_unpacking packs (by simp) ▸ reads.packs
    have each := unpacking_fits fit packs
    rw [unpacked_fallback packs]
    cases shape with
    | either t r _ _ tReads rReads =>
      obtain ⟨e', isRead, same⟩ := negated_reads off tReads (each test (by simp [Packing.parts]))
      refine (DoesOne.when isRead
        (ihBody rReads (each body (by simp [Packing.parts]))).one).single.congr fun w _ => ?_
      rw [same, after_negation, effect_either]
  | plain v packs =>
    rw [unpacked_plain packs, asStatement_expression fit]
    exact ⟨[.expression e], ⟨_, [], rfl, ⟨_, v, rfl, rfl, reads⟩, rfl⟩,
      fun w fuel => by rw [execAll_single, Stmt.exec]⟩

/-- Expressions that move out in front of a statement are evaluated for what they do. -/
theorem unpackedAll_does (off : List String) {es : List Expr} {items : List Value}
    (each : readsAll es items) (fit : ∀ item ∈ items, fits expression item = true) :
    Does (items.flatMap (unpacked off)) fun w _ => effects w es :=
  Does.flatMap each fun item member _ isRead => unpacked_does off isRead (fit item member)

/-! ## Returns -/

/-- Returns the value of an expression. -/
def giving (w : World) (e : Expr) : Behaviour :=
  after (e.eval w) fun d => stop (.give d)

/-- Returning a conditional returns one of its branches. -/
theorem giving_choice (w : World) (test yes no : Expr) :
    giving w (.choice test yes no) =
      after (test.eval w) fun d => if d.truthy then giving w yes else giving w no := by
  rw [giving, Expr.eval, after_andThen]
  congr
  funext d
  split <;> rfl

theorem returnStatement_does {e : Expr} {v : Value} (reads : e.Reads v) :
    DoesOne (Value.returnStatement v) fun w _ => giving w e :=
  ⟨.give e, ⟨_, v, rfl, rfl, reads⟩, fun w fuel => by rw [Stmt.exec]; rfl⟩

/-- What a return becomes returns the same value. -/
theorem returned_does (off : List String) {e : Expr} {v : Value} (reads : e.Reads v)
    (fit : fits expression v = true) (rebuild : Value → Value)
    (rebuilds : ∀ {e : Expr} {v : Value}, e.Reads v →
      DoesOne (rebuild v) fun w _ => giving w e) :
    Does (returned off rebuild v) fun w _ => giving w e := by
  induction v using returned_induction generalizing e rebuild with
  | choice v test yes no packs ihYes ihNo =>
    obtain ⟨es, last, split⟩ := commaSplit_hoists reads fit
    have splitFits := commaSplit_fits fit
    have each := packs ▸ packing_fits splitFits.2
    have shape := packs ▸ split.reads.packs
    rw [returned_choice rebuild packs]
    cases shape with
    | choice t y z _ _ _ tReads yReads zReads =>
      have testFits := each test (by simp [Packing.parts])
      obtain ⟨parts, final, hoists⟩ := hoisted_hoists off tReads testFits
      have yesDoes := ihYes yReads (each yes (by simp [Packing.parts])) _ returnStatement_does
      have noDoes := ihNo zReads (each no (by simp [Packing.parts])) _ returnStatement_does
      refine ((unpackedAll_does off split.each splitFits.1).append
        ((unpackedAll_does off hoists.each (hoisted_fits off testFits).1).append
          (DoesOne.choose hoists.reads yesDoes.one.enclosed noDoes.one.elseForm).single)).congr
        fun w _ => ?_
      rw [← hoists.same, ← giving_choice]
      exact (split.same w fun d => stop (.give d)).symm
  | plain v packs =>
    obtain ⟨es, last, split⟩ := commaSplit_hoists reads fit
    rw [returned_plain rebuild packs]
    refine ((unpackedAll_does off split.each (commaSplit_fits fit).1).append
      (rebuilds split.reads).single).congr fun w _ => ?_
    exact (split.same w fun d => stop (.give d)).symm

end Untangle.Semantics
