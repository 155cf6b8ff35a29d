import Untangle.Proofs.Semantics.Labels
import Untangle.Proofs.Semantics.Unpacking
import Untangle.Proofs.Tree.Everywhere

/-!
# Heads of loops

A loop may start with several expressions or declarations. All but the last expression and the
declarations that the loop does not look at move out in front of it. What moves out is done before
the first test as it was before, and it can leave the labels on the loop, since nothing in it jumps.

* `Quiet` says that nothing in a tree jumps to a label.
* `declareAll_split` is why declarators may move.
* `Relocates` says that a loop has been put after what it started with.
-/

namespace Untangle.Semantics

open Reshape Syntax Behaviour

/-! ## Trees without jumps -/

/-- Nothing in the tree jumps to a label. -/
def Quiet (v : Value) : Prop :=
  ∀ n ∈ v.walk, ∀ label, ¬ JumpsTo label n

/-- Without nodes there are no jumps. -/
theorem Quiet.of_walk_nil {v : Value} (none : v.walk = []) : Quiet v := by
  intro n member
  simp [none] at member

theorem Quiet.seq {items : List Value} (each : ∀ item ∈ items, Quiet item) : Quiet (.seq items) := by
  intro n member
  obtain ⟨item, within, found⟩ := mem_walkItems (by simpa [Value.walk] using member)
  exact each item within n found

/-- A node is quiet if it is no jump and the fields that the syntax gives it are quiet. -/
theorem Quiet.node {tag : String} {fields : Fields} (names : List String) (formed : Formed tag fields)
    (declared : (fieldsOf tag).map Prod.fst = names)
    (noJump : tag ≠ "BreakStatement" ∧ tag ≠ "ContinueStatement")
    (each : ∀ name ∈ names, ∀ v, fields.lookup name = some v → Quiet v) :
    Quiet (.tagged tag fields) := by
  intro n member label
  rcases List.mem_cons.mp (by simpa [Value.walk] using member) with rfl | member
  · rintro ⟨other, _, _, same, jumps, -⟩
    cases same
    exact jumps.elim noJump.1 noJump.2
  · obtain ⟨⟨name, v⟩, within, found⟩ := mem_walkFields member
    have foundAt := Fields.lookup_of_mem formed.distinct within
    by_cases known : name ∈ names
    · exact each name known v foundAt n found label
    · have bare : slotOf tag name = .bare := by
        rw [slotOf, List.lookup_eq_none_iff.mpr]
        · rfl
        · intro field isField
          rw [← declared] at known
          simpa using fun same : name = field.1 => known (same ▸ List.mem_map_of_mem isField)
      have none := walk_bare (bare ▸ formed.fits_lookup foundAt)
      simp [none] at found

theorem Quiet.named {slot : Slot} {x : String} {v : Value} (fit : fits slot v = true)
    (named : Named x v) : Quiet v := by
  obtain ⟨fields, rfl, nameIs⟩ := named
  refine Quiet.node ["name"] (fits_node.mp fit).2 rfl (by decide) ?_
  intro name isName v found
  obtain rfl := List.mem_singleton.mp isName
  rw [nameIs] at found
  cases found
  exact .of_walk_nil rfl

theorem Quiet.text {s : String} : Quiet (.str s) :=
  .of_walk_nil rfl

theorem Quiet.of_lookup {fields : Fields} {name : String} {own : Value}
    (ownIs : fields.lookup name = some own) (quiet : Quiet own) :
    ∀ v, fields.lookup name = some v → Quiet v := by
  intro v found
  rw [ownIs] at found
  exact Option.some.inj found ▸ quiet

/-- An operation is quiet if its operands are. -/
theorem Quiet.operands {tag operator : String} {fields : Fields} {a b : Value}
    (formed : Formed tag fields) (declared : (fieldsOf tag).map Prod.fst = ["operator", "left", "right"])
    (noJump : tag ≠ "BreakStatement" ∧ tag ≠ "ContinueStatement")
    (operatorIs : fields.lookup "operator" = some (.str operator))
    (leftIs : fields.lookup "left" = some a) (left : Quiet a)
    (rightIs : fields.lookup "right" = some b) (right : Quiet b) : Quiet (.tagged tag fields) := by
  refine Quiet.node _ formed declared noJump ?_
  simp only [List.forall_mem_cons]
  exact ⟨of_lookup operatorIs .text, of_lookup leftIs left, of_lookup rightIs right, by simp⟩

mutual

/-- An expression does not jump. -/
theorem Expr.Reads.quiet : ∀ (e : Expr) {slot : Slot} {v : Value}, e.Reads v → fits slot v = true →
    Quiet v
  | .name x, _, _, reads, fit => .named fit reads
  | .literal fields, _, _, reads, fit => by
    obtain rfl := reads
    exact Quiet.node [] (fits_node.mp fit).2 rfl (by decide) (by simp)
  | .call callee arguments, _, _, reads, fit => by
    obtain ⟨fields, target, items, rfl, targetIs, named, itemsAre, each⟩ := reads
    have formed := (fits_node.mp fit).2
    refine Quiet.node ["callee", "arguments"] formed rfl (by decide) ?_
    simp only [List.forall_mem_cons]
    refine ⟨Quiet.of_lookup targetIs (.named (formed.fits_lookup targetIs) named), ?_, by simp⟩
    obtain ⟨_, same, itemsFit⟩ := fits_many.mp (formed.fits_lookup itemsAre)
    cases same
    exact Quiet.of_lookup itemsAre (.seq (readsAll_quiet arguments each itemsFit))
  | .assign x value, _, _, reads, fit => by
    obtain ⟨fields, target, right, rfl, operatorIs, targetIs, named, rightIs, inside⟩ := reads
    have formed := (fits_node.mp fit).2
    exact Quiet.operands formed rfl (by decide) operatorIs targetIs
      (.named (formed.fits_lookup targetIs) named) rightIs
      (Expr.Reads.quiet value inside (formed.fits_lookup rightIs))
  | .unary operator argument, _, _, reads, fit => by
    obtain ⟨fields, inner, rfl, operatorIs, innerIs, inside⟩ := reads
    have formed := (fits_node.mp fit).2
    refine Quiet.node ["operator", "argument"] formed rfl (by decide) ?_
    simp only [List.forall_mem_cons]
    exact ⟨Quiet.of_lookup operatorIs .text, Quiet.of_lookup innerIs
      (Expr.Reads.quiet argument inside (formed.fits_lookup innerIs)), by simp⟩
  | .binary operator left right, _, _, reads, fit => by
    obtain ⟨fields, a, b, rfl, operatorIs, leftIs, leftReads, rightIs, rightReads⟩ := reads
    have formed := (fits_node.mp fit).2
    exact Quiet.operands formed rfl (by decide) operatorIs leftIs
      (Expr.Reads.quiet left leftReads (formed.fits_lookup leftIs)) rightIs
      (Expr.Reads.quiet right rightReads (formed.fits_lookup rightIs))
  | .both left right, _, _, reads, fit => by
    obtain ⟨fields, a, b, rfl, operatorIs, leftIs, leftReads, rightIs, rightReads⟩ := reads
    have formed := (fits_node.mp fit).2
    exact Quiet.operands formed rfl (by decide) operatorIs leftIs
      (Expr.Reads.quiet left leftReads (formed.fits_lookup leftIs)) rightIs
      (Expr.Reads.quiet right rightReads (formed.fits_lookup rightIs))
  | .either left right, _, _, reads, fit => by
    obtain ⟨fields, a, b, rfl, operatorIs, leftIs, leftReads, rightIs, rightReads⟩ := reads
    have formed := (fits_node.mp fit).2
    exact Quiet.operands formed rfl (by decide) operatorIs leftIs
      (Expr.Reads.quiet left leftReads (formed.fits_lookup leftIs)) rightIs
      (Expr.Reads.quiet right rightReads (formed.fits_lookup rightIs))
  | .choice test yes no, _, _, reads, fit => by
    obtain ⟨fields, a, b, c, rfl, testIs, testReads, yesIs, yesReads, noIs, noReads⟩ := reads
    have formed := (fits_node.mp fit).2
    refine Quiet.node ["test", "consequent", "alternate"] formed rfl (by decide) ?_
    simp only [List.forall_mem_cons]
    exact ⟨Quiet.of_lookup testIs (Expr.Reads.quiet test testReads (formed.fits_lookup testIs)),
      Quiet.of_lookup yesIs (Expr.Reads.quiet yes yesReads (formed.fits_lookup yesIs)),
      Quiet.of_lookup noIs (Expr.Reads.quiet no noReads (formed.fits_lookup noIs)), by simp⟩
  | .comma leading last, _, _, reads, fit => by
    obtain ⟨fields, items, final, rfl, itemsAre, each, lastReads⟩ := reads
    have formed := (fits_node.mp fit).2
    obtain ⟨_, same, itemsFit⟩ := fits_many.mp (formed.fits_lookup itemsAre)
    cases same
    refine Quiet.node ["expressions"] formed rfl (by decide) ?_
    simp only [List.forall_mem_cons]
    refine ⟨Quiet.of_lookup itemsAre (.seq fun item member => ?_), by simp⟩
    rcases List.mem_append.mp member with within | isLast
    · exact readsAll_quiet leading each
        (fun item member => itemsFit item (List.mem_append_left _ member)) item within
    · obtain rfl := List.mem_singleton.mp isLast
      exact Expr.Reads.quiet last lastReads (itemsFit item (by simp))

/-- Trees that stand for expressions jump nowhere, as long as the language has no functions. -/
theorem readsAll_quiet : ∀ (es : List Expr) {slot : Slot} {items : List Value}, readsAll es items →
    (∀ item ∈ items, fits slot item = true) → ∀ item ∈ items, Quiet item
  | [], _, _, reads, _ => by
    obtain rfl := reads
    simp
  | e :: rest, _, _, reads, fit => by
    obtain ⟨v, more, rfl, first, others⟩ := reads
    intro item member
    rcases List.mem_cons.mp member with rfl | within
    · exact Expr.Reads.quiet e first (fit item (by simp))
    · exact readsAll_quiet rest others (fun other later => fit other (by simp [later])) item within

end

/-! ## Flat expressions -/

/-- What stands for an expression is a node of the syntax of expressions. -/
theorem Expr.Reads.tagged {e : Expr} {v : Value} (reads : e.Reads v) :
    ∃ tag fields, v = .tagged tag fields ∧ tag ∈ expressionTags := by
  cases e with
  | literal fields =>
    obtain rfl := reads
    exact ⟨_, fields, rfl, by decide⟩
  | name =>
    obtain ⟨fields, rfl, -⟩ := reads
    exact ⟨_, fields, rfl, by decide⟩
  | unary =>
    obtain ⟨fields, _, rfl, -⟩ := reads
    exact ⟨_, fields, rfl, by decide⟩
  | call | assign | binary | both | either | comma =>
    obtain ⟨fields, _, _, rfl, -⟩ := reads
    exact ⟨_, fields, rfl, by decide⟩
  | choice =>
    obtain ⟨fields, _, _, _, rfl, -⟩ := reads
    exact ⟨_, fields, rfl, by decide⟩

/-- A tree that stands for an expression is one. -/
theorem Expr.Reads.fits_expression {e : Expr} {v : Value} {slot : Slot} (reads : e.Reads v)
    (fit : fits slot v = true) : fits expression v = true := by
  obtain ⟨tag, fields, rfl, admitted⟩ := reads.tagged
  exact fits_node.mpr ⟨admitted, (fits_node.mp fit).2⟩

variable {off : List String}

theorem readsAll_mem {es : List Expr} {items : List Value} {item : Value} (each : readsAll es items)
    (member : item ∈ items) : ∃ e ∈ es, e.Reads item := by
  induction es generalizing items with
  | nil =>
    obtain rfl := each
    simp at member
  | cons e rest ih =>
    obtain ⟨v, more, rfl, first, others⟩ := each
    rcases List.mem_cons.mp member with rfl | later
    · exact ⟨e, by simp, first⟩
    · obtain ⟨other, within, reads⟩ := ih others later
      exact ⟨other, by simp [within], reads⟩

theorem flat_of_mem {es : List Expr} (flat : allFlat es = true) {e : Expr} (member : e ∈ es) :
    e.isFlat = true := by
  induction es with
  | nil => simp at member
  | cons first rest ih =>
    obtain ⟨here, later⟩ := Bool.and_eq_true_iff.mp flat
    rcases List.mem_cons.mp member with rfl | within
    · exact here
    · exact ih later within

/-- A flat expression becomes expression statements only, which can leave a label. -/
theorem unpacked_leaves {e : Expr} {v : Value} (reads : e.Reads v) (fit : fits expression v = true)
    (flat : e.isFlat = true) : ∀ n ∈ unpacked off v, ∀ label, CanLeave label n := by
  induction v using unpacked_induction off generalizing e with
  | comma v items packs ih =>
    have shape := packing_of_unpacking packs (by simp) ▸ reads.packs
    have each := unpacking_fits fit packs
    rw [unpacked_comma packs]
    intro n member
    obtain ⟨item, within, found⟩ := List.mem_flatMap.mp member
    cases shape with
    | comma leading last front final eachReads lastReads =>
      obtain ⟨leadingFlat, lastFlat⟩ := Bool.and_eq_true_iff.mp flat
      rcases List.mem_append.mp within with early | isLast
      · obtain ⟨part, isPart, partReads⟩ := readsAll_mem eachReads early
        exact ih item within partReads (each item within) (flat_of_mem leadingFlat isPart) n found
      · obtain rfl := List.mem_singleton.mp isLast
        exact ih item within lastReads (each item within) lastFlat n found
  | choice v test yes no packs =>
    have shape := packing_of_unpacking packs (by simp) ▸ reads.packs
    cases shape with
    | choice => simp [Expr.isFlat] at flat
  | guard v test body packs =>
    have shape := packing_of_unpacking packs (by simp) ▸ reads.packs
    cases shape with
    | both => simp [Expr.isFlat] at flat
  | fallback v test body packs =>
    have shape := packing_of_unpacking packs (by simp) ▸ reads.packs
    cases shape with
    | either => simp [Expr.isFlat] at flat
  | plain v packs =>
    rw [unpacked_plain packs, asStatement_expression fit]
    intro n member label
    obtain rfl := List.mem_singleton.mp member
    have formed := (fits_node.mp (fits_expressionStatement fit)).2
    have quiet : Quiet (Value.expressionStatement v) := by
      refine Quiet.node ["expression"] formed rfl (by decide) ?_
      simp only [List.forall_mem_cons]
      exact ⟨Quiet.of_lookup rfl (reads.quiet e fit), by simp⟩
    exact ⟨Or.inr ⟨_, rfl⟩, fun m within => quiet m within label⟩

/-! ## Declarators -/

/-- A declarator declares the same after reshaping. -/
theorem readsDeclarator_reshaped {d : String × Option Expr} {v : Value} (reads : readsDeclarator d v)
    (fit : fits (.one ["VariableDeclarator"]) v = true) (calm : CalmUnless off (d.2.all Expr.isCalm)) :
    ∃ d', readsDeclarator d' (reshapedField off v) ∧ ∀ w rest,
      declareAll w (d' :: rest) = declareAll w (d :: rest) := by
  obtain ⟨x, init⟩ := d
  obtain ⟨fields, target, rfl, targetIs, named, initIs⟩ := reads
  have formed := (fits_node.mp fit).2
  have targetNamed := @named_reshaped off _ _ _ (formed.fits_lookup targetIs) named
  have shape := reshapedField_other off fields (show "VariableDeclarator" ∉ settledTags by decide)
  cases init with
  | none =>
    exact ⟨(x, none), ⟨_, _, shape, lookup_reshaped targetIs, targetNamed, lacks_reshaped initIs⟩,
      fun w rest => rfl⟩
  | some e =>
    obtain ⟨inner, innerIs, inside⟩ := initIs
    have innerFits := inside.fits_expression (formed.fits_lookup innerIs)
    obtain ⟨e', reads, same, -⟩ := reshapedField_keeps e calm inside innerFits
    refine ⟨(x, some e'), ⟨_, _, shape, lookup_reshaped targetIs, targetNamed, _,
      lookup_reshaped innerIs, reads⟩, fun w rest => ?_⟩
    rw [declareAll, declareAll, same]

theorem readsDeclarators_reshaped {ds : List (String × Option Expr)} {items : List Value}
    (reads : readsDeclarators ds items)
    (fit : ∀ item ∈ items, fits (.one ["VariableDeclarator"]) item = true)
    (calm : CalmUnless off (calmDeclarators ds)) :
    ∃ ds', readsDeclarators ds' (reshapedItems off items) ∧
      ∀ w, declareAll w ds' = declareAll w ds := by
  induction ds generalizing items with
  | nil =>
    obtain rfl := reads
    exact ⟨[], rfl, fun _ => rfl⟩
  | cons d rest ih =>
    obtain ⟨v, more, rfl, first, others⟩ := reads
    have split : CalmUnless off (d.2.all Expr.isCalm && calmDeclarators rest) := by
      simpa [calmDeclarators] using calm
    obtain ⟨rest', restReads, restSame⟩ := ih others
      (fun item member => fit item (by simp [member])) split.right
    obtain ⟨d', dReads, dSame⟩ := readsDeclarator_reshaped first (fit v (by simp)) split.left
    refine ⟨d' :: rest', ⟨_, reshapedItems off more, ?_, dReads, restReads⟩, fun w => ?_⟩
    · obtain ⟨fields, _, rfl, -⟩ := first
      have whole := settled_other off (reshapedFields off fields)
        (show "VariableDeclarator" ∉ settledTags by decide)
      rw [reshapedItems, whole, reshapedField, whole]
      rfl
    · rw [dSame]
      obtain ⟨x, init⟩ := d
      cases init <;> simp only [declareAll, restSame]

/-- Declarators that move overtake only some that do nothing. -/
theorem declareAll_split {ds : List (String × Option Expr)} {declarators kept moved : List Value}
    (splits : Splits declarators kept moved) (reads : readsDeclarators ds declarators) :
    ∃ ks ms, readsDeclarators ks kept ∧ readsDeclarators ms moved ∧
      ∀ w, declareAll w ds = seq (declareAll w ms) (declareAll w ks) := by
  induction splits generalizing ds with
  | nil => exact ⟨ds, [], reads, rfl, fun w => rfl⟩
  | rest declarators => exact ⟨ds, [], reads, rfl, fun w => rfl⟩
  | bare declarator rest kept moved noInit after ih =>
    cases ds with
    | nil => simp [readsDeclarators] at reads
    | cons d others =>
      obtain ⟨v, more, isList, first, later⟩ := reads
      cases isList
      obtain ⟨ks, ms, ksRead, msRead, same⟩ := ih later
      refine ⟨d :: ks, ms, ⟨_, _, rfl, first, ksRead⟩, msRead, fun w => ?_⟩
      obtain ⟨x, init⟩ := d
      cases init with
      | none => rw [declareAll, declareAll, same]
      | some e =>
        obtain ⟨fields, target, rfl, -, -, inner, innerIs, inside⟩ := first
        obtain ⟨_, _, rfl, -⟩ := inside.tagged
        rw [Value.optional_of_lookup innerIs (by simp)] at noInit
        simp at noInit
  | move declarator rest kept moved after ih =>
    cases ds with
    | nil => simp [readsDeclarators] at reads
    | cons d others =>
      obtain ⟨v, more, isList, first, later⟩ := reads
      cases isList
      obtain ⟨ks, ms, ksRead, msRead, same⟩ := ih later
      refine ⟨ks, d :: ms, ksRead, ⟨_, _, rfl, first, msRead⟩, fun w => ?_⟩
      obtain ⟨x, init⟩ := d
      cases init with
      | none => rw [declareAll, declareAll, same]
      | some e => rw [declareAll, declareAll, same, seq_assoc]

theorem Quiet.declarator {d : String × Option Expr} {v : Value} (reads : readsDeclarator d v)
    (fit : fits (.one ["VariableDeclarator"]) v = true) : Quiet v := by
  obtain ⟨x, init⟩ := d
  obtain ⟨fields, target, rfl, targetIs, named, initIs⟩ := reads
  have formed := (fits_node.mp fit).2
  refine Quiet.node ["id", "init"] formed rfl (by decide) ?_
  simp only [List.forall_mem_cons]
  refine ⟨of_lookup targetIs (.named (formed.fits_lookup targetIs) named), ?_, by simp⟩
  cases init with
  | none =>
    rcases initIs with missing | isNull
    · simp [missing]
    · exact of_lookup isNull (.of_walk_nil rfl)
  | some e =>
    obtain ⟨inner, innerIs, inside⟩ := initIs
    exact of_lookup innerIs (inside.quiet e (formed.fits_lookup innerIs))

theorem readsDeclarators_mem {ds : List (String × Option Expr)} {items : List Value} {item : Value}
    (each : readsDeclarators ds items) (member : item ∈ items) : ∃ d, readsDeclarator d item := by
  induction ds generalizing items with
  | nil =>
    obtain rfl := each
    simp at member
  | cons d rest ih =>
    obtain ⟨v, more, rfl, first, others⟩ := each
    rcases List.mem_cons.mp member with rfl | later
    · exact ⟨d, first⟩
    · exact ih others later

/-- A declaration of variables can leave a label. -/
theorem variableDeclaration_leaves {ds : List (String × Option Expr)} {items : List Value}
    (each : readsDeclarators ds items)
    (fit : ∀ item ∈ items, fits (.one ["VariableDeclarator"]) item = true) (label : String) :
    CanLeave label (Value.variableDeclaration items (.str "var")) := by
  have formed := (fits_node.mp (fits_variableDeclaration fit)).2
  have quiet : Quiet (Value.variableDeclaration items (.str "var")) := by
    refine Quiet.node ["declarations", "kind"] formed rfl (by decide) ?_
    simp only [List.forall_mem_cons]
    refine ⟨Quiet.of_lookup rfl (.seq fun item member => ?_), Quiet.of_lookup rfl .text, by simp⟩
    obtain ⟨d, reads⟩ := readsDeclarators_mem each member
    exact .declarator reads (fit item member)
  exact ⟨Or.inl ⟨_, rfl, rfl⟩, fun n within => quiet n within label⟩

/-! ## Loops after what they started with -/

/-- The trees stand for what the loop started with, if anything, and then a loop. Together they do
what the loop did, under whatever labels. If the head was flat, what comes first can leave a label. -/
inductive Relocates (s : Stmt) : List Value → Prop where
  | intro (front : List Stmt) (last : Stmt) (leading : List Value) (n : Value)
      (frontReads : readsBody front leading) (lastReads : last.Reads n) (loops : last.isLoop = true)
      (leave : s.headIsFlat = true → ∀ m ∈ leading, ∀ label, CanLeave label m)
      (same : ∀ w fuel labels,
        s.exec w fuel labels = seq (execAll w fuel front) (last.exec w fuel labels)) :
      Relocates s (leading ++ [n])

/-- A loop from which nothing moves stays as it is. -/
theorem Relocates.self {s : Stmt} {n : Value} (reads : s.Reads n) (loops : s.isLoop = true) :
    Relocates s [n] :=
  .intro [] s [] n rfl reads loops (by simp) fun w fuel labels => rfl

/-- What relocates does not depend on how the statement is written. -/
theorem Relocates.of_same {s t : Stmt} {nodes : List Value} (relocates : Relocates t nodes)
    (flat : s.headIsFlat = true → t.headIsFlat = true)
    (same : ∀ w fuel labels, s.exec w fuel labels = t.exec w fuel labels) : Relocates s nodes := by
  obtain ⟨front, last, leading, n, frontReads, lastReads, loops, leave, equal⟩ := relocates
  exact .intro front last leading n frontReads lastReads loops (fun isFlat => leave (flat isFlat))
    fun w fuel labels => (same w fuel labels).trans (equal w fuel labels)

/-- Without labels, a relocated statement does what the statement does. -/
theorem Relocates.does {s : Stmt} {nodes : List Value} (relocates : Relocates s nodes) :
    Does nodes fun w fuel => s.exec w fuel [] := by
  obtain ⟨front, last, leading, n, frontReads, lastReads, -, -, equal⟩ := relocates
  refine ⟨front ++ [last], readsBody_append frontReads ⟨n, [], rfl, lastReads, rfl⟩, fun w fuel => ?_⟩
  rw [execAll_append, execAll_single]
  exact (equal w fuel []).symm

section Head

variable {fields : Fields} {start : Start} {test update : Option Expr} {body : Stmt}
  {init testValue updateValue bodyValue : Value}

/-- A loop with another start. -/
theorem reads_withInit {other : Start} {v : Value}
    (reads : (Stmt.loop start test update body).Reads (.tagged "ForStatement" fields))
    (otherReads : other.Reads v) :
    (Stmt.loop other test update body).Reads
      ((Value.tagged "ForStatement" fields).withField "init" v) := by
  obtain ⟨_, a, b, c, d, same, aIs, aReads, bIs, bReads, cIs, cReads, dIs, dReads⟩ := reads
  cases same
  refine ⟨_, v, b, c, d, rfl, Fields.lookup_set_self .., otherReads, ?_, bReads, ?_, cReads, ?_, dReads⟩
  · rw [Fields.lookup_set_of_ne _ _ (by decide), bIs]
  · rw [Fields.lookup_set_of_ne _ _ (by decide), cIs]
  · rw [Fields.lookup_set_of_ne _ _ (by decide), dIs]

/-- A start that is split in two. -/
theorem exec_withStart {other : Start} {w : World} {front : Behaviour}
    (splits : start.run w = seq front (other.run w)) (fuel : Nat) (labels : List String) :
    (Stmt.loop start test update body).exec w fuel labels =
      seq front ((Stmt.loop other test update body).exec w fuel labels) := by
  rw [Stmt.exec, Stmt.exec, splits, seq_assoc]

/-- Declarators that move before the loop are evaluated at the same time as before. -/
theorem hoistDeclarators_relocates (formed : Formed "ForStatement" fields) {initFields : Fields}
    (initFormed : Formed "VariableDeclaration" initFields) {ds : List (String × Option Expr)}
    (initReads : readsDeclaration ds (.tagged "VariableDeclaration" initFields))
    (reads : (Stmt.loop (.declare ds) test update body).Reads (.tagged "ForStatement" fields)) :
    Relocates (.loop (.declare ds) test update body)
      (orSelf (.tagged "ForStatement" fields) (Rule.hoistDeclarators (.tagged "ForStatement" fields)
        (.tagged "VariableDeclaration" initFields))) := by
  obtain ⟨declarators, kept, moved, declaratorsAre, each, splits, hoists⟩ :=
    hoistDeclarators_spec formed initFormed
  obtain ⟨_, items, same, kindIs, itemsAre, itemsRead⟩ := initReads
  cases same
  rw [declaratorsAre] at itemsAre
  cases itemsAre
  obtain ⟨ks, ms, ksRead, msRead, equal⟩ := declareAll_split splits itemsRead
  rw [hoists]
  simp only [orSelf, hoistedFrom]
  split
  · exact .self reads rfl
  · have movedFit := fun d member => each d (splits.mem_moved member)
    have frontReads : readsBody [.declare ms] [Value.variableDeclaration moved (.str "var")] :=
      ⟨_, [], rfl, ⟨_, moved, rfl, rfl, rfl, msRead⟩, rfl⟩
    have leaves : ∀ m ∈ [Value.variableDeclaration moved (.str "var")], ∀ label, CanLeave label m := by
      intro m member
      obtain rfl := List.mem_singleton.mp member
      exact variableDeclaration_leaves msRead movedFit
    -- A loop that keeps no declarator starts with nothing.
    have started : ∃ other : Start, other.Reads (if kept.isEmpty then .null else
        (Value.tagged "VariableDeclaration" initFields).withField "declarations" (.seq kept)) ∧
        ∀ w, other.run w = declareAll w ks := by
      split
      · rename_i none
        rw [List.isEmpty_iff] at none
        subst none
        cases ks with
        | nil => exact ⟨.nothing, rfl, fun w => rfl⟩
        | cons => simp [readsDeclarators] at ksRead
      · refine ⟨.declare ks, ⟨_, kept, rfl, ?_, Fields.lookup_set_self .., ksRead⟩, fun w => rfl⟩
        rw [Fields.lookup_set_of_ne _ _ (by decide), kindIs]
    obtain ⟨other, otherReads, otherRuns⟩ := started
    refine .intro [.declare ms] _ [_] _ frontReads (reads_withInit reads otherReads) rfl
      (fun _ => leaves) fun w fuel labels => ?_
    rw [execAll_single, Stmt.exec]
    exact exec_withStart (by rw [Start.run, otherRuns, equal]) fuel labels

/-- So are the operands of a comma sequence in its head. -/
theorem commaHoisted_relocates {e : Expr} {v : Value} (eReads : e.Reads v)
    (fit : fits expression v = true)
    (reads : (Stmt.loop (.expression e) test update body).Reads (.tagged "ForStatement" fields)) :
    Relocates (.loop (.expression e) test update body)
      (commaHoisted off (.tagged "ForStatement" fields) "init" v) := by
  rcases comma_cases fit with ⟨leading, last, packs, -⟩ | ⟨packs, -⟩
  · rw [commaHoisted_comma _ _ packs]
    have each := packs ▸ packing_fits fit
    have shape := packs ▸ eReads.packs
    generalize same : Packing.comma (leading ++ [last]) = p at shape
    cases shape with
    | comma es final items own eachReads lastReads =>
      obtain ⟨rfl, rfl⟩ := List.append_singleton_inj.mp (Packing.comma.inj same)
      have leadingFits : ∀ item ∈ leading, fits expression item = true := fun item member =>
        each item (List.mem_append_left _ member)
      obtain ⟨front, frontReads, frontSame⟩ := unpackedAll_does off eachReads leadingFits
      refine .intro front _ _ _ frontReads
        (@reads_withInit _ _ _ _ _ (.expression final) _ reads lastReads) rfl ?_ fun w fuel labels => ?_
      · intro flat m member
        obtain ⟨item, within, found⟩ := List.mem_flatMap.mp member
        obtain ⟨part, isPart, partReads⟩ := readsAll_mem eachReads within
        exact unpacked_leaves partReads (leadingFits item within) (flat_of_mem flat isPart) m found
      · rw [frontSame]
        refine exec_withStart ?_ fuel labels
        rw [Start.run, Start.run, effect, effect, after_comma]
    | choice => cases same
    | both => cases same
    | either => cases same
    | plain => cases same
  · rw [commaHoisted_plain _ _ packs]
    exact .self reads rfl

/-- What a loop with a head becomes. -/
theorem settledFor_relocates (formed : Formed "ForStatement" fields)
    (reads : (Stmt.loop start test update body).Reads (.tagged "ForStatement" fields)) :
    Relocates (.loop start test update body)
      (settledFor off (.tagged "ForStatement" fields) fields) := by
  obtain ⟨_, init, _, _, _, same, initIs, initReads, -⟩ := id reads
  cases same
  have initFits := formed.fits_lookup initIs
  simp only [settledFor, initIs]
  cases start with
  | nothing =>
    obtain rfl := initReads
    exact .self reads rfl
  | declare ds =>
    obtain ⟨initFields, items, rfl, kindIs, -⟩ := id initReads
    simp only [isVar, kindIs, Option.any_some, isText_str, beq_self_eq_true, if_true]
    exact hoistDeclarators_relocates formed (fits_node.mp initFits).2 initReads reads
  | expression e =>
    have isExpression := initReads.fits_expression initFits
    have notVar : isVar init = false := by
      obtain ⟨tag, inner, rfl, admitted⟩ := initReads.tagged
      unfold isVar
      split
      · rename_i same
        cases same
        exact absurd admitted (by decide)
      · rfl
    rw [notVar, if_neg (by simp)]
    exact commaHoisted_relocates initReads isExpression reads

end Head

end Untangle.Semantics
