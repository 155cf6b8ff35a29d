import Untangle.Proofs.Reshape.NormalForm

/-!
# Chains of conditionals

A conditional whose alternate is a conditional again, and so on, becomes one chain of branches: each
`else` goes on directly with the next `if`, and the last one has a block. This holds where the chain
stands in the place of a statement and where it is returned, for chains of every length.

The chain goes on past its end where the expression there is itself a conditional as soon as the comma
sequences of one member around it are taken away; `isChoice` says when.

Section 11 of the specification lists the branch without an alternate as an invariant; section 4.4
describes the chain.

* `ChoiceChain` takes a chain of conditionals apart, `BranchChain` the branches it becomes.
* `elseForm_chain` is the induction along the chain, the same for both places.
* `choiceChain_branches` is the main statement.
-/

namespace Untangle.Reshape

open Syntax

/-- A chain of conditionals: the tests and consequents in order, and the expression at the end, which
is no conditional. -/
inductive ChoiceChain : Value → List (Value × Value) → Value → Prop where
  | tail (v : Value) (ends : v.hasTag "ConditionalExpression" = false) : ChoiceChain v [] v
  | link {fields : Fields} {test yes no tail : Value} {links : List (Value × Value)}
      (testIs : fields.lookup "test" = some test) (yesIs : fields.lookup "consequent" = some yes)
      (noIs : fields.lookup "alternate" = some no) (rest : ChoiceChain no links tail) :
      ChoiceChain (.tagged "ConditionalExpression" fields) ((test, yes) :: links) tail

/-- Branches that follow a chain of conditionals link by link: each has the test of its link, a
consequent that stands for that of the link, and in its alternate the branch of the next link. -/
inductive BranchChain (standsFor : Value → Value → Prop) :
    List (Value × Value) → Value → Value → Prop where
  | last (alternate : Value) : BranchChain standsFor [] alternate alternate
  | link {test yes consequent next alternate : Value} {links : List (Value × Value)}
      (stands : standsFor yes consequent) (rest : BranchChain standsFor links next alternate) :
      BranchChain standsFor ((test, yes) :: links) (Value.ifStatement test consequent next) alternate

/-- An expression without the comma sequences of one member around it. -/
def uncovered (v : Value) : Value :=
  match _h : packing v with
  | .comma [item] => uncovered item
  | _ => v
termination_by v.size
decreasing_by exact size_lt_of_mem_parts _h (by simp [Packing.parts])

/-- Whether an expression becomes a branch with an else and nothing in front of it. -/
def isChoice (v : Value) : Bool :=
  match packing (uncovered v) with
  | .choice test _ _ => !(uncovered test).hasTag "SequenceExpression"
  | _ => false

/-! ## Comma sequences of one member -/

theorem uncovered_comma {v item : Value} (packs : packing v = .comma [item]) :
    uncovered v = uncovered item := by
  rw [uncovered]
  split <;> simp_all

theorem uncovered_self {v : Value} (packs : ∀ item, packing v ≠ .comma [item]) :
    uncovered v = v := by
  rw [uncovered]
  split <;> simp_all

theorem notComma_of_hasTag {v : Value} (other : v.hasTag "SequenceExpression" = false) :
    NotComma v := by
  intro items packs
  cases packs ▸ packed v with
  | comma => cases other

/-- What is left of an expression is either a comma sequence of several members, and then something
moves out in front of its last one, or nothing moves. -/
theorem commaSplit_uncovered {v : Value} (fit : fits expression v = true) :
    ((uncovered v).hasTag "SequenceExpression" = false ∧ commaSplit v = ([], uncovered v)) ∨
      ((uncovered v).hasTag "SequenceExpression" = true ∧ (commaSplit v).1 ≠ []) := by
  fun_induction uncovered v with
  | case1 v item packs ih =>
    have split := @commaSplit_comma v item [] packs
    rw [split]
    exact ih (packing_fits fit item (by simp [packs, Packing.parts]))
  | case2 v several =>
    rcases comma_cases fit with ⟨leading, last, packs, -⟩ | ⟨notComma, -⟩
    · refine .inr ⟨?_, ?_⟩
      · cases packs ▸ packed v with
        | comma => rfl
      · rw [commaSplit_comma packs]
        intro empty
        obtain rfl := (List.append_eq_nil_iff.mp empty).1
        exact several last packs
    · exact .inl ⟨not_sequence fit notComma, commaSplit_plain notComma⟩

/-! ## Which expressions become a branch with an else -/

theorem isElseIf_ifStatement (test consequent alternate : Value) :
    isElseIf (Value.ifStatement test consequent alternate) = !alternate.isNull := rfl

theorem isNull_statement {s : Value} (fit : fits statement s = true) : s.isNull = false := by
  obtain ⟨_, _, rfl, -⟩ := fits_one.mp fit
  rfl

/-- Several statements become a block. -/
theorem isElseIf_one_append {front rest : List Value} (first : front ≠ []) (more : rest ≠ []) :
    isElseIf (one (front ++ rest)) = false := by
  obtain ⟨a, front, rfl⟩ := List.exists_cons_of_ne_nil first
  obtain ⟨b, others, same⟩ := List.exists_cons_of_ne_nil
    (show front ++ rest ≠ [] from fun empty => more (List.append_eq_nil_iff.mp empty).2)
  rw [List.cons_append, same]
  rfl

theorem flatMap_unpacked_ne_nil {parts : List Value} (nonempty : parts ≠ [])
    (fit : ∀ part ∈ parts, fits expression part = true) : parts.flatMap (unpacked []) ≠ [] :=
  (Statements.flatMap nonempty fun part member => unpacked_fits [] (fit part member)).nonempty

/-- A branch with an else stays one unless its test leaves statements in front of it. -/
theorem isElseIf_hoisted {test consequent alternate : Value} (testFits : fits expression test = true)
    (elseFits : fits statement alternate = true) :
    isElseIf (one ((commaSplit test).1.flatMap (unpacked []) ++
      [Value.ifStatement (commaSplit test).2 consequent alternate])) =
        !(uncovered test).hasTag "SequenceExpression" := by
  rcases commaSplit_uncovered testFits with ⟨notComma, split⟩ | ⟨isComma, moves⟩
  · rw [notComma, split]
    exact (isElseIf_ifStatement _ _ _).trans (by rw [isNull_statement elseFits])
  · rw [isComma]
    exact isElseIf_one_append (flatMap_unpacked_ne_nil moves (commaSplit_fits testFits).1) (by simp)

theorem isElseIf_unpacked {v : Value} (fit : fits expression v = true) :
    isElseIf (one (unpacked [] v)) = isChoice v := by
  have only : OnlyComparisons [] := by simp [OnlyComparisons]
  induction v using unpacked_induction [] with
  | comma v items unpacks ih =>
    have packs := only.unpacking_eq v ▸ unpacks
    have each := packs ▸ packing_fits fit
    rw [unpacked_comma unpacks]
    cases items with
    | nil => exact absurd rfl (packing_comma_ne_nil fit packs)
    | cons item rest =>
      have itemFits := each item (by simp [Packing.parts])
      cases rest with
      | nil =>
        rw [List.flatMap_singleton, ih item (by simp) itemFits, isChoice, isChoice,
          uncovered_comma packs]
      | cons next rest =>
        have alone : uncovered v = v := uncovered_self (by simp [packs])
        rw [List.flatMap_cons, isChoice, alone, packs]
        refine isElseIf_one_append (unpacked_fits [] itemFits).nonempty
          (flatMap_unpacked_ne_nil (by simp) fun part member => each part ?_)
        exact List.mem_cons_of_mem _ member
  | choice v test yes no unpacks _ _ _ =>
    have packs := only.unpacking_eq v ▸ unpacks
    have each := packs ▸ packing_fits fit
    have alone : uncovered v = v := uncovered_self (by simp [packs])
    rw [unpacked_choice unpacks, only.hoisted_eq, isChoice, alone, packs]
    exact isElseIf_hoisted (each test (by simp [Packing.parts]))
      (elseForm_fits (one_fits (unpacked_fits [] (each no (by simp [Packing.parts]))).each))
  | guard v test body unpacks _ _ =>
    have packs := only.unpacking_eq v ▸ unpacks
    have alone : uncovered v = v := uncovered_self (by simp [packs])
    rw [unpacked_guard unpacks, isChoice, alone, packs]
    cases (hoisted [] test).1.flatMap (unpacked []) with
    | nil => rfl
    | cons first front => exact isElseIf_one_append (by simp) (by simp)
  | fallback v test body unpacks _ =>
    have packs := only.unpacking_eq v ▸ unpacks
    have alone : uncovered v = v := uncovered_self (by simp [packs])
    rw [unpacked_fallback unpacks, isChoice, alone, packs]
    rfl
  | plain v unpacks =>
    have packs := only.unpacking_eq v ▸ unpacks
    have alone : uncovered v = v := uncovered_self (by simp [packs])
    rw [unpacked_plain unpacks, asStatement_expression fit, isChoice, alone, packs]
    rfl

theorem isElseIf_returned {v : Value} (fit : fits expression v = true) :
    isElseIf (one (returned [] Value.returnStatement v)) = isChoice v := by
  have only : OnlyComparisons [] := by simp [OnlyComparisons]
  have last := (commaSplit_fits fit).2
  rcases commaSplit_uncovered fit with ⟨notComma, split⟩ | ⟨isComma, moves⟩
  · rw [split] at last
    rcases choice_cases last with ⟨test, yes, no, packs, -⟩ | ⟨packs, -⟩
    · have each := packs ▸ packing_fits last
      rw [returned_choice _ (by rw [split]; exact packs), split, only.hoisted_eq, isChoice, packs]
      exact isElseIf_hoisted (each test (by simp [Packing.parts])) (elseForm_fits (one_fits
        (returned_fits [] (each no (by simp [Packing.parts])) _ fun _ => fits_returnStatement).each))
    · rw [returned_plain _ (by rw [split]; exact packs), split, isChoice]
      split
      · rename_i same
        exact absurd same (packs _ _ _)
      · rfl
  · have notChoice : isChoice v = false := by
      unfold isChoice
      generalize uncovered v = rest at isComma ⊢
      split
      · rename_i packs
        cases packs ▸ packed rest with
        | choice => cases isComma
      · rfl
    rw [notChoice, returned]
    refine isElseIf_one_append (flatMap_unpacked_ne_nil moves (commaSplit_fits fit).1) ?_
    split <;> simp

/-! ## Along the chain -/

/-- A place where conditionals become branches: `step` is what becomes of an expression there, and
`wrap` what is put around the statement in a consequent. -/
structure Unfolds (step : Value → List Value) (wrap : Value → Value) : Prop where
  statements : ∀ {v}, fits expression v = true → Statements (step v)
  branch : ∀ {v test yes no}, packing v = .choice test yes no →
    test.hasTag "SequenceExpression" = false →
    step v = [Value.ifStatement test (wrap (one (step yes))) (elseForm (one (step no)))]
  goesOn : ∀ {v}, fits expression v = true → isElseIf (one (step v)) = isChoice v

theorem commaSplit_hasTag {test : Value} (plain : test.hasTag "SequenceExpression" = false) :
    commaSplit test = ([], test) :=
  commaSplit_plain (notComma_of_hasTag plain)

theorem unfolds_unpacked : Unfolds (unpacked []) guarded where
  statements := unpacked_fits []
  branch {v _ _ _} packs plain := by
    have only : OnlyComparisons [] := by simp [OnlyComparisons]
    rw [unpacked_choice ((only.unpacking_eq v).trans packs), only.hoisted_eq, commaSplit_hasTag plain]
    rfl
  goesOn := isElseIf_unpacked

theorem unfolds_returned : Unfolds (returned [] Value.returnStatement) enclosed where
  statements fit := returned_fits [] fit _ fun _ => fits_returnStatement
  branch {v _ _ _} packs plain := by
    have only : OnlyComparisons [] := by simp [OnlyComparisons]
    have whole : commaSplit v = ([], v) := commaSplit_plain (by simp [packs])
    rw [returned_choice _ (by rw [whole]; exact packs), whole, only.hoisted_eq,
      commaSplit_hasTag plain]
    rfl
  goesOn := isElseIf_returned

theorem elseForm_of_isElseIf {n : Value} (goesOn : isElseIf n = true) : elseForm n = n :=
  if_pos goesOn

theorem enclosed_isBlock (n : Value) : (enclosed n).hasTag "BlockStatement" = true := by
  unfold enclosed
  split
  · assumption
  · rfl

theorem elseForm_isBlock (n : Value) :
    (elseForm n).hasTag "BlockStatement" = !isElseIf n := by
  unfold elseForm
  split
  · rename_i goesOn
    rw [goesOn]
    unfold isElseIf at goesOn
    split at goesOn
    · rfl
    · cases goesOn
  · rename_i ends
    rw [Bool.not_eq_true _ |>.mp ends, enclosed_isBlock]
    rfl

section

variable {step : Value → List Value} {wrap : Value → Value} {standsFor : Value → Value → Prop}
  {v tail : Value} {links : List (Value × Value)}

/-- The first link of a chain becomes a branch whose else is what the rest of the chain becomes. -/
theorem Unfolds.first (unfolds : Unfolds step wrap) {fields : Fields} {test yes no : Value}
    (fit : fits expression (.tagged "ConditionalExpression" fields) = true)
    (testIs : fields.lookup "test" = some test) (yesIs : fields.lookup "consequent" = some yes)
    (noIs : fields.lookup "alternate" = some no)
    (plain : test.hasTag "SequenceExpression" = false) :
    step (.tagged "ConditionalExpression" fields) =
        [Value.ifStatement test (wrap (one (step yes))) (elseForm (one (step no)))] ∧
      elseForm (one (step (.tagged "ConditionalExpression" fields))) =
        Value.ifStatement test (wrap (one (step yes))) (elseForm (one (step no))) := by
  have packs : packing (.tagged "ConditionalExpression" fields) = .choice test yes no := by
    simp [packing, testIs, yesIs, noIs]
  have noFits := packing_fits fit no (by simp [packs, Packing.parts])
  have whole := unfolds.branch packs plain
  refine ⟨whole, ?_⟩
  rw [whole]
  apply elseForm_of_isElseIf
  rw [one, isElseIf_ifStatement,
    isNull_statement (elseForm_fits (one_fits (unfolds.statements noFits).each))]
  rfl

/-- The induction is on the chain: as an else, every part of it becomes the branches of its links. -/
theorem elseForm_chain (unfolds : Unfolds step wrap)
    (stands : ∀ part, fits expression part = true → standsFor part (wrap (one (step part))))
    (chain : ChoiceChain v links tail) (fit : fits expression v = true)
    (tests : ∀ link ∈ links, link.1.hasTag "SequenceExpression" = false) :
    BranchChain standsFor links (elseForm (one (step v))) (elseForm (one (step tail))) := by
  induction chain with
  | tail v ends => exact .last _
  | link testIs yesIs noIs rest ih =>
    have formed := (fits_node.mp fit).2
    rw [(unfolds.first fit testIs yesIs noIs (tests _ List.mem_cons_self)).2]
    exact .link (stands _ (formed.fits_lookup yesIs))
      (ih (formed.fits_lookup noIs) fun link member => tests link (by simp [member]))

theorem ChoiceChain.tail_fits (chain : ChoiceChain v links tail) (fit : fits expression v = true) :
    fits expression tail = true := by
  induction chain with
  | tail => exact fit
  | link _ _ noIs _ ih => exact ih ((fits_node.mp fit).2.fits_lookup noIs)

/-- A chain with a link becomes one statement, the branches of its links. The last else has a block
unless the end of the chain becomes a branch with an else. -/
theorem Unfolds.branches (unfolds : Unfolds step wrap)
    (stands : ∀ part, fits expression part = true → standsFor part (wrap (one (step part))))
    (chain : ChoiceChain v links tail) (linked : links ≠ []) (fit : fits expression v = true)
    (tests : ∀ link ∈ links, link.1.hasTag "SequenceExpression" = false) :
    ∃ n, step v = [n] ∧ BranchChain standsFor links n (elseForm (one (step tail))) ∧
      (elseForm (one (step tail))).hasTag "BlockStatement" = !isChoice tail := by
  refine ⟨elseForm (one (step v)), ?_, elseForm_chain unfolds stands chain fit tests, ?_⟩
  · cases chain with
    | tail => exact absurd rfl linked
    | link testIs yesIs noIs rest =>
      obtain ⟨whole, form⟩ := unfolds.first fit testIs yesIs noIs (tests _ List.mem_cons_self)
      rw [form, whole]
  · rw [elseForm_isBlock, unfolds.goesOn (chain.tail_fits fit)]

/-- Nothing is left to be returned as it is. -/
theorem ChoiceChain.returned_eq (chain : ChoiceChain v links tail) (linked : links ≠ [])
    (rebuild other : Value → Value) : returned [] rebuild v = returned [] other v := by
  cases chain with
  | tail => exact absurd rfl linked
  | @link fields test yes no _ _ testIs yesIs noIs rest =>
    have packs : packing (.tagged "ConditionalExpression" fields) = .choice test yes no := by
      simp [packing, testIs, yesIs, noIs]
    have last : packing (commaSplit (.tagged "ConditionalExpression" fields)).2 =
        .choice test yes no := by
      rw [commaSplit_plain (by simp [packs])]
      exact packs
    rw [returned_choice rebuild last, returned_choice other last]

end

/-! ## The engine on a chain -/

/-- The engine of all rules unpacks an expression that it is deep enough for. -/
theorem unpack_builtin {v : Value} (fit : fits expression v = true) {depth : Nat}
    (deep : Registry.depthFor v.size ≤ depth) :
    Yields ((Registry.builtin.engine depth).unpack v) (unpacked [] v) := by
  have unpacks := unpacks_all [] v.size v depth fit (packedWithin_size v)
    (by unfold Registry.depthFor at deep; omega)
  rwa [engineWithout, without_nil] at unpacks

theorem settleReturn_builtin {fields : Fields} {v : Value} (formed : Formed "ReturnStatement" fields)
    (argumentIs : fields.lookup "argument" = some v) (fit : fits expression v = true) {depth : Nat}
    (deep : Registry.depthFor v.size ≤ depth) :
    Yields ((Registry.builtin.engine depth).settle (.tagged "ReturnStatement" fields))
      (returned [] ((Value.tagged "ReturnStatement" fields).withField "argument") v) := by
  have settles := @settleReturn_yields [] v.size (by simp) _ _ depth formed argumentIs fit
    (packedWithin_size v) (by unfold Registry.depthFor at deep; omega)
  rwa [engineWithout, without_nil] at settles

/-- A consequent for an expression in the place of a statement: the statement that the expression
becomes on its own, in a block if that is a branch. -/
def StandsUnpacked (v consequent : Value) : Prop :=
  consequent.hasTag "IfStatement" = false ∧
    ∃ s, Yields (Rule.unpackOne (Registry.builtin.engineFor v) v) s ∧ consequent = guarded s

/-- A consequent for an expression that is returned: a block of what its return becomes. -/
def StandsReturned (v consequent : Value) : Prop :=
  consequent.hasTag "BlockStatement" = true ∧
    ∃ s, Yields (Rule.returnOne (Registry.builtin.engineFor (Value.returnStatement v)) v) s ∧
      consequent = enclosed s

theorem notIf_of_isBlock {n : Value} (isBlock : n.hasTag "BlockStatement" = true) :
    n.hasTag "IfStatement" = false := by
  cases n with
  | node tag fields =>
    cases tag with
    | str tag =>
      rw [hasTag_tagged, beq_iff_eq] at isBlock
      rw [isBlock]
      rfl
    | _ => cases isBlock
  | _ => cases isBlock

theorem guarded_notIf (n : Value) : (guarded n).hasTag "IfStatement" = false := by
  unfold guarded
  split
  · exact notIf_of_isBlock (enclosed_isBlock n)
  · rename_i notIf
    simpa using notIf

theorem unpackOne_builtin {v : Value} (fit : fits expression v = true) :
    Yields (Rule.unpackOne (Registry.builtin.engineFor v) v) (one (unpacked [] v)) := by
  have single := @asOne_yields [] _ (unpacked_fits [] fit).each (Registry.depthFor v.size - 4)
  rw [engineWithout, without_nil, Nat.sub_add_cancel (by unfold Registry.depthFor; omega)] at single
  exact (unpack_builtin fit (Nat.le_refl _)).bind single

theorem returnOne_builtin {v : Value} (fit : fits expression v = true) :
    Yields (Rule.returnOne (Registry.builtin.engineFor (Value.returnStatement v)) v)
      (one (returned [] Value.returnStatement v)) := by
  have formed := (fits_node.mp (fits_returnStatement fit)).2
  have smaller : v.size ≤ (Value.returnStatement v).size := by
    simp [Value.returnStatement, Value.size, Value.sizeEntries]
  have settles := settleReturn_builtin formed rfl fit
    (show Registry.depthFor v.size ≤ Registry.depthFor (Value.returnStatement v).size by
      unfold Registry.depthFor; omega)
  rw [← Value.returnStatement, withArgument_returnStatement] at settles
  have single := @asOne_yields [] _ (returned_fits [] fit _ fun _ => fits_returnStatement).each
    (Registry.depthFor (Value.returnStatement v).size - 4)
  rw [engineWithout, without_nil, Nat.sub_add_cancel (by unfold Registry.depthFor; omega)] at single
  exact settles.bind single

theorem stands_unpacked (v : Value) (fit : fits expression v = true) :
    StandsUnpacked v (guarded (one (unpacked [] v))) :=
  ⟨guarded_notIf _, _, unpackOne_builtin fit, rfl⟩

theorem stands_returned (v : Value) (fit : fits expression v = true) :
    StandsReturned v (enclosed (one (returned [] Value.returnStatement v))) :=
  ⟨enclosed_isBlock _, _, returnOne_builtin fit, rfl⟩

/-- A chain of conditionals with plain tests becomes one chain of branches, link by link, both in the
place of a statement and where it is returned. The last else has a block, unless the expression at the
end of the chain becomes a branch with an else itself. -/
theorem choiceChain_branches {v tail : Value} {links : List (Value × Value)}
    (chain : ChoiceChain v links tail) (linked : links ≠ []) (fit : fits expression v = true)
    (tests : ∀ link ∈ links, link.1.hasTag "SequenceExpression" = false) :
    (∃ n last, BranchChain StandsUnpacked links n last ∧
      last.hasTag "BlockStatement" = !isChoice tail ∧
      (∃ s, Yields (Rule.unpackOne (Registry.builtin.engineFor tail) tail) s ∧ last = elseForm s) ∧
      ∀ depth, Registry.depthFor v.size ≤ depth →
        Yields ((Registry.builtin.engine depth).unpack v) [n]) ∧
    ∃ n last, BranchChain StandsReturned links n last ∧
      last.hasTag "BlockStatement" = !isChoice tail ∧
      (∃ s, Yields (Rule.returnOne (Registry.builtin.engineFor (Value.returnStatement tail)) tail) s ∧
        last = elseForm s) ∧
      ∀ fields depth, Formed "ReturnStatement" fields → fields.lookup "argument" = some v →
        Registry.depthFor v.size ≤ depth →
        Yields ((Registry.builtin.engine depth).settle (.tagged "ReturnStatement" fields)) [n] := by
  have tailFits := chain.tail_fits fit
  obtain ⟨n, unpacks, branches, block⟩ := unfolds_unpacked.branches stands_unpacked chain linked fit tests
  obtain ⟨m, returns, returnBranches, returnBlock⟩ :=
    unfolds_returned.branches stands_returned chain linked fit tests
  refine ⟨⟨n, _, branches, block, ⟨_, unpackOne_builtin tailFits, rfl⟩, fun depth deep => ?_⟩,
    m, _, returnBranches, returnBlock, ⟨_, returnOne_builtin tailFits, rfl⟩,
    fun fields depth formed argumentIs deep => ?_⟩
  · rw [← unpacks]
    exact unpack_builtin fit deep
  · rw [← returns,
      chain.returned_eq linked _ ((Value.tagged "ReturnStatement" fields).withField "argument")]
    exact settleReturn_builtin formed argumentIs fit deep

/-- The expression `test ? yes : no`. -/
def choiceOf (test yes no : Value) : Value :=
  .tagged "ConditionalExpression" [("test", test), ("consequent", yes), ("alternate", no)]

/-- The expression `left && right`. -/
def bothOf (left right : Value) : Value :=
  .tagged "LogicalExpression" [("operator", .str "&&"), ("left", left), ("right", right)]

/-- In `t ? a && b : u ? b : a && b` the consequent of the first link and the end of the chain would
each become a branch, and each goes into a block. -/
theorem choiceChain_branches_short :
    let a := Value.identifier (.str "a")
    let b := Value.identifier (.str "b")
    let links := [(Value.identifier (.str "t"), bothOf a b), (Value.identifier (.str "u"), b)]
    let v := choiceOf (.identifier (.str "t")) (bothOf a b)
      (choiceOf (.identifier (.str "u")) b (bothOf a b))
    fits expression v = true ∧
      (∃ n last, BranchChain StandsUnpacked links n last ∧ last.hasTag "BlockStatement" = true ∧
        Yields ((Registry.builtin.engineFor v).unpack v) [n]) ∧
      ∃ n last, BranchChain StandsReturned links n last ∧ last.hasTag "BlockStatement" = true ∧
        Yields ((Registry.builtin.engineFor v).settle (Value.returnStatement v)) [n] := by
  intro a b links v
  have fit : fits expression v = true := by decide
  have chain : ChoiceChain v links (bothOf a b) :=
    .link rfl rfl rfl (.link rfl rfl rfl (.tail _ rfl))
  have ends : (!isChoice (bothOf a b)) = true := by
    rw [isChoice, uncovered_self (by rintro item ⟨⟩)]
    rfl
  obtain ⟨⟨n, last, branches, isBlock, -, unpacks⟩, m, final, returns, block, -, settles⟩ :=
    choiceChain_branches chain (by simp [links]) fit (by decide)
  have formed := (fits_node.mp (fits_returnStatement fit)).2
  exact ⟨fit, ⟨n, last, branches, isBlock.trans ends, unpacks _ (Nat.le_refl _)⟩,
    m, final, returns, block.trans ends, settles _ _ formed rfl (Nat.le_refl _)⟩

/-- The conditional at the end of `t ? a : (u ? b : a)` is alone in a comma sequence, and the chain goes
on with it, in the place of a statement and in a return. -/
theorem choiceChain_goes_on :
    let a := Value.identifier (.str "a")
    let t := Value.identifier (.str "t")
    let tail := .tagged "SequenceExpression"
      [("expressions", .seq [choiceOf (.identifier (.str "u")) (.identifier (.str "b")) a])]
    let v := choiceOf t a tail
    fits expression v = true ∧ ChoiceChain v [(t, a)] tail ∧
      t.hasTag "SequenceExpression" = false ∧
      (∃ n last, Yields ((Registry.builtin.engineFor v).unpack v) [n] ∧
        BranchChain StandsUnpacked [(t, a)] n last ∧ last.hasTag "BlockStatement" = false) ∧
      ∃ n last, Yields ((Registry.builtin.engineFor v).settle (Value.returnStatement v)) [n] ∧
        BranchChain StandsReturned [(t, a)] n last ∧ last.hasTag "BlockStatement" = false := by
  intro a t tail v
  have fit : fits expression v = true := by decide
  have chain : ChoiceChain v [(t, a)] tail := .link rfl rfl rfl (.tail _ rfl)
  have goesOn : (!isChoice tail) = false := by
    rw [isChoice, uncovered_comma (by rfl), uncovered_self (by rintro item ⟨⟩)]
    show (!!(uncovered (.identifier (.str "u"))).hasTag "SequenceExpression") = false
    rw [uncovered_self (by rintro item ⟨⟩)]
    rfl
  obtain ⟨n, unpacks, branches, block⟩ :=
    unfolds_unpacked.branches stands_unpacked chain (by simp) fit (by decide)
  obtain ⟨m, returns, returnBranches, returnBlock⟩ :=
    unfolds_returned.branches stands_returned chain (by simp) fit (by decide)
  refine ⟨fit, chain, rfl, ⟨n, _, ?_, branches, block.trans goesOn⟩, m, _, ?_, returnBranches,
    returnBlock.trans goesOn⟩
  · rw [← unpacks]
    exact unpack_builtin fit (Nat.le_refl _)
  · rw [← returns, chain.returned_eq (by simp) _ ((Value.returnStatement v).withField "argument")]
    exact settleReturn_builtin (fits_node.mp (fits_returnStatement fit)).2 rfl fit (Nat.le_refl _)

end Untangle.Reshape
