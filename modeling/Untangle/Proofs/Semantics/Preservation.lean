import Untangle.Proofs.Semantics.Statements

/-!
# Reshaping keeps the meaning of programs

A program of the language, reshaped, is again a program of the language, and it does the same: it ends
with the same completion, the same store and the same calls, in whatever world and with whatever fuel.
Three conditions are needed. Labelled continues go to loops, the start of a labelled loop is flat, and
no comparison reads on its right a name that its left side assigns. Without the last one the rule for
comparisons, which puts a name first, reads the name too early.

* `prettify_keeps_meaning` is the statement.
* `prettify_reads_too_early` is a program that the rule for comparisons changes.
-/

namespace Untangle.Semantics

open Reshape Syntax

/-- The program that takes the place of a program. -/
theorem reshaped_program {off : List String} (present : "LabeledStatement" ∉ off) {body : List Stmt}
    {fields : Fields} (formed : Formed "Program" fields)
    (reads : readsProgram body (.tagged "Program" fields)) (targets : targetsBody [] body = true)
    (flat : flatBody body = true) (calm : CalmUnless off (calmBody body)) :
    ∃ body', readsProgram body' (.tagged "Program" (reshapedFields off fields)) ∧
      ∀ w fuel, execAll w fuel body' = execAll w fuel body := by
  obtain ⟨_, items, same, itemsAre, each⟩ := reads
  cases same
  obtain ⟨_, same, itemsFit⟩ := fits_many.mp (formed.fits_lookup itemsAre)
  cases same
  obtain ⟨body', isRead, does⟩ := reshapedItems_does present body [] targets flat calm each itemsFit
  exact ⟨body', ⟨_, _, rfl, lookup_reshaped itemsAre, isRead⟩, does⟩

/-- A reshaped program does what the program did. Comparisons may be anything where their rule is
removed. -/
theorem prettify_keeps_meaning (off : List String) (present : "LabeledStatement" ∉ off) {p : Value}
    {body : List Stmt} (formed : WellFormed p) (reads : readsProgram body p)
    (targets : targetsBody [] body = true) (flat : flatBody body = true)
    (calm : CalmUnless off (calmBody body)) :
    ∃ p' body', prettify (Registry.builtin.without off) p = .ok p' ∧ WellFormed p' ∧
      readsProgram body' p' ∧ ∀ w fuel st, execAll w fuel body' st = execAll w fuel body st := by
  obtain ⟨fields, _, rfl, -⟩ := id reads
  have programFormed := (fits_node.mp formed).2
  obtain ⟨body', isRead, same⟩ := reshaped_program present programFormed reads targets flat calm
  have whole : one (reshaped off (.tagged "Program" fields)) =
      .tagged "Program" (reshapedFields off fields) := by
    rw [reshaped_other off _ (by decide)]
    rfl
  refine ⟨_, body', prettify_eq off programFormed, ?_, whole ▸ isRead, fun w fuel st => by rw [same]⟩
  rw [whole]
  exact fits_node.mpr ⟨by decide, reshapedFields_formed off fields programFormed⟩

/-- A labelled loop with a comma in its start, a short circuit in its body and a continue. -/
def visitingLoop : List Stmt :=
  [.label "next" (.loop (.expression (.comma [.call "prepare" []] (.assign "i" (.call "first" []))))
    (some (.unary "!" (.call "done" [.name "i"]))) (some (.assign "i" (.call "step" [.name "i"])))
    (.block [.expression (.both (.name "i") (.call "visit" [.name "i"])), .continue (some "next")]))]

theorem prettify_keeps_meaning_visitingLoop :
    WellFormed (programTree visitingLoop) ∧ targetsBody [] visitingLoop = true ∧
      ∃ p' body', prettify (Registry.builtin.without []) (programTree visitingLoop) = .ok p' ∧
        WellFormed p' ∧ readsProgram body' p' ∧
        ∀ w fuel st, execAll w fuel body' st = execAll w fuel visitingLoop st :=
  ⟨by decide, by decide, prettify_keeps_meaning [] (by decide) (by decide)
    (readsProgram_tree visitingLoop) (by decide) (by decide) (Or.inr (by decide))⟩

/-- Assigns a name on the left of a comparison and reads it on the right. -/
def assigningComparison : List Stmt :=
  [.expression (.assign "y" (.binary "<" (.assign "x" (.literal [("value", .int 1)])) (.name "x")))]

/-- The same with the sides of the comparison exchanged. -/
def turnedComparison : List Stmt :=
  [.expression (.assign "y" (.binary ">" (.name "x") (.assign "x" (.literal [("value", .int 1)]))))]

/-- A world in which every operator tells whether its operands are the same. -/
def sameness : World where
  answer _ _ _ := .ok .undefined
  unary _ d := d
  binary _ a b := .ok (.bool (a == b))
  literal _ := .undefined
  symmetric _ _ a b := by rw [BEq.comm]
  mirrored a b := by rw [BEq.comm]
  mirroredOrEqual a b := by rw [BEq.comm]

/-- The rule for comparisons puts a name first, and so reads it before the other side assigns it. -/
theorem prettify_reads_too_early :
    WellFormed (programTree assigningComparison) ∧ targetsBody [] assigningComparison = true ∧
      flatBody assigningComparison = true ∧
      prettify Registry.builtin (programTree assigningComparison) =
        .ok (programTree turnedComparison) ∧
      readsProgram turnedComparison (programTree turnedComparison) ∧
      execAll sameness 0 turnedComparison ⟨fun _ => .undefined, []⟩ ≠
        execAll sameness 0 assigningComparison ⟨fun _ => .undefined, []⟩ := by
  refine ⟨by decide, rfl, rfl, rfl, readsProgram_tree _, fun same => ?_⟩
  have stored := congrArg (Option.map fun ended => ended.2.store "y") same
  exact absurd stored (by decide)

end Untangle.Semantics
