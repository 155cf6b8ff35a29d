import Untangle.Proofs.Print.Indentation
import Untangle.Proofs.Print.Statements
import Untangle.Proofs.Reshape.Adequacy

/-!
# Every reshaped program can be printed

Printing a well-formed tree fails for one reason only: a text cannot be made, be it the blanks in
front of a line or the text as a whole. The proof goes through the printers by depth. A printer prints
what is well-formed, no deeper than it reaches, and at a level from which the margins suffice; the
printer above it then does so for trees of one more level.

* `Prints.above` is the step, and `prints_ofDepth` what is said of the printer for a depth.
* `generate_makes` is the statement about well-formed programs.
* `prettify_then_generate` puts it after the rules: they keep programs well-formed.
-/

namespace Untangle.Print

open Syntax Reshape

section Printers

variable {E : Fault → Prop}

theorem depth_pos_of_fits {tags : List String} {v : Value} (fit : fits (.one tags) v = true) :
    0 < v.depth := by
  obtain ⟨tag, fields, rfl, -⟩ := fits_one.mp fit
  simp [Value.depth]

/-- A node that a printer one level up reaches stands with room for its fields. -/
theorem standing_of_fits {depth : Nat} {bound level : Int} {tags : List String} {v : Value}
    (fit : fits (.one tags) v = true) (reached : v.depth ≤ depth + 1) (nonneg : 0 ≤ level)
    (low : level + v.depth ≤ bound) :
    ∃ tag fields, v = .tagged tag fields ∧ tag ∈ tags ∧ Standing depth bound level tag fields := by
  have positive := depth_pos_of_fits fit
  obtain ⟨tag, fields, rfl, admitted, formed⟩ := fits_one.mp fit
  exact ⟨tag, fields, rfl, admitted, formed, roomy_of_depth reached nonneg low, nonneg, by omega⟩

/-- The printer above one that prints trees up to a depth prints those one level deeper. -/
theorem Prints.above {p : Printer} {depth : Nat} {bound : Int} (prints : Prints E p depth bound) :
    Prints E p.above (depth + 1) bound where
  margin := prints.margin
  expression place precedence v fit reached nonneg low := by
    obtain ⟨tag, fields, rfl, isExpression, node⟩ := standing_of_fits fit reached nonneg low
    exact expressionPhrase_gives prints node isExpression precedence
  statement level v fit reached nonneg low := by
    obtain ⟨tag, fields, rfl, isPrinted, node⟩ := standing_of_fits fit reached nonneg low
    exact statementText_answers prints node isPrinted

/-- The printer for a depth prints trees up to that depth. -/
theorem prints_ofDepth {ruler : Ruler} {bound : Int}
    (levels : ∀ level, 0 ≤ level → level ≤ bound → Answers E (ruler.check level)) (depth : Nat) :
    Prints E (Printer.ofDepth ruler depth) depth bound := by
  induction depth with
  | zero =>
    refine ⟨fun level nonneg low => (levels level nonneg low).bind fun _ _ => trivial, ?_, ?_⟩
    · intro place precedence v fit reached
      exact absurd reached (Nat.not_le.mpr (depth_pos_of_fits fit))
    · intro level v fit reached
      exact absurd reached (Nat.not_le.mpr (depth_pos_of_fits fit))
  | succ depth ih => exact ih.above

end Printers

/-- A well-formed program is laid out where nothing is in the way of its lines. -/
theorem layout_ok {program : Value} (formed : WellFormed program) (width : Nat) :
    ∃ phrase, layout (freeRuler width) program = .ok phrase := by
  have prints := @prints_ofDepth (fun _ => False) (freeRuler width) program.depth
    (fun _ _ _ => trivial) program.depth
  have answers := prints.statement 0 program (fits_mono formed (by decide)) (Nat.le_refl _)
    (Int.le_refl _) (by omega)
  obtain ⟨tag, fields, rfl, isProgram, -⟩ := fits_one.mp formed
  obtain rfl := List.mem_singleton.mp isProgram
  have laid : Answers (fun _ => False) (layout (freeRuler width) (.tagged "Program" fields)) :=
    answers.bind fun _ _ => trivial
  cases outcome : layout (freeRuler width) (.tagged "Program" fields) with
  | ok phrase => exact ⟨phrase, rfl⟩
  | error fault =>
    rw [outcome] at laid
    exact laid.elim

/-- A well-formed program has one text for a width, which is made wherever there is room for it. -/
theorem generate_makes {program : Value} (formed : WellFormed program) (indent : Int) :
    ∃ text, Text.Memory.Makes (Indents · indent 0 program.depth) text (generate · program indent) := by
  obtain ⟨phrase, free⟩ := layout_ok formed indent.toNat
  exact ⟨_, written_makes (layout_unhindered program _) free⟩

/-! ## After the rules -/

theorem reshape_expression (off : List String) {v : Value} {depth : Nat}
    (fit : fits Syntax.expression v = true) (deep : v.size + 6 ≤ depth) :
    ∃ n, Yields (reshape (engineWithout off depth) v) [n] ∧ fits Syntax.expression n = true := by
  obtain ⟨tag, fields, rfl, isExpression, formed⟩ := fits_one.mp fit
  have outcome := reshaped_fits off formed
  obtain ⟨n, single⟩ := outcome.single (expression_not_split tag isExpression)
  have yields := @reshape_yields off depth tag fields formed deep
  rw [single] at outcome yields
  refine ⟨n, yields, fits_mono (outcome.each n (by simp)) fun other isOutcome => ?_⟩
  exact mem_of_closed (show isClosed Syntax.expression = true by decide) isExpression isOutcome

theorem reshape_statement (off : List String) {v : Value} {depth : Nat}
    (fit : fits Syntax.statement v = true) (deep : v.size + 6 ≤ depth) :
    ∃ nodes, Yields (reshape (engineWithout off depth) v) nodes ∧ Statements nodes := by
  obtain ⟨tag, fields, rfl, isStatement, formed⟩ := fits_one.mp fit
  have outcome := reshaped_fits off formed
  refine ⟨_, reshape_yields fields formed deep, outcome.nonempty, fun n member => ?_⟩
  refine fits_mono (outcome.each n member) fun other isOutcome => ?_
  exact mem_of_closed (show isClosed Syntax.statement = true by decide) isStatement isOutcome

theorem prettify_wellFormed (off : List String) {program : Value} (formed : WellFormed program) :
    ∃ result, prettify (Registry.builtin.without off) program = .ok result ∧ WellFormed result := by
  obtain ⟨fields, -, -, -, answer, resultFormed⟩ := prettify_program off formed
  exact ⟨_, answer, resultFormed⟩

/-- The built-in rules, perhaps without some, turn each expression into one expression and each
statement into one or more statements, a well-formed program into a well-formed program, and that
program has a text for every indentation, which is made wherever there is room for it. -/
theorem prettify_then_generate (off : List String) {program : Value} (formed : WellFormed program) :
    (∀ v depth, fits Syntax.expression v = true → v.size + 6 ≤ depth →
      ∃ n, Yields (reshape (engineWithout off depth) v) [n] ∧ fits Syntax.expression n = true) ∧
    (∀ v depth, fits Syntax.statement v = true → v.size + 6 ≤ depth →
      ∃ nodes, Yields (reshape (engineWithout off depth) v) nodes ∧ Statements nodes) ∧
    ∃ result, prettify (Registry.builtin.without off) program = .ok result ∧ WellFormed result ∧
      ∀ indent, ∃ text,
        Text.Memory.Makes (Indents · indent 0 result.depth) text (generate · result indent) := by
  obtain ⟨result, answer, resultFormed⟩ := prettify_wellFormed off formed
  exact ⟨fun v depth => reshape_expression off, fun v depth => reshape_statement off, result, answer,
    resultFormed, generate_makes resultFormed⟩

/-- A labelled loop whose initializer is `x && f(), i`. -/
def guardedLoop : Value :=
  let name (text : String) : Value := .tagged "Identifier" [("name", .str text)]
  let call := Value.tagged "CallExpression" [("callee", name "f"), ("arguments", .seq [])]
  let guard := Value.tagged "LogicalExpression"
    [("operator", .str "&&"), ("left", name "x"), ("right", call)]
  let start := Value.tagged "SequenceExpression" [("expressions", .seq [guard, name "i"])]
  let loop := Value.tagged "ForStatement"
    [("init", start), ("test", .null), ("update", .null), ("body", .tagged "EmptyStatement" [])]
  .tagged "Program" [("body", .seq [.tagged "LabeledStatement" [("label", name "l"), ("body", loop)]])]

/-- The rules take the guard out of the loop, and the result has a text for a width of two in every
memory that holds a hundred characters. -/
theorem prettify_then_generate_guardedLoop :
    WellFormed guardedLoop ∧ ∃ result, prettify (Registry.builtin.without []) guardedLoop =
      .ok result ∧ WellFormed result ∧ ∀ memory : Text.Memory, memory.HoldsUpTo 100 →
        generate memory result 2 = .ok "l: \x7b\n  if (x)\n    f();\n  for (i;;);\n\x7d" := by
  have formed : WellFormed guardedLoop := by decide
  obtain ⟨-, -, result, answer, resultFormed, texts⟩ := prettify_then_generate [] formed
  obtain ⟨text, made⟩ := texts 2
  have measured : (prettify (Registry.builtin.without []) guardedLoop).map Value.depth = .ok 10 := rfl
  have printed : (prettify (Registry.builtin.without []) guardedLoop).bind
      (generate (.upTo 100) · 2) = .ok "l: \x7b\n  if (x)\n    f();\n  for (i;;);\n\x7d" := rfl
  rw [answer] at measured printed
  have deep : result.depth = 10 := Except.ok.inj measured
  have gives := made.only (.upTo 100)
  rw [show generate (.upTo 100) result 2 = _ from printed] at gives
  obtain rfl : _ = text := gives
  refine ⟨formed, result, answer, resultFormed, fun memory holds => made.enough memory ?_ ?_⟩
  · rw [deep]
    exact ⟨holds.mono (by decide), holds.mono (by decide), by decide, by decide, by decide⟩
  · exact holds.mono (by decide)

def emptyProgram : Value :=
  .tagged "Program" [("body", .seq [])]

/-- A width beyond every index leaves even the empty program without a text. -/
theorem generate_emptyProgram_tooLarge :
    WellFormed emptyProgram ∧ prettify Registry.builtin emptyProgram = .ok emptyProgram ∧
      ∀ memory, generate memory emptyProgram 9223372036854775808 = .error .tooLarge :=
  ⟨by decide, rfl, fun _ => rfl⟩

end Untangle.Print
