import Untangle.Diagnostic.Render
import Untangle.Proofs.Text.Decimal
import Untangle.Proofs.Text.Memory

/-!
# Carets under the right text

The rows of a rendered diagnostic line up: the bars of the gutter stand in one text column, and the
carets stand under the part of the source line that the place names. What the rows have to look like is
said of the lines of the rendered text alone, by text columns.

* `Points` is how a source row and a caret row stand to each other, and `Spans` how many carets there
  are.
* `carets_placeAt` computes the carets, after the checks that they and the blanks before them can be
  made.
* `render_makes` says that a diagnostic has one text, which is made wherever there is room for it.
* `renderAmong_points` is the main statement.
-/

namespace Untangle.Diagnostic

open Text (toString_int_chars not_mem_toString_int)

/-- A place that is given by integers. -/
def placeAt (file : String) (line column endLine endColumn : Int) : Location where
  file := .str file
  line := .int line
  column := .int column
  endLine := .int endLine
  endColumn := .int endColumn

/-- The first of such characters in a row stands in the given text column. -/
def FirstAt (c : Char) (column : Nat) (row : List Char) : Prop :=
  ∃ before after, row = before ++ c :: after ∧ c ∉ before ∧ before.length = column

/-- Rows that point at a line: the bars stand in one text column, the line begins two columns after it,
and the carets, one next to the other, begin under the character at `start`. -/
structure Points (bar start count : Nat) (shown after gutter source carets : List Char) : Prop where
  gutterBar : gutter = List.replicate bar ' ' ++ ['|']
  sourceBar : FirstAt '|' bar source
  caretBar : FirstAt '|' bar carets
  shows : ∀ i, source[bar + 2 + i]? = shown[i]?
  firstCaret : FirstAt '^' (bar + 2 + start) carets
  run : carets.drop (bar + 2 + start) = List.replicate count '^' ++ after
  apart : after.head? ≠ some '^'

/-- The end of a span counts if it is beyond the column, on the same line or on none. -/
def EndsBeyond (line column endLine endColumn : Int) : Prop :=
  (endLine = 0 ∨ endLine = line) ∧ column < endColumn

instance (line column endLine endColumn : Int) :
    Decidable (EndsBeyond line column endLine endColumn) :=
  inferInstanceAs (Decidable ((_ ∨ _) ∧ _))

/-- The part of a line that starts at a position is a delimiter alone, or a longest run of characters
that are none. -/
def IsToken (shown : List Char) (start count : Nat) : Prop :=
  ((shown[start]?).any isDelimiter = true ∧ count = 1) ∨
    ((∀ i < count, (shown[start + i]?).any (fun c => !isDelimiter c) = true) ∧
      (shown[start + count]?).all isDelimiter = true)

/-- The number of carets: the length of the span if its end counts, and that of the token at its start
otherwise. -/
structure Spans (line column endLine endColumn : Int) (shown : List Char) (start count : Nat) :
    Prop where
  positive : 0 < count
  span : EndsBeyond line column endLine endColumn → (count : Int) = endColumn - column
  token : ¬ EndsBeyond line column endLine endColumn → start < shown.length →
    start + count ≤ shown.length ∧ IsToken shown start count
  outside : ¬ EndsBeyond line column endLine endColumn → shown.length ≤ start → count = 1

/-! ## Lines of a text -/

theorem splitAt_ne_nil (separator : Char) (s : List Char) : Text.splitAt separator s ≠ [] := by
  unfold Text.splitAt
  split
  · simp
  · split
    · simp
    · split <;> simp

/-- The parts of two texts with a separator between them. -/
theorem splitAt_append (separator : Char) (s t : List Char) :
    Text.splitAt separator (s ++ separator :: t) =
      Text.splitAt separator s ++ Text.splitAt separator t := by
  induction s with
  | nil => simp [Text.splitAt]
  | cons c s ih =>
    rw [List.cons_append, Text.splitAt, Text.splitAt, ih]
    split
    · rfl
    · cases parts : Text.splitAt separator s with
      | nil => exact absurd parts (splitAt_ne_nil separator s)
      | cons part others => rfl

theorem splitAt_single {separator : Char} {s : List Char} (absent : separator ∉ s) :
    Text.splitAt separator s = [s] := by
  induction s with
  | nil => rfl
  | cons c s ih =>
    simp only [List.mem_cons, not_or] at absent
    rw [Text.splitAt, if_neg (Ne.symm absent.1), ih absent.2]

theorem splitAt_parts {separator : Char} {s part : List Char}
    (member : part ∈ Text.splitAt separator s) : separator ∉ part := by
  induction s generalizing part with
  | nil => simp_all [Text.splitAt]
  | cons c s ih =>
    rw [Text.splitAt] at member
    split at member
    · rcases List.mem_cons.mp member with rfl | member
      · simp
      · exact ih member
    · rename_i differs
      cases parts : Text.splitAt separator s with
      | nil => exact absurd parts (splitAt_ne_nil separator s)
      | cons first others =>
        rw [parts] at member ih
        rcases List.mem_cons.mp member with rfl | member
        · simp only [List.mem_cons, not_or]
          exact ⟨Ne.symm differs, ih (by simp)⟩
        · exact ih (by simp [member])

theorem length_splitAt (separator : Char) (s : List Char) :
    (Text.splitAt separator s).length = s.count separator + 1 := by
  induction s with
  | nil => rfl
  | cons c s ih =>
    rw [Text.splitAt]
    split
    · rename_i same
      rw [List.length_cons, ih, same, List.count_cons_self]
    · rename_i differs
      rw [List.count_cons_of_ne differs, ← ih]
      cases parts : Text.splitAt separator s with
      | nil => exact absurd parts (splitAt_ne_nil separator s)
      | cons first others => rfl

/-- The lines of joined rows are the lines of the rows. -/
theorem linesOf_intercalate {first : String} {rows : List String} :
    linesOf ("\n".intercalate (first :: rows)) = (first :: rows).flatMap linesOf := by
  unfold linesOf
  rw [String.toList_intercalate]
  induction rows generalizing first with
  | nil => simp [List.intercalate]
  | cons second rows ih =>
    have joined : List.intercalate "\n".toList (List.map String.toList (first :: second :: rows)) =
        first.toList ++ '\n' :: List.intercalate "\n".toList (List.map String.toList (second :: rows)) := by
      simp [List.intercalate]
    rw [joined, splitAt_append, ih, List.flatMap_cons (x := first)]

/-! ## The number of carets -/

theorem isToken_tokenLength {shown : List Char} {start : Nat} (inside : start < shown.length) :
    start + tokenLength shown start ≤ shown.length ∧
      IsToken shown start (tokenLength shown start) := by
  have rest : shown.drop start = shown[start] :: shown.drop (start + 1) :=
    List.drop_eq_getElem_cons inside
  by_cases delimiter : isDelimiter shown[start] = true
  · have single : tokenLength shown start = 1 := by
      rw [tokenLength, rest, List.takeWhile_cons_of_neg (by simp [delimiter])]
      rfl
    rw [single]
    exact ⟨inside, .inl ⟨by simp [inside, delimiter], rfl⟩⟩
  · -- The token is the longest run: what is left of the line after it starts with a delimiter.
    let run := (shown.drop start).takeWhile fun c => !isDelimiter c
    let left := (shown.drop start).dropWhile fun c => !isDelimiter c
    have parts : shown.drop start = run ++ left := (List.takeWhile_append_dropWhile).symm
    have length : tokenLength shown start = run.length := by
      have positive : 0 < run.length := by
        simp only [run]
        rw [rest, List.takeWhile_cons_of_pos (by simp [delimiter])]
        exact Nat.succ_pos _
      exact Nat.max_eq_right positive
    have total : run.length + left.length = shown.length - start := by
      rw [← List.length_append, ← parts, List.length_drop]
    have reads (i : Nat) : shown[start + i]? = (run ++ left)[i]? := by
      rw [← parts, List.getElem?_drop]
    rw [length]
    refine ⟨by omega, .inr ⟨fun i small => ?_, ?_⟩⟩
    · rw [reads, List.getElem?_append_left small, List.getElem?_eq_getElem small, Option.any_some]
      have all : run.all (fun c => !isDelimiter c) = true := List.all_takeWhile
      exact List.all_eq_true.mp all _ (List.getElem_mem small)
    · rw [reads, List.getElem?_append_right (Nat.le_refl _), Nat.sub_self, ← List.head?_eq_getElem?]
      have ends := List.head?_dropWhile_not (fun c => !isDelimiter c) (shown.drop start)
      cases first : left.head? with
      | none => rfl
      | some c =>
        rw [first] at ends
        simpa using ends

/-- The length of a span, if its end counts. -/
def knownSpan (line column endLine endColumn : Int) : Option Int :=
  if EndsBeyond line column endLine endColumn then some (endColumn - column) else none

theorem spans_caretCount (line column endLine endColumn : Int) (shown : List Char) (start : Nat) :
    Spans line column endLine endColumn shown start
      (caretCount (knownSpan line column endLine endColumn) shown start) := by
  by_cases beyond : EndsBeyond line column endLine endColumn
  · have further : column < endColumn := beyond.2
    have count : caretCount (knownSpan line column endLine endColumn) shown start =
        max 1 (endColumn - column).toNat := by simp [knownSpan, beyond, caretCount]
    rw [count]
    exact ⟨by omega, fun _ => by omega, fun unknown => absurd beyond unknown,
      fun unknown => absurd beyond unknown⟩
  · have count : caretCount (knownSpan line column endLine endColumn) shown start =
        tokenLength shown start := by simp [knownSpan, beyond, caretCount]
    rw [count]
    refine ⟨Nat.le_max_left _ _, fun known => absurd known beyond,
      fun _ inside => isToken_tokenLength inside, fun _ outside => ?_⟩
    simp [tokenLength, List.drop_eq_nil_of_le outside]

theorem spanLength_placeAt (file : String) (line column endLine endColumn : Int) :
    spanLength (placeAt file line column endLine endColumn) =
      .ok (knownSpan line column endLine endColumn) := by
  have same (a b : Int) : (Value.int a).same (.int b) = (a == b) := by
    simp [Value.same, Value.sameScalar, Value.asInt?]
  simp only [spanLength, placeAt, same, knownSpan, EndsBeyond]
  by_cases sameLine : endLine = 0 ∨ endLine = line
  · by_cases further : column < endColumn <;>
      simp [sameLine, further, isBeyond, columnsBetween, Value.asInt?]
  · simp [sameLine]

section Place

variable {file : String} {line column endLine endColumn : Int} {shown : List Char} {start count : Nat}

/-- The carets of a place, after the two checks that they can be made. -/
theorem carets_placeAt (memory : Text.Memory) (starts : (max column 1 - 1).toNat = start)
    (counted : caretCount (knownSpan line column endLine endColumn) shown start = count) :
    carets memory (placeAt file line column endLine endColumn) shown = (do
      memory.checkRepeat 1 start
      memory.checkRepeat 1 count
      return String.ofList (List.replicate start ' ' ++ List.replicate count '^')) := by
  have first : caretStart (placeAt file line column endLine endColumn).column = .ok start := by
    rw [← starts]
    rfl
  unfold carets
  rw [spanLength_placeAt, first, ← counted]
  rfl

end Place

/-! ## The rows -/

theorem plainText_int (i : Int) : (Value.int i).plainText = toString i := by
  simp [Value.plainText, Value.display, Value.displayScalar]

theorem gutterWidth_placeAt (file : String) (line column endLine endColumn : Int) :
    gutterWidth (placeAt file line column endLine endColumn) = (toString line).length := by
  have wide := List.length_pos_iff.mpr (toString_int_chars line).1
  rw [String.length_toList] at wide
  simp only [gutterWidth, placeAt, plainText_int]
  omega

/-- The rows of a source line and of carets, with the number of the line in the gutter. -/
theorem points_of_rows {number after : List Char} {count : Nat} (shown : List Char) (start : Nat)
    (positive : 0 < count) (noBar : '|' ∉ number) (apart : after.head? ≠ some '^') :
    Points (number.length + 1) start count shown after
      (List.replicate (number.length + 1) ' ' ++ ['|'])
      (number ++ [' ', '|', ' '] ++ shown)
      (List.replicate (number.length + 1) ' ' ++ ['|', ' '] ++
        (List.replicate start ' ' ++ List.replicate count '^') ++ after) where
  gutterBar := rfl
  sourceBar := ⟨number ++ [' '], ' ' :: shown, by simp, by simp [noBar], by simp⟩
  caretBar := ⟨List.replicate (number.length + 1) ' ',
    ' ' :: (List.replicate start ' ' ++ List.replicate count '^' ++ after), by simp, by simp, by simp⟩
  shows i := by
    rw [List.getElem?_append_right (by simp)]
    simp
  firstCaret := by
    obtain ⟨n, rfl⟩ : ∃ n, count = n + 1 := ⟨count - 1, by omega⟩
    refine ⟨List.replicate (number.length + 1) ' ' ++ ['|', ' '] ++ List.replicate start ' ',
      List.replicate n '^' ++ after, ?_, by simp, by simp; omega⟩
    simp [List.replicate_succ]
  run := by
    have width : number.length + 1 + 2 + start = (List.replicate (number.length + 1) ' ' ++
        ['|', ' '] ++ List.replicate start ' ').length := by simp; omega
    rw [width, ← List.append_assoc, List.append_assoc _ _ after, List.drop_left]
  apart := apart

/-- The rows of a diagnostic about a place, with the source line and the carets. -/
def rowsAt (d : Diagnostic) (l : Location) (shown : List Char) (start count : Nat) : List String :=
  headRow d false :: placeRow false (gutterWidth l) l.text ::
    (blanks (gutterWidth l + 1) ++ "|") ::
    (l.line.plainText ++ " | " ++ String.ofList shown) ::
    (blanks (gutterWidth l + 1) ++ "| " ++
      (String.ofList (List.replicate start ' ' ++ List.replicate count '^') ++ labelText d)) ::
    helpRows d false (gutterWidth l)

/-- What stands after the carets is nothing, or a blank and the label. -/
theorem labelText_cases (d : Diagnostic) : labelText d = "" ∨ ∃ label, d.label = some label ∧
    labelText d = " " ++ label := by
  cases named : nonempty d.label with
  | none => exact .inl (by simp [labelText, named])
  | some label =>
    have given : d.label = some label := (Option.filter_eq_some_iff.mp named).1
    exact .inr ⟨label, given, by simp [labelText, named]⟩

theorem lineAt_newline (source : String) (line : Int) : '\n' ∉ lineAt (linesOf source) line := by
  unfold lineAt
  split
  · rw [List.getD_eq_getElem?_getD]
    cases found : (linesOf source)[(line - 1).toNat]? with
    | none => simp
    | some part => exact splitAt_parts (List.mem_of_getElem? found)
  · simp

section Lines

variable {d : Diagnostic} {file : String} {line column endLine endColumn : Int}

/-- The message adds no line to the first row; a code may. -/
theorem length_linesOf_headRow (messageLine : '\n' ∉ d.message.toList) :
    (linesOf (headRow d false)).length = 1 + (d.code.getD "").toList.count '\n' := by
  have quiet := List.count_eq_zero.mpr messageLine
  rw [linesOf, length_splitAt, Nat.add_comm]
  congr 1
  cases given : d.code with
  | none => simp [headRow, styled, nonempty, given, quiet]
  | some code =>
    by_cases empty : code = ""
    · have absent : nonempty (some "") = none := by simp [nonempty, Option.filter]
      simp [headRow, styled, given, empty, absent, quiet]
    · have present : nonempty (some code) = some code := by simp [nonempty, Option.filter, empty]
      simp [headRow, styled, given, present, quiet, toString]

theorem length_linesOf_placeRow {width : Nat} (fileLine : '\n' ∉ file.toList) :
    (linesOf (placeRow false width (placeAt file line column endLine endColumn).text)).length = 1 := by
  have digits (i : Int) : '\n' ∉ (toString i).toList := not_mem_toString_int (by decide) (by decide)
  have row : '\n' ∉ (placeRow false width (placeAt file line column endLine endColumn).text).toList := by
    have text : (placeAt file line column endLine endColumn).text =
        file ++ ":" ++ toString line ++ ":" ++ toString column := by
      simp only [Location.text, placeAt, plainText_int]
      rfl
    simp [-Int.toString_eq_repr, placeRow, styled, blanks, text, fileLine, digits]
  rw [linesOf, splitAt_single row]
  rfl

theorem linesOf_gutter (width : Nat) :
    linesOf (blanks width ++ "|") = [List.replicate width ' ' ++ ['|']] := by
  rw [linesOf, splitAt_single (by simp [blanks])]
  simp [blanks]

theorem linesOf_sourceRow {shown : List Char} (unbroken : '\n' ∉ shown) (line : Int) :
    linesOf (toString line ++ " | " ++ String.ofList shown) =
      [(toString line).toList ++ [' ', '|', ' '] ++ shown] := by
  have number : '\n' ∉ (toString line).toList := not_mem_toString_int (by decide) (by decide)
  rw [linesOf, splitAt_single (by simp [-Int.toString_eq_repr, number, unbroken])]
  simp [-Int.toString_eq_repr]

theorem linesOf_caretRow (width start count : Nat) {label : String} (labelLine : '\n' ∉ label.toList) :
    linesOf (blanks width ++ "| " ++
        (String.ofList (List.replicate start ' ' ++ List.replicate count '^') ++ label)) =
      [List.replicate width ' ' ++ ['|', ' '] ++
        (List.replicate start ' ' ++ List.replicate count '^') ++ label.toList] := by
  rw [linesOf, splitAt_single (by simp [blanks, labelLine])]
  simp [blanks]

/-- The rows of a help text begin with the gutter alone. -/
theorem head_helpRows (d : Diagnostic) (width : Nat) :
    ((helpRows d false width).flatMap linesOf).head? =
      (nonempty d.help).map fun _ => List.replicate (width + 1) ' ' ++ ['|'] := by
  cases given : nonempty d.help with
  | none => simp [helpRows, given]
  | some help => simp [helpRows, given, styled, linesOf_gutter]

end Lines

section Main

variable {d : Diagnostic} {file source : String} {line column endLine endColumn : Int}
  {sources : List (String × String)}

theorem renderAmong_known (memory : Text.Memory)
    (located : d.location = some (placeAt file line column endLine endColumn))
    (known : sources.lookup file = some source) :
    d.renderAmong memory sources false = d.render memory (some source) false := by
  have found : (placeAt file line column endLine endColumn).sourceAmong sources =
      .ok (some source) := by
    show Except.ok (sources.lookup file) = _
    rw [known]
  unfold renderAmong
  rw [located]
  simp only [found, ok_bind]

theorem render_placeAt {start count : Nat} (memory : Text.Memory)
    (located : d.location = some (placeAt file line column endLine endColumn))
    (starts : (max column 1 - 1).toNat = start)
    (counted : caretCount (knownSpan line column endLine endColumn) (lineAt (linesOf source) line)
      start = count) :
    d.render memory (some source) false = (do
      memory.checkRepeat 1 start
      memory.checkRepeat 1 count
      memory.make ("\n".intercalate (rowsAt d (placeAt file line column endLine endColumn)
        (lineAt (linesOf source) line) start count))) := by
  have numbered : lineNumber (placeAt file line column endLine endColumn).line
      (linesOf source).length = .ok line := rfl
  unfold render rows sourceRows
  rw [located]
  simp only [numbered, ok_bind, carets_placeAt memory starts counted]
  cases memory.checkRepeat 1 start with
  | error fault => rfl
  | ok _ => cases memory.checkRepeat 1 count <;> rfl

theorem length_le_intercalate {row : String} {rows : List String} (member : row ∈ rows) :
    row.length ≤ ("\n".intercalate rows).length := by
  rw [← String.length_toList, ← String.length_toList, String.toList_intercalate]
  induction rows with
  | nil => cases member
  | cons first rest ih =>
    cases rest with
    | nil =>
      obtain rfl := List.mem_singleton.mp member
      simp [List.intercalate]
    | cons second rest =>
      simp only [List.intercalate, List.map_cons, List.intersperse_cons_cons, List.flatten_cons,
        List.length_append] at ih ⊢
      rcases List.mem_cons.mp member with rfl | member
      · omega
      · have inner := ih member
        omega

/-- A diagnostic about a place has one text, which is made wherever there is room for it. -/
theorem render_makes {start count : Nat}
    (located : d.location = some (placeAt file line column endLine endColumn))
    (starts : (max column 1 - 1).toNat = start)
    (counted : caretCount (knownSpan line column endLine endColumn) (lineAt (linesOf source) line)
      start = count) :
    Text.Memory.Makes (fun _ => True)
      ("\n".intercalate (rowsAt d (placeAt file line column endLine endColumn)
        (lineAt (linesOf source) line) start count))
      (fun memory => d.render memory (some source) false) where
  only memory := by
    rw [render_placeAt memory located starts counted]
    exact (memory.checkRepeat_answers 1 start).bind fun _ _ =>
      (memory.checkRepeat_answers 1 count).bind fun _ _ => memory.make_gives _
  enough memory _ holds := by
    -- The row of the carets is a part of the text, so there is room for the blanks and the carets.
    have drawn : start + count ≤ ("\n".intercalate (rowsAt d (placeAt file line column endLine endColumn)
        (lineAt (linesOf source) line) start count)).length := by
      refine Nat.le_trans ?_ (length_le_intercalate (.tail _ (.tail _ (.tail _ (.tail _ (.head _))))))
      simp only [String.length_append, String.length_ofList, List.length_append, List.length_replicate]
      omega
    have made {n : Nat} (part : n ≤ start + count) : memory.checkRepeat 1 n = .ok () := by
      have room := holds.mono (Nat.le_trans part drawn)
      have counted := room.counted
      rw [← Nat.one_mul n] at room
      exact room.checkRepeat (by omega) (Int.le_refl _) (by omega)
    rw [render_placeAt memory located starts counted, made (Nat.le_add_right _ _),
      made (Nat.le_add_left _ _)]
    exact holds.make
  fitting memory gives := by
    rw [render_placeAt memory located starts counted] at gives
    obtain ⟨-, -, gives⟩ := ok_of_bind gives
    obtain ⟨-, -, gives⟩ := ok_of_bind gives
    exact Text.Memory.fitting_of_make gives

/-- The lines of a diagnostic about a place. -/
theorem linesOf_rowsAt {start count : Nat} (shown : List Char) (unbroken : '\n' ∉ shown)
    (messageLine : '\n' ∉ d.message.toList) (fileLine : '\n' ∉ file.toList)
    (labelLine : '\n' ∉ (d.label.getD "").toList) (positive : 0 < count) :
    ∃ bar front gutter sourceRow caretRow help,
      linesOf ("\n".intercalate (rowsAt d (placeAt file line column endLine endColumn) shown start
        count)) = front ++ gutter :: sourceRow :: caretRow :: help ∧
      front.length = 2 + (d.code.getD "").toList.count '\n' ∧
      Points bar start count shown (labelText d).toList gutter sourceRow caretRow ∧
      help.head? = (nonempty d.help).map fun _ => gutter := by
  have tail : '\n' ∉ (labelText d).toList ∧ (labelText d).toList.head? ≠ some '^' := by
    rcases labelText_cases d with none | ⟨label, given, tail⟩
    · simp [none]
    · rw [given, Option.getD_some] at labelLine
      simp [tail, labelLine]
  have noBar : '|' ∉ (toString line).toList := not_mem_toString_int (by decide) (by decide)
  have points := points_of_rows shown start positive noBar tail.2
  rw [String.length_toList] at points
  refine ⟨_, linesOf (headRow d false) ++ linesOf (placeRow false (toString line).length
    (placeAt file line column endLine endColumn).text), _, _, _,
    (helpRows d false (toString line).length).flatMap linesOf, ?_, ?_, points, head_helpRows d _⟩
  · rw [rowsAt, gutterWidth_placeAt,
      show (placeAt file line column endLine endColumn).line = .int line from rfl, plainText_int,
      linesOf_intercalate]
    simp only [List.flatMap_cons, linesOf_gutter, linesOf_sourceRow unbroken,
      linesOf_caretRow _ start count tail.1, List.append_assoc, List.cons_append, List.nil_append]
  · rw [List.length_append, length_linesOf_headRow messageLine, length_linesOf_placeRow fileLine]
    omega

/-- A diagnostic about a place in a known text points at the right part of it. There is one text that
does so, and it is made wherever there is room for it. -/
theorem renderAmong_points (located : d.location = some (placeAt file line column endLine endColumn))
    (known : sources.lookup file = some source)
    (messageLine : '\n' ∉ d.message.toList) (fileLine : '\n' ∉ file.toList)
    (labelLine : '\n' ∉ (d.label.getD "").toList) :
    let shown := lineAt (linesOf source) line
    let start := (max column 1 - 1).toNat
    ∃ count text bar front gutter sourceRow caretRow help,
      Text.Memory.Makes (fun _ => True) text (fun memory => d.renderAmong memory sources false) ∧
      linesOf text = front ++ gutter :: sourceRow :: caretRow :: help ∧
      front.length = 2 + (d.code.getD "").toList.count '\n' ∧
      Points bar start count shown (labelText d).toList gutter sourceRow caretRow ∧
      Spans line column endLine endColumn shown start count ∧
      help.head? = (nonempty d.help).map fun _ => gutter := by
  intro shown start
  have spans := spans_caretCount line column endLine endColumn shown start
  have makes := @render_makes d file source line column endLine endColumn _ _ located rfl rfl
  obtain ⟨bar, front, gutter, sourceRow, caretRow, help, lines, fronted, points, helped⟩ :=
    @linesOf_rowsAt d file line column endLine endColumn start _ shown (lineAt_newline source line)
      messageLine fileLine labelLine spans.positive
  refine ⟨_, _, bar, front, gutter, sourceRow, caretRow, help, ?_, lines, fronted, points, spans, helped⟩
  have same : (fun memory => d.renderAmong memory sources false) =
      fun memory => d.render memory (some source) false :=
    funext fun memory => renderAmong_known memory located known
  rw [same]
  exact makes

/-- Three carets under the name of a called function, in the second line. -/
theorem renderAmong_points_token :
    let d : Diagnostic := {
      message := "unknown function", location := some (placeAt "a.js" 2 3 0 0), code := some "E7",
      help := some "define it first", label := some "here" }
    ∃ text bar front gutter sourceRow caretRow help,
      (∀ memory : Text.Memory, memory.HoldsUpTo text.length →
        d.renderAmong memory [("a.js", "start();\n  foo(1);")] false = .ok text) ∧
      linesOf text = front ++ gutter :: sourceRow :: caretRow :: help ∧ front.length = 2 ∧
      Points bar 2 3 "  foo(1);".toList " here".toList gutter sourceRow caretRow ∧
      help.head? = some gutter := by
  intro d
  have known : List.lookup "a.js" [("a.js", "start();\n  foo(1);")] = some "start();\n  foo(1);" := rfl
  have shown : lineAt (linesOf "start();\n  foo(1);") 2 = "  foo(1);".toList := by decide
  have tail : labelText d = " here" := by decide
  have noBreak : (d.code.getD "").toList.count '\n' = 0 := by decide
  have helpful : nonempty d.help = some "define it first" := by decide
  obtain ⟨count, text, bar, front, gutter, sourceRow, caretRow, help, makes, lines, fronted, points,
    spans, helped⟩ := renderAmong_points (d := d) rfl known (by decide) (by decide) (by decide)
  rw [shown, show (max (3 : Int) 1 - 1).toNat = 2 from rfl] at spans points
  rw [tail] at points
  rw [noBreak] at fronted
  rw [helpful] at helped
  have three : count = 3 := by
    obtain ⟨-, delimiter | ⟨run, stop⟩⟩ := spans.token (by decide) (by decide)
    · exact absurd delimiter.1 (by decide)
    · have positive := spans.positive
      have short : ¬ 3 < count := fun more => absurd (run 3 more) (by decide)
      obtain rfl | rfl | rfl : count = 1 ∨ count = 2 ∨ count = 3 := by omega
      · exact absurd stop (by decide)
      · exact absurd stop (by decide)
      · rfl
  subst three
  exact ⟨text, bar, front, gutter, sourceRow, caretRow, help,
    fun memory holds => makes.enough memory trivial holds, lines, fronted, points, helped⟩

/-- The carets are not made if too many blanks would stand before them, however much room there is. -/
theorem renderAmong_farColumn :
    let d : Diagnostic := {
      message := "m", location := some (placeAt "f" 1 9223372036854775809 0 0) }
    '\n' ∉ d.message.toList ∧
      ∀ memory, d.renderAmong memory [("f", "x")] false = .error .tooLarge := by
  intro d
  refine ⟨by decide, fun memory => ?_⟩
  rw [renderAmong_known (d := d) memory rfl rfl, render_placeAt memory rfl rfl rfl,
    Text.Memory.checkRepeat_tooLarge (by decide)]
  rfl

end Main

end Untangle.Diagnostic
