import Untangle.Print.Doc

/-!
# Brackets and bare words

Laid-out text is read from left to right with the brackets that are open. Outside of all brackets it is
also seen what has been read since the last blank, as far as it matters to the word `in`. A text passes
if no bracket is closed that was not opened, and if no `in` stands between blanks outside of brackets.

* `BareIn` says that a text has such an `in`, and `not_bareIn` that one that passes has none.
* `Passes` says of a document where reading can stand before it and after it. It comes in two halves:
  one for the document somewhere in brackets, and one for the document outside of them.
-/

namespace Untangle.Print

def isOpening (c : Char) : Bool :=
  c == '(' || c == '[' || c == '\x7b'

def isClosing (c : Char) : Bool :=
  c == ')' || c == ']' || c == '\x7d'

/-- The number of brackets that a text opens and does not close. -/
def bracketDepth (cs : List Char) : Int :=
  cs.countP isOpening - cs.countP isClosing

/-- An `in` stands between blanks where no bracket is open. -/
def BareIn (cs : List Char) : Prop :=
  ∃ before after, cs = before ++ " in ".toList ++ after ∧ bracketDepth before = 0

/-! ## Reading along -/

/-- What has been read since the last blank: nothing, `i`, `in`, or anything else. -/
inductive Word where
  | fresh
  | begun
  | whole
  | other
  deriving DecidableEq, Repr

def Word.next : Word → Char → Word
  | .fresh, 'i' => .begun
  | .begun, 'n' => .whole
  | _, _ => .other

/-- Where reading stands: outside of brackets, or inside one and as many more as are given. -/
inductive Spot where
  | outside (word : Word)
  | inside (more : Nat)
  deriving DecidableEq, Repr

/-- Reading one character. A bracket that was not opened does not pass, nor does a blank after `in`. -/
def Spot.step : Spot → Char → Option Spot
  | .outside word, c =>
    if isOpening c then some (.inside 0)
    else if isClosing c then none
    else if c = ' ' then if word = .whole then none else some (.outside .fresh)
    else some (.outside (word.next c))
  | .inside more, c =>
    if isOpening c then some (.inside (more + 1))
    else if isClosing c then
      match more with
      | 0 => some (.outside .other)
      | more + 1 => some (.inside more)
    else some (.inside more)

def scan (spot : Spot) (cs : List Char) : Option Spot :=
  cs.foldlM Spot.step spot

/-- Reading two texts is reading one, and then the other from where that ended. -/
theorem scan_append (spot : Spot) (first second : List Char) :
    scan spot (first ++ second) = (scan spot first).bind fun next => scan next second :=
  List.foldlM_append

theorem scan_cons (spot : Spot) (c : Char) (rest : List Char) :
    scan spot (c :: rest) = (spot.step c).bind fun next => scan next rest :=
  List.foldlM_cons

/-- The number of brackets that are open. -/
def Spot.depth : Spot → Nat
  | .outside _ => 0
  | .inside more => more + 1

/-- What a character does to the open brackets. -/
theorem step_cases {spot next : Spot} {c : Char} (stepped : spot.step c = some next) :
    (isOpening c = true ∧ next.depth = spot.depth + 1) ∨
      (isOpening c = false ∧ isClosing c = true ∧ spot.depth = next.depth + 1) ∨
        (isOpening c = false ∧ isClosing c = false ∧ next.depth = spot.depth) := by
  unfold Spot.step at stepped
  grind [Spot.depth]

theorem isClosing_of_isOpening {c : Char} (opens : isOpening c = true) : isClosing c = false := by
  simp only [isOpening, Bool.or_eq_true, beq_iff_eq] at opens
  rcases opens with (rfl | rfl) | rfl <;> rfl

theorem bracketDepth_cons (c : Char) (rest : List Char) :
    bracketDepth (c :: rest) = bracketDepth [c] + bracketDepth rest := by
  simp only [bracketDepth, List.countP_cons, List.countP_nil]
  omega

/-- A character changes the number of open brackets by its own. -/
theorem step_depth {spot next : Spot} {c : Char} (stepped : spot.step c = some next) :
    (next.depth : Int) = spot.depth + bracketDepth [c] := by
  simp only [bracketDepth, List.countP_cons, List.countP_nil]
  rcases step_cases stepped with ⟨opens, depth⟩ | ⟨opens, closes, depth⟩ | ⟨opens, closes, depth⟩
  · rw [if_pos opens, isClosing_of_isOpening opens, if_neg nofun]
    omega
  · rw [opens, if_neg nofun, if_pos closes]
    omega
  · rw [opens, closes, if_neg nofun]
    omega

/-- Reading keeps count of the open brackets. -/
theorem scan_depth {spot next : Spot} {cs : List Char} (reads : scan spot cs = some next) :
    (next.depth : Int) = spot.depth + bracketDepth cs := by
  induction cs generalizing spot with
  | nil =>
    cases reads
    simp [bracketDepth]
  | cons c rest ih =>
    rw [scan_cons, Option.bind_eq_some_iff] at reads
    obtain ⟨middle, stepped, reads⟩ := reads
    rw [ih reads, step_depth stepped, bracketDepth_cons c rest, Int.add_assoc]

/-- Inside more brackets, the same text is read the same way. -/
theorem step_deeper {spot next : Spot} {c : Char} (stepped : spot.step c = some next) (more : Nat) :
    (Spot.inside (more + spot.depth)).step c = some (.inside (more + next.depth)) := by
  rcases step_cases stepped with ⟨opens, depth⟩ | ⟨opens, closes, depth⟩ | ⟨opens, closes, depth⟩
  · simp [Spot.step, opens, depth, Nat.add_assoc]
  · simp [Spot.step, opens, closes, depth, ← Nat.add_assoc]
  · simp [Spot.step, opens, closes, depth]

/-- What can be read can be read with more brackets around it. -/
theorem scan_deeper {spot next : Spot} {cs : List Char} (reads : scan spot cs = some next)
    (more : Nat) : scan (.inside (more + spot.depth)) cs = some (.inside (more + next.depth)) := by
  induction cs generalizing spot with
  | nil =>
    cases reads
    rfl
  | cons c rest ih =>
    rw [scan_cons, Option.bind_eq_some_iff] at reads
    obtain ⟨middle, stepped, reads⟩ := reads
    rw [scan_cons, step_deeper stepped]
    exact ih reads

/-- Reading stops at a bare `in`. -/
theorem scan_in (word : Word) (after : List Char) :
    scan (.outside word) (" in ".toList ++ after) = none := by
  cases word <;> rfl

/-- A text that passes has no bare `in`. -/
theorem not_bareIn {word : Word} {next : Spot} {cs : List Char}
    (passes : scan (.outside word) cs = some next) : ¬ BareIn cs := by
  rintro ⟨before, after, rfl, level⟩
  rw [List.append_assoc, scan_append, Option.bind_eq_some_iff] at passes
  obtain ⟨middle, reads, passes⟩ := passes
  have depth := scan_depth reads
  rw [level] at depth
  cases middle with
  | outside word =>
    rw [scan_in] at passes
    cases passes
  | inside more =>
    simp only [Spot.depth] at depth
    omega

/-! ## Texts without brackets and blanks -/

def isBracket (c : Char) : Bool :=
  isOpening c || isClosing c

/-- Whether a text has neither brackets nor blanks. -/
def clean (cs : List Char) : Bool :=
  cs.all fun c => !isBracket c && c != ' '

theorem step_inside {c : Char} (free : isBracket c = false) (more : Nat) :
    (Spot.inside more).step c = some (.inside more) := by
  obtain ⟨opens, closes⟩ := Bool.or_eq_false_iff.mp free
  simp [Spot.step, opens, closes]

/-- Text without brackets is read past inside of brackets. -/
theorem scan_inside {cs : List Char} (free : ∀ c ∈ cs, isBracket c = false) (more : Nat) :
    scan (.inside more) cs = some (.inside more) := by
  induction cs with
  | nil => rfl
  | cons c rest ih =>
    rw [scan_cons, step_inside (free c (by simp))]
    exact ih fun other member => free other (by simp [member])

/-- Outside of brackets, reading such a text only follows the word. -/
theorem scan_clean {cs : List Char} (isClean : clean cs = true) (word : Word) :
    scan (.outside word) cs = some (.outside (cs.foldl Word.next word)) := by
  induction cs generalizing word with
  | nil => rfl
  | cons c rest ih =>
    simp only [clean, List.all_cons, Bool.and_eq_true, Bool.not_eq_true', bne_iff_ne] at isClean
    obtain ⟨⟨free, solid⟩, others⟩ := isClean
    obtain ⟨opens, closes⟩ := Bool.or_eq_false_iff.mp free
    have stepped : (Spot.outside word).step c = some (.outside (word.next c)) := by
      simp [Spot.step, opens, closes, solid]
    rw [scan_cons, stepped]
    exact ih others _

theorem free_of_clean {cs : List Char} (isClean : clean cs = true) :
    ∀ c ∈ cs, isBracket c = false := by
  intro c member
  have each := List.all_eq_true.mp isClean c member
  simp only [Bool.and_eq_true, Bool.not_eq_true'] at each
  exact each.1

theorem foldl_next_other (cs : List Char) : cs.foldl Word.next .other = .other := by
  induction cs with
  | nil => rfl
  | cons c rest ih => exact ih

theorem next_fresh {c : Char} (notI : c ≠ 'i') : Word.next .fresh c = .other := by
  simp [Word.next, notI]

theorem next_begun {c : Char} (notN : c ≠ 'n') : Word.next .begun c = .other := by
  simp [Word.next, notN]

/-- The word `in` is recognized by its letters, and by nothing else. -/
theorem foldl_next_begun {cs : List Char} (whole : cs.foldl Word.next .begun = .whole) :
    cs = ['n'] := by
  rcases cs with _ | ⟨c, rest⟩
  · cases whole
  rw [List.foldl_cons] at whole
  by_cases isN : c = 'n'
  · subst isN
    cases rest with
    | nil => rfl
    | cons d rest => cases whole.symm.trans (foldl_next_other rest)
  · rw [next_begun isN, foldl_next_other] at whole
    cases whole

/-- After a blank, only `in` itself makes the word whole. -/
theorem foldl_next_fresh {cs : List Char} (whole : cs.foldl Word.next .fresh = .whole) :
    cs = "in".toList := by
  rcases cs with _ | ⟨c, rest⟩
  · cases whole
  rw [List.foldl_cons] at whole
  by_cases isI : c = 'i'
  · subst isI
    rw [foldl_next_begun whole]
    rfl
  · rw [next_fresh isI, foldl_next_other] at whole
    cases whole

/-! ## Documents in brackets -/

/-- Somewhere in brackets, the document opens or closes some so that the first number of brackets
becomes the last. -/
def Rises (first last : Nat) (d : Doc) : Prop :=
  ∀ width more, scan (.inside (more + first)) (d.chars width) = some (.inside (more + last))

/-- The document closes the brackets that it opens. -/
abbrev Closed (d : Doc) : Prop :=
  Rises 0 0 d

theorem chars_append (width : Nat) (d e : Doc) : (d ++ e).chars width = d.chars width ++ e.chars width :=
  List.flatMap_append

theorem chars_text (width : Nat) (s : String) : (Doc.text s).chars width = s.toList :=
  List.flatMap_singleton _ _

namespace Rises

variable {first middle last : Nat} {d e : Doc}

/-- Texts one after the other, each from where the one before it ended. -/
theorem append (left : Rises first middle d) (right : Rises middle last e) :
    Rises first last (d ++ e) := by
  intro width more
  rw [chars_append, scan_append, left]
  exact right width more

theorem text {s : String} (reads : scan (.inside first) s.toList = some (.inside last)) :
    Rises first last (Doc.text s) := by
  intro width more
  rw [chars_text]
  cases more with
  | zero => simpa using reads
  | succ more => simpa [Spot.depth, Nat.add_right_comm, Nat.add_assoc] using scan_deeper reads more

theorem nil : Closed [] :=
  fun _ _ => rfl

/-- In one more bracket. -/
theorem within (closed : Closed d) : Rises 1 1 d :=
  fun width more => closed width (more + 1)

theorem free {s : String} (isFree : ∀ c ∈ s.toList, isBracket c = false) : Closed (Doc.text s) := by
  intro width more
  rw [chars_text]
  exact scan_inside isFree more

theorem newline : Closed [.newline] :=
  fun _ _ => rfl

theorem pad (level : Int) : Closed [.pad level] := by
  intro width more
  rw [Doc.chars, List.flatMap_singleton]
  refine scan_inside (fun c member => ?_) more
  obtain rfl := List.eq_of_mem_replicate member
  rfl

theorem flatten {docs : List Doc} (each : ∀ d ∈ docs, Closed d) : Closed docs.flatten := by
  induction docs with
  | nil => exact nil
  | cons d rest ih =>
    exact (each d (by simp)).append (ih fun other member => each other (by simp [member]))

end Rises

/-! ## Documents outside of brackets -/

/-- Where reading can stand before or after a part of a text. -/
inductive Station where
  /-- Something is about to be read, not in the middle of an `in`. -/
  | before
  /-- Something was read, and it did not end with the word `in`. -/
  | after
  /-- Something was read that no word can go on from. -/
  | apart
  /-- Anything was read. -/
  | anywhere
  /-- A bracket is open. -/
  | within

def Station.spots : Station → List Spot
  | .before => [.outside .fresh, .outside .other]
  | .after => [.outside .fresh, .outside .begun, .outside .other]
  | .apart => [.outside .other]
  | .anywhere => [.outside .fresh, .outside .begun, .outside .whole, .outside .other]
  | .within => [.inside 0]

/-- The number of brackets that are open at a station. -/
def Station.brackets : Station → Nat
  | .within => 1
  | _ => 0

/-- Reading goes from the spots of the first station to those of the last one. -/
def Reads (first last : Station) (cs : List Char) : Prop :=
  ∀ spot ∈ first.spots, ∃ next ∈ last.spots, scan spot cs = some next

instance (first last : Station) (cs : List Char) : Decidable (Reads first last cs) :=
  inferInstanceAs (Decidable (∀ spot ∈ first.spots, ∃ next ∈ last.spots, scan spot cs = some next))

/-- Reading the document goes from the first station to the last one. Outside of other brackets this
is only said if it is asked. -/
structure Passes (asked : Prop) (first last : Station) (d : Doc) : Prop where
  inside : Rises first.brackets last.brackets d
  outside : asked → ∀ width, Reads first last (d.chars width)

/-- The document closes its brackets and, if that is asked, has no bare `in`. -/
abbrev Tidy (asked : Prop) (d : Doc) : Prop :=
  Passes asked .before .after d

/-- Every station has a spot, so what passes it says something. -/
theorem exists_spot (station : Station) : ∃ spot, spot ∈ station.spots := by
  cases station <;> exact ⟨_, .head _⟩

theorem depth_spots {station : Station} : ∀ spot ∈ station.spots, spot.depth = station.brackets := by
  cases station <;> simp [Station.spots, Spot.depth, Station.brackets]

namespace Passes

variable {asked : Prop} {first middle last : Station} {d e : Doc}

theorem append (left : Passes asked first middle d) (right : Passes asked middle last e) :
    Passes asked first last (d ++ e) where
  inside := left.inside.append right.inside
  outside isAsked width spot member := by
    obtain ⟨between, stands, reads⟩ := left.outside isAsked width spot member
    obtain ⟨next, ends, goesOn⟩ := right.outside isAsked width between stands
    refine ⟨next, ends, ?_⟩
    rw [chars_append, scan_append, reads]
    exact goesOn

/-- A text that can be read outside of brackets can be read in them. -/
theorem text {s : String} (reads : Reads first last s.toList) :
    Passes asked first last (Doc.text s) where
  inside width more := by
    -- The spots of a station have the same brackets open, so one of them stands for all.
    obtain ⟨spot, stands⟩ := exists_spot first
    obtain ⟨next, ends, goesOn⟩ := reads spot stands
    have deeper := scan_deeper goesOn more
    rwa [depth_spots spot stands, depth_spots next ends, ← chars_text width] at deeper
  outside _ width := by
    rw [chars_text]
    exact reads

/-- Only the characters of a document count. -/
theorem of_chars (same : ∀ width, d.chars width = e.chars width) (passes : Passes asked first last e) :
    Passes asked first last d where
  inside width more := same width ▸ passes.inside width more
  outside isAsked width := same width ▸ passes.outside isAsked width

theorem imp {asked' : Prop} (passes : Passes asked first last d) (fewer : asked' → asked) :
    Passes asked' first last d :=
  ⟨passes.inside, fun isAsked => passes.outside (fewer isAsked)⟩

theorem brackets_eq (wider : ∀ spot ∈ first.spots, spot ∈ last.spots) :
    first.brackets = last.brackets := by
  obtain ⟨spot, stands⟩ := exists_spot first
  rw [← depth_spots spot stands, depth_spots spot (wider spot stands)]

theorem nil (wider : ∀ spot ∈ first.spots, spot ∈ last.spots) : Passes asked first last [] where
  inside := brackets_eq wider ▸ fun _ _ => rfl
  outside _ _ spot stands := ⟨spot, wider spot stands, rfl⟩

/-- What ends at a station ends at a wider one. -/
theorem weaken (passes : Passes asked first middle d)
    (wider : ∀ spot ∈ middle.spots, spot ∈ last.spots) : Passes asked first last d := by
  have whole := passes.append (nil wider)
  rwa [List.append_nil] at whole

/-- What starts anywhere at a station starts at each of its spots. -/
theorem narrow (passes : Passes asked middle last d)
    (wider : ∀ spot ∈ first.spots, spot ∈ middle.spots) : Passes asked first last d :=
  (nil wider).append passes

theorem within (closed : Closed d) : Passes asked .within .within d where
  inside := closed.within
  outside _ width spot stands := by
    obtain rfl := List.mem_singleton.mp stands
    exact ⟨_, .head _, closed width 0⟩

/-- Parentheses make every closed text tidy. -/
theorem parenthesized (closed : Closed d) : Tidy asked d.parenthesized :=
  ((text (by decide)).append (within closed)).append (text (by decide))

/-- Separators lead back to where the next text starts. -/
theorem joined {separator : Doc} (wider : ∀ spot ∈ first.spots, spot ∈ last.spots)
    (between : Passes asked last first separator) {docs : List Doc}
    (each : ∀ d ∈ docs, Passes asked first last d) :
    Passes asked first last (Doc.joined separator docs) := by
  induction docs with
  | nil => exact nil wider
  | cons d rest ih =>
    have one := each d (by simp)
    have others := ih fun other member => each other (by simp [member])
    cases rest with
    | nil => exact one
    | cons next rest => exact (one.append between).append others

/-- A text in two parts. -/
theorem text_append {s t : String} (left : Passes asked first middle (Doc.text s))
    (right : Passes asked middle last (Doc.text t)) : Passes asked first last (Doc.text (s ++ t)) := by
  refine of_chars (fun width => ?_) (left.append right)
  rw [chars_append, chars_text, chars_text, chars_text, String.toList_append]

end Passes

theorem Rises.parenthesized {d : Doc} (closed : Closed d) : Closed d.parenthesized := by
  have tidy : Tidy False d.parenthesized := .parenthesized closed
  exact tidy.inside

theorem Rises.joined {separator : Doc} (between : Closed separator) {docs : List Doc}
    (each : ∀ d ∈ docs, Closed d) : Closed (Doc.joined separator docs) := by
  have linked : Passes False .after .before separator := ⟨between, False.elim⟩
  have tidy := Passes.joined (by decide) linked fun d member => ⟨each d member, False.elim⟩
  exact tidy.inside

section Clean

variable {asked : Prop} {s : String}

/-- After a dot, what is read stays apart from every word. -/
theorem Passes.clean_apart (isClean : clean s.toList = true) : Passes asked .apart .apart (Doc.text s) := by
  refine .text fun spot stands => ?_
  obtain rfl := List.mem_singleton.mp stands
  exact ⟨_, .head _, by rw [scan_clean isClean, foldl_next_other]⟩

theorem mem_before {spot : Spot} (stands : spot ∈ Station.before.spots) :
    spot = .outside .fresh ∨ spot = .outside .other := by
  simpa [Station.spots] using stands

theorem mem_anywhere (word : Word) : Spot.outside word ∈ Station.anywhere.spots := by
  cases word <;> decide

theorem mem_after {word : Word} (notIn : word ≠ .whole) : Spot.outside word ∈ Station.after.spots := by
  cases word with
  | whole => exact absurd rfl notIn
  | _ => decide

theorem Passes.clean_anywhere (isClean : clean s.toList = true) :
    Passes asked .before .anywhere (Doc.text s) := by
  refine .text fun spot stands => ?_
  rcases mem_before stands with rfl | rfl
  · exact ⟨_, mem_anywhere _, scan_clean isClean _⟩
  · exact ⟨_, mem_anywhere _, scan_clean isClean _⟩

/-- A word that is not `in`. -/
theorem reads_word (isClean : clean s.toList = true) (other : s ≠ "in") :
    Reads .before .after s.toList := by
  intro spot stands
  rcases mem_before stands with rfl | rfl
  · refine ⟨_, mem_after fun whole => ?_, scan_clean isClean _⟩
    exact other (String.toList_injective (foldl_next_fresh whole))
  · refine ⟨_, mem_after ?_, scan_clean isClean _⟩
    rw [foldl_next_other]
    decide

/-- A word without brackets shows no `in` if it is another word. -/
theorem Passes.clean_word (isClean : clean s.toList = true) (other : asked → s ≠ "in") :
    Tidy asked (Doc.text s) where
  inside := .free (free_of_clean isClean)
  outside isAsked width := by
    rw [chars_text]
    exact reads_word isClean (other isAsked)

end Clean

end Untangle.Print
