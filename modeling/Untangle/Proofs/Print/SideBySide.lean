import Untangle.Proofs.Print.Layout
import Untangle.Proofs.Print.Parts

/-!
# Printers side by side

Two printers that differ in how wide a level is and in how far they can indent print the same
document. One of them may fail where the other goes on, but for no other reason than its blanks. What
decides on the document is a look at the texts of parts, and both see the same in laid-out text. Where
the widths are the same that holds of any text, so then nothing is asked of the tree.

* `Mirrors` compares two computations, and `Alike` two printers.
* `Steady` is what is said of a document: it is laid out, if the widths differ.
* `Settled` is what is said of a value that is printed: no program inside, if the widths differ, and
  room for its levels.
-/

namespace Untangle.Print

/-! ## Computations side by side -/

/-- The first computation does what the second does, or fails for a reason like this. What they give
is like that. -/
def Mirrors {α : Type} (E : Fault → Prop) (P : α → Prop) (x y : Except Fault α) : Prop :=
  (∃ fault, E fault ∧ x = .error fault) ∨ x = y ∧ ∀ a, y = .ok a → P a

namespace Mirrors

variable {α β : Type} {E : Fault → Prop} {P : α → Prop} {Q : β → Prop}

theorem pure {a : α} (holds : P a) : Mirrors E P (Pure.pure a) (Pure.pure a) :=
  Or.inr ⟨rfl, fun _ same => Except.ok.inj same ▸ holds⟩

theorem throw (fault : Fault) : Mirrors E P (throw fault) (throw fault) :=
  Or.inr ⟨rfl, nofun⟩

/-- The second computations are compared only on what the first ones give alike. -/
theorem bind {x y : Except Fault α} {f g : α → Except Fault β} (first : Mirrors E P x y)
    (next : ∀ a, P a → Mirrors E Q (f a) (g a)) : Mirrors E Q (x >>= f) (y >>= g) := by
  obtain ⟨fault, expected, rfl⟩ | ⟨rfl, holds⟩ := first
  · exact Or.inl ⟨fault, expected, rfl⟩
  · cases x with
    | error fault => exact Or.inr ⟨rfl, nofun⟩
    | ok a => exact next a (holds a rfl)

theorem imp {P' : α → Prop} {x y : Except Fault α} (mirrors : Mirrors E P x y)
    (weaker : ∀ a, P a → P' a) : Mirrors E P' x y :=
  mirrors.imp_right fun ⟨same, holds⟩ => ⟨same, fun a answer => weaker a (holds a answer)⟩

/-- What both computations do. -/
theorem both (x : Except Fault α) : Mirrors E (fun a => x = .ok a) x x :=
  Or.inr ⟨rfl, fun _ answer => answer⟩

/-- What both computations do first. -/
theorem after {x : Except Fault α} {f g : α → Except Fault β}
    (next : ∀ a, x = .ok a → Mirrors E Q (f a) (g a)) : Mirrors E Q (x >>= f) (x >>= g) :=
  (both x).bind next

theorem ite_of {condition : Prop} [Decidable condition] {x x' y y' : Except Fault α}
    (yes : condition → Mirrors E P x x') (no : ¬ condition → Mirrors E P y y') :
    Mirrors E P (if condition then x else y) (if condition then x' else y') := by
  split
  · exact yes ‹_›
  · exact no ‹_›

theorem ite {condition : Prop} [Decidable condition] {x x' y y' : Except Fault α}
    (yes : Mirrors E P x x') (no : Mirrors E P y y') :
    Mirrors E P (if condition then x else y) (if condition then x' else y') :=
  ite_of (fun _ => yes) fun _ => no

/-- By induction on the list: the first fault ends both lists at the same member. -/
theorem mapM {f g : α → Except Fault β} {items : List α}
    (each : ∀ item ∈ items, Mirrors E Q (f item) (g item)) :
    Mirrors E (∀ result ∈ ·, Q result) (items.mapM f) (items.mapM g) := by
  induction items with
  | nil => exact .pure (by simp)
  | cons item rest ih =>
    rw [List.mapM_cons, List.mapM_cons]
    refine (each item (by simp)).bind fun b holds => ?_
    refine (ih fun other member => each other (by simp [member])).bind fun results all => .pure ?_
    simpa using ⟨holds, all⟩

/-- A computation that cannot fail for such a reason does what the other one does. -/
theorem eq {x y : Except Fault α} (mirrors : Mirrors (fun _ => False) P x y) : x = y := by
  obtain ⟨_, impossible, -⟩ | ⟨same, -⟩ := mirrors
  · exact impossible.elim
  · exact same

end Mirrors

/-! ## Documents in which both see the same -/

/-- Printers with the same width see the same in every document, others in one that is laid out. -/
def Steady (w w' : Nat) (d : Doc) : Prop :=
  w ≠ w' → Laid d

/-- The document starts a line, if the widths differ. -/
def Starting (w w' : Nat) (level : Int) (d : Doc) : Prop :=
  w ≠ w' → Begins level d

/-- The phrase is steady, once it is inserted into text. -/
def Phrase.IsSteady (w w' : Nat) (phrase : Phrase) : Prop :=
  Steady w w' phrase.shown

section Steady

variable {w w' : Nat} {d e : Doc} {level : Int}

namespace Steady

theorem nil : Steady w w' [] :=
  fun _ => .nil

theorem word (s : String) : Steady w w' (Doc.text s) :=
  fun _ => .word s

theorem line (level : Int) : Steady w w' [.newline, .pad level] :=
  fun _ => .line level .nil

theorem append (first : Steady w w' d) (second : Steady w w' e) : Steady w w' (d ++ e) :=
  fun differ => (first differ).append (second differ)

/-- Parentheses are words, so they change nothing. -/
theorem parenthesized (steady : Steady w w' d) : Steady w w' d.parenthesized :=
  fun differ => (steady differ).parenthesized

theorem joined {separator : Doc} (between : Steady w w' separator) {docs : List Doc}
    (each : ∀ d ∈ docs, Steady w w' d) : Steady w w' (Doc.joined separator docs) :=
  fun differ => (between differ).joined fun d member => each d member differ

theorem flatten {docs : List Doc} (each : ∀ d ∈ docs, Steady w w' d) : Steady w w' docs.flatten :=
  fun differ => .flatten fun d member => each d member differ

/-- A steady text differs only in the blanks after its line ends. -/
theorem reindented (steady : Steady w w' d) : Reindented (d.chars w) (d.chars w') := by
  by_cases same : w = w'
  · rw [same]
    exact .refl _
  · exact (steady same).reindented _ _

/-- The first character of a steady text is the same in every width. -/
theorem startsWith_eq (steady : Steady w w' d) (c : Char) :
    d.startsWith w c = d.startsWith w' c := by
  rw [Doc.startsWith, Doc.startsWith, steady.reindented.head?_eq]

/-- So is the last one, where it is asked for a character that indentation does not contain. -/
theorem endsWith_eq (steady : Steady w w' d) {c : Char} (notBlank : c ≠ ' ') (notEnd : c ≠ '\n') :
    d.endsWith w c = d.endsWith w' c := by
  rw [Doc.endsWith, Doc.endsWith, Bool.eq_iff_iff, beq_iff_eq, beq_iff_eq]
  exact steady.reindented.getLast?_iff notBlank notEnd

/-- The width cannot change how the first line begins. -/
theorem isPrefixOf_eq (steady : Steady w w' d) {word : List Char} (inLine : '\n' ∉ word) :
    word.isPrefixOf (d.chars w) = word.isPrefixOf (d.chars w') :=
  steady.reindented.isPrefixOf_eq inLine

/-- Whether a statement would be read as something else is seen on its first line. -/
theorem isAmbiguousStart_eq (steady : Steady w w' d) :
    isAmbiguousStart (d.chars w) = isAmbiguousStart (d.chars w') :=
  steady.reindented.isAmbiguousStart_eq

end Steady

/-- A text that starts with its indentation is steady once a line end stands before it. -/
theorem Starting.after_newline (starting : Starting w w' level d) : Steady w w' (.newline :: d) :=
  fun differ => (starting differ).after_newline

/-- Lines that start with their indentation, one below the other. -/
theorem Starting.joined {docs : List Doc} (each : ∀ d ∈ docs, Starting w w' level d ∧ d ≠ []) :
    Starting w w' level (Doc.joined [.newline] docs) :=
  fun differ => .joined fun d member => ⟨(each d member).1 differ, (each d member).2⟩

/-- A value that is printed as it is has no indentation in it. -/
theorem Phrase.isSteady_ofValue (v : Value) : (Phrase.ofValue v).IsSteady w w' := by
  cases v <;> exact .word _

theorem shownValue_steady (v : Value) : Steady w w' (shownValue v) :=
  .word _

variable {E : Fault → Prop}

/-- Both see whether the object of a member is made of digits. -/
theorem isAllDigits_mirrors {phrase : Phrase} (steady : phrase.IsSteady w w') (v : Value) :
    Mirrors E (fun _ => True) (isAllDigits w v phrase) (isAllDigits w' v phrase) := by
  refine .after fun _ _ => .ite (.pure trivial) (.after fun d read => ?_)
  have isDoc : phrase = .doc d := by
    cases phrase with
    | doc e => exact congrArg Phrase.doc (Except.ok.inj read)
    | bare w => cases w <;> cases read
  subst isDoc
  have same : Reindented (d.chars w) (d.chars w') := Steady.reindented steady
  dsimp only
  rw [same.isEmpty_eq, same.all_eq (by decide)]
  exact .pure trivial

theorem glue_steady {phrase : Phrase} (steady : phrase.IsSteady w w') :
    Mirrors E (Steady w w') phrase.glue phrase.glue := by
  cases phrase with
  | doc d => exact .pure steady
  | bare v => exact .throw _

theorem inspect_steady {phrase : Phrase} (steady : phrase.IsSteady w w') :
    Mirrors E (Steady w w') phrase.inspect phrase.inspect := by
  cases phrase with
  | doc d => exact .pure steady
  | bare v => exact .throw _

/-- Texts are put one after the other and bare values added up; a text and a bare value cannot be
put together, on either side. -/
theorem plus_steady {first second : Phrase} (steady : first.IsSteady w w')
    (steady' : second.IsSteady w w') :
    Mirrors E (Phrase.IsSteady w w') (first.plus second) (first.plus second) := by
  cases first with
  | doc d =>
    cases second with
    | doc e => exact .pure (Steady.append steady steady')
    | bare w => exact .throw _
  | bare v =>
    cases second with
    | doc e => exact .throw _
    | bare w =>
      refine (Mirrors.both _).imp fun phrase answer => ?_
      simp only [Phrase.plus] at answer
      cases sum : v.plus w with
      | error fault =>
        rw [sum] at answer
        cases answer
      | ok total =>
        rw [sum] at answer
        cases answer
        exact .word _

theorem joined_steady (separator : String) {phrases : List Phrase}
    (each : ∀ phrase ∈ phrases, phrase.IsSteady w w') :
    Mirrors E (Steady w w') (Phrase.joined separator phrases) (Phrase.joined separator phrases) :=
  (Mirrors.mapM fun phrase member => glue_steady (each phrase member)).bind fun _ steady =>
    .pure (.joined (.word separator) steady)

end Steady

/-! ## What is printed -/

mutual

/-- Whether no node of a value is a program. Objects hold no nodes that are printed. -/
def programFree : Value → Bool
  | .node tag fields => !tag.isText "Program" && programFreeFields fields
  | .seq items | .list items => programFreeItems items
  | _ => true

/-- Whether no node of a sequence is a program. -/
def programFreeItems : List Value → Bool
  | [] => true
  | v :: rest => programFree v && programFreeItems rest

/-- Whether no node under the names is a program. -/
def programFreeFields : Fields → Bool
  | [] => true
  | (_, v) :: rest => programFree v && programFreeFields rest

end

/-- Programs are looked for in every member of a sequence. -/
theorem programFree_of_mem {v : Value} {items : List Value} (free : programFreeItems items = true)
    (member : v ∈ items) : programFree v = true := by
  induction items with
  | nil => simp at member
  | cons head rest ih =>
    simp only [programFreeItems, Bool.and_eq_true] at free
    rcases List.mem_cons.mp member with rfl | later
    · exact free.1
    · exact ih free.2 later

/-- Programs are looked for under every name. -/
theorem programFree_of_lookup {name : String} {v : Value} {fields : Fields}
    (free : programFreeFields fields = true) (found : fields.lookup name = some v) :
    programFree v = true := by
  have member := Fields.mem_of_lookup found
  clear found
  induction fields with
  | nil => simp at member
  | cons field rest ih =>
    obtain ⟨k, w⟩ := field
    simp only [programFreeFields, Bool.and_eq_true] at free
    rcases List.mem_cons.mp member with same | later
    · cases same
      exact free.1
    · exact ih free.2 later

/-- The value holds no program, if the widths differ, and its lines stand at allowed levels when the
value stands at the level. -/
structure Settled (w w' : Nat) (levels : Int → Prop) (level : Int) (v : Value) : Prop where
  free : w ≠ w' → programFree v = true
  room : ∀ further : Nat, further ≤ v.depth → levels (level + further)

/-- Lines can be indented at the level of the node and one further in, and what stands in its fields
is settled there. -/
structure Opened (w w' : Nat) (levels : Int → Prop) (level : Int) (n : Value) : Prop where
  here : levels level
  deeper : levels (level + 1)
  parts : ∀ name part, n.field name = .ok part ∨ n.optional name = .ok (some part) →
    Settled w w' levels (level + 1) part

theorem depth_pos (v : Value) : 0 < v.depth := by
  cases v <;> simp [Value.depth]

section Settled

variable {w w' : Nat} {levels : Int → Prop} {level : Int} {v part : Value} {name : String}

theorem Settled.here (settled : Settled w w' levels level v) : levels level := by
  simpa using settled.room 0 (Nat.zero_le _)

theorem Settled.deeper (settled : Settled w w' levels level v) : levels (level + 1) :=
  settled.room 1 (depth_pos v)

/-- What is settled for a deeper level is settled for the one above it, if that level is allowed. -/
theorem Settled.outer (settled : Settled w w' levels (level + 1) v) (here : levels level) :
    Settled w w' levels level v := by
  refine ⟨settled.free, fun further within => ?_⟩
  cases further with
  | zero => simpa using here
  | succ further =>
    have inside := settled.room further (by omega)
    rwa [show level + 1 + (further : Int) = level + (further + 1 : Nat) by omega] at inside

/-- The parts of a node are less deep than the node, so they may stand one level deeper. -/
theorem opened_of_fields {tag : Value} {fields : Fields}
    (free : w ≠ w' → programFreeFields fields = true)
    (room : ∀ further : Nat, further ≤ (Value.node tag fields).depth → levels (level + further)) :
    Opened w w' levels level (.node tag fields) := by
  refine ⟨by simpa using room 0 (Nat.zero_le _), room 1 (depth_pos _), fun name part read => ?_⟩
  have found : fields.lookup name = some part := by
    rcases read with read | read
    · obtain ⟨_, _, same, found⟩ := Value.lookup_of_field read
      cases same
      exact found
    · obtain ⟨_, _, same, found⟩ := Value.lookup_of_optional read
      cases same
      exact found
  refine ⟨fun differ => programFree_of_lookup (free differ) found, fun further within => ?_⟩
  have smaller := depth_le_of_lookup found
  have inside := room (further + 1) (by simp only [Value.depth]; omega)
  rwa [show level + (further + 1 : Nat) = level + 1 + (further : Int) by omega] at inside

theorem Settled.opened (settled : Settled w w' levels level v) : Opened w w' levels level v := by
  cases v with
  | node tag fields =>
    refine opened_of_fields (fun differ => ?_) settled.room
    have free := settled.free differ
    simp only [programFree, Bool.and_eq_true] at free
    exact free.2
  | _ =>
    refine ⟨settled.here, settled.deeper, ?_⟩
    rintro name part (read | read)
    · cases read
    · cases read

/-- A part may be printed one level deeper than its node. -/
theorem Opened.inner (opened : Opened w w' levels level v) (read : v.field name = .ok part) :
    Settled w w' levels (level + 1) part :=
  opened.parts name part (.inl read)

/-- A part may be printed at the level of its node. -/
theorem Opened.field (opened : Opened w w' levels level v) (read : v.field name = .ok part) :
    Settled w w' levels level part :=
  (opened.inner read).outer opened.here

theorem Opened.optional (opened : Opened w w' levels level v)
    (read : v.optional name = .ok (some part)) : Settled w w' levels level part :=
  (opened.parts name part (.inr read)).outer opened.here

/-- Members of a sequence are less deep than the sequence. -/
theorem Settled.items (settled : Settled w w' levels level v) {items : List Value}
    (read : v.items = .ok items) : ∀ item ∈ items, Settled w w' levels level item := by
  intro item member
  have text (s : String) : Settled w w' levels level (.str s) := by
    refine ⟨fun _ => rfl, fun further within => settled.room further ?_⟩
    exact Nat.le_trans within (depth_pos v)
  cases v with
  | seq members | list members =>
    obtain rfl := Except.ok.inj read
    have smaller := depth_le_of_mem_items member
    refine ⟨fun differ => programFree_of_mem (settled.free differ) member, fun further within => ?_⟩
    exact settled.room further (by simp only [Value.depth]; omega)
  | str s =>
    obtain rfl := Except.ok.inj read
    obtain ⟨c, -, rfl⟩ := List.mem_map.mp member
    exact text _
  | object entries =>
    obtain rfl := Except.ok.inj read
    obtain ⟨entry, -, rfl⟩ := List.mem_map.mp member
    exact text _
  | _ => cases read

end Settled

/-! ## Printers side by side -/

/-- The first printer prints what the second prints, or fails for a reason like this, where lines
stand at allowed levels. What they print is steady. -/
structure Alike (E : Fault → Prop) (levels : Int → Prop) (w w' : Nat) (p q : Printer) : Prop where
  width : p.width = w
  width' : q.width = w'
  margin : ∀ level, levels level → Mirrors E (· = [.pad level]) (p.margin level) (q.margin level)
  expression : ∀ (place : Place) (precedence : Precedence) (v : Value),
    Settled w w' levels place.level v →
    Mirrors E (Phrase.IsSteady w w') (p.expression place precedence v)
      (q.expression place precedence v)
  statement : ∀ (level : Int) (v : Value), Settled w w' levels level v →
    Mirrors E (Steady w w') (p.statement level v) (q.statement level v)

namespace Alike

variable {E : Fault → Prop} {levels : Int → Prop} {w w' : Nat} {level : Int} {p q : Printer}
  {place : Place} {v : Value}

theorem shown (alike : Alike E levels w w' p q) (place : Place) (precedence : Precedence)
    (settled : Settled w w' levels place.level v) :
    Mirrors E (Steady w w') (p.shown place precedence v) (q.shown place precedence v) :=
  (alike.expression place precedence v settled).bind fun _ steady => .pure steady

theorem glued (alike : Alike E levels w w' p q) (place : Place) (precedence : Precedence)
    (settled : Settled w w' levels place.level v) :
    Mirrors E (Steady w w') (p.glued place precedence v) (q.glued place precedence v) :=
  (alike.expression place precedence v settled).bind fun _ steady => glue_steady steady

theorem commaList (alike : Alike E levels w w' p q) (settled : Settled w w' levels place.level v) :
    Mirrors E (Steady w w') (p.commaList place v) (q.commaList place v) := by
  refine .after fun items read => ?_
  refine Mirrors.bind (.mapM fun item member => ?_) fun phrases steady => joined_steady _ steady
  exact alike.expression place _ item (settled.items read item member)

theorem line (alike : Alike E levels w w' p q) (allowed : levels level) :
    Mirrors E (Steady w w') (p.line level) (q.line level) := by
  refine (alike.margin level allowed).bind fun pad same => .pure ?_
  subst same
  exact .line level

/-- Statements start the line on which the first of them stands. -/
theorem statementLines (alike : Alike E levels w w' p q) (settled : Settled w w' levels level v) :
    Mirrors E (Starting w w' level) (p.statementLines level v) (q.statementLines level v) := by
  refine .after fun items read => ?_
  refine Mirrors.bind (P := fun docs => ∀ d ∈ docs, Starting w w' level d ∧ d ≠ [])
    (.mapM fun item member => ?_) fun lines each => .pure (.joined each)
  have inside := settled.items read item member
  refine (alike.margin level settled.here).bind fun pad same => ?_
  subst same
  refine (alike.statement level item inside).bind fun text steady => .pure ?_
  exact ⟨fun differ => .pad (steady differ), by simp⟩

end Alike

end Untangle.Print
