import Untangle.Print.Literal
import Untangle.Tree.Json

/-!
# Reading string literals back

A string literal is read from left to right: characters up to the quote that ends it, escapes among
them, all as UTF-16 units, and the units in pairs where two of them make one character. The literal
that the printer writes for a text is read back as that text, whatever comes after it.

* `spelled` says once what the spelling of a character is; everything else about spellings is read
  off it.
* `requoted_escapedBody`: between the quotes stands the JSON spelling of the text, with the escapes
  taken off its double quotes and put on its single ones.
* `literalSpelling_lossless` is the main statement.
-/

namespace Untangle.Text.StringLiteral

/-! ## The reader -/

/-- What a backslash before a character stands for. -/
def escaped? (c : Char) : Option Char :=
  if c == singleQuote || c == backslash then some c
  else if c == 'n' then some '\n'
  else if c == 'r' then some '\r'
  else if c == 't' then some '\t'
  else if c == 'b' then some '\x08'
  else if c == 'f' then some '\x0c'
  else none

/-- Whether a character ends a line of a program. -/
def isLineEnd (c : Char) : Bool :=
  c == '\n' || c == '\r' || c.toNat == 0x2028 || c.toNat == 0x2029

def unitsOf (c : Char) : List Nat :=
  if c.toNat < 0x10000 then [c.toNat]
  else [0xd800 + (c.toNat - 0x10000) / 0x400, 0xdc00 + (c.toNat - 0x10000) % 0x400]

/-- Reads up to the quote that ends a literal: the UTF-16 units before it and the text after it. -/
def readUnits : List Char → Option (List Nat × List Char)
  | [] => none
  | '\x27' :: rest => some ([], rest)
  | '\x5c' :: 'u' :: a :: b :: c :: d :: rest =>
    (Data.unitOf? [a, b, c, d]).bind fun unit =>
      (readUnits rest).map fun read => (unit :: read.1, read.2)
  | '\x5c' :: c :: rest =>
    (escaped? c).bind fun char =>
      (readUnits rest).map fun read => (unitsOf char ++ read.1, read.2)
  | c :: rest =>
    if c == backslash || isLineEnd c then none
    else (readUnits rest).map fun read => (unitsOf c ++ read.1, read.2)

/-- The characters that UTF-16 units stand for, if every surrogate has its other half. -/
def charsOf? : List Nat → Option (List Char)
  | [] => some []
  | [unit] => (Data.charOf? unit).map fun c => [c]
  | unit :: next :: rest =>
    match Data.charOf? unit with
    | some c => (charsOf? (next :: rest)).map (c :: ·)
    | none => (Data.charOfPair? unit next).bind fun c => (charsOf? rest).map (c :: ·)

/-- Reads the string literal at the start of a text: its value and the text after it. -/
def readLiteral : List Char → Option (String × List Char)
  | '\x27' :: rest =>
    (readUnits rest).bind fun read =>
      (charsOf? read.1).map fun chars => (String.ofList chars, read.2)
  | _ => none

/-- The characters of a text that are not part of an escape, the digits of a unit apart. -/
def unescaped : List Char → List Char
  | [] => []
  | [c] => [c]
  | c :: d :: rest => if c == backslash then unescaped rest else c :: unescaped (d :: rest)

/-! ## Spellings -/

/-- Whether a character is a printable one of ASCII. -/
def isPlainAscii (c : Char) : Bool :=
  0x20 ≤ c.toNat && c.toNat ≤ 0x7e

/-- The spelling of a character between the given quotes. -/
def escapeWith (quote c : Char) : List Char :=
  if c == quote || c == backslash then [backslash, c]
  else if c == '\n' then [backslash, 'n']
  else if c == '\r' then [backslash, 'r']
  else if c == '\t' then [backslash, 't']
  else if c == '\x08' then [backslash, 'b']
  else if c == '\x0c' then [backslash, 'f']
  else if isPlainAscii c then [c]
  else escapeUnits c

/-- The characters that stand for a control after a backslash. -/
def controlLetters : List (Char × Char) :=
  [('n', '\n'), ('r', '\r'), ('t', '\t'), ('b', '\x08'), ('f', '\x0c')]

/-- The spellings of a character: an escaped quote or backslash, an escaped control, the character
itself, or its units. -/
inductive Spelled (quote c : Char) : List Char → Prop where
  | mark (isMark : c = quote ∨ c = backslash) : Spelled quote c [backslash, c]
  | control (letter : Char) (listed : (letter, c) ∈ controlLetters) :
      Spelled quote c [backslash, letter]
  | plain (ascii : isPlainAscii c = true) (notQuote : c ≠ quote) (notBackslash : c ≠ backslash) :
      Spelled quote c [c]
  | units (outside : isPlainAscii c = false) : Spelled quote c (escapeUnits c)

theorem spelled (quote c : Char) : Spelled quote c (escapeWith quote c) := by
  unfold escapeWith
  split
  · rename_i isMark
    exact .mark (by simpa using isMark)
  · rename_i noMark
    simp only [Bool.or_eq_true, beq_iff_eq, not_or] at noMark
    split
    · rename_i same
      exact .control 'n' (by simp_all [controlLetters])
    split
    · rename_i same
      exact .control 'r' (by simp_all [controlLetters])
    split
    · rename_i same
      exact .control 't' (by simp_all [controlLetters])
    split
    · rename_i same
      exact .control 'b' (by simp_all [controlLetters])
    split
    · rename_i same
      exact .control 'f' (by simp_all [controlLetters])
    split
    · rename_i ascii
      exact .plain ascii noMark.1 noMark.2
    · rename_i outside
      exact .units (by simpa using outside)

theorem encode_eq (s : List Char) : encode s = s.flatMap (escapeWith singleQuote) := rfl

/-! ## Hexadecimal units -/

theorem hexValue?_digitChar : ∀ d < 16, Data.hexValue? (Nat.digitChar d) = some d := by
  decide

/-- A digit is none of the characters that have a meaning in a literal. -/
theorem digitChar_plain : ∀ d < 16, isPlainAscii (Nat.digitChar d) = true ∧
    Nat.digitChar d ≠ backslash ∧ Nat.digitChar d ≠ singleQuote ∧ Nat.digitChar d ≠ doubleQuote := by
  decide

theorem mem_hex {width n : Nat} {c : Char} (member : c ∈ hex width n) :
    ∃ d < 16, c = Nat.digitChar d := by
  induction width generalizing n with
  | zero => simp [hex] at member
  | succ width ih =>
    simp only [hex, List.mem_append, List.mem_singleton] at member
    rcases member with member | rfl
    · exact ih member
    · exact ⟨n % 16, Nat.mod_lt _ (by decide), rfl⟩

theorem unitOf?_hex {n : Nat} (small : n < 0x10000) : Data.unitOf? (hex 4 n) = some n := by
  have digit (m : Nat) : Data.hexValue? (Nat.digitChar (m % 16)) = some (m % 16) :=
    hexValue?_digitChar _ (Nat.mod_lt _ (by decide))
  simp only [hex, List.nil_append, List.cons_append, Data.unitOf?, List.foldlM_cons,
    List.foldlM_nil, digit, Option.map_some, Option.bind_eq_bind, Option.bind_some,
    Option.pure_def, Option.some.injEq]
  omega

/-! ## Reading one spelling -/

theorem readUnits_quote (rest : List Char) : readUnits (singleQuote :: rest) = some ([], rest) := rfl

theorem readUnits_escape {letter char : Char} (stands : escaped? letter = some char)
    (rest : List Char) :
    readUnits (backslash :: letter :: rest) =
      (readUnits rest).map fun read => (unitsOf char ++ read.1, read.2) := by
  rw [backslash, readUnits]
  · rw [stands]
    rfl
  · rintro _ _ _ _ _ rfl _
    cases stands

theorem isLineEnd_plain {c : Char} (ascii : isPlainAscii c = true) : isLineEnd c = false := by
  simp only [isPlainAscii, Bool.and_eq_true, decide_eq_true_eq] at ascii
  have notControl : c ≠ '\n' ∧ c ≠ '\r' := by
    constructor <;> (rintro rfl; simp at ascii)
  simp only [isLineEnd, notControl, Bool.or_eq_false_iff, beq_eq_false_iff_ne, ne_eq,
    not_false_eq_true, true_and]
  omega

theorem readUnits_plain {c : Char} (ascii : isPlainAscii c = true) (notQuote : c ≠ singleQuote)
    (notBackslash : c ≠ backslash) (rest : List Char) :
    readUnits (c :: rest) = (readUnits rest).map fun read => (unitsOf c ++ read.1, read.2) := by
  rw [readUnits]
  · rw [isLineEnd_plain ascii, beq_false_of_ne notBackslash]
    rfl
  · exact notQuote
  · intro _ _ _ _ _ same _
    exact notBackslash same
  · intro _ _ same _
    exact notBackslash same

theorem readUnits_unit {unit : Nat} (small : unit < 0x10000) (rest : List Char) :
    readUnits (escapeUnit unit ++ rest) =
      (readUnits rest).map fun read => (unit :: read.1, read.2) := by
  have digits := unitOf?_hex small
  simp only [hex, List.nil_append, List.cons_append] at digits
  simp only [escapeUnit, hex, List.nil_append, List.cons_append]
  rw [backslash, readUnits, digits]
  rfl

/-- A code point is below the end of the last plane and outside of the surrogates. -/
theorem toNat_range (c : Char) :
    c.toNat < 0xd800 ∨ 0xdfff < c.toNat ∧ c.toNat < 0x110000 :=
  c.valid

theorem readUnits_units (c : Char) (rest : List Char) :
    readUnits (escapeUnits c ++ rest) =
      (readUnits rest).map fun read => (unitsOf c ++ read.1, read.2) := by
  have range := toNat_range c
  unfold escapeUnits unitsOf
  split
  · rename_i small
    exact readUnits_unit small rest
  · rw [List.append_assoc, readUnits_unit (by omega), readUnits_unit (by omega), Option.map_map]
    rfl

/-- Every spelling between single quotes is read as the units of its character. -/
theorem Spelled.read {c : Char} {spelling : List Char} (h : Spelled singleQuote c spelling)
    (rest : List Char) :
    readUnits (spelling ++ rest) =
      (readUnits rest).map fun read => (unitsOf c ++ read.1, read.2) := by
  cases h with
  | mark isMark => exact readUnits_escape (by simp [escaped?, isMark]) rest
  | control letter listed =>
    have stands : ∀ entry ∈ controlLetters, escaped? entry.1 = some entry.2 := by decide
    exact readUnits_escape (stands _ listed) rest
  | plain ascii notQuote notBackslash => exact readUnits_plain ascii notQuote notBackslash rest
  | units => exact readUnits_units c rest

theorem readUnits_encode (s rest : List Char) :
    readUnits (encode s ++ singleQuote :: rest) = some (s.flatMap unitsOf, rest) := by
  induction s with
  | nil => exact readUnits_quote rest
  | cons c s ih =>
    rw [encode_eq] at ih ⊢
    rw [List.flatMap_cons, List.append_assoc, (spelled singleQuote c).read, ih]
    rfl

/-! ## Units and characters -/

theorem charOf?_toNat (c : Char) : Data.charOf? c.toNat = some c := by
  rw [Data.charOf?, if_pos (toNat_range c), Char.ofNat_toNat]

theorem charOfPair?_halves {c : Char} (large : ¬ c.toNat < 0x10000) :
    Data.charOf? (0xd800 + (c.toNat - 0x10000) / 0x400) = none ∧
      Data.charOfPair? (0xd800 + (c.toNat - 0x10000) / 0x400)
        (0xdc00 + (c.toNat - 0x10000) % 0x400) = some c := by
  have range := toNat_range c
  constructor
  · rw [Data.charOf?, if_neg (by omega)]
  · have joined : 0x10000 + (0xd800 + (c.toNat - 0x10000) / 0x400 - 0xd800) * 0x400 +
        (0xdc00 + (c.toNat - 0x10000) % 0x400 - 0xdc00) = c.toNat := by omega
    rw [Data.charOfPair?, if_pos (by omega), joined, charOf?_toNat]

theorem charsOf?_unitsOf (c : Char) (rest : List Nat) :
    charsOf? (unitsOf c ++ rest) = (charsOf? rest).map (c :: ·) := by
  unfold unitsOf
  split
  · cases rest with
    | nil => simp [charsOf?, charOf?_toNat]
    | cons next rest => simp [charsOf?, charOf?_toNat]
  · rename_i large
    obtain ⟨noChar, pair⟩ := charOfPair?_halves large
    simp [charsOf?, noChar, pair]

theorem charsOf?_flatMap (s : List Char) : charsOf? (s.flatMap unitsOf) = some s := by
  induction s with
  | nil => rfl
  | cons c s ih => rw [List.flatMap_cons, charsOf?_unitsOf, ih, Option.map_some]

theorem readLiteral_text (s : String) (rest : List Char) :
    readLiteral (singleQuote :: encode s.toList ++ singleQuote :: rest) = some (s, rest) := by
  rw [List.cons_append, singleQuote, readLiteral, ← singleQuote, readUnits_encode]
  simp [charsOf?_flatMap]

/-! ## What stands between the quotes -/

/-- Units are written with characters that have no meaning of their own in a literal, but for the
backslashes before them. -/
theorem mem_escapeUnits {c x : Char} (member : x ∈ escapeUnits c) :
    isPlainAscii x = true ∧ x ≠ singleQuote ∧ x ≠ doubleQuote := by
  have ofUnit {unit : Nat} (member : x ∈ escapeUnit unit) :
      isPlainAscii x = true ∧ x ≠ singleQuote ∧ x ≠ doubleQuote := by
    simp only [escapeUnit, List.mem_cons] at member
    rcases member with rfl | rfl | member
    · decide
    · decide
    · obtain ⟨d, small, rfl⟩ := mem_hex member
      obtain ⟨ascii, -, notSingle, notDouble⟩ := digitChar_plain d small
      exact ⟨ascii, notSingle, notDouble⟩
  unfold escapeUnits at member
  split at member
  · exact ofUnit member
  · rcases List.mem_append.mp member with member | member
    · exact ofUnit member
    · exact ofUnit member

theorem controlLetters_plain : ∀ entry ∈ controlLetters, isPlainAscii entry.1 = true ∧
    entry.1 ≠ singleQuote ∧ entry.1 ≠ doubleQuote ∧ entry.1 ≠ backslash := by
  decide

theorem Spelled.ascii {c : Char} {spelling : List Char} (h : Spelled singleQuote c spelling) :
    ∀ x ∈ spelling, isPlainAscii x = true := by
  intro x member
  cases h with
  | mark isMark =>
    have marks : isPlainAscii singleQuote = true ∧ isPlainAscii backslash = true := by decide
    simp only [List.mem_cons, List.not_mem_nil, or_false] at member
    rcases member with rfl | rfl
    · exact marks.2
    · rcases isMark with rfl | rfl
      · exact marks.1
      · exact marks.2
  | control letter listed =>
    simp only [List.mem_cons, List.not_mem_nil, or_false] at member
    rcases member with rfl | rfl
    · decide
    · exact (controlLetters_plain _ listed).1
  | plain ascii => rwa [List.mem_singleton.mp member]
  | units => exact (mem_escapeUnits member).1

/-- A quote is in no spelling but that of itself. -/
theorem Spelled.quote_notMem {quote other c : Char} {spelling : List Char}
    (h : Spelled quote c spelling) (isQuote : other = singleQuote ∨ other = doubleQuote)
    (differs : c ≠ other) : other ∉ spelling := by
  have notBackslash : other ≠ backslash := by
    rcases isQuote with rfl | rfl <;> decide
  intro member
  cases h with
  | mark => simp_all
  | control letter listed =>
    obtain ⟨-, notSingle, notDouble, -⟩ := controlLetters_plain _ listed
    simp only [List.mem_cons, List.not_mem_nil, or_false] at member
    rcases member with rfl | rfl
    · exact notBackslash rfl
    · exact isQuote.elim notSingle notDouble
  | plain => exact differs (List.mem_singleton.mp member).symm
  | units =>
    obtain ⟨-, notSingle, notDouble⟩ := mem_escapeUnits member
    exact isQuote.elim notSingle notDouble

theorem encode_ascii {s : List Char} {x : Char} (member : x ∈ encode s) :
    isPlainAscii x = true := by
  obtain ⟨c, -, among⟩ := List.mem_flatMap.mp (encode_eq s ▸ member)
  exact (spelled singleQuote c).ascii x among

/-! ## Characters outside of escapes -/

theorem unescaped_escape (c : Char) (rest : List Char) :
    unescaped (backslash :: c :: rest) = unescaped rest := rfl

theorem unescaped_plain {c : Char} (notBackslash : c ≠ backslash) (rest : List Char) :
    unescaped (c :: rest) = c :: unescaped rest := by
  cases rest with
  | nil => rfl
  | cons d rest => simp [unescaped, notBackslash]

theorem unescaped_append {plain : List Char} (noBackslash : backslash ∉ plain) (rest : List Char) :
    unescaped (plain ++ rest) = plain ++ unescaped rest := by
  induction plain with
  | nil => rfl
  | cons c plain ih =>
    simp only [List.mem_cons, not_or] at noBackslash
    rw [List.cons_append, unescaped_plain (Ne.symm noBackslash.1), ih noBackslash.2,
      List.cons_append]

/-- Outside of escapes, a unit has its digits only. -/
theorem unescaped_unit (unit : Nat) (rest : List Char) :
    unescaped (escapeUnit unit ++ rest) = hex 4 unit ++ unescaped rest := by
  have noBackslash : backslash ∉ hex 4 unit := by
    intro member
    obtain ⟨d, small, same⟩ := mem_hex member
    exact (digitChar_plain d small).2.1 same.symm
  rw [escapeUnit, List.cons_append, List.cons_append, unescaped_escape,
    unescaped_append noBackslash]

theorem Spelled.unescaped {c x : Char} {spelling rest : List Char}
    (h : Spelled singleQuote c spelling) (member : x ∈ unescaped (spelling ++ rest)) :
    x ∈ StringLiteral.unescaped rest ∨ x ≠ singleQuote ∧ x ≠ backslash := by
  have ofDigit {unit : Nat} (member : x ∈ hex 4 unit) : x ≠ singleQuote ∧ x ≠ backslash := by
    obtain ⟨d, small, rfl⟩ := mem_hex member
    obtain ⟨-, notBackslash, notSingle, -⟩ := digitChar_plain d small
    exact ⟨notSingle, notBackslash⟩
  cases h with
  | mark => exact .inl member
  | control => exact .inl member
  | plain ascii notQuote notBackslash =>
    rw [List.singleton_append, unescaped_plain notBackslash] at member
    rcases List.mem_cons.mp member with rfl | member
    · exact .inr ⟨notQuote, notBackslash⟩
    · exact .inl member
  | units =>
    unfold escapeUnits at member
    split at member
    · rw [unescaped_unit] at member
      exact (List.mem_append.mp member).symm.imp id ofDigit
    · rw [List.append_assoc, unescaped_unit, unescaped_unit] at member
      rcases List.mem_append.mp member with member | member
      · exact .inr (ofDigit member)
      · exact (List.mem_append.mp member).symm.imp id ofDigit

theorem unescaped_encode {s : List Char} {x : Char} (member : x ∈ unescaped (encode s)) :
    x ≠ singleQuote ∧ x ≠ backslash := by
  induction s with
  | nil => cases member
  | cons c s ih =>
    rw [encode_eq, List.flatMap_cons] at member
    exact ((spelled singleQuote c).unescaped member).elim ih id

/-! ## Other quotes -/

/-- Takes the backslash off every escaped double quote. -/
def unescapeDouble : List Char → List Char
  | [] => []
  | '\x5c' :: '\x22' :: rest => doubleQuote :: unescapeDouble rest
  | c :: rest => c :: unescapeDouble rest

/-- Puts a backslash before every single quote. -/
def escapeSingle (s : List Char) : List Char :=
  s.flatMap fun c => if c == singleQuote then [backslash, c] else [c]

/-- A text between double quotes as it stands between single ones. -/
def requoted (s : List Char) : List Char :=
  escapeSingle (unescapeDouble s)

theorem unescapeDouble_cons {c : Char} {rest : List Char} (noQuote : rest.head? ≠ some doubleQuote) :
    unescapeDouble (c :: rest) = c :: unescapeDouble rest := by
  rw [unescapeDouble]
  rintro others rfl rfl
  exact noQuote rfl

/-- Nothing is taken off in front of a text without double quotes, whatever backslashes it has. -/
theorem unescapeDouble_append {plain rest : List Char} (noQuote : doubleQuote ∉ plain)
    (after : rest.head? ≠ some doubleQuote) :
    unescapeDouble (plain ++ rest) = plain ++ unescapeDouble rest := by
  induction plain with
  | nil => rfl
  | cons c plain ih =>
    simp only [List.mem_cons, not_or] at noQuote
    have next : (plain ++ rest).head? ≠ some doubleQuote := by
      cases plain with
      | nil => exact after
      | cons d plain =>
        simp only [List.mem_cons, not_or] at noQuote
        simpa using Ne.symm noQuote.2.1
    rw [List.cons_append, unescapeDouble_cons next, ih noQuote.2, List.cons_append]

theorem escapeSingle_append (s t : List Char) :
    escapeSingle (s ++ t) = escapeSingle s ++ escapeSingle t :=
  List.flatMap_append

theorem escapeSingle_plain {plain : List Char} (noQuote : singleQuote ∉ plain) :
    escapeSingle plain = plain := by
  induction plain with
  | nil => rfl
  | cons c plain ih =>
    simp only [List.mem_cons, not_or] at noQuote
    have rest := ih noQuote.2
    unfold escapeSingle at rest ⊢
    rw [List.flatMap_cons, rest, beq_false_of_ne (Ne.symm noQuote.1)]
    rfl

theorem escapeWith_other {c : Char} (notSingle : c ≠ singleQuote) (notDouble : c ≠ doubleQuote) :
    escapeWith doubleQuote c = escapeWith singleQuote c := by
  simp only [escapeWith, beq_false_of_ne notSingle, beq_false_of_ne notDouble]

/-- No spelling begins with the quote. -/
theorem Spelled.head? {quote c : Char} {spelling : List Char} (h : Spelled quote c spelling)
    (notBackslash : quote ≠ backslash) (rest : List Char) :
    (spelling ++ rest).head? ≠ some quote := by
  cases h with
  | mark => simpa using notBackslash.symm
  | control => simpa using notBackslash.symm
  | plain ascii notQuote => simpa using notQuote
  | units =>
    have first : (escapeUnits c ++ rest).head? = some backslash := by
      unfold escapeUnits
      split <;> rfl
    rw [first]
    simpa using notBackslash.symm

theorem head?_doubleQuoted (s : List Char) :
    (s.flatMap (escapeWith doubleQuote)).head? ≠ some doubleQuote := by
  cases s with
  | nil => simp
  | cons c s =>
    rw [List.flatMap_cons]
    exact (spelled doubleQuote c).head? (by decide) _

/-- One character after the other, the spelling between double quotes becomes that between single
ones: a backslash belongs to the character it was written for, also where backslashes and quotes
follow each other. -/
theorem requoted_escapeWith (c : Char) (s : List Char) :
    requoted (escapeWith doubleQuote c ++ s.flatMap (escapeWith doubleQuote)) =
      escapeWith singleQuote c ++ requoted (s.flatMap (escapeWith doubleQuote)) := by
  by_cases isDouble : c = doubleQuote
  · subst isDouble
    rfl
  · have noDouble := (spelled doubleQuote c).quote_notMem (.inr rfl) isDouble
    rw [requoted, unescapeDouble_append noDouble (head?_doubleQuoted s), escapeSingle_append,
      ← requoted]
    by_cases isSingle : c = singleQuote
    · subst isSingle
      rfl
    · have noSingle := (spelled doubleQuote c).quote_notMem (.inl rfl) isSingle
      rw [escapeSingle_plain noSingle, escapeWith_other isSingle isDouble]

theorem requoted_escapedBody (s : List Char) :
    requoted (s.flatMap (escapeWith doubleQuote)) = encode s := by
  induction s with
  | nil => rfl
  | cons c s ih =>
    rw [List.flatMap_cons, requoted_escapeWith, ih, encode_eq, encode_eq, List.flatMap_cons]

/-! ## Literals -/

/-- The literal of a text is printable ASCII between single quotes, with no quote and no end of a line
inside that is not escaped. It is the JSON spelling of the text with the quotes exchanged, it is read
back as the text whatever follows it, and no other text has the same literal. -/
theorem literalSpelling_lossless (s : String) :
    ∃ body, Print.literalSpelling (.str s) =
        .ok (String.ofList (singleQuote :: body ++ [singleQuote])) ∧
      (∀ c ∈ body, isPlainAscii c = true ∧ isLineEnd c = false) ∧
      (∀ c ∈ unescaped body, c ≠ singleQuote ∧ c ≠ backslash) ∧
      body = requoted (s.toList.flatMap (escapeWith doubleQuote)) ∧
      (∀ rest, readLiteral (singleQuote :: body ++ singleQuote :: rest) = some (s, rest)) ∧
      ∀ other, Print.literalSpelling (.str other) = Print.literalSpelling (.str s) ↔ other = s := by
  refine ⟨encode s.toList, rfl, fun c member => ?_, fun c => unescaped_encode,
    (requoted_escapedBody _).symm, readLiteral_text s, fun other => ⟨fun same => ?_, ?_⟩⟩
  · have ascii := encode_ascii member
    exact ⟨ascii, isLineEnd_plain ascii⟩
  · have bodies : singleQuote :: encode other.toList ++ [singleQuote] =
        singleQuote :: encode s.toList ++ [singleQuote] :=
      String.ofList_injective (Except.ok.inj same)
    have read := readLiteral_text other []
    rw [bodies, readLiteral_text] at read
    exact (congrArg Prod.fst (Option.some.inj read)).symm
  · rintro rfl
    rfl

end Untangle.Text.StringLiteral
