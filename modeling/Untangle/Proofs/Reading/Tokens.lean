import Mathlib.Data.List.Chain
import Untangle.Proofs.Text.Decimal

/-!
# Tokens

Reading characters as tokens: words, whole numbers and signs. Every token is the longest one that can
stand at its place. What belongs to words is left to an alphabet. Fractions, texts, comments and line
ends are refused, so only a single line without them is read.

* `lex` gives the tokens of a text.
* `longestSign_longest` says that no longer sign could be taken.
* `Glyph` is a token or a blank, and `lex_spell` says that a row of glyphs is read as its tokens if
  each token ends where it should.
-/

namespace Untangle.Reading

/-- The signs of the language, the longer ones first. -/
def signs : List String :=
  [">>>=", "...", "===", "!==", "**=", "<<=", ">>=", ">>>", "=>", "==", "!=", "<=", ">=", "&&", "||",
    "++", "--", "+=", "-=", "*=", "/=", "%=", "&=", "|=", "^=", "<<", ">>", "**", "\x7b", "\x7d", "(",
    ")", "[", "]", ";", ",", "<", ">", "+", "-", "*", "/", "%", "&", "|", "^", "!", "~", "?", ":", "=",
    "."]

def signChars : List Char :=
  ' ' :: '\t' :: signs.flatMap String.toList

/-- What words are made of. -/
structure Alphabet where
  isStart : Char → Bool
  isPart : Char → Bool
  part_of_start : ∀ {c}, isStart c = true → isPart c = true
  start_of_alpha : ∀ {c}, c.isAlpha = true → isStart c = true
  part_of_digit : ∀ {c}, c.isDigit = true → isPart c = true
  not_start_of_digit : ∀ {c}, c.isDigit = true → isStart c = false
  not_part_of_sign : ∀ {c}, c ∈ signChars → isPart c = false

/-- Words of plain letters, digits, underscores and dollar signs. -/
def Alphabet.ascii : Alphabet where
  isStart c := c.isAlpha || c = '_' || c = '$'
  isPart c := c.isAlpha || c.isDigit || c = '_' || c = '$'
  part_of_start := by grind
  start_of_alpha := by grind
  part_of_digit := by grind
  not_start_of_digit {c} isDigit := by
    have notMark : c ≠ '_' ∧ c ≠ '$' := by
      constructor <;> rintro rfl <;> cases isDigit
    have low : c.toNat ≤ 57 := by
      simp only [Char.isDigit, Bool.and_eq_true, decide_eq_true_eq, UInt32.le_iff_toNat_le] at isDigit
      exact isDigit.2
    have notLetter : c.isAlpha = false := by
      delta Char.isAlpha Char.isUpper Char.isLower
      simp only [ge_iff_le, UInt32.le_iff_toNat_le,
        Bool.or_eq_false_iff, Bool.and_eq_false_iff, decide_eq_false_iff_not]
      show ¬ (65 ≤ c.toNat ∧ _) ∧ (¬ 97 ≤ c.toNat ∨ _)
      omega
    simp [notLetter, notMark]
  not_part_of_sign {c} := by
    have none : signChars.all (fun c => !(c.isAlpha || c.isDigit || c = '_' || c = '$')) = true := by
      decide
    intro member
    simpa using List.all_eq_true.mp none c member

inductive Token where
  | word (text : String)
  | number (value : Nat)
  | sign (text : String)
  deriving DecidableEq, Repr

def Token.chars : Token → List Char
  | .word text | .sign text => text.toList
  | .number value => Nat.toDigits 10 value

section Lexer

variable (A : Alphabet)

def isWord (text : String) : Bool :=
  match text.toList with
  | [] => false
  | c :: rest => A.isStart c && rest.all A.isPart

def longestSign (chars : List Char) : Option String :=
  signs.find? fun sign => sign.toList.isPrefixOf chars

/-- Whether a number goes on after its digits as something that is no whole number. -/
def continuesNumber (c : Char) : Bool :=
  c == '.' || A.isPart c

/-- Whether a sign and the character after it start a comment or a fraction. -/
def continuesSign (sign : String) (c : Char) : Bool :=
  sign == "/" && (c == '/' || c == '*') || sign == "." && c.isDigit

/-- The token at the front and what is left after it. -/
def nextToken : List Char → Option (Token × List Char)
  | [] => none
  | c :: cs =>
    if A.isStart c then
      some (.word (String.ofList (c :: cs.takeWhile A.isPart)), cs.dropWhile A.isPart)
    else if c.isDigit then
      let digits := c :: cs.takeWhile Char.isDigit
      let rest := cs.dropWhile Char.isDigit
      if rest.head?.any (continuesNumber A) || (c == '0' && digits.length > 1) then none
      else some (.number (Nat.ofDigitChars 10 digits 0), rest)
    else
      match longestSign (c :: cs) with
      | none => none
      | some sign =>
        let rest := (c :: cs).drop sign.toList.length
        if rest.head?.any (continuesSign sign) then none else some (.sign sign, rest)

/-- Whether the character stands between tokens. -/
def isBlank (c : Char) : Bool :=
  c == ' ' || c == '\t'

/-- The tokens of as many characters as the first argument allows. -/
def lexWithin : Nat → List Char → Option (List Token)
  | _, [] => some []
  | 0, _ :: _ => none
  | n + 1, c :: cs =>
    if isBlank c then lexWithin n cs
    else do
      let (token, rest) ← nextToken A (c :: cs)
      let tokens ← lexWithin n rest
      return token :: tokens

/-- The tokens of a text. -/
def lex (chars : List Char) : Option (List Token) :=
  lexWithin A chars.length chars

end Lexer

/-! ## Longest signs -/

/-- The list of signs is searched from the longest to the shortest. -/
theorem signs_longer_first : signs.Pairwise fun s t => t.toList.length ≤ s.toList.length := by
  decide

/-- No sign at the front is longer than the one taken. -/
theorem longestSign_longest {chars : List Char} {sign other : String}
    (taken : longestSign chars = some sign) (known : other ∈ signs)
    (stands : other.toList <+: chars) : other.toList.length ≤ sign.toList.length := by
  obtain ⟨-, before, after, split, earlier⟩ := List.find?_eq_some_iff_append.mp taken
  have ordered := signs_longer_first
  rw [split] at known ordered
  rcases List.mem_append.mp known with isEarlier | isLater
  · have refused := earlier other isEarlier
    simp [List.isPrefixOf_iff_prefix.mpr stands] at refused
  · rcases List.mem_cons.mp isLater with rfl | later
    · exact Nat.le_refl _
    · have tail := (List.pairwise_append.mp ordered).2.1
      exact (List.pairwise_cons.mp tail).1 other later

/-! ## Where tokens end -/

/-- The characters that would make a longer sign of a sign. -/
def followers (sign : String) : List Char :=
  signs.filterMap fun longer =>
    if sign.toList.isPrefixOf longer.toList then longer.toList[sign.toList.length]? else none

def Token.endsBefore (A : Alphabet) : Token → Char → Bool
  | .word _, c => !A.isPart c
  | .number _, c => !continuesNumber A c
  | .sign text, c => !(followers text).contains c && !continuesSign text c

/-- Whether a token can be read at all. -/
def Token.isValid (A : Alphabet) : Token → Bool
  | .word text => isWord A text
  | .number _ => true
  | .sign text => signs.contains text

/-- No sign starts a later one, so the first that fits is the right one. -/
theorem signs_prefix_later :
    signs.Pairwise fun s t => ¬ s.toList <+: t.toList := by
  decide

theorem not_nil_of_sign : ∀ sign ∈ signs, sign.toList ≠ [] := by
  decide

theorem mem_signChars {sign : String} {c : Char} (known : sign ∈ signs) (has : c ∈ sign.toList) :
    c ∈ signChars :=
  List.mem_cons_of_mem _ (List.mem_cons_of_mem _ (List.mem_flatMap.mpr ⟨sign, known, has⟩))

section Ends

variable {A : Alphabet} {rest : List Char}

/-- Something longer than `s` at the front of `s ++ rest` goes on into the rest. -/
theorem head_of_prefix {s t rest : List Char} (isPrefix : t <+: s ++ rest) (longer : ¬ t <+: s) :
    ∃ c, rest.head? = some c ∧ s ++ [c] <+: t := by
  rcases List.prefix_or_prefix_of_prefix isPrefix (List.prefix_append s rest) with inside | outside
  · exact absurd inside longer
  · obtain ⟨more, rfl⟩ := outside
    have within : more <+: rest := (List.prefix_append_right_inj s).mp isPrefix
    cases more with
    | nil => exact absurd (by simp) longer
    | cons c more =>
      obtain ⟨tail, rfl⟩ := within
      exact ⟨c, rfl, ⟨more, by simp⟩⟩

/-- A sign is found if what follows makes no longer sign of it. -/
theorem longestSign_append {sign : String} (known : sign ∈ signs)
    (ends : ∀ c ∈ rest.head?, c ∉ followers sign) :
    longestSign (sign.toList ++ rest) = some sign := by
  obtain ⟨before, after, split⟩ := List.append_of_mem known
  have ordered := signs_prefix_later
  rw [split] at ordered
  refine List.find?_eq_some_iff_append.mpr ⟨by simp, before, after, split, fun other isEarlier => ?_⟩
  have notInside : ¬ other.toList <+: sign.toList :=
    (List.pairwise_append.mp ordered).2.2 other isEarlier sign (by simp)
  simp only [Bool.not_eq_eq_eq_not, Bool.not_true, Bool.eq_false_iff]
  intro stands
  obtain ⟨c, isHead, longer⟩ := head_of_prefix (List.isPrefixOf_iff_prefix.mp stands) notInside
  refine ends c isHead (List.mem_filterMap.mpr ⟨other, by rw [split]; simp [isEarlier], ?_⟩)
  have front : sign.toList <+: other.toList := (List.prefix_append _ _).trans longer
  obtain ⟨tail, same⟩ := longer
  rw [if_pos (List.isPrefixOf_iff_prefix.mpr front), ← same]
  simp

/-- Characters of signs start no words, in every alphabet. -/
theorem not_start_of_signChar {c : Char} (isSign : c ∈ signChars) : A.isStart c = false := by
  have notPart := A.not_part_of_sign isSign
  cases starts : A.isStart c with
  | false => rfl
  | true => rw [A.part_of_start starts] at notPart; exact notPart

theorem not_digit_of_signChar (A : Alphabet) {c : Char} (isSign : c ∈ signChars) :
    c.isDigit = false := by
  have notPart := A.not_part_of_sign isSign
  cases isDigit : c.isDigit with
  | false => rfl
  | true => rw [A.part_of_digit isDigit] at notPart; exact notPart

/-- Characters are taken up to the first that does not fit. -/
theorem takeWhile_stops {p : Char → Bool} {chars : List Char} (all : chars.all p = true)
    (stops : ∀ c ∈ rest.head?, p c = false) :
    (chars ++ rest).takeWhile p = chars ∧ (chars ++ rest).dropWhile p = rest := by
  rw [List.all_eq_true] at all
  rw [List.takeWhile_append_of_pos all, List.dropWhile_append_of_pos all]
  cases rest with
  | nil => simp
  | cons c tail =>
    have stop : p c = false := stops c rfl
    simp [stop]

/-- A word is read to its end. -/
theorem nextToken_word {text : String} (isWord : isWord A text = true)
    (ends : ∀ c ∈ rest.head?, A.isPart c = false) :
    nextToken A (text.toList ++ rest) = some (.word text, rest) := by
  unfold Reading.isWord at isWord
  cases chars : text.toList with
  | nil => simp [chars] at isWord
  | cons c cs =>
    simp only [chars, Bool.and_eq_true] at isWord
    obtain ⟨taken, left⟩ := takeWhile_stops isWord.2 ends
    have whole : String.ofList (c :: cs) = text := by rw [← chars, String.ofList_toList]
    simp only [List.cons_append, nextToken, isWord.1, if_true, taken, left, whole]

/-- The digits of a number are read to their end, and make the number again. -/
theorem nextToken_number (n : Nat) (ends : ∀ c ∈ rest.head?, continuesNumber A c = false) :
    nextToken A (Nat.toDigits 10 n ++ rest) = some (.number n, rest) := by
  have value : Nat.ofDigitChars 10 (Nat.toDigits 10 n) 0 = n := Nat.ofDigitChars_ten_toDigits
  have digits : ∀ c ∈ Nat.toDigits 10 n, c.isDigit = true :=
    fun c member => Nat.isDigit_of_mem_toDigits (by decide) (by decide) member
  have noZero : (Nat.toDigits 10 n).head? = some '0' → (Nat.toDigits 10 n).length ≤ 1 := by
    intro isZero
    cases n with
    | zero => decide
    | succ n => exact absurd isZero (Text.toDigits_head (Nat.succ_pos n))
  have stops : ∀ c ∈ rest.head?, c.isDigit = false := by
    intro c isHead
    have goesOn := ends c isHead
    cases isDigit : c.isDigit with
    | false => rfl
    | true => simp [continuesNumber, A.part_of_digit isDigit] at goesOn
  cases chars : Nat.toDigits 10 n with
  | nil => exact absurd chars Nat.toDigits_ne_nil
  | cons c cs =>
    rw [chars] at value digits noZero
    have first : c.isDigit = true := digits c (by simp)
    have others : cs.all Char.isDigit = true :=
      List.all_eq_true.mpr fun d member => digits d (by simp [member])
    obtain ⟨taken, left⟩ := takeWhile_stops others stops
    have whole : rest.head?.any (continuesNumber A) = false := by
      cases isHead : rest.head? with
      | none => rfl
      | some d => exact ends d isHead
    have plain : (c == '0' && (c :: cs).length > 1) = false := by
      by_cases isZero : c = '0'
      · have short : ¬ (c :: cs).length > 1 := Nat.not_lt.mpr (noZero (by simp [isZero]))
        rw [decide_eq_false short, Bool.and_false]
      · simp [isZero]
    simp only [List.cons_append, nextToken, A.not_start_of_digit first, first, taken, left, whole,
      plain, value, if_true, Bool.or_self, Bool.false_eq_true, if_false]

/-- A sign is read whole, unless it is the dot of a number or starts a comment. -/
theorem nextToken_sign {sign : String} (known : sign ∈ signs)
    (ends : ∀ c ∈ rest.head?, (Token.sign sign).endsBefore A c = true) :
    nextToken A (sign.toList ++ rest) = some (.sign sign, rest) := by
  have taken : longestSign (sign.toList ++ rest) = some sign := by
    refine longestSign_append known fun c isHead follows => ?_
    have stop := ends c isHead
    simp [Token.endsBefore, follows] at stop
  have plain : rest.head?.any (continuesSign sign) = false := by
    cases isHead : rest.head? with
    | none => rfl
    | some c =>
      have stop := ends c isHead
      simp only [Token.endsBefore, Bool.and_eq_true, Bool.not_eq_true'] at stop
      exact stop.2
  cases chars : sign.toList with
  | nil => exact absurd chars (not_nil_of_sign sign known)
  | cons c cs =>
    have isSign : c ∈ signChars := mem_signChars known (by rw [chars]; simp)
    have dropped : (c :: (cs ++ rest)).drop (c :: cs).length = rest := by simp
    rw [chars] at taken
    rw [List.cons_append] at taken ⊢
    simp only [nextToken, not_start_of_signChar isSign, not_digit_of_signChar A isSign, taken, chars,
      dropped, plain, Bool.false_eq_true, if_false]

/-- A token that ends where the rest begins is read off. -/
theorem nextToken_chars {token : Token} (valid : token.isValid A = true)
    (ends : ∀ c ∈ rest.head?, token.endsBefore A c = true) :
    nextToken A (token.chars ++ rest) = some (token, rest) := by
  cases token with
  | word text =>
    refine nextToken_word valid fun c isHead => ?_
    simpa [Token.endsBefore] using ends c isHead
  | number n =>
    refine nextToken_number n fun c isHead => ?_
    simpa [Token.endsBefore] using ends c isHead
  | sign text => exact nextToken_sign (List.contains_iff_mem.mp valid) ends

end Ends

/-! ## Rows of glyphs -/

/-- A token or the blank after one. -/
inductive Glyph where
  | token (t : Token)
  | blank
  deriving DecidableEq, Repr

def Glyph.chars : Glyph → List Char
  | .token t => t.chars
  | .blank => [' ']

def Glyph.token? : Glyph → Option Token
  | .token t => some t
  | .blank => none

/-- The characters of a row. -/
def spell (row : List Glyph) : List Char :=
  row.flatMap Glyph.chars

def tokensOf (row : List Glyph) : List Token :=
  row.filterMap Glyph.token?

/-- The glyph ends before the next one. -/
def Clear (A : Alphabet) : Glyph → Glyph → Prop
  | .token t, next => ∀ c ∈ next.chars.head?, t.endsBefore A c = true
  | .blank, _ => True

section Rows

variable {A : Alphabet}

theorem chars_ne_nil {token : Token} (valid : token.isValid A = true) : token.chars ≠ [] := by
  cases token with
  | word text =>
    intro isNil
    simp [Token.isValid, isWord, show text.toList = [] from isNil] at valid
  | number n => exact Nat.toDigits_ne_nil
  | sign text => exact not_nil_of_sign text (List.contains_iff_mem.mp valid)

/-- What the first character of a token can be. -/
theorem head_of_valid {token : Token} (valid : token.isValid A = true) {c : Char}
    (isHead : token.chars.head? = some c) :
    A.isPart c = true ∨ ∃ text, token = .sign text ∧ text ∈ signs ∧ c ∈ text.toList := by
  cases token with
  | word text =>
    simp only [Token.isValid, isWord] at valid
    cases chars : text.toList with
    | nil => simp [Token.chars, chars] at isHead
    | cons d rest =>
      obtain rfl : d = c := by simpa [Token.chars, chars] using isHead
      simp only [chars, Bool.and_eq_true] at valid
      exact Or.inl (A.part_of_start valid.1)
  | number n =>
    have member : c ∈ Nat.toDigits 10 n := List.mem_of_mem_head? isHead
    exact Or.inl (A.part_of_digit (Nat.isDigit_of_mem_toDigits (by decide) (by decide) member))
  | sign text => exact Or.inr ⟨text, rfl, List.contains_iff_mem.mp valid, List.mem_of_mem_head? isHead⟩

theorem not_blank_of_sign : ∀ sign ∈ signs, ∀ c ∈ sign.toList, isBlank c = false := by
  have none : signs.all (fun sign => sign.toList.all fun c => !isBlank c) = true := by
    decide
  simpa using none

/-- A token does not start with a blank, so no blank hides it. -/
theorem not_blank_of_head {token : Token} (valid : token.isValid A = true) {c : Char}
    (isHead : token.chars.head? = some c) : isBlank c = false := by
  rcases head_of_valid valid isHead with isPart | ⟨text, -, known, member⟩
  · have space : c ≠ ' ' := by
      rintro rfl
      rw [A.not_part_of_sign (by decide)] at isPart
      cases isPart
    have tab : c ≠ '\t' := by
      rintro rfl
      rw [A.not_part_of_sign (by decide)] at isPart
      cases isPart
    simp [isBlank, space, tab]
  · exact not_blank_of_sign text known c member

@[simp] theorem spell_append (row more : List Glyph) : spell (row ++ more) = spell row ++ spell more :=
  List.flatMap_append

@[simp] theorem spell_cons (g : Glyph) (row : List Glyph) : spell (g :: row) = g.chars ++ spell row :=
  rfl

@[simp] theorem spell_nil : spell [] = [] :=
  rfl

@[simp] theorem chars_token (t : Token) : (Glyph.token t).chars = t.chars :=
  rfl

@[simp] theorem chars_blank : Glyph.blank.chars = [' '] :=
  rfl

@[simp] theorem chars_word (text : String) : (Token.word text).chars = text.toList :=
  rfl

@[simp] theorem chars_number (value : Nat) : (Token.number value).chars = Nat.toDigits 10 value :=
  rfl

@[simp] theorem chars_sign (text : String) : (Token.sign text).chars = text.toList :=
  rfl

@[simp] theorem tokensOf_append (row more : List Glyph) :
    tokensOf (row ++ more) = tokensOf row ++ tokensOf more :=
  List.filterMap_append

@[simp] theorem tokensOf_token (t : Token) (row : List Glyph) :
    tokensOf (.token t :: row) = t :: tokensOf row :=
  rfl

@[simp] theorem tokensOf_blank (row : List Glyph) : tokensOf (.blank :: row) = tokensOf row :=
  rfl

@[simp] theorem tokensOf_nil : tokensOf [] = [] :=
  rfl

/-- A row starts with the first character of its first glyph. -/
theorem head?_spell {row : List Glyph} (valid : ∀ t, .token t ∈ row → t.isValid A = true) {c : Char}
    (isHead : (spell row).head? = some c) : ∃ g, row.head? = some g ∧ g.chars.head? = some c := by
  cases row with
  | nil => simp at isHead
  | cons g row =>
    have nonempty : g.chars ≠ [] := by
      cases g with
      | blank => simp [Glyph.chars]
      | token t => exact chars_ne_nil (valid t (by simp))
    rw [spell_cons, List.head?_append_of_ne_nil _ nonempty] at isHead
    exact ⟨g, rfl, isHead⟩

/-- A row whose tokens all end where they should is read as its tokens. -/
theorem lex_spell {row : List Glyph} (valid : ∀ t, .token t ∈ row → t.isValid A = true)
    (clear : row.IsChain (Clear A)) : lex A (spell row) = some (tokensOf row) := by
  suffices within : ∀ n, (spell row).length ≤ n → lexWithin A n (spell row) = some (tokensOf row) from
    within _ (Nat.le_refl _)
  induction row with
  | nil => intro n _; cases n <;> rfl
  | cons g row ih =>
    have laterValid : ∀ t, .token t ∈ row → t.isValid A = true :=
      fun t member => valid t (by simp [member])
    have later := ih laterValid clear.tail
    intro n enough
    rw [spell_cons, List.length_append] at enough
    cases g with
    | blank =>
      simp only [Glyph.chars, List.length_singleton] at enough
      obtain ⟨n, rfl⟩ : ∃ m, n = m + 1 := ⟨n - 1, by omega⟩
      exact later n (by omega)
    | token t =>
      have isValid := valid t (by simp)
      have ends : ∀ c ∈ (spell row).head?, t.endsBefore A c = true := by
        intro c isHead
        obtain ⟨next, isNext, starts⟩ := head?_spell laterValid isHead
        obtain ⟨more, rfl⟩ := List.head?_eq_some_iff.mp isNext
        exact (List.isChain_cons_cons.mp clear).1 c starts
      have taken := nextToken_chars isValid ends
      cases chars : t.chars with
      | nil => exact absurd chars (chars_ne_nil isValid)
      | cons c cs =>
        have notBlank := not_blank_of_head isValid (show t.chars.head? = some c by rw [chars]; rfl)
        simp only [Glyph.chars, chars, List.length_cons] at enough
        obtain ⟨n, rfl⟩ : ∃ m, n = m + 1 := ⟨n - 1, by omega⟩
        rw [chars, List.cons_append] at taken
        simp [Glyph.chars, chars, lexWithin, notBlank, taken, later n (by omega)]

end Rows

end Untangle.Reading
