import Mathlib.Data.Nat.Digits.Defs
import Untangle.Text.Digit

/-!
# Integers in decimal

The characters of a written integer: the digits of its absolute value, after a sign if it is negative.
-/

namespace Untangle.Text

/-! ## Digits -/

theorem head_toDigits (n : Nat) : ∃ c rest, Nat.toDigits 10 n = c :: rest ∧ c.isDigit = true := by
  cases chars : Nat.toDigits 10 n with
  | nil => exact absurd chars Nat.toDigits_ne_nil
  | cons c rest =>
    have member : c ∈ Nat.toDigits 10 n := by simp [chars]
    exact ⟨c, rest, rfl, Nat.isDigit_of_mem_toDigits (by decide) (by decide) member⟩

theorem not_minus_of_digit {c : Char} (isDigit : c.isDigit = true) : c ≠ '-' := by
  rintro rfl
  cases isDigit

/-- The digits of a number other than zero do not start with zero. -/
theorem toDigits_head {n : Nat} (positive : 0 < n) : (Nat.toDigits 10 n).head? ≠ some '0' := by
  induction n using Nat.strongRecOn with
  | ind n ih =>
    by_cases small : n < 10
    · rw [Nat.toDigits_of_lt_base small]
      have digits : ∀ m < 10, 0 < m → [m.digitChar].head? ≠ some '0' := by decide
      exact digits n small positive
    · rw [Nat.toDigits_of_base_le (by decide) (by omega), List.head?_append]
      have front := ih (n / 10) (by omega) (by omega)
      cases isHead : (Nat.toDigits 10 (n / 10)).head? with
      | none => exact absurd (List.head?_eq_none_iff.mp isHead) Nat.toDigits_ne_nil
      | some c => simpa [isHead] using front

theorem isDigit_of_digit {c : Char} (digit : c.isDigit = true) : isDigit c = true := by
  have range : 48 ≤ c.toNat ∧ c.toNat ≤ 57 := by
    simpa [Char.isDigit, UInt32.le_iff_toNat_le] using digit
  refine List.any_eq_true.mpr ⟨(0x30, 0x39), List.mem_cons_self, ?_⟩
  simpa using range

/-! ## Integers -/

theorem toList_nonneg (n : Nat) : (toString (n : Int)).toList = Nat.toDigits 10 n := by
  show (Nat.repr n).toList = _
  simp [Nat.repr]

theorem toList_negSucc (n : Nat) :
    (toString (Int.negSucc n)).toList = '-' :: Nat.toDigits 10 (n + 1) := by
  show ("-" ++ Nat.repr (n + 1)).toList = _
  simp [Nat.repr]

/-- A written integer is not empty and has only digits and a sign. -/
theorem toString_int_chars (i : Int) : (toString i).toList ≠ [] ∧
    ∀ c ∈ (toString i).toList, c.isDigit = true ∨ c = '-' := by
  have digits {n : Nat} {c : Char} (member : c ∈ Nat.toDigits 10 n) : c.isDigit = true :=
    Nat.isDigit_of_mem_toDigits (by decide) (by decide) member
  cases i with
  | ofNat n =>
    rw [Int.ofNat_eq_natCast, toList_nonneg]
    exact ⟨Nat.toDigits_ne_nil, fun c member => .inl (digits member)⟩
  | negSucc n =>
    rw [toList_negSucc]
    refine ⟨List.cons_ne_nil _ _, fun c member => ?_⟩
    rcases List.mem_cons.mp member with sign | member
    · exact .inr sign
    · exact .inl (digits member)

theorem not_mem_toString_int {i : Int} {c : Char} (other : c.isDigit = false) (noSign : c ≠ '-') :
    c ∉ (toString i).toList := by
  intro member
  rcases (toString_int_chars i).2 c member with digit | sign
  · simp [digit] at other
  · exact noSign sign

end Untangle.Text
