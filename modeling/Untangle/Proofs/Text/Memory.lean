import Untangle.Proofs.Outcome
import Untangle.Text.Memory

/-!
# Texts that can be made

A text that cannot be made is too long, for an index or for the memory at hand. Nothing is assumed of
a memory; where a text is promised, the statement says for which lengths there has to be room.

* `TooLong` are the faults of texts that cannot be made.
* `Memory.HoldsUpTo` says that there is room for every text up to a length.
* `Memory.Makes` is what is said of a computation that makes one text in every memory with room.
-/

namespace Untangle.Text

/-- A text is too long for an index or for the memory. -/
def TooLong (fault : Fault) : Prop :=
  fault = .tooLarge ∨ fault = .noMemory

namespace Memory

/-- There is room for every text up to the length, and an index can count its characters. -/
structure HoldsUpTo (memory : Memory) (length : Nat) : Prop where
  counted : length ≤ indexLimit
  room : ∀ shorter ≤ length, memory.holds shorter = true

/-- In every memory the computation gives the text or fails because a text is too long. It gives the
text if what it needs besides is there and if there is room up to the length of the text, and only if
there is room for the text as a whole. -/
structure Makes (needs : Memory → Prop) (text : String) (make : Memory → Except Fault String) :
    Prop where
  only : ∀ memory, Gives TooLong (· = text) (make memory)
  enough : ∀ memory, needs memory → memory.HoldsUpTo text.length → make memory = .ok text
  fitting : ∀ memory, make memory = .ok text →
    text.length ≤ indexLimit ∧ memory.holds text.length = true

variable {memory : Memory} {length : Nat}

theorem upTo_holdsUpTo {limit : Nat} (counted : length ≤ indexLimit) (within : length ≤ limit) :
    (upTo limit).HoldsUpTo length :=
  ⟨counted, fun _ shorter => decide_eq_true (Nat.le_trans shorter within)⟩

theorem HoldsUpTo.mono {more : Nat} (holds : memory.HoldsUpTo more) (le : length ≤ more) :
    memory.HoldsUpTo length :=
  ⟨Nat.le_trans le holds.counted, fun shorter within => holds.room shorter (Nat.le_trans within le)⟩

theorem check_eq_ok : memory.check length = .ok () ↔
    length ≤ indexLimit ∧ memory.holds length = true := by
  unfold check
  split
  · simp
    omega
  · split <;> simp_all

theorem HoldsUpTo.check (holds : memory.HoldsUpTo length) : memory.check length = .ok () :=
  check_eq_ok.mpr ⟨holds.counted, holds.room length (Nat.le_refl _)⟩

theorem check_answers (memory : Memory) (length : Nat) : Answers TooLong (memory.check length) := by
  unfold Memory.check
  split
  · exact Or.inl rfl
  · split
    · trivial
    · exact Or.inr rfl

/-! ## Repeated texts -/

theorem checkRepeat_answers (memory : Memory) (length : Nat) (count : Int) :
    Answers TooLong (memory.checkRepeat length count) := by
  unfold checkRepeat
  split
  · exact Or.inl rfl
  · split
    · trivial
    · exact check_answers memory _

/-- Where there is room for the most copies there is room for fewer. -/
theorem HoldsUpTo.checkRepeat {count most : Int} (holds : memory.HoldsUpTo (length * most.toNat))
    (above : -(indexLimit : Int) - 1 ≤ count) (fewer : count ≤ most)
    (below : most ≤ indexLimit) : memory.checkRepeat length count = .ok () := by
  unfold Memory.checkRepeat
  rw [if_neg (by omega)]
  split
  · rfl
  · exact (holds.mono (Nat.mul_le_mul_left _ (by omega))).check

/-- There is no room for more copies than an index can count. -/
theorem checkRepeat_tooLarge {count : Int} (beyond : (indexLimit : Int) < count) :
    memory.checkRepeat length count = .error .tooLarge := by
  rw [Memory.checkRepeat, if_pos (.inl beyond)]

/-! ## Texts -/

theorem make_gives (memory : Memory) (text : String) : Gives TooLong (· = text) (memory.make text) :=
  (check_answers memory text.length).bind fun _ _ => rfl

theorem HoldsUpTo.make {text : String} (holds : memory.HoldsUpTo text.length) :
    memory.make text = .ok text := by
  rw [Memory.make, holds.check]
  rfl

theorem fitting_of_make {text : String} (made : memory.make text = .ok text) :
    text.length ≤ indexLimit ∧ memory.holds text.length = true := by
  unfold Memory.make at made
  cases checked : memory.check text.length with
  | ok _ => exact check_eq_ok.mp checked
  | error fault =>
    rw [checked] at made
    cases made

end Memory

end Untangle.Text
