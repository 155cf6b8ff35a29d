import Untangle.Fault

/-!
# Memory for texts

A text can be made only if an index can count its characters and if there is memory for it. How much
memory there is, is a matter of the machine: whatever makes long texts takes a `Memory` and fails
where that has no room.

* `Memory.check` says whether a text of a length can be made, and `Memory.make` makes it.
* `Memory.checkRepeat` says whether a text can be repeated.
-/

namespace Untangle.Text

/-- The greatest number that an index can hold. -/
def indexLimit : Nat := 9223372036854775807

/-- The memory in which texts are made. -/
structure Memory where
  /-- Whether there is room for a text of the given length. -/
  holds : Nat → Bool

namespace Memory

def upTo (limit : Nat) : Memory where
  holds length := length ≤ limit

def check (memory : Memory) (length : Nat) : Except Fault Unit :=
  if indexLimit < length then .error .tooLarge
  else if memory.holds length then .ok ()
  else .error .noMemory

def make (memory : Memory) (text : String) : Except Fault String := do
  memory.check text.length
  return text

/-- Whether a text of the given length can be repeated `count` times. A count of zero or less gives
the empty text and one copy is the text itself, so that nothing is made for them. -/
def checkRepeat (memory : Memory) (length : Nat) (count : Int) : Except Fault Unit :=
  if (indexLimit : Int) < count ∨ count < -(indexLimit : Int) - 1 then .error .tooLarge
  else if count ≤ 1 then .ok ()
  else memory.check (length * count.toNat)

end Memory

end Untangle.Text
