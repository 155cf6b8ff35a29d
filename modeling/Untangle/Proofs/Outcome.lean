import Untangle.Fault

/-!
# What computations give

A computation that may fail is described by what it gives and by the reasons for which it can fail.

* `Gives` says both, and `Gives.bind` carries it through a computation step by step.
* `Answers` leaves open what is given, `Ensures` for which reasons it fails.
-/

namespace Untangle

/-- A computation that goes on after an answer. -/
@[simp] theorem ok_bind {α β : Type} (a : α) (f : α → Except Fault β) :
    ((Except.ok a : Except Fault α) >>= f) = f a := rfl

@[simp] theorem pure_ok {α : Type} (a : α) : (pure a : Except Fault α) = .ok a := rfl

/-- A computation that answers has answered at each step. -/
theorem ok_of_bind {α β : Type} {x : Except Fault α} {f : α → Except Fault β} {b : β}
    (answer : (x >>= f) = .ok b) : ∃ a, x = .ok a ∧ f a = .ok b := by
  cases x with
  | error fault => cases answer
  | ok a => exact ⟨a, rfl, answer⟩

/-- The computation gives a value like this, or fails for a reason like this. -/
def Gives {α : Type} (E : Fault → Prop) (P : α → Prop) : Except Fault α → Prop
  | .ok a => P a
  | .error fault => E fault

namespace Gives

variable {α β : Type} {E : Fault → Prop} {P : α → Prop} {Q : β → Prop}

theorem bind {x : Except Fault α} {f : α → Except Fault β} (first : Gives E P x)
    (next : ∀ a, P a → Gives E Q (f a)) : Gives E Q (x >>= f) := by
  cases x with
  | ok a => exact next a first
  | error fault => exact first

/-- A step that is known to answer. -/
theorem next {a : α} {f : α → Except Fault β} (rest : Gives E Q (f a)) :
    Gives E Q (Except.ok a >>= f) :=
  rest

theorem imp {P' : α → Prop} {x : Except Fault α} (gives : Gives E P x) (weaker : ∀ a, P a → P' a) :
    Gives E P' x := by
  cases x with
  | ok a => exact weaker a gives
  | error fault => exact gives

theorem mapM {f : α → Except Fault β} {items : List α} (each : ∀ item ∈ items, Gives E Q (f item)) :
    Gives E (∀ result ∈ ·, Q result) (items.mapM f) := by
  induction items with
  | nil => simp [Gives]
  | cons item rest ih =>
    rw [List.mapM_cons]
    refine (each item (by simp)).bind fun b holds => ?_
    refine (ih fun other member => each other (by simp [member])).bind fun results all => ?_
    simpa [Gives] using ⟨holds, all⟩

theorem ite_of {condition : Prop} [Decidable condition] {x y : Except Fault α}
    (yes : condition → Gives E P x) (no : ¬ condition → Gives E P y) :
    Gives E P (if condition then x else y) := by
  split
  · exact yes ‹_›
  · exact no ‹_›

theorem ite {condition : Prop} [Decidable condition] {x y : Except Fault α} (yes : Gives E P x)
    (no : Gives E P y) : Gives E P (if condition then x else y) :=
  ite_of (fun _ => yes) fun _ => no

end Gives

/-- The computation gives something, or fails for a reason like this. -/
abbrev Answers {α : Type} (E : Fault → Prop) (x : Except Fault α) : Prop :=
  Gives E (fun _ => True) x

/-- What the computation gives is like this, if it gives something. -/
abbrev Ensures {α : Type} (P : α → Prop) (x : Except Fault α) : Prop :=
  Gives (fun _ => True) P x

/-- A step of which nothing but its answer is known. -/
theorem Gives.after {α β : Type} {Q : β → Prop} {x : Except Fault α} {f : α → Except Fault β}
    (next : ∀ a, x = .ok a → Ensures Q (f a)) : Ensures Q (x >>= f) := by
  cases x with
  | ok a => exact next a rfl
  | error fault => trivial

theorem Ensures.apply {α : Type} {P : α → Prop} {x : Except Fault α} {a : α} (yields : Ensures P x)
    (answer : x = .ok a) : P a := by
  subst answer
  exact yields

end Untangle
