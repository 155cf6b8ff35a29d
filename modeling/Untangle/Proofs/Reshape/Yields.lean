import Untangle.Reshape.Engine

/-!
# Computations that answer

A computation of the engine yields a value when it ends with that value from every count of rule
uses. What a computation yields is put together from what its steps yield, so no proof about a rule
has to look at the counts.
-/

namespace Untangle.Reshape

/-- The second step goes on from what the first has counted, unless the first fails. -/
theorem run_bind {α β : Type} (m : ReshapeM α) (f : α → ReshapeM β) (hits : Hits) :
    (m >>= f).run.run hits =
      match m.run.run hits with
      | (.ok x, after) => (f x).run.run after
      | (.error fault, after) => (.error fault, after) := by
  show (ExceptT.bind m f).run.run hits = _
  simp only [ExceptT.bind, ExceptT.run, StateT.run]
  show StateT.bind m (ExceptT.bindCont f) hits = _
  simp only [StateT.bind]
  cases m hits with
  | mk result after => cases result <;> rfl

/-- The computation ends without a fault, with this value, whatever was counted before it. -/
def Yields {α : Type} (m : ReshapeM α) (a : α) : Prop :=
  ∀ hits, (m.run.run hits).1 = .ok a

namespace Yields

variable {α β : Type}

theorem pure (a : α) : Yields (Pure.pure a) a :=
  fun _ => rfl

theorem lift {r : Except Fault α} {a : α} (h : r = .ok a) : Yields (liftM r : ReshapeM α) a := by
  subst h
  exact fun _ => rfl

theorem hit (name : String) : Yields (Reshape.hit name) () :=
  fun _ => rfl

theorem bind {m : ReshapeM α} {f : α → ReshapeM β} {a : α} {b : β} (first : Yields m a)
    (next : Yields (f a) b) : Yields (m >>= f) b := by
  intro hits
  have ended := first hits
  rw [run_bind]
  cases same : m.run.run hits with
  | mk result after =>
    rw [same] at ended
    simp only at ended
    subst ended
    exact next after

theorem map {m : ReshapeM α} {a : α} (h : Yields m a) (f : α → β) : Yields (f <$> m) (f a) := by
  rw [map_eq_pure_bind]
  exact h.bind (pure (f a))

theorem mapM {f : α → ReshapeM β} {g : α → β} {items : List α}
    (each : ∀ item ∈ items, Yields (f item) (g item)) : Yields (items.mapM f) (items.map g) := by
  induction items with
  | nil => exact pure []
  | cons item rest ih =>
    rw [List.mapM_cons]
    apply (each item (by simp)).bind
    apply (ih fun other member => each other (by simp [member])).bind
    exact pure _

/-- A step that only reads a tree, followed by the rest of the computation. -/
theorem lift_bind {r : Except Fault α} {f : α → ReshapeM β} {a : α} {b : β} (h : r = .ok a)
    (next : Yields (f a) b) : Yields ((liftM r : ReshapeM α) >>= f) b :=
  (lift h).bind next

end Yields

/-- The rule for a tag in a map from which some tags were removed. -/
theorem lookup_filter_tags {α : Type} (rules : List (String × α)) (off : List String)
    (tag : String) :
    (rules.filter fun entry => !off.contains entry.1).lookup tag =
      if off.contains tag then none else rules.lookup tag := by
  induction rules with
  | nil => simp
  | cons rule rest ih =>
    obtain ⟨k, r⟩ := rule
    by_cases removed : off.contains k = true
    · rw [List.filter_cons_of_neg (by simpa using removed), ih]
      by_cases same : tag = k
      · subst same
        rw [if_pos removed, if_pos removed]
      · simp only [List.lookup_cons, beq_false_of_ne same]
    · rw [List.filter_cons_of_pos (by simpa using removed)]
      by_cases same : tag = k
      · subst same
        rw [if_neg removed, List.lookup_cons_self, List.lookup_cons_self]
      · simp only [List.lookup_cons, beq_false_of_ne same, ih]

end Untangle.Reshape
