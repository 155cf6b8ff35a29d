import Untangle.Proofs.Tree.WellFormed

/-!
# What holds of every node

A property of nodes holds everywhere in a value when every node that a walk meets has it. What a
node holds everywhere is what it has itself and what its fields hold everywhere, so a property that
a replacement keeps is kept all the way down.

* `Everywhere` is the property of a whole value, `Throughout` of the fields of a node.
-/

namespace Untangle.Syntax

/-! ## What a walk meets -/

theorem walk_bare {v : Value} (fit : fits .bare v = true) : v.walk = [] := by
  cases v with
  | seq items => simpa [fits, Slot.member?, Value.walk] using fit
  | node tag fields =>
    obtain ⟨name, rfl, -⟩ := formed_of_fits fit
    simp [fits, Slot.tags] at fit
  | _ => rfl

theorem mem_walkFields {fields : Fields} {n : Value} (member : n ∈ Value.walkFields fields) :
    ∃ field ∈ fields, n ∈ field.2.walk := by
  induction fields with
  | nil => simp [Value.walkFields] at member
  | cons field rest ih =>
    rcases List.mem_append.mp (by simpa [Value.walkFields] using member) with here | later
    · exact ⟨field, by simp, here⟩
    · obtain ⟨other, within, found⟩ := ih later
      exact ⟨other, by simp [within], found⟩

theorem mem_walkItems {items : List Value} {n : Value} (member : n ∈ Value.walkItems items) :
    ∃ item ∈ items, n ∈ item.walk := by
  induction items with
  | nil => simp [Value.walkItems] at member
  | cons item rest ih =>
    rcases List.mem_append.mp (by simpa [Value.walkItems] using member) with here | later
    · exact ⟨item, by simp, here⟩
    · obtain ⟨other, within, found⟩ := ih later
      exact ⟨other, by simp [within], found⟩

theorem walkFields_of_mem {fields : Fields} {field : String × Value} {n : Value}
    (within : field ∈ fields) (member : n ∈ field.2.walk) : n ∈ Value.walkFields fields := by
  induction fields with
  | nil => simp at within
  | cons head rest ih =>
    rw [Value.walkFields, List.mem_append]
    rcases List.mem_cons.mp within with rfl | within
    · exact Or.inl member
    · exact Or.inr (ih within)

theorem walkItems_of_mem {items : List Value} {item n : Value} (within : item ∈ items)
    (member : n ∈ item.walk) : n ∈ Value.walkItems items := by
  induction items with
  | nil => simp at within
  | cons head rest ih =>
    rw [Value.walkItems, List.mem_append]
    rcases List.mem_cons.mp within with rfl | within
    · exact Or.inl member
    · exact Or.inr (ih within)

/-- What a walk meets is no larger than the value it goes through. -/
theorem size_le_of_mem_walk {v n : Value} (member : n ∈ v.walk) : n.size ≤ v.size := by
  match v with
  | .node tag fields =>
    rcases List.mem_cons.mp (by simpa [Value.walk] using member) with rfl | below
    · exact Nat.le_refl _
    · obtain ⟨⟨name, w⟩, within, found⟩ := mem_walkFields below
      have smaller : w.size < (Value.node tag fields).size := by
        have := Value.size_le_of_mem_fields within
        simp only [Value.size]
        omega
      exact Nat.le_trans (size_le_of_mem_walk found) (Nat.le_of_lt smaller)
  | .seq items =>
    obtain ⟨item, within, found⟩ := mem_walkItems (by simpa [Value.walk] using member)
    have smaller : item.size < (Value.seq items).size := by
      have := Value.size_le_of_mem_items within
      simp only [Value.size]
      omega
    exact Nat.le_trans (size_le_of_mem_walk found) (Nat.le_of_lt smaller)
  | .null | .bool _ | .int _ | .float _ | .str _ | .sealed _ | .list _ | .object _ =>
    simp [Value.walk] at member
termination_by v.size

/-- A walk meets what a walk meets from a node that it meets. -/
theorem mem_walk_trans {v n m : Value} (member : n ∈ v.walk) (below : m ∈ n.walk) : m ∈ v.walk := by
  match v with
  | .node tag fields =>
    rcases List.mem_cons.mp (by simpa [Value.walk] using member) with rfl | inside
    · exact below
    · obtain ⟨⟨name, w⟩, within, found⟩ := mem_walkFields inside
      have smaller : w.size < (Value.node tag fields).size := by
        have := Value.size_le_of_mem_fields within
        simp only [Value.size]
        omega
      rw [Value.walk]
      exact List.mem_cons_of_mem _ (walkFields_of_mem within (mem_walk_trans found below))
  | .seq items =>
    obtain ⟨item, within, found⟩ := mem_walkItems (by simpa [Value.walk] using member)
    have smaller : item.size < (Value.seq items).size := by
      have := Value.size_le_of_mem_items within
      simp only [Value.size]
      omega
    rw [Value.walk]
    exact walkItems_of_mem within (mem_walk_trans found below)
  | .null | .bool _ | .int _ | .float _ | .str _ | .sealed _ | .list _ | .object _ =>
    simp [Value.walk] at member
termination_by v.size

/-- A member of a sequence in a well-formed tree is a well-formed node, or a walk meets nothing in
it. -/
theorem member_of_fits {slot : Slot} {items : List Value} {item : Value}
    (fit : fits slot (.seq items) = true) (member : item ∈ items) :
    (∃ tag fields, item = .tagged tag fields ∧ Formed tag fields) ∨ item.walk = [] := by
  cases item with
  | node tag fields =>
    obtain ⟨text, rfl, formed⟩ := formed_of_fits_member fit member
    exact Or.inl ⟨text, fields, rfl, formed⟩
  | seq inner =>
    right
    simp only [fits] at fit
    split at fit
    · rename_i slotOfMember memberIs
      have inside := fitItems_iff.mp fit _ member
      cases slot with
      | many tags | holes tags =>
        cases memberIs
        simp [fits, Slot.member?] at inside
      | _ => cases memberIs
    · simp only [Bool.and_eq_true, List.isEmpty_iff] at fit
      rw [List.eq_nil_iff_forall_not_mem]
      intro n found
      have met := walkItems_of_mem member found
      simp [fit.2] at met
  | _ => exact Or.inr rfl

/-! ## Induction over well-formed trees -/

/-- The node is the value or a member of it. -/
def heldBy (v : Value) (tag : String) (fields : Fields) : Prop :=
  v = .tagged tag fields ∨ ∃ items, v = .seq items ∧ .tagged tag fields ∈ items

/-- What follows for a node from the nodes in its fields holds of every well-formed node. -/
theorem formed_induction {motive : (tag : String) → (fields : Fields) → Formed tag fields → Prop}
    (step : ∀ tag fields formed,
      (∀ name v, (name, v) ∈ fields → ∀ tag' inner, heldBy v tag' inner →
        ∀ formed' : Formed tag' inner, motive tag' inner formed') → motive tag fields formed)
    {tag : String} {fields : Fields} (formed : Formed tag fields) : motive tag fields formed := by
  refine step tag fields formed fun name v member tag' inner held innerFormed => ?_
  have outer := Value.size_le_of_mem_fields member
  have smaller : (Value.tagged tag' inner).size ≤ Value.sizeEntries fields := by
    rcases held with rfl | ⟨items, rfl, among⟩
    · exact outer
    · have inside := Value.size_le_of_mem_items among
      simp only [Value.size] at outer inside ⊢
      omega
  have descends : Value.sizeEntries inner < Value.sizeEntries fields := by
    simp only [Value.size] at smaller
    omega
  exact formed_induction step innerFormed
termination_by Value.sizeEntries fields

/-! ## Properties of whole trees -/

/-- Every node of the value has the property. -/
def Everywhere (P : Value → Prop) (v : Value) : Prop :=
  ∀ n ∈ v.walk, P n

instance (P : Value → Prop) [DecidablePred P] (v : Value) : Decidable (Everywhere P v) :=
  inferInstanceAs (Decidable (∀ n ∈ v.walk, P n))

/-- Every node under the fields has the property. -/
def Throughout (P : Value → Prop) (fields : Fields) : Prop :=
  ∀ field ∈ fields, Everywhere P field.2

variable {P Q : Value → Prop}

theorem Everywhere.imp {v : Value} (each : Everywhere P v) (weaker : ∀ n, P n → Q n) :
    Everywhere Q v :=
  fun n member => weaker n (each n member)

theorem Everywhere.met {v n : Value} (each : Everywhere P v) (member : n ∈ v.walk) :
    Everywhere P n :=
  fun m below => each m (mem_walk_trans member below)

theorem Everywhere.of_walk_nil {v : Value} (empty : v.walk = []) : Everywhere P v := by
  intro n member
  simp [empty] at member

theorem everywhere_node {tag : Value} {fields : Fields} :
    Everywhere P (.node tag fields) ↔ P (.node tag fields) ∧ Throughout P fields := by
  unfold Everywhere Throughout
  rw [Value.walk, List.forall_mem_cons]
  constructor
  · rintro ⟨own, below⟩
    exact ⟨own, fun field within n member => below n (walkFields_of_mem within member)⟩
  · rintro ⟨own, below⟩
    refine ⟨own, fun n member => ?_⟩
    obtain ⟨field, within, found⟩ := mem_walkFields member
    exact below field within n found

theorem everywhere_seq {items : List Value} :
    Everywhere P (.seq items) ↔ ∀ item ∈ items, Everywhere P item := by
  unfold Everywhere
  rw [Value.walk]
  constructor
  · intro each item within n member
    exact each n (walkItems_of_mem within member)
  · intro each n member
    obtain ⟨item, within, found⟩ := mem_walkItems member
    exact each item within n found

theorem Everywhere.own {tag : Value} {fields : Fields} (each : Everywhere P (.node tag fields)) :
    P (.node tag fields) :=
  (everywhere_node.mp each).1

theorem Everywhere.below {tag : Value} {fields : Fields} (each : Everywhere P (.node tag fields)) :
    Throughout P fields :=
  (everywhere_node.mp each).2

theorem Everywhere.held {v : Value} {tag : String} {fields : Fields} (each : Everywhere P v)
    (held : heldBy v tag fields) : Everywhere P (.tagged tag fields) := by
  rcases held with rfl | ⟨items, rfl, among⟩
  · exact each
  · exact everywhere_seq.mp each _ among

namespace Throughout

variable {fields : Fields} {name : String} {v : Value}

theorem lookup (each : Throughout P fields) (found : fields.lookup name = some v) :
    Everywhere P v :=
  each _ (Fields.mem_of_lookup found)

theorem member (each : Throughout P fields) {items : List Value} {item : Value}
    (found : fields.lookup name = some (.seq items)) (within : item ∈ items) :
    Everywhere P item :=
  everywhere_seq.mp (each.lookup found) item within

theorem set (each : Throughout P fields) (new : Everywhere P v) :
    Throughout P (Fields.set name v fields) := by
  intro field within
  rcases Fields.mem_set within with rfl | within
  · exact new
  · exact each field within

/-- A node with a field replaced has the property everywhere if it has it itself. -/
theorem withField (each : Throughout P fields) (new : Everywhere P v) {tag : Value}
    (own : P ((Value.node tag fields).withField name v)) :
    Everywhere P ((Value.node tag fields).withField name v) :=
  everywhere_node.mpr ⟨own, each.set new⟩

end Throughout

end Untangle.Syntax
