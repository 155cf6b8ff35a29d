import Mathlib.Algebra.BigOperators.Group.List.Basic
import Untangle.Proofs.Tree.Everywhere

/-!
# Tallies

A weight for nodes adds up over a tree, in the order in which a walk meets the nodes. The weights come
from any additive monoid, so the sum is a number, a multiset, or a list of what was met. A tally adds
the weights up too, but takes the parts of a node in the order of the source, whatever the order of its
fields is. Rules that look fields up by name are easy to follow in a tally.

* `total` is the sum along a walk and `tally` the one in source order.
* `total_eq_tally` says that the two are the same when a walk meets the parts of each node in turn. It
  does if the fields stand in source order, and in a sense always if sums do not depend on order.
-/

namespace Untangle.Syntax

/-- Whether nodes can stand in the slot. -/
def Slot.holdsNodes : Slot → Bool
  | .bare | .text => false
  | _ => true

/-- The fields of a node that hold other nodes, in the order in which they are written. Of all nodes
only a loop with its test at the end is listed in another order. -/
def partsOf (tag : String) : List String :=
  if tag = "DoWhileStatement" then ["body", "test"]
  else ((fieldsOf tag).filter fun field => field.2.holdsNodes).map Prod.fst

variable {M : Type} [AddMonoid M]

/-- The sum of the weights of all nodes that a walk meets. -/
def total (w : Value → M) (v : Value) : M :=
  (v.walk.map w).sum

mutual

/-- The sum of the weights of all nodes in source order. -/
def tally (w : Value → M) : Value → M
  | .node (.str tag) fields =>
    w (.node (.str tag) fields) + ((partsOf tag).map fun name => tallyAt w name fields).sum
  | .seq items => tallyItems w items
  | _ => 0

def tallyAt (w : Value → M) (name : String) : Fields → M
  | [] => 0
  | (k, v) :: rest => if k = name then tally w v else tallyAt w name rest

def tallyItems (w : Value → M) : List Value → M
  | [] => 0
  | v :: rest => tally w v + tallyItems w rest

end

/-- The tally of a field that may be missing. -/
def tallyOf (w : Value → M) : Option Value → M
  | some v => tally w v
  | none => 0

variable {w : Value → M}

@[simp] theorem tallyOf_some (v : Value) : tallyOf w (some v) = tally w v := rfl

@[simp] theorem tallyOf_none : tallyOf w none = 0 := rfl

@[simp] theorem tally_null : tally w .null = 0 := by
  rw [tally]
  all_goals simp

theorem tallyAt_eq (name : String) (fields : Fields) :
    tallyAt w name fields = tallyOf w (fields.lookup name) := by
  induction fields with
  | nil => rfl
  | cons field rest ih =>
    obtain ⟨k, v⟩ := field
    by_cases same : k = name
    · simp [tallyAt, same]
    · simp only [tallyAt, if_neg same, List.lookup_cons, beq_false_of_ne (Ne.symm same), ih]

theorem tally_node (tag : String) (fields : Fields) :
    tally w (.tagged tag fields) = w (.tagged tag fields) +
      ((partsOf tag).map fun name => tallyOf w (fields.lookup name)).sum := by
  simp only [tally, tallyAt_eq]

@[simp] theorem tally_seq (items : List Value) : tally w (.seq items) = tallyItems w items := by
  rw [tally]

@[simp] theorem tallyItems_nil : tallyItems w [] = 0 := by
  rw [tallyItems]

@[simp] theorem tallyItems_cons (v : Value) (rest : List Value) :
    tallyItems w (v :: rest) = tally w v + tallyItems w rest := by
  rw [tallyItems]

@[simp] theorem tallyItems_append (first second : List Value) :
    tallyItems w (first ++ second) = tallyItems w first + tallyItems w second := by
  induction first with
  | nil => simp
  | cons v rest ih => simp [ih, add_assoc]

theorem tallyItems_eq (items : List Value) : tallyItems w items = (items.map (tally w)).sum := by
  induction items with
  | nil => simp
  | cons v rest ih => simp [ih]

theorem tallyItems_flatMap {before after : Value → M} {parts : List Value}
    {become : Value → List Value}
    (each : ∀ part ∈ parts, tallyItems after (become part) = tally before part) :
    tallyItems after (parts.flatMap become) = tallyItems before parts := by
  induction parts with
  | nil => rfl
  | cons part rest ih =>
    rw [List.flatMap_cons, tallyItems_append, each part (by simp),
      ih fun other among => each other (by simp [among]), tallyItems_cons]

/-! ## Walks and tallies -/

mutual

theorem tally_of_walk_nil (v : Value) (empty : v.walk = []) : tally w v = 0 := by
  match v with
  | .node tag fields => simp [Value.walk] at empty
  | .seq items => rw [tally_seq, tallyItems_of_walk_nil items (by simpa [Value.walk] using empty)]
  | .null | .bool _ | .int _ | .float _ | .str _ | .sealed _ | .list _ | .object _ => simp [tally]

theorem tallyItems_of_walk_nil (items : List Value) (empty : Value.walkItems items = []) :
    tallyItems w items = 0 := by
  match items with
  | [] => rfl
  | v :: rest =>
    obtain ⟨here, later⟩ := List.append_eq_nil_iff.mp (by simpa [Value.walkItems] using empty)
    rw [tallyItems_cons, tally_of_walk_nil v here, tallyItems_of_walk_nil rest later, add_zero]

end

theorem total_of_walk_nil {v : Value} (empty : v.walk = []) : total w v = 0 := by
  simp [total, empty]

theorem total_node (tag : Value) (fields : Fields) :
    total w (.node tag fields) =
      w (.node tag fields) + (fields.map fun field => total w field.2).sum := by
  have below : ((Value.walkFields fields).map w).sum =
      (fields.map fun field => total w field.2).sum := by
    induction fields with
    | nil => rfl
    | cons field rest ih =>
      simp only [Value.walkFields, List.map_append, List.sum_append, List.map_cons, List.sum_cons, ih]
      rfl
  rw [total, Value.walk, List.map_cons, List.sum_cons, below]

theorem total_seq (items : List Value) : total w (.seq items) = (items.map (total w)).sum := by
  rw [total, Value.walk]
  induction items with
  | nil => rfl
  | cons item rest ih => simp [Value.walkItems, total, ih]

/-- The total of a field that may be missing. -/
def totalOf (w : Value → M) : Option Value → M
  | some v => total w v
  | none => 0

/-- The parts of a node as its fields have them. -/
def foundParts (tag : String) (fields : Fields) : List String :=
  (fields.map Prod.fst).filter (partsOf tag).contains

/-- The parts of a node as they are written. -/
def writtenParts (tag : String) (fields : Fields) : List String :=
  (partsOf tag).filter (fields.map Prod.fst).contains

/-- Whether the fields of a node stand in the order in which its parts are written. -/
def isInOrder : Value → Bool
  | .node (.str tag) fields => foundParts tag fields == writtenParts tag fields
  | _ => true

/-- The order is a matter of the names only. -/
theorem isInOrder_congr {tag : String} {fields others : Fields}
    (names : others.map Prod.fst = fields.map Prod.fst) :
    isInOrder (.tagged tag others) = isInOrder (.tagged tag fields) := by
  simp only [isInOrder, foundParts, writtenParts, names]

/-- Summands that are zero may be left out. -/
theorem sum_filter {α : Type} {f : α → M} {p : α → Bool} {items : List α}
    (zero : ∀ a ∈ items, p a = false → f a = 0) :
    ((items.filter p).map f).sum = (items.map f).sum := by
  induction items with
  | nil => rfl
  | cons a rest ih =>
    have later := ih fun b among => zero b (by simp [among])
    by_cases holds : p a = true
    · simp [holds, later]
    · simp [holds, later, zero a (by simp) (by simpa using holds)]

theorem slotOf_not_part {tag name : String} (other : name ∉ partsOf tag) :
    slotOf tag name = .bare ∨ slotOf tag name = .text := by
  unfold slotOf
  cases found : (fieldsOf tag).lookup name with
  | none => exact Or.inl rfl
  | some slot =>
    have member := Fields.mem_of_lookup found
    have empty : slot.holdsNodes = false := by
      rw [← Bool.not_eq_true]
      intro holds
      apply other
      unfold partsOf
      split
      · rename_i same
        subst same
        have names : ∀ field ∈ fieldsOf "DoWhileStatement", field.1 ∈ ["body", "test"] := by decide
        exact names _ member
      · exact List.mem_map.mpr ⟨(name, slot), List.mem_filter.mpr ⟨member, holds⟩, rfl⟩
    cases slot <;> simp_all [Slot.holdsNodes]

theorem walk_nil_of_not_part {tag : String} {fields : Fields} {field : String × Value}
    (formed : Formed tag fields) (member : field ∈ fields) (other : field.1 ∉ partsOf tag) :
    field.2.walk = [] := by
  have fit := fitFields_iff.mp formed.fitted field member
  rcases slotOf_not_part other with bare | text
  · rw [bare] at fit
    exact walk_bare fit
  · rw [text] at fit
    obtain ⟨s, same⟩ := fits_text.mp fit
    rw [same]
    rfl

theorem partsOf_nodup (tag : String) : (partsOf tag).Nodup := by
  unfold partsOf
  split
  · decide
  · have distinct : ((fieldsOf tag).map Prod.fst).Nodup := by
      unfold fieldsOf
      cases found : schema.lookup tag with
      | none => exact List.nodup_nil
      | some entry =>
        have each : ∀ entry ∈ schema, (entry.2.map Prod.fst).Nodup := by decide
        exact each _ (Fields.mem_of_lookup found)
    exact distinct.sublist (List.filter_sublist.map _)

variable {tag : String} {fields : Fields}

/-- What a walk meets in the fields of a node it meets in its parts. -/
theorem sum_foundParts (formed : Formed tag fields) :
    (fields.map fun field => total w field.2).sum =
      ((foundParts tag fields).map fun name => totalOf w (fields.lookup name)).sum := by
  have parts : foundParts tag fields =
      (fields.filter fun field => (partsOf tag).contains field.1).map Prod.fst := by
    rw [foundParts, List.filter_map]
    rfl
  have kept := sum_filter (p := fun field => (partsOf tag).contains field.1) fun field member outside =>
    total_of_walk_nil (w := w) (walk_nil_of_not_part formed member (by simpa using outside))
  rw [parts, List.map_map, ← kept]
  refine congrArg List.sum (List.map_congr_left fun field among => ?_)
  have member := (List.mem_filter.mp among).1
  simp only [Function.comp_apply, Fields.lookup_of_mem formed.distinct member, totalOf]

theorem sum_writtenParts :
    ((writtenParts tag fields).map fun name => totalOf w (fields.lookup name)).sum =
      ((partsOf tag).map fun name => totalOf w (fields.lookup name)).sum := by
  refine sum_filter fun name _ outside => ?_
  cases found : fields.lookup name with
  | none => rfl
  | some v =>
    have among : name ∈ fields.map Prod.fst := List.mem_map_of_mem (Fields.mem_of_lookup found)
    simp [among] at outside

theorem foundParts_perm (formed : Formed tag fields) :
    (foundParts tag fields).Perm (writtenParts tag fields) := by
  have found : (foundParts tag fields).Nodup := formed.distinct.filter _
  have written : (writtenParts tag fields).Nodup := (partsOf_nodup tag).filter _
  refine (List.perm_ext_iff_of_nodup found written).mpr fun name => ?_
  rw [foundParts, writtenParts, List.mem_filter, List.mem_filter, List.contains_iff_mem,
    List.contains_iff_mem, and_comm]

/-- A single part is in order. -/
theorem isInOrder_of_single {name : String} (formed : Formed tag fields)
    (listed : partsOf tag = [name]) : isInOrder (.tagged tag fields) = true := by
  have perm := foundParts_perm formed
  rw [isInOrder, beq_iff_eq]
  have written : writtenParts tag fields = [name] ∨ writtenParts tag fields = [] := by
    rw [writtenParts, listed, List.filter_singleton]
    cases (fields.map Prod.fst).contains name with
    | true => exact Or.inl rfl
    | false => exact Or.inr rfl
  rcases written with same | same
  · rw [same] at perm ⊢
    exact List.perm_singleton.mp perm
  · rw [same] at perm ⊢
    exact perm.eq_nil

/-- A walk meets the parts of every node as they are written. -/
def InTurn (w : Value → M) (n : Value) : Prop :=
  ∀ tag fields, n = .tagged tag fields → Formed tag fields →
    (fields.map fun field => total w field.2).sum =
      ((partsOf tag).map fun name => totalOf w (fields.lookup name)).sum

theorem inTurn_of_inOrder {n : Value} (ordered : isInOrder n = true) : InTurn w n := by
  rintro tag fields rfl formed
  rw [sum_foundParts formed, eq_of_beq ordered, sum_writtenParts]

theorem inTurn_of_comm {N : Type} [AddCommMonoid N] {w : Value → N} (n : Value) : InTurn w n := by
  rintro tag fields rfl formed
  rw [sum_foundParts formed, ((foundParts_perm formed).map _).sum_eq, sum_writtenParts]

/-- If a walk meets the parts of every node in turn, the total is the tally. -/
theorem total_eq_tally (formed : Formed tag fields) (each : Everywhere (InTurn w) (.tagged tag fields)) :
    total w (.tagged tag fields) = tally w (.tagged tag fields) := by
  induction formed using formed_induction with
  | step tag fields formed inner =>
    rw [total_node, tally_node, each.own tag fields rfl formed]
    refine congrArg (w _ + List.sum ·) (List.map_congr_left fun name _ => ?_)
    cases found : fields.lookup name with
    | none => rfl
    | some v =>
      have member := Fields.mem_of_lookup found
      have fit := formed.fits_lookup found
      have same {tag' : String} {inside : Fields} (held : heldBy v tag' inside)
          (insideFormed : Formed tag' inside) :
          total w (.tagged tag' inside) = tally w (.tagged tag' inside) :=
        inner name v member tag' inside held insideFormed ((each.below _ member).held held)
      show total w v = tally w v
      cases v with
      | node tag' inside =>
        obtain ⟨text, rfl, insideFormed⟩ := formed_of_fits fit
        exact same (Or.inl rfl) insideFormed
      | seq items =>
        rw [total_seq, tally_seq, tallyItems_eq]
        refine congrArg List.sum (List.map_congr_left fun item among => ?_)
        rcases member_of_fits fit among with ⟨text, inside, rfl, insideFormed⟩ | empty
        · exact same (Or.inr ⟨items, rfl, among⟩) insideFormed
        · rw [total_of_walk_nil empty, tally_of_walk_nil _ empty]
      | _ => rw [total_of_walk_nil rfl, tally_of_walk_nil _ rfl]

end Untangle.Syntax
