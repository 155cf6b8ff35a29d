import Untangle.Tree.Build
import Untangle.Tree.Walk

/-!
# Reading and replacing fields

What a field reads after a replacement, and how the parts of a node compare with it in size. A read
finds the first field of a name and a replacement changes that one, so the two agree on every list
of fields, also on one that repeats a name.
-/

namespace Untangle

namespace Fields

theorem lookup_set_self (name : String) (value : Value) (fields : Fields) :
    (set name value fields).lookup name = some value := by
  induction fields with
  | nil => simp [set]
  | cons field rest ih =>
    obtain ⟨k, v⟩ := field
    by_cases same : k = name
    · simp [set, same]
    · simp only [set, if_neg same, List.lookup_cons, beq_false_of_ne (Ne.symm same)]
      exact ih

theorem lookup_set_of_ne {name other : String} (value : Value) (fields : Fields)
    (differs : other ≠ name) : (set name value fields).lookup other = fields.lookup other := by
  induction fields with
  | nil => simp [set, List.lookup_cons, beq_false_of_ne differs]
  | cons field rest ih =>
    obtain ⟨k, v⟩ := field
    by_cases same : k = name
    · subst same
      simp [set, List.lookup_cons, beq_false_of_ne differs]
    · simp only [set, if_neg same, List.lookup_cons]
      split
      · rfl
      · exact ih

/-- Putting back what a field already holds changes nothing. -/
theorem set_lookup {name : String} {value : Value} {fields : Fields}
    (found : fields.lookup name = some value) : set name value fields = fields := by
  induction fields with
  | nil => simp at found
  | cons field rest ih =>
    obtain ⟨k, v⟩ := field
    by_cases same : k = name
    · subst same
      simp only [List.lookup_cons_self, Option.some.injEq] at found
      simp [set, found]
    · simp only [List.lookup_cons, beq_false_of_ne (Ne.symm same)] at found
      simp only [set, if_neg same, ih found]

/-- The last of two replacements of a field counts. -/
theorem set_set (name : String) (first second : Value) (fields : Fields) :
    set name second (set name first fields) = set name second fields := by
  induction fields with
  | nil => simp [set]
  | cons field rest ih =>
    obtain ⟨k, v⟩ := field
    by_cases same : k = name
    · simp [set, same]
    · simp only [set, if_neg same, ih]

/-- Replacements of two fields do not depend on their order, if one of the fields is there. -/
theorem set_comm {name other : String} (differs : name ≠ other) (first second : Value) {old : Value}
    {fields : Fields} (found : fields.lookup name = some old) :
    set name first (set other second fields) = set other second (set name first fields) := by
  induction fields with
  | nil => simp at found
  | cons field rest ih =>
    obtain ⟨k, v⟩ := field
    by_cases same : k = name
    · subst same
      simp only [set, if_neg differs, if_true]
    · simp only [List.lookup_cons, beq_false_of_ne (Ne.symm same)] at found
      by_cases isOther : k = other
      · simp only [set, isOther, if_true, if_neg (Ne.symm differs)]
      · simp only [set, if_neg same, if_neg isOther, ih found]

theorem mem_of_lookup {α : Type} {name : String} {value : α} {fields : List (String × α)}
    (found : fields.lookup name = some value) : (name, value) ∈ fields := by
  obtain ⟨before, after, rfl, -⟩ := List.lookup_eq_some_iff.mp found
  simp

/-- A replaced field is the new one or one of the old ones. -/
theorem mem_set {name : String} {value : Value} {fields : Fields} {field : String × Value}
    (member : field ∈ set name value fields) : field = (name, value) ∨ field ∈ fields := by
  induction fields with
  | nil => exact Or.inl (by simpa [set] using member)
  | cons head rest ih =>
    obtain ⟨k, v⟩ := head
    by_cases same : k = name
    · subst same
      simp only [set, if_true, List.mem_cons] at member
      rcases member with rfl | member
      · exact Or.inl rfl
      · exact Or.inr (List.mem_cons_of_mem _ member)
    · simp only [set, if_neg same, List.mem_cons] at member
      rcases member with rfl | member
      · exact Or.inr (by simp)
      · exact (ih member).imp_right (List.mem_cons_of_mem _)

/-- A replacement of a field that is there keeps the names and their order. -/
theorem map_fst_set {name : String} {old : Value} (value : Value) {fields : Fields}
    (found : fields.lookup name = some old) :
    (set name value fields).map Prod.fst = fields.map Prod.fst := by
  induction fields with
  | nil => simp at found
  | cons field rest ih =>
    obtain ⟨k, v⟩ := field
    by_cases same : k = name
    · simp [set, same]
    · simp only [List.lookup_cons, beq_false_of_ne (Ne.symm same)] at found
      simp only [set, if_neg same, List.map_cons, ih found]

/-- A replacement gives no name a second field. -/
theorem nodup_set (name : String) (value : Value) {fields : Fields}
    (distinct : (fields.map Prod.fst).Nodup) : ((set name value fields).map Prod.fst).Nodup := by
  induction fields with
  | nil => simp [set]
  | cons head rest ih =>
    obtain ⟨k, v⟩ := head
    by_cases same : k = name
    · simpa [set, same] using distinct
    · simp only [List.map_cons, List.nodup_cons] at distinct
      simp only [set, if_neg same, List.map_cons, List.nodup_cons]
      refine ⟨fun repeated => ?_, ih distinct.2⟩
      obtain ⟨field, member, named⟩ := List.mem_map.mp repeated
      rcases mem_set member with rfl | member
      · exact same named.symm
      · exact distinct.1 (List.mem_map.mpr ⟨field, member, named⟩)

/-- A name that stands once is read where it stands. -/
theorem lookup_of_mem {α : Type} {name : String} {value : α} {fields : List (String × α)}
    (distinct : (fields.map Prod.fst).Nodup) (member : (name, value) ∈ fields) :
    fields.lookup name = some value := by
  induction fields with
  | nil => simp at member
  | cons head rest ih =>
    obtain ⟨k, v⟩ := head
    simp only [List.map_cons, List.nodup_cons] at distinct
    rcases List.mem_cons.mp member with same | later
    · obtain ⟨rfl, rfl⟩ := Prod.mk.inj same
      simp
    · have differs : name ≠ k := by
        rintro rfl
        exact distinct.1 (List.mem_map.mpr ⟨(name, value), later, rfl⟩)
      rw [List.lookup_cons, beq_false_of_ne differs]
      exact ih distinct.2 later

end Fields

/-- Nothing stands in the field. -/
def Lacks (fields : Fields) (name : String) : Prop :=
  fields.lookup name = none ∨ fields.lookup name = some .null

namespace Value

theorem field_of_lookup {tag : Value} {fields : Fields} {name : String} {value : Value}
    (found : fields.lookup name = some value) : (Value.node tag fields).field name = .ok value := by
  simp [field, found]

theorem optional_of_lookup {tag : Value} {fields : Fields} {name : String} {value : Value}
    (found : fields.lookup name = some value) (present : value ≠ .null) :
    (Value.node tag fields).optional name = .ok (some value) := by
  cases value <;> simp_all [optional]

theorem optional_of_null {tag : Value} {fields : Fields} {name : String}
    (found : fields.lookup name = some .null) :
    (Value.node tag fields).optional name = .ok none := by
  simp [optional, found]

theorem optional_of_none {tag : Value} {fields : Fields} {name : String}
    (found : fields.lookup name = none) : (Value.node tag fields).optional name = .ok none := by
  simp [optional, found]

theorem optional_of_lacks {tag : Value} {fields : Fields} {name : String} (lacks : Lacks fields name) :
    (Value.node tag fields).optional name = .ok none :=
  lacks.elim optional_of_none optional_of_null

theorem eq_str_of_isText {v : Value} {s : String} (same : v.isText s = true) : v = .str s := by
  cases v with
  | str t => simpa [isText] using same
  | _ => simp [isText] at same

theorem lookup_of_field {v w : Value} {name : String} (read : v.field name = .ok w) :
    ∃ tag fields, v = .node tag fields ∧ fields.lookup name = some w := by
  cases v with
  | node tag fields =>
    simp only [field] at read
    split at read
    · exact ⟨tag, fields, rfl, by simp_all⟩
    · simp at read
  | _ => simp [field] at read

theorem lookup_of_optional {v w : Value} {name : String} (read : v.optional name = .ok (some w)) :
    ∃ tag fields, v = .node tag fields ∧ fields.lookup name = some w := by
  cases v with
  | node tag fields =>
    simp only [optional] at read
    split at read
    · simp at read
    · exact ⟨tag, fields, rfl, by simpa using read⟩
  | _ => simp [optional] at read

theorem withField_lookup {tag : Value} {fields : Fields} {name : String} {value : Value}
    (found : fields.lookup name = some value) :
    (Value.node tag fields).withField name value = .node tag fields := by
  simp [withField, Fields.set_lookup found]

theorem size_pos (v : Value) : 0 < v.size := by
  cases v <;> simp [size]

theorem size_le_of_mem_items {v : Value} {items : List Value} (member : v ∈ items) :
    v.size ≤ sizeItems items := by
  induction items with
  | nil => simp at member
  | cons head rest ih =>
    simp only [sizeItems]
    rcases List.mem_cons.mp member with rfl | member
    · omega
    · have := ih member
      omega

theorem size_le_of_mem_fields {name : String} {v : Value} {fields : Fields}
    (member : (name, v) ∈ fields) : v.size ≤ sizeEntries fields := by
  induction fields with
  | nil => simp at member
  | cons head rest ih =>
    obtain ⟨k, w⟩ := head
    simp only [sizeEntries]
    rcases List.mem_cons.mp member with same | member
    · obtain ⟨rfl, rfl⟩ := Prod.mk.inj same
      omega
    · have := ih member
      omega

/-- A part of a node is smaller than the node. -/
theorem size_lt_of_lookup {tag : Value} {fields : Fields} {name : String} {v : Value}
    (found : fields.lookup name = some v) : v.size < (Value.node tag fields).size := by
  have := size_le_of_mem_fields (Fields.mem_of_lookup found)
  simp only [size]
  omega

/-- A member of a sequence in a field is smaller than the node with the field. -/
theorem size_lt_of_lookup_seq {tag : Value} {fields : Fields} {name : String} {v : Value}
    {items : List Value} (found : fields.lookup name = some (.seq items)) (member : v ∈ items) :
    v.size < (Value.node tag fields).size := by
  have outer := @size_lt_of_lookup tag _ _ _ found
  have inner := size_le_of_mem_items member
  simp only [size] at outer ⊢
  omega

theorem descendInto_eq (next : Value → Fields → Except Fault (Option String)) (tag : Value)
    (name : String) (fields : Fields) :
    descendInto next tag name fields =
      match fields.lookup name with
      | some v => descend next v
      | none => .error (.noField tag.plainText name) := by
  induction fields with
  | nil => simp [descendInto]
  | cons field rest ih =>
    obtain ⟨k, v⟩ := field
    by_cases same : k = name
    · subst same
      simp [descendInto]
    · simp only [descendInto, if_neg same, ih, List.lookup_cons, beq_false_of_ne (Ne.symm same)]

end Value

end Untangle
