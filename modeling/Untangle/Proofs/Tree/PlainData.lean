import Mathlib.Data.List.Induction
import Untangle.Proofs.Outcome
import Untangle.Proofs.Tree.Fields
import Untangle.Tree.Data

/-!
# Plain data and back

A tree that was read from plain data is written as plain data that reads as the same tree, with the
fields in the same order all the way down. Reading drops the keys that start with an underscore and
spells `isAsync` as `async`; where no object has such a key, nothing is lost and what is written is
what was read, except that the tag of a node is written first.

The two conversions are those of section 3 of the specification.

* `Data.everyObject` asks a question of the keys of every object.
* `Data.Alike` is equality of plain data in which the order of keys does not count.
* `ofData_toData` is the round trip.
-/

namespace Untangle

namespace Data

mutual

/-- Whether the keys of every object pass the test. -/
def everyObject (test : List String → Bool) : Data → Bool
  | .array items => everyItem test items
  | .object entries => test (entries.map Prod.fst) && everyEntry test entries
  | _ => true

/-- Whether the keys of every object in the items pass the test. -/
def everyItem (test : List String → Bool) : List Data → Bool
  | [] => true
  | d :: rest => d.everyObject test && everyItem test rest

/-- Whether the keys of every object in the entries pass the test. -/
def everyEntry (test : List String → Bool) : List (String × Data) → Bool
  | [] => true
  | (_, d) :: rest => d.everyObject test && everyEntry test rest

end

/-- Whether every object has each of its keys once. -/
def isProper (d : Data) : Bool :=
  d.everyObject fun keys => decide keys.Nodup

/-- Whether a key is read as it is spelled. -/
def isPlainKey (key : String) : Bool :=
  key.toList.head? != some '_' && key != "isAsync"

/-- Whether every key of every object is read as it is spelled. -/
def isPlain (d : Data) : Bool :=
  d.everyObject fun keys => keys.all isPlainKey

mutual

/-- Equality of plain data; the order of keys does not count. -/
def Alike : Data → Data → Prop
  | .array xs, .array ys => AlikeItems xs ys
  | .object xs, .object ys => (xs.map Prod.fst).Perm (ys.map Prod.fst) ∧ AlikeEntries xs ys
  | a, b => a = b

def AlikeItems : List Data → List Data → Prop
  | [], [] => True
  | x :: xs, y :: ys => Alike x y ∧ AlikeItems xs ys
  | _, _ => False

/-- Every entry of the first list has an equal value under its key in the second. -/
def AlikeEntries : List (String × Data) → List (String × Data) → Prop
  | [], _ => True
  | (key, d) :: rest, others =>
    (match others.lookup key with
      | some e => Alike d e
      | none => False) ∧ AlikeEntries rest others

end

end Data

namespace Value

/-! ## Kept data -/

mutual

theorem toData_hold (d : Data) : (hold d).toData = d := by
  cases d with
  | array items => rw [hold, toData, toItems_hold items]
  | object entries => rw [hold, toData, toEntries_hold entries]
  | _ => rfl

theorem toItems_hold (items : List Data) : toItems (holdItems items) = items := by
  cases items with
  | nil => rfl
  | cons d rest => rw [holdItems, toItems, toData_hold d, toItems_hold rest]

theorem toEntries_hold (entries : List (String × Data)) :
    toEntries (holdEntries entries) = entries := by
  match entries with
  | [] => rfl
  | (key, d) :: rest => rw [holdEntries, toEntries, toData_hold d, toEntries_hold rest]

end

end Value

/-! ## Fields without repetition -/

namespace Fields

theorem ofPairs_concat (pairs : Fields) (name : String) (v : Value) :
    ofPairs (pairs ++ [(name, v)]) = set name v (ofPairs pairs) := by
  simp [ofPairs, setAll]

/-- A name is mentioned once, whatever the pairs repeat. -/
theorem nodup_ofPairs (pairs : Fields) : ((ofPairs pairs).map Prod.fst).Nodup := by
  induction pairs using List.reverseRecOn with
  | nil => simp [ofPairs, setAll]
  | append_singleton pairs pair ih =>
    rw [ofPairs_concat]
    exact nodup_set _ _ ih

/-- Every field is one of the pairs. -/
theorem mem_of_mem_ofPairs {pairs : Fields} {field : String × Value}
    (member : field ∈ ofPairs pairs) : field ∈ pairs := by
  induction pairs using List.reverseRecOn with
  | nil => simp [ofPairs, setAll] at member
  | append_singleton pairs pair ih =>
    rw [ofPairs_concat] at member
    rcases mem_set member with rfl | earlier
    · simp
    · exact List.mem_append_left _ (ih earlier)

theorem set_of_not_mem {name : String} (v : Value) {fields : Fields}
    (absent : name ∉ fields.map Prod.fst) : set name v fields = fields ++ [(name, v)] := by
  induction fields with
  | nil => rfl
  | cons field rest ih =>
    obtain ⟨other, w⟩ := field
    simp only [List.map_cons, List.mem_cons, not_or] at absent
    rw [set, if_neg (Ne.symm absent.1), ih absent.2, List.cons_append]

/-- Pairs that repeat no name are fields as they are. -/
theorem ofPairs_of_nodup {pairs : Fields} (distinct : (pairs.map Prod.fst).Nodup) :
    ofPairs pairs = pairs := by
  induction pairs using List.reverseRecOn with
  | nil => rfl
  | append_singleton pairs pair ih =>
    rw [List.map_append, List.nodup_append] at distinct
    have fresh : pair.1 ∉ pairs.map Prod.fst := by
      intro repeated
      exact distinct.2.2 pair.1 repeated pair.1 (by simp) rfl
    rw [ofPairs_concat, ih distinct.1, set_of_not_mem _ fresh]

end Fields
namespace Value

/-! ## Reading what was written -/

/-- The field is read from its plain form as it is. -/
def Settled (field : String × Value) : Prop :=
  isFieldKey field.1 = true ∧ fieldName field.1 = field.1 ∧ ofData field.2.toData = .ok field.2

theorem fieldName_fieldName (key : String) : fieldName (fieldName key) = fieldName key := by
  unfold fieldName
  split <;> rfl

theorem isFieldKey_fieldName {key : String} (isField : isFieldKey key = true) :
    isFieldKey (fieldName key) = true := by
  unfold fieldName
  split
  · decide
  · exact isField

theorem ofFields_toEntries {fields : Fields} (settled : ∀ field ∈ fields, Settled field) :
    ofFields (toEntries fields) = .ok fields := by
  induction fields with
  | nil => rfl
  | cons field rest ih =>
    obtain ⟨name, v⟩ := field
    obtain ⟨isField, same, reads⟩ := settled (name, v) (by simp)
    have later := ih fun other member => settled other (by simp [member])
    simp only at isField same reads
    rw [toEntries, ofFields, if_pos isField, same, reads, later]
    rfl

theorem lookup_type_toEntries {fields : Fields} (settled : ∀ field ∈ fields, Settled field) :
    (toEntries fields).lookup "type" = none := by
  induction fields with
  | nil => rfl
  | cons field rest ih =>
    obtain ⟨name, v⟩ := field
    have later := ih fun other member => settled other (by simp [member])
    have other : "type" ≠ name := by
      rintro rfl
      have isField : isFieldKey "type" = true := (settled ("type", v) (by simp)).1
      exact absurd isField (by decide)
    rw [toEntries, List.lookup_cons, beq_false_of_ne other]
    exact later

/-- A node or an object of settled fields is read from its plain form. -/
theorem ofData_entries {type : Option Data} {fields : Fields} {v : Value}
    (settled : ∀ field ∈ fields, Settled field) (distinct : (fields.map Prod.fst).Nodup)
    (read : ofEntries type fields = .ok v) : ofData v.toData = .ok v := by
  have again := ofFields_toEntries settled
  have kept := Fields.ofPairs_of_nodup distinct
  cases type with
  | none =>
    cases read
    rw [toData, ofData, again, lookup_type_toEntries settled]
    simp only [bind, Except.bind, kept, ofEntries]
  | some tag =>
    unfold ofEntries at read
    dsimp only at read
    split at read
    · cases read
    · rename_i allowed
      cases read
      have tagless : ofFields (("type", tag) :: toEntries fields) = .ok fields := by
        rw [ofFields, if_neg (by decide), again]
      rw [toData, toData_hold, ofData, tagless]
      simp only [bind, Except.bind, kept, List.lookup_cons_self, ofEntries, if_neg allowed]

mutual

/-- A tree that was read is read again from its plain form. -/
theorem ofData_again (x : Data) {v : Value} (read : ofData x = .ok v) :
    ofData v.toData = .ok v := by
  match x with
  | .null | .bool _ | .int _ | .float _ | .str _ | .sealed _ =>
    cases read
    rfl
  | .array items =>
    obtain ⟨values, readAll, same⟩ := ok_of_bind read
    cases same
    rw [toData, ofData, ofItems_again items readAll]
    rfl
  | .object entries =>
    obtain ⟨pairs, readAll, made⟩ := ok_of_bind read
    have settled : ∀ field ∈ Fields.ofPairs pairs, Settled field := fun field member =>
      ofFields_settled entries readAll field (Fields.mem_of_mem_ofPairs member)
    exact ofData_entries settled (Fields.nodup_ofPairs pairs) made

theorem ofItems_again (items : List Data) {values : List Value} (read : ofItems items = .ok values) :
    ofItems (toItems values) = .ok values := by
  match items with
  | [] =>
    cases read
    rfl
  | d :: rest =>
    obtain ⟨v, first, more⟩ := ok_of_bind read
    obtain ⟨others, later, same⟩ := ok_of_bind more
    cases same
    rw [toItems, ofItems, ofData_again d first, ofItems_again rest later]
    rfl

theorem ofFields_settled (entries : List (String × Data)) {fields : Fields}
    (read : ofFields entries = .ok fields) : ∀ field ∈ fields, Settled field := by
  match entries with
  | [] =>
    cases read
    simp
  | (key, d) :: rest =>
    rw [ofFields] at read
    split at read
    · rename_i isField
      obtain ⟨v, first, more⟩ := ok_of_bind read
      obtain ⟨others, later, same⟩ := ok_of_bind more
      cases same
      intro field member
      rcases List.mem_cons.mp member with rfl | member
      · exact ⟨isFieldKey_fieldName isField, fieldName_fieldName key, ofData_again d first⟩
      · exact ofFields_settled rest later field member
    · exact ofFields_settled rest read

end

/-! ## Writing what was read -/

theorem everyEntry_iff {test : List String → Bool} {entries : List (String × Data)} :
    Data.everyEntry test entries = true ↔ ∀ entry ∈ entries, entry.2.everyObject test = true := by
  induction entries with
  | nil => simp [Data.everyEntry]
  | cons entry rest ih => simp [Data.everyEntry, ih]

theorem alikeEntries_iff {xs ys : List (String × Data)} :
    Data.AlikeEntries xs ys ↔
      ∀ entry ∈ xs, ∃ e, ys.lookup entry.1 = some e ∧ entry.2.Alike e := by
  induction xs with
  | nil => simp [Data.AlikeEntries]
  | cons entry rest ih =>
    obtain ⟨key, d⟩ := entry
    rw [Data.AlikeEntries, ih, List.forall_mem_cons]
    cases ys.lookup key <;> simp

mutual

theorem alike_refl (d : Data) (proper : d.isProper = true) : d.Alike d := by
  match d with
  | .null | .bool _ | .int _ | .float _ | .str _ | .sealed _ => rfl
  | .array items => exact alikeItems_refl items proper
  | .object entries =>
    simp only [Data.isProper, Data.everyObject, Bool.and_eq_true, decide_eq_true_eq] at proper
    refine ⟨.refl _, alikeEntries_iff.mpr fun entry member => ?_⟩
    exact ⟨entry.2, Fields.lookup_of_mem proper.1 member,
      alike_entries_refl entries proper.2 entry member⟩

theorem alikeItems_refl (items : List Data)
    (proper : Data.everyItem (fun keys => decide keys.Nodup) items = true) :
    Data.AlikeItems items items := by
  match items with
  | [] => trivial
  | d :: rest =>
    simp only [Data.everyItem, Bool.and_eq_true] at proper
    exact ⟨alike_refl d proper.1, alikeItems_refl rest proper.2⟩

theorem alike_entries_refl (entries : List (String × Data))
    (proper : Data.everyEntry (fun keys => decide keys.Nodup) entries = true) :
    ∀ entry ∈ entries, entry.2.Alike entry.2 := by
  match entries with
  | [] => simp
  | (key, d) :: rest =>
    simp only [Data.everyEntry, Bool.and_eq_true] at proper
    intro entry member
    rcases List.mem_cons.mp member with rfl | member
    · exact alike_refl d proper.1
    · exact alike_entries_refl rest proper.2 entry member

end

theorem toEntries_eq (fields : Fields) :
    toEntries fields = fields.map fun field => (field.1, field.2.toData) := by
  induction fields with
  | nil => rfl
  | cons field rest ih => rw [toEntries, ih, List.map_cons]

/-- A key that is read as it is spelled is a field unless it is the tag. -/
theorem isFieldKey_plain {key : String} (plain : Data.isPlainKey key = true) :
    isFieldKey key = (key != "type") ∧ fieldName key = key := by
  simp only [Data.isPlainKey, Bool.and_eq_true, bne_iff_ne] at plain
  exact ⟨by simp [isFieldKey, plain.1], if_neg plain.2⟩

/-- What is written for an object whose fields are written alike. -/
theorem alike_object {entries : List (String × Data)} {fields : Fields} {v : Value}
    (proper : (Data.object entries).isProper = true)
    (names : fields.map Prod.fst = (entries.map Prod.fst).filter (· != "type"))
    (each : ∀ field ∈ fields, ∃ e, (field.1, e) ∈ entries ∧ field.2.toData.Alike e)
    (made : ofEntries (entries.lookup "type") fields = .ok v) :
    v.toData.Alike (.object entries) := by
  simp only [Data.isProper, Data.everyObject, Bool.and_eq_true, decide_eq_true_eq] at proper
  obtain ⟨distinct, below⟩ := proper
  have fieldsAlike : Data.AlikeEntries (toEntries fields) entries := by
    rw [alikeEntries_iff, toEntries_eq]
    intro entry member
    obtain ⟨field, among, rfl⟩ := List.mem_map.mp member
    obtain ⟨e, found, alike⟩ := each field among
    exact ⟨e, Fields.lookup_of_mem distinct found, alike⟩
  have keys : (toEntries fields).map Prod.fst = (entries.map Prod.fst).erase "type" := by
    rw [toEntries_eq, List.map_map, distinct.erase_eq_filter, ← names]
    rfl
  cases tagged : entries.lookup "type" with
  | none =>
    have absent : "type" ∉ entries.map Prod.fst := by
      intro present
      obtain ⟨entry, member, named⟩ := List.mem_map.mp present
      rw [← named, Fields.lookup_of_mem distinct member] at tagged
      cases tagged
    rw [tagged] at made
    cases made
    constructor
    · rw [keys, List.erase_of_not_mem absent]
    · exact fieldsAlike
  | some tag =>
    have found := Fields.mem_of_lookup tagged
    have present : "type" ∈ entries.map Prod.fst := List.mem_map.mpr ⟨_, found, rfl⟩
    rw [tagged] at made
    unfold ofEntries at made
    dsimp only at made
    split at made
    · cases made
    · cases made
      rw [toData, toData_hold]
      constructor
      · rw [List.map_cons, keys]
        exact (List.perm_cons_erase present).symm
      · rw [Data.AlikeEntries, tagged]
        exact ⟨alike_refl tag (everyEntry_iff.mp below _ found), fieldsAlike⟩

mutual

/-- What was read of plain keys is written as it was. -/
theorem alike_of_read (x : Data) {v : Value} (read : ofData x = .ok v) (proper : x.isProper = true)
    (plain : x.isPlain = true) : v.toData.Alike x := by
  match x with
  | .null | .bool _ | .int _ | .float _ | .str _ | .sealed _ =>
    cases read
    rfl
  | .array items =>
    obtain ⟨values, readAll, same⟩ := ok_of_bind read
    cases same
    exact alikeItems_of_read items readAll proper plain
  | .object entries =>
    obtain ⟨fields, readAll, made⟩ := ok_of_bind read
    have whole := proper
    simp only [Data.isProper, Data.isPlain, Data.everyObject, Bool.and_eq_true, decide_eq_true_eq,
      List.all_eq_true] at proper plain
    obtain ⟨names, each⟩ := alikeFields_of_read entries readAll proper.2 plain.2 plain.1
    have distinct : (fields.map Prod.fst).Nodup := names ▸ proper.1.filter _
    rw [Fields.ofPairs_of_nodup distinct] at made
    exact alike_object whole names each made

theorem alikeItems_of_read (items : List Data) {values : List Value}
    (read : ofItems items = .ok values)
    (proper : Data.everyItem (fun keys => decide keys.Nodup) items = true)
    (plain : Data.everyItem (fun keys => keys.all Data.isPlainKey) items = true) :
    Data.AlikeItems (toItems values) items := by
  match items with
  | [] =>
    cases read
    trivial
  | d :: rest =>
    obtain ⟨v, first, more⟩ := ok_of_bind read
    obtain ⟨others, later, same⟩ := ok_of_bind more
    cases same
    simp only [Data.everyItem, Bool.and_eq_true] at proper plain
    exact ⟨alike_of_read d first proper.1 plain.1, alikeItems_of_read rest later proper.2 plain.2⟩

theorem alikeFields_of_read (entries : List (String × Data)) {fields : Fields}
    (read : ofFields entries = .ok fields)
    (proper : Data.everyEntry (fun keys => decide keys.Nodup) entries = true)
    (plain : Data.everyEntry (fun keys => keys.all Data.isPlainKey) entries = true)
    (keys : ∀ key ∈ entries.map Prod.fst, Data.isPlainKey key = true) :
    fields.map Prod.fst = (entries.map Prod.fst).filter (· != "type") ∧
      ∀ field ∈ fields, ∃ e, (field.1, e) ∈ entries ∧ field.2.toData.Alike e := by
  match entries with
  | [] =>
    cases read
    simp
  | (key, d) :: rest =>
    simp only [Data.everyEntry, Bool.and_eq_true] at proper plain
    simp only [List.map_cons, List.forall_mem_cons] at keys
    obtain ⟨isField, same⟩ := isFieldKey_plain keys.1
    rw [ofFields, isField, same] at read
    split at read
    · rename_i isName
      obtain ⟨v, first, more⟩ := ok_of_bind read
      obtain ⟨others, later, same⟩ := ok_of_bind more
      cases same
      obtain ⟨names, each⟩ := alikeFields_of_read rest later proper.2 plain.2 keys.2
      constructor
      · rw [List.map_cons, List.map_cons, List.filter_cons, if_pos isName, names]
      · intro field member
        rcases List.mem_cons.mp member with rfl | member
        · exact ⟨d, by simp, alike_of_read d first proper.1 plain.1⟩
        · obtain ⟨e, found, alike⟩ := each field member
          exact ⟨e, List.mem_cons_of_mem _ found, alike⟩
    · rename_i isTag
      obtain ⟨names, each⟩ := alikeFields_of_read rest read proper.2 plain.2 keys.2
      constructor
      · rw [List.map_cons, List.filter_cons, if_neg isTag, names]
      · intro field member
        obtain ⟨e, found, alike⟩ := each field member
        exact ⟨e, List.mem_cons_of_mem _ found, alike⟩

end

/-- A tree that was read from plain data is read again from its plain form, fields in the same order;
and the plain form is the data itself if every key in it is read as it is spelled. -/
theorem ofData_toData {x : Data} {v : Value} (read : ofData x = .ok v) :
    ofData v.toData = .ok v ∧ (x.isProper = true → x.isPlain = true → v.toData.Alike x) := by
  constructor
  · exact ofData_again x read
  · intro proper plain
    exact alike_of_read x read proper plain

/-- A node whose tag comes last, around an untagged object. -/
theorem ofData_toData_lateTag :
    let x : Data := .object [("value", .array [.int 1, .object [("cooked", .null)]]),
      ("type", .str "Part")]
    let v := Value.tagged "Part" [("value", .seq [.int 1, .object [("cooked", .null)]])]
    ofData x = .ok v ∧ ofData v.toData = .ok v ∧ v.toData.Alike x := by
  have read : ofData (.object [("value", .array [.int 1, .object [("cooked", .null)]]),
      ("type", .str "Part")]) =
      .ok (.tagged "Part" [("value", .seq [.int 1, .object [("cooked", .null)]])]) := by
    rfl
  obtain ⟨again, alike⟩ := ofData_toData read
  exact ⟨read, again, alike (by decide) (by decide)⟩

end Value

end Untangle
