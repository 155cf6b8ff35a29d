import Untangle.Proofs.Reading.Spelling

/-!
# Constructions

After `new` stands what is called, and the first argument list outside of brackets belongs to that
`new`. What is called must therefore not hold a call outside of brackets. Where it does it is put in
parentheses, unless it starts with a parenthesis already, and that one may be around its beginning
only.

* `Term.isMistaken` are the callees whose parenthesis at the start is not around all of them.
* `Term.asRead` is what the row of an expression is read as, and `Term.heard` what it is read as where
  some `new` are waiting for their arguments.
* `Term.isSound` says that no construction has a mistaken callee, and `Term.faithful` that just then
  the expression is read as it is.
* `calleeRow_cases` says which callees are put in parentheses.
-/

namespace Untangle.Reading

open Print (Precedence)

/-! ## What expressions are read as -/

namespace Term

/-- Whether members and argument lists can be put to an expression as it is. -/
def isChain : Term → Bool
  | .name _ | .number _ | .hole | .call _ _ | .construct _ _ | .dot _ _ | .index _ _ | .array _ => true
  | .unary _ _ | .update _ _ _ | .binary _ _ _ | .assign _ _ _ | .conditional _ _ _ | .sequence _ =>
    false

/-- Whether an expression starts with another one that stands in parentheses: one that is too loose to
be called or to have members, or a number before a dot. -/
def startsLoose : Term → Bool
  | .call callee _ => callee.startsLoose
  | .dot object _ => object.isNumber || object.startsLoose
  | .index object _ => object.startsLoose
  | t => !t.isChain

/-- Whether a callee is taken to be in parentheses where only its beginning is: a member of what a
call gave, where what was called starts with a parenthesis, as in `(a, b)().c` or `(1).m().c`. -/
def isMistaken : Term → Bool
  | .dot object _ | .index object _ => object.isChainOfCall && object.startsLoose
  | _ => false

/-- An argument list after what has been read: the last `new` that is waiting takes it, and where none
is waiting it is the list of a call. -/
def applied (items : List Term) : Nat × Term → Nat × Term
  | (0, t) => (0, .call t items)
  | (waiting + 1, t) => (waiting, .construct t items)

mutual

/-- What the row of an expression is read as after some `new` that have no arguments yet, with the
number of those that still have none. -/
def heard : Term → Nat → Nat × Term
  | .name text, waiting => (waiting, .name text)
  | .number value, waiting => (waiting, .number value)
  | .hole, waiting => (waiting, .hole)
  | .unary operator e, waiting => (waiting, .unary operator (e.heard 0).2)
  | .update operator isPrefix e, waiting => (waiting, .update operator isPrefix (e.heard 0).2)
  | .binary operator left right, waiting =>
    (waiting, .binary operator (left.heard 0).2 (right.heard 0).2)
  | .assign operator target value, waiting =>
    (waiting, .assign operator (target.heard 0).2 (value.heard 0).2)
  | .conditional test consequent alternate, waiting =>
    (waiting, .conditional (test.heard 0).2 (consequent.heard 0).2 (alternate.heard 0).2)
  | .sequence items, waiting => (waiting, .sequence (heardAll items))
  | .call callee items, waiting => applied (heardAll items) (callee.heard waiting)
  | .construct callee items, waiting => applied (heardAll items)
      (if callee.isChainOfCall && !callee.isMistaken then (waiting + 1, (callee.heard 0).2)
        else callee.heard (waiting + 1))
  | .dot object property, waiting =>
    ((object.heard waiting).1, .dot (object.heard waiting).2 property)
  | .index object key, waiting =>
    ((object.heard waiting).1, .index (object.heard waiting).2 (key.heard 0).2)
  | .array items, waiting => (waiting, .array (heardAll items))

/-- What the members of a comma list are read as. -/
def heardAll : List Term → List Term
  | [] => []
  | t :: rest => (t.heard 0).2 :: heardAll rest

end

/-- What the row of an expression is read as. -/
def asRead (t : Term) : Term :=
  (t.heard 0).2

/-- What the row of an expression is read as where it is called, after some `new`. -/
def calleeHeard (t : Term) (waiting : Nat) : Nat × Term :=
  if t.isChainOfCall && !t.isMistaken then (waiting, t.asRead) else t.heard waiting

/-- What an expression becomes where each `new` that is waiting takes an argument list of it. -/
def under (waiting : Nat) : Term → Nat × Term
  | .call callee items => applied items (under waiting callee)
  | .dot object property => ((under waiting object).1, .dot (under waiting object).2 property)
  | .index object key => ((under waiting object).1, .index (under waiting object).2 key)
  | t => (waiting, t)

theorem heardAll_eq (items : List Term) : heardAll items = items.map asRead := by
  induction items with
  | nil => rfl
  | cons t rest ih => rw [heardAll, ih, List.map_cons, asRead]

theorem heard_construct (callee : Term) (items : List Term) (waiting : Nat) :
    (Term.construct callee items).heard waiting =
      applied (heardAll items) (callee.calleeHeard (waiting + 1)) :=
  rfl

theorem applied_fst (items : List Term) (reading : Nat × Term) :
    (applied items reading).1 = reading.1 - 1 := by
  obtain ⟨_ | waiting, t⟩ := reading <;> rfl

theorem applied_inj {items others : List Term} {first second : Nat × Term} :
    applied items first = applied others second ↔ items = others ∧ first = second := by
  obtain ⟨_ | waiting, t⟩ := first <;> obtain ⟨_ | still, u⟩ := second <;>
    simp [applied, and_comm, and_assoc]

/-- What is read never leaves more `new` waiting than there were. -/
theorem heard_le (t : Term) (waiting : Nat) : (t.heard waiting).1 ≤ waiting := by
  induction t generalizing waiting with
  | call callee items ih =>
    rw [heard, applied_fst]
    exact Nat.le_trans (Nat.sub_le _ 1) (ih waiting)
  | construct callee items ih =>
    rw [heard_construct, applied_fst, calleeHeard]
    split
    · exact Nat.le_refl _
    · exact Nat.sub_le_of_le_add (ih (waiting + 1))
  | dot object property ih => exact ih waiting
  | index object key ih => exact ih waiting
  | _ => exact Nat.le_refl _

theorem heard_zero (t : Term) : t.heard 0 = (0, t.asRead) :=
  Prod.ext (Nat.le_zero.mp (t.heard_le 0)) rfl

theorem heard_operation {t : Term} (notChain : t.isChain = false) (waiting : Nat) :
    t.heard waiting = (waiting, t.asRead) := by
  cases t with
  | unary | update | binary | assign | conditional | sequence => rfl
  | _ => cases notChain

theorem isTarget_asRead {t : Term} (isTarget : t.isTarget = true) : t.asRead.isTarget = true := by
  cases t with
  | name | dot | index => rfl
  | _ => cases isTarget

/-- A chain with a call in it leaves an argument list to one `new` at least. -/
theorem heard_lt {t : Term} (isCall : t.isChainOfCall = true) (waiting : Nat) :
    (t.heard (waiting + 1)).1 ≤ waiting := by
  induction t with
  | call callee items ih =>
    rw [heard, applied_fst]
    exact Nat.sub_le_of_le_add (callee.heard_le (waiting + 1))
  | dot object property ih => exact ih isCall
  | index object key ih => exact ih isCall
  | _ => cases isCall

theorem under_zero (t : Term) : under 0 t = (0, t) := by
  induction t with
  | call callee items ih =>
    rw [under, ih]
    rfl
  | dot object property ih => rw [under, ih]
  | index object key ih => rw [under, ih]
  | _ => rfl

/-- Without a call there is no argument list to take. -/
theorem under_of_member {t : Term} (noCall : t.isChainOfCall = false) (waiting : Nat) :
    under waiting t = (waiting, t) := by
  induction t with
  | call callee items ih => cases noCall
  | dot object property ih => rw [under, ih noCall]
  | index object key ih => rw [under, ih noCall]
  | _ => rfl

theorem isChainOfCall_of_mistaken {t : Term} (isMistaken : t.isMistaken = true) :
    t.isChainOfCall = true := by
  cases t with
  | dot object _ | index object _ =>
    simp only [Term.isMistaken, Bool.and_eq_true] at isMistaken
    exact isMistaken.1
  | _ => cases isMistaken

/-! ## Expressions that are read as they are -/

mutual

/-- Whether no construction in the expression has a mistaken callee. -/
def isSound : Term → Bool
  | .name _ | .number _ | .hole => true
  | .unary _ e | .update _ _ e => e.isSound
  | .binary _ left right | .assign _ left right => left.isSound && right.isSound
  | .conditional test consequent alternate =>
    test.isSound && consequent.isSound && alternate.isSound
  | .sequence items | .array items => areSound items
  | .call callee items => callee.isSound && areSound items
  | .construct callee items => !callee.isMistaken && callee.isSound && areSound items
  | .dot object _ => object.isSound
  | .index object key => object.isSound && key.isSound

def areSound : List Term → Bool
  | [] => true
  | t :: rest => t.isSound && areSound rest

end

/-- Whether the language has the expression and it is read as it is. Only a construction may be read
as something else. -/
def isLegal (A : Alphabet) (t : Term) : Bool :=
  t.isFormed A && t.isSound

/-- Whatever is waiting, an expression is read as it is just if it is sound. -/
def Faithful (t : Term) : Prop :=
  ∀ waiting, t.heard waiting = under waiting t ↔ t.isSound = true

theorem Faithful.asRead {t : Term} (faithful : Faithful t) : t.asRead = t ↔ t.isSound = true := by
  rw [← faithful 0, heard_zero, under_zero, Prod.mk.injEq, and_iff_right rfl]

theorem heardAll_iff {items : List Term} (faithful : ∀ t ∈ items, Faithful t) :
    heardAll items = items ↔ areSound items = true := by
  induction items with
  | nil => simp [heardAll, areSound]
  | cons t rest ih =>
    have first := (faithful t (by simp)).asRead
    have others := ih fun t member => faithful t (by simp [member])
    rw [heardAll, ← Term.asRead, List.cons.injEq, first, others, areSound, Bool.and_eq_true]

/-- A callee is read as it is just if it is sound and not mistaken. -/
theorem calleeHeard_iff {t : Term} (faithful : Faithful t) (waiting : Nat) :
    t.calleeHeard (waiting + 1) = (waiting + 1, t) ↔ t.isMistaken = false ∧ t.isSound = true := by
  unfold calleeHeard
  cases isMistaken : t.isMistaken with
  | true =>
    have fewer := heard_lt (isChainOfCall_of_mistaken isMistaken) waiting
    simp only [Bool.not_true, Bool.and_false, Bool.false_eq_true, if_false, reduceCtorEq, false_and,
      iff_false]
    intro same
    rw [same] at fewer
    exact Nat.not_succ_le_self waiting fewer
  | false =>
    cases isCall : t.isChainOfCall with
    | true => simp [faithful.asRead]
    | false => simp [← faithful (waiting + 1), under_of_member isCall]

/-- An expression is read as it is just if no construction in it has a mistaken callee. -/
theorem faithful (t : Term) : Faithful t := by
  induction t with
  | name | number | hole => exact fun waiting => iff_of_true rfl rfl
  | unary operator e ih =>
    intro waiting
    rw [heard, under_of_member rfl, isSound, ← ih.asRead]
    simp [asRead]
  | update operator isPrefix e ih =>
    intro waiting
    rw [heard, under_of_member rfl, isSound, ← ih.asRead]
    simp [asRead]
  | binary operator left right ihLeft ihRight =>
    intro waiting
    rw [heard, under_of_member rfl, isSound, Bool.and_eq_true, ← ihLeft.asRead, ← ihRight.asRead]
    simp [asRead]
  | assign operator target value ihTarget ihValue =>
    intro waiting
    rw [heard, under_of_member rfl, isSound, Bool.and_eq_true, ← ihTarget.asRead, ← ihValue.asRead]
    simp [asRead]
  | conditional test consequent alternate ihTest ihYes ihNo =>
    intro waiting
    rw [heard, under_of_member rfl, isSound, Bool.and_eq_true, Bool.and_eq_true, ← ihTest.asRead,
      ← ihYes.asRead, ← ihNo.asRead]
    simp [asRead, and_assoc]
  | sequence items ih =>
    intro waiting
    rw [heard, under_of_member rfl, isSound, ← heardAll_iff ih]
    simp
  | call callee items ihCallee ih =>
    intro waiting
    rw [heard, under, applied_inj, heardAll_iff ih, ihCallee waiting, isSound, Bool.and_eq_true,
      and_comm]
  | construct callee items ihCallee ih =>
    intro waiting
    have whole : under waiting (.construct callee items) = applied items (waiting + 1, callee) := rfl
    rw [heard_construct, whole, applied_inj, heardAll_iff ih, calleeHeard_iff ihCallee, isSound]
    simp [and_comm]
  | dot object property ih =>
    intro waiting
    rw [heard, under, isSound, ← ih waiting]
    simp [Prod.ext_iff]
  | index object key ihObject ihKey =>
    intro waiting
    rw [heard, under, isSound, Bool.and_eq_true, ← ihObject waiting, ← ihKey.asRead, asRead]
    simp [Prod.ext_iff, and_assoc]
  | array items ih =>
    intro waiting
    rw [heard, under_of_member rfl, isSound, ← heardAll_iff ih]
    simp

section Legal

variable {A : Alphabet} {t : Term}

theorem isFormed_of_isLegal (legal : t.isLegal A = true) : t.isFormed A = true := by
  simp only [isLegal, Bool.and_eq_true] at legal
  exact legal.1

theorem asRead_of_isLegal (legal : t.isLegal A = true) : t.asRead = t := by
  simp only [isLegal, Bool.and_eq_true] at legal
  exact t.faithful.asRead.mpr legal.2

end Legal

end Term

/-! ## Rows of callees -/

section Rows

variable {A : Alphabet} {noIn : Bool} {t : Term}

theorem own_of_operation (notChain : t.isChain = false) : t.own < Precedence.call := by
  cases t with
  | binary operator left right => exact Nat.lt_of_le_of_lt (own_binary operator left right) (by decide)
  | update operator isPrefix e => cases isPrefix <;> exact Nat.le_of_ble_eq_true rfl
  | unary | assign | conditional | sequence => exact Nat.le_of_ble_eq_true rfl
  | _ => cases notChain

theorem placed_chain {row : List Glyph} (isChain : t.isChain = true) :
    placed noIn Precedence.call t row = row := by
  obtain ⟨tight, notIn⟩ : Precedence.call ≤ t.own ∧ t.isInOperation = false := by
    cases t with
    | unary | update | binary | assign | conditional | sequence => cases isChain
    | _ => exact ⟨Nat.le_of_ble_eq_true rfl, rfl⟩
  simp [placed, Nat.not_lt.mpr tight, notIn]

theorem placed_operation {row : List Glyph} {precedence : Precedence} (notChain : t.isChain = false)
    (le : Precedence.call ≤ precedence) : placed noIn precedence t row = enclosed row := by
  simp [placed, Nat.lt_of_lt_of_le (own_of_operation notChain) le]

/-- What stands before a member or an argument list starts with a parenthesis just where something
loose is at its start. -/
theorem opensRow_placed (formed : t.isFormed A = true) (more : List Glyph) :
    opensRow (placed noIn Precedence.call t (t.row noIn) ++ more) = t.startsLoose := by
  induction t generalizing more with
  | name | number | construct | array =>
    rw [placed_chain rfl]
    rfl
  | hole => cases formed
  | call callee items ih =>
    simp only [Term.isFormed, Bool.and_eq_true] at formed
    rw [placed_chain rfl, Term.row, List.append_assoc]
    exact ih formed.1 _
  | dot object property ih =>
    simp only [Term.isFormed, Bool.and_eq_true] at formed
    rw [placed_chain rfl, Term.row, List.append_assoc, beforeDot, Term.startsLoose]
    cases isNumber : object.isNumber with
    | true => rfl
    | false => exact ih formed.1 _
  | index object key ih =>
    simp only [Term.isFormed, Bool.and_eq_true] at formed
    rw [placed_chain rfl, Term.row, List.append_assoc]
    exact ih formed.1 _
  | unary | update | binary | assign | conditional | sequence =>
    rw [placed_operation rfl (Nat.le_refl _)]
    rfl

/-- A member after `new` is put in parentheses if a call is in its object, unless the object starts
with a parenthesis. -/
theorem calleeRow_member {object : Term} {more : List Glyph} (formed : object.isFormed A = true)
    (isMember : t.own = Precedence.member) (notIn : t.isInOperation = false)
    (sameCall : t.isChainOfCall = object.isChainOfCall)
    (isRow : object.isChainOfCall = true →
      t.row noIn = placed noIn Precedence.call object (object.row noIn) ++ more) :
    calleeRow noIn t (t.row noIn) =
      if object.isChainOfCall && !object.startsLoose then enclosed (t.row noIn) else t.row noIn := by
  have stands : placed noIn Precedence.construction t (t.row noIn) = t.row noIn := by
    simp [placed, isMember, notIn, Precedence.member, Precedence.construction]
  rw [calleeRow, stands, sameCall]
  cases isCall : object.isChainOfCall with
  | false => rfl
  | true => rw [isRow isCall, opensRow_placed formed]

/-- After `new`, an expression that is too loose or that a call is in is put in parentheses, unless it
is mistaken for one that is. -/
theorem calleeRow_cases (noIn : Bool) (formed : t.isFormed A = true) :
    calleeRow noIn t (t.row noIn) = enclosed (t.row noIn) ∧
        (t.isChain = false ∨ (t.isChainOfCall && !t.isMistaken) = true) ∨
      calleeRow noIn t (t.row noIn) = t.row noIn ∧ t.isChain = true ∧
        (t.isChainOfCall && !t.isMistaken) = false := by
  cases t with
  | name | number | hole | construct | array =>
    refine Or.inr ⟨?_, rfl, rfl⟩
    simp [calleeRow, placed, Term.own, Term.isInOperation, Term.isChainOfCall, Precedence.construction,
      Precedence.primary]
  | call callee items =>
    refine Or.inl ⟨?_, Or.inr rfl⟩
    simp [calleeRow, placed, Term.own, opensRow, enclosed, Precedence.construction, Precedence.call]
  | dot object property =>
    simp only [Term.isFormed, Bool.and_eq_true] at formed
    have isRow : object.isChainOfCall = true → (Term.dot object property).row noIn =
        placed noIn Precedence.call object (object.row noIn) ++
          [.token (.sign "."), .token (.word property)] := by
      intro isCall
      cases object with
      | number => cases isCall
      | _ => rfl
    rw [calleeRow_member (t := .dot object property) formed.1 rfl rfl rfl isRow]
    cases isCall : object.isChainOfCall <;> cases isLoose : object.startsLoose <;>
      simp [Term.isChainOfCall, Term.isMistaken, Term.isChain, isCall, isLoose]
  | index object key =>
    simp only [Term.isFormed, Bool.and_eq_true] at formed
    rw [calleeRow_member (t := .index object key) formed.1 rfl rfl rfl fun _ => by rw [Term.row]]
    cases isCall : object.isChainOfCall <;> cases isLoose : object.startsLoose <;>
      simp [Term.isChainOfCall, Term.isMistaken, Term.isChain, isCall, isLoose]
  | unary | update | binary | assign | conditional | sequence =>
    refine Or.inl ⟨?_, Or.inl rfl⟩
    rw [calleeRow, placed_operation rfl (by decide)]
    simp [Term.isChainOfCall]

end Rows

end Untangle.Reading
