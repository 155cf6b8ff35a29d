import Untangle.Proofs.Semantics.Reading

/-!
# Labels and jumps

Which jumps a statement can end with, and when it matters under which labels it stands. A statement
whose labelled continues go to loops never asks a label to continue that is not on a loop. So a label
on a statement that is no loop can move to a loop inside it, as long as what it passes does not jump.

* `Ends` says how a behaviour can end.
* `exec_continues` says where labelled continues go.
* `exec_append_label` says that a label that is not asked to continue does not matter.
-/

namespace Untangle.Semantics

open Behaviour

/-! ## How behaviours end -/

/-- Every completion that the behaviour ends with is one of these. -/
def Ends (P : Completion → Prop) (b : Behaviour) : Prop :=
  ∀ st c st', b st = some (c, st') → P c

variable {P : Completion → Prop} {a b : Behaviour}

theorem Ends.stop {c : Completion} (holds : P c) : Ends P (stop c) := by
  intro st c' st' h
  obtain ⟨rfl, -⟩ := Prod.mk.inj (Option.some.inj h)
  exact holds

theorem Ends.skip (normal : P .normal) : Ends P skip :=
  Ends.stop normal

/-- How one behaviour after another ends. -/
theorem Ends.seq (first : Ends P a) (next : Ends P b) : Ends P (seq a b) := by
  intro st c st' h
  simp only [Behaviour.seq] at h
  split at h
  · exact next _ _ _ h
  · exact first _ _ _ h

/-- A behaviour after an evaluation ends like the behaviour, or with what the evaluation threw. -/
theorem Ends.after {α : Type} {r : Run α} {next : α → Behaviour} (throw : ∀ d, P (.throw d))
    (goes : ∀ a, Ends P (next a)) : Ends P (after r next) := by
  intro st c st' h
  simp only [Behaviour.after] at h
  split at h
  · exact goes _ _ _ _ h
  · obtain ⟨rfl, -⟩ := Prod.mk.inj (Option.some.inj h)
    exact throw _

/-- A label turns a jump to it into a normal end. -/
theorem Ends.leaving {label : String} (inner : Ends P b) (normal : P .normal) :
    Ends P (leaving label b) := by
  intro st c st' h
  simp only [Behaviour.leaving] at h
  split at h
  · rename_i ended
    split at h
    · obtain ⟨rfl, -⟩ := Prod.mk.inj (Option.some.inj h)
      exact normal
    · obtain ⟨rfl, -⟩ := Prod.mk.inj (Option.some.inj h)
      exact inner _ _ _ ended
  · exact inner _ _ _ h

theorem Ends.imp {Q : Completion → Prop} (ends : Ends P b) (weaker : ∀ c, P c → Q c) : Ends Q b :=
  fun st c st' h => weaker c (ends st c st' h)

theorem Ends.effect {w : World} {e : Option Expr} (normal : P .normal) (throw : ∀ d, P (.throw d)) :
    Ends P (effect w e) := by
  cases e with
  | none => exact .skip normal
  | some e => exact .after throw fun _ => .skip normal

theorem Ends.declareAll {w : World} (normal : P .normal) (throw : ∀ d, P (.throw d)) :
    ∀ declarators, Ends P (declareAll w declarators)
  | [] => .skip normal
  | (_, none) :: rest => Ends.declareAll normal throw rest
  | (x, some e) :: rest => by
    refine .seq (.after throw fun d st c st' h => ?_) (Ends.declareAll normal throw rest)
    obtain ⟨rfl, -⟩ := Prod.mk.inj (Option.some.inj h)
    exact normal

theorem Ends.start {w : World} (normal : P .normal) (throw : ∀ d, P (.throw d)) (start : Start) :
    Ends P (start.run w) := by
  cases start with
  | nothing => exact .skip normal
  | declare declarators => exact .declareAll normal throw declarators
  | expression e =>
    rw [Start.run]
    exact .effect normal throw

/-- A loop ends normally, with what is thrown, or with how its body ended when it did not go on. -/
theorem Ends.iterate {w : World} {labels : List String} {test update : Option Expr}
    {Q : Completion → Prop} (normal : P .normal) (throw : ∀ d, P (.throw d)) (body : Ends Q b)
    (ofBody : ∀ c, Q c → c.goesOn labels = false → P c.ofLoop) :
    ∀ n, Ends P (iterate w labels test update b n)
  | 0 => by
    intro st c st' h
    simp [Semantics.iterate] at h
  | n + 1 => by
    refine .after throw fun goes => ?_
    split
    · intro st c st' h
      simp only at h
      split at h
      · cases h
      · rename_i ended mid bodyEnds
        split at h
        · exact (Ends.seq (.effect normal throw) (Ends.iterate normal throw body ofBody n)) _ _ _ h
        · rename_i stops
          obtain ⟨rfl, -⟩ := Prod.mk.inj (Option.some.inj h)
          exact ofBody _ (body _ _ _ bodyEnds) (by simpa using stops)
    · exact .skip normal

/-! ## Where continues go -/

/-- The completion asks only these labels to continue. -/
def Continues (asked : String → Prop) (c : Completion) : Prop :=
  ∀ x, c = .continue (some x) → asked x

theorem not_continue {asked : String → Prop} {c : Completion}
    (other : ∀ x, c ≠ .continue (some x)) : Continues asked c :=
  fun x same => absurd same (other x)

/-- A loop answers the jumps that continue it. -/
theorem loop_continues {w : World} {labels loops : List String} {test update : Option Expr} {n : Nat}
    (body : Ends (Continues (· ∈ loops)) b) :
    Ends (Continues fun x => x ∈ loops ∧ x ∉ labels) (iterate w labels test update b n) := by
  refine Ends.iterate (not_continue (by simp)) (fun d => not_continue (by simp)) body ?_ n
  intro c continues stops x same
  obtain rfl : c = .continue (some x) := by
    cases c with
    | «break» label => cases label <;> simp [Completion.ofLoop] at same
    | _ => exact same
  exact ⟨continues x rfl, by simpa [Completion.goesOn] using stops⟩

mutual

/-- A statement asks only labels of loops to continue, and a loop none that it stands under. -/
theorem exec_continues (w : World) (fuel : Nat) : ∀ (s : Stmt) (loops labels : List String),
    s.targets loops = true →
    Ends (Continues fun x => x ∈ loops ∧ (s.isLoop = true → x ∉ labels)) (s.exec w fuel labels)
  | .expression e, _, _, _ => by
    rw [Stmt.exec]
    exact .effect (not_continue (by simp)) fun _ => not_continue (by simp)
  | .block body, loops, _, targets => by
    rw [Stmt.exec]
    exact (execAll_continues w fuel body loops targets).imp fun c continues x same =>
      ⟨continues x same, by simp [Stmt.isLoop]⟩
  | .empty, _, _, _ => by
    rw [Stmt.exec]
    exact .skip (not_continue (by simp))
  | .when test yes, loops, _, targets => by
    rw [Stmt.exec]
    refine .after (fun _ => not_continue (by simp)) fun d => ?_
    split
    · exact (exec_continues w fuel yes loops [] targets).imp fun c continues x same =>
        ⟨(continues x same).1, by simp [Stmt.isLoop]⟩
    · exact .skip (not_continue (by simp))
  | .choose test yes no, loops, _, targets => by
    rw [Stmt.exec]
    obtain ⟨yesTargets, noTargets⟩ := Bool.and_eq_true_iff.mp targets
    refine .after (fun _ => not_continue (by simp)) fun d => ?_
    split
    · exact (exec_continues w fuel yes loops [] yesTargets).imp fun c continues x same =>
        ⟨(continues x same).1, by simp [Stmt.isLoop]⟩
    · exact (exec_continues w fuel no loops [] noTargets).imp fun c continues x same =>
        ⟨(continues x same).1, by simp [Stmt.isLoop]⟩
  | .leave, _, _, _ => by
    rw [Stmt.exec]
    exact .stop (not_continue (by simp))
  | .give e, _, _, _ => by
    rw [Stmt.exec]
    exact .after (fun _ => not_continue (by simp)) fun d => .stop (not_continue (by simp))
  | .declare declarators, _, _, _ => by
    rw [Stmt.exec]
    exact .declareAll (not_continue (by simp)) (fun _ => not_continue (by simp)) declarators
  | .loop start test update body, loops, labels, targets => by
    rw [Stmt.exec]
    refine .seq (.start (not_continue (by simp)) (fun _ => not_continue (by simp)) start) ?_
    have inner := (exec_continues w fuel body loops [] targets).imp fun c continues x same =>
      (continues x same).1
    exact (loop_continues inner).imp fun c continues x same =>
      ⟨(continues x same).1, fun _ => (continues x same).2⟩
  | .repeat test body, loops, labels, targets => by
    rw [Stmt.exec]
    have inner := (exec_continues w fuel body loops [] targets).imp fun c continues x same =>
      (continues x same).1
    exact (loop_continues inner).imp fun c continues x same =>
      ⟨(continues x same).1, fun _ => (continues x same).2⟩
  | .label name body, loops, labels, targets => by
    rw [Stmt.exec]
    refine .leaving ((exec_continues w fuel body _ (name :: labels) targets).imp ?_)
      (not_continue (by simp))
    intro c continues x same
    obtain ⟨member, free⟩ := continues x same
    unfold loopsUnder at member
    split at member
    · rename_i loops'
      have other := free loops'
      simp only [List.mem_cons, not_or] at other
      exact ⟨(List.mem_cons.mp member).resolve_left other.1, fun _ => other.2⟩
    · rename_i noLoop
      exact ⟨(List.mem_filter.mp member).1, fun isLoop => absurd isLoop noLoop⟩
  | .break label, _, _, _ => by
    rw [Stmt.exec]
    exact .stop (not_continue (by simp))
  | .continue none, _, _, _ => by
    rw [Stmt.exec]
    exact .stop (not_continue (by simp))
  | .continue (some label), loops, labels, targets => by
    rw [Stmt.exec]
    refine .stop fun x same => ?_
    obtain rfl : label = x := by simpa using same
    exact ⟨List.contains_iff_mem.mp targets, by simp [Stmt.isLoop]⟩

/-- A list of statements asks no other label to continue than its statements do. -/
theorem execAll_continues (w : World) (fuel : Nat) : ∀ (body : List Stmt) (loops : List String),
    targetsBody loops body = true → Ends (Continues (· ∈ loops)) (execAll w fuel body)
  | [], _, _ => by
    rw [execAll]
    exact .skip (not_continue (by simp))
  | s :: rest, loops, targets => by
    rw [execAll]
    obtain ⟨first, others⟩ := Bool.and_eq_true_iff.mp targets
    exact .seq ((exec_continues w fuel s loops [] first).imp fun c continues x same =>
      (continues x same).1) (execAll_continues w fuel rest loops others)

end

/-! ## Labels that do not matter -/

/-- One more label makes a difference only to a jump that continues it. -/
theorem goesOn_append {labels : List String} {l : String} {c : Completion}
    (other : c ≠ .continue (some l)) : c.goesOn (labels ++ [l]) = c.goesOn labels := by
  cases c with
  | «continue» label =>
    cases label with
    | none => rfl
    | some x =>
      have differs : x ≠ l := fun same => other (by rw [same])
      simp [Completion.goesOn, differs]
  | _ => rfl

/-- A loop runs alike with one more label that nothing continues: by induction on the number of
rounds. -/
theorem iterate_append_label (w : World) (labels : List String) (l : String)
    (test update : Option Expr) (body : Behaviour) : ∀ (n : Nat) (st : State),
    (∀ st', iterate w labels test update body n st ≠ some (.continue (some l), st')) →
    iterate w (labels ++ [l]) test update body n st = iterate w labels test update body n st
  | 0, st, _ => rfl
  | n + 1, st, free => by
    simp only [iterate, after] at free ⊢
    split
    · rename_i goes mid tested
      simp only [tested] at free
      cases goes with
      | false => rfl
      | true =>
        simp only [if_true] at free ⊢
        cases ended : body mid with
        | none => rfl
        | some outcome =>
          obtain ⟨c, late⟩ := outcome
          simp only [ended] at free ⊢
          by_cases asks : c = .continue (some l)
          · -- The loop goes on, or the continue would be how it ends.
            subst asks
            cases known : (Completion.continue (some l)).goesOn labels with
            | false =>
              simp only [known] at free
              exact absurd rfl (free late)
            | true =>
              have member : (Completion.continue (some l)).goesOn (labels ++ [l]) = true := by
                simp [Completion.goesOn]
              simp only [known, member, if_true, seq] at free ⊢
              split
              · rename_i updated
                simp only [updated] at free
                exact iterate_append_label w labels l test update body n _ free
              · rfl
          · rw [goesOn_append asks]
            split
            · rename_i goesOn
              simp only [goesOn, if_true, seq] at free ⊢
              split
              · rename_i updated
                simp only [updated] at free
                exact iterate_append_label w labels l test update body n _ free
              · rfl
            · rfl
    · rfl

theorem leaving_continue {name l : String} {st : State}
    (free : ∀ st', leaving name b st ≠ some (.continue (some l), st')) :
    ∀ st', b st ≠ some (.continue (some l), st') := by
  intro st' ended
  refine free st' ?_
  simp [leaving, ended]

theorem seq_free {c : Completion} {st mid : State} (normal : a st = some (.normal, mid))
    (free : ∀ st', seq a b st ≠ some (c, st')) : ∀ st', b mid ≠ some (c, st') := by
  intro st' ended
  refine free st' ?_
  simp [seq, normal, ended]

/-- What comes second matters only where the first ends normally. -/
theorem seq_congr {b' : Behaviour} {st : State}
    (same : ∀ mid, a st = some (.normal, mid) → b mid = b' mid) : seq a b st = seq a b' st := by
  simp only [seq]
  split
  · exact same _ (by assumption)
  · rfl

/-- A label that is not asked to continue need not be there. -/
theorem exec_append_label (w : World) (fuel : Nat) (l : String) : ∀ (s : Stmt)
    (labels : List String) (st : State),
    (∀ st', s.exec w fuel labels st ≠ some (.continue (some l), st')) →
    s.exec w fuel (labels ++ [l]) st = s.exec w fuel labels st
  | .loop start test update body, labels, st, free => by
    simp only [Stmt.exec] at free ⊢
    exact seq_congr fun mid normal => iterate_append_label w labels l _ _ _ _ _ (seq_free normal free)
  | .repeat test body, labels, st, free => by
    simp only [Stmt.exec] at free ⊢
    exact iterate_append_label w labels l _ _ _ _ _ free
  | .label name body, labels, st, free => by
    simp only [Stmt.exec] at free ⊢
    have same := exec_append_label w fuel l body (name :: labels) st (leaving_continue free)
    rw [List.cons_append] at same
    simp only [leaving, same]
  | .expression _, _, _, _ | .block _, _, _, _ | .empty, _, _, _ | .when _ _, _, _, _
  | .choose _ _ _, _, _, _ | .leave, _, _, _ | .give _, _, _, _ | .declare _, _, _, _
  | .break _, _, _, _ | .continue _, _, _, _ => by simp only [Stmt.exec]

end Untangle.Semantics
