import Untangle.Reshape.Engine

/-!
# Rule drafts

A set of rules is drawn up rule by rule and then finished. A tag takes one rule only; a second one
is refused, and what was entered before it stays. Finished rules never change.

Section 4.5 of the specification: tables are assembled once and then frozen.
-/

namespace Untangle.Reshape

/-- A set of rules that is being drawn up; the name stands in its error messages. -/
structure RuleDraft where
  name : String
  rules : RuleMap

namespace RuleDraft

def empty (name : String) : RuleDraft where
  name := name
  rules := []

/-- Enters a rule for one tag after the other, up to the first that already has one. The draft comes
back with what was entered. -/
def enter (d : RuleDraft) (rule : Rule) : List String → RuleDraft × Except Fault Unit
  | [] => (d, .ok ())
  | tag :: rest =>
    if (d.rules.lookup tag).isSome then (d, .error (.duplicateRule d.name tag))
    else enter { d with rules := d.rules ++ [(tag, rule)] } rule rest

def finish (d : RuleDraft) : RuleMap :=
  d.rules

end RuleDraft

/-- An attempt to change finished rules, which is always refused. -/
def RuleMap.put (_ : RuleMap) (_ : String) (_ : Rule) : Except Fault RuleMap :=
  .error .finishedRules

end Untangle.Reshape
