import AssetGroups.Rule.Check

/-!
# The first violation

All violations of a tree are listed node by node, where a node comes before those below it and the
members of a rule set follow one another from left to right. A check stops at the first of them.
-/

namespace AssetGroups

/-! ## Lists of violations -/

/-- `v` alone where `p` holds. -/
def Violation.when (p : Prop) [Decidable p] (v : Violation) : List Violation :=
  if p then [v] else []

/-- What a check reports that finds `vs`. -/
def Violation.first : List Violation → Except Violation Unit
  | [] => .ok ()
  | v :: _ => .error v

namespace Violation

theorem first_append (vs ws : List Violation) :
    first (vs ++ ws) = match first vs with | .error v => .error v | .ok () => first ws := by
  cases vs <;> rfl

theorem first_when_append (p : Prop) [Decidable p] (v : Violation) (ws : List Violation) :
    first (v.when p ++ ws) = if p then .error v else first ws := by
  by_cases hp : p <;> simp [when, hp, first]

theorem first_when (p : Prop) [Decidable p] (v : Violation) :
    first (v.when p) = if p then .error v else .ok () := by
  rw [← List.append_nil (v.when p), first_when_append, first]

end Violation

open Violation

/-! ## Violations of a node -/

def Condition.violations (c : Condition) : List Violation :=
  fieldExpected.when (c.field = .unknown) ++
    operatorExpected.when (c.operator = .unknown) ++
    valueExpected.when (c.value = none ∨ c.value = some "") ++
    linkExpected.when (c.field = .group ∧ c.operator ∉ [.equals, .differs])

/-- The violations of a rule set itself, apart from its members. -/
def Connective.violations (connective : Connective) (rules : List Rule) : List Violation :=
  conditionExpected.when (rules.length = 0) ++ connectiveExpected.when (connective = .unknown)

theorem lacksText_iff (value : Option String) :
    lacksText value = true ↔ value = none ∨ value = some "" := by
  cases value <;> simp [lacksText]

theorem Condition.check_eq_first (c : Condition) : c.check = first c.violations := by
  simp only [violations, List.append_assoc, first_when_append, first_when, check, lacksText_iff,
    List.mem_cons, List.not_mem_nil, or_false, not_or]

theorem Connective.check_eq_first (connective : Connective) (rules : List Rule) :
    connective.check rules = first (connective.violations rules) := by
  simp only [violations, first_when_append, first_when, check, List.isEmpty_iff,
    List.length_eq_zero_iff]

/-! ## Violations of a tree -/

mutual

/-- A rule and the rules below it. -/
def Rule.nodes : Rule → List Rule
  | .condition c => [.condition c]
  | .nested connective rules => .nested connective rules :: Rule.allNodes rules

def Rule.allNodes : List Rule → List Rule
  | [] => []
  | r :: rs => r.nodes ++ Rule.allNodes rs

end

/-- The violations of a rule itself, apart from the rules below it. -/
def Rule.ownViolations : Rule → List Violation
  | .condition c => c.violations
  | .nested connective rules => connective.violations rules

def Rule.violations (r : Rule) : List Violation := r.nodes.flatMap ownViolations

mutual

theorem Rule.check_eq_first : (r : Rule) → r.check = first r.violations
  | .condition c => by
      rw [Rule.check, c.check_eq_first, Rule.violations, Rule.nodes, List.flatMap_singleton]
      rfl
  | .nested connective rules => by
      rw [Rule.check, connective.check_eq_first, Rule.checkAll_eq_first rules, Rule.violations,
        Rule.nodes, List.flatMap_cons, first_append]
      rfl

theorem Rule.checkAll_eq_first : (rs : List Rule) →
    Rule.checkAll rs = first ((Rule.allNodes rs).flatMap ownViolations)
  | [] => rfl
  | r :: rs => by
      rw [Rule.checkAll, Rule.check_eq_first r, Rule.checkAll_eq_first rs, Rule.allNodes,
        List.flatMap_append, first_append]
      rfl

end

def RuleSet.violations (r : RuleSet) : List Violation := r.toRule.violations

/-- The violations of a group: its own, then those of its rules. -/
def Group.violations (g : Group) : List Violation :=
  emptyGroup.when (g.id = none ∧ g.name = "" ∧ g.rules.connective = .unknown ∧ g.rules.rules = []) ++
    nameExpected.when (g.name.toList.all Text.isBlank = true) ++
    g.rules.violations

theorem RuleSet.check_eq_first (r : RuleSet) : r.check = first r.violations :=
  r.toRule.check_eq_first

theorem Group.isEmpty_iff (g : Group) : g.isEmpty = true ↔
    g.id = none ∧ g.name = "" ∧ g.rules.connective = .unknown ∧ g.rules.rules = [] := by
  simp [isEmpty, RuleSet.isEmpty, and_assoc]

theorem Group.check_eq_first (g : Group) : g.check = first g.violations := by
  simp only [violations, List.append_assoc, first_when_append, check, isEmpty_iff, Text.allBlank,
    g.rules.check_eq_first]

/-- A check of a rule set, or of a group, reports the first of all its violations and succeeds when
there are none. -/
theorem check_reports_first_violation :
    (∀ r : RuleSet, r.check = first r.violations) ∧ (∀ g : Group, g.check = first g.violations) ∧
      emptyGroup.message = "Group is empty" ∧ nameExpected.message = "Name expected" :=
  ⟨RuleSet.check_eq_first, Group.check_eq_first, rfl, rfl⟩

/-- The rule set without members stands before the field that is not known. -/
example : (RuleSet.all.add RuleSet.any.toRule |>.add (.condition (.of .unknown .equals "x"))).violations =
    [.conditionExpected, .fieldExpected] := by
  decide

end AssetGroups
