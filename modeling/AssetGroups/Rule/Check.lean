import AssetGroups.Error
import AssetGroups.Rule.Basic
import AssetGroups.Text.Blank

/-!
Checking a group before it is stored. The tree is walked depth first and from left to right, and the
first violation found is the one that is reported.
-/

namespace AssetGroups

/-- Whether a text is missing or empty. -/
def lacksText (value : Option String) : Bool := value.getD "" == ""

def Condition.check (c : Condition) : Except Violation Unit :=
  if c.field = .unknown then .error .fieldExpected
  else if c.operator = .unknown then .error .operatorExpected
  else if lacksText c.value then .error .valueExpected
  else if c.field = .group ∧ c.operator ≠ .equals ∧ c.operator ≠ .differs then
    .error .linkExpected
  else .ok ()

/-- What is wrong with a rule set itself, apart from its members. -/
def Connective.check (connective : Connective) (rules : List Rule) : Except Violation Unit :=
  if rules.isEmpty then .error .conditionExpected
  else if connective = .unknown then .error .connectiveExpected
  else .ok ()

mutual

def Rule.check : Rule → Except Violation Unit
  | .condition c => c.check
  | .nested connective rules =>
    match connective.check rules with
    | .error v => .error v
    | .ok () => Rule.checkAll rules

def Rule.checkAll : List Rule → Except Violation Unit
  | [] => .ok ()
  | r :: rs =>
    match r.check with
    | .error v => .error v
    | .ok () => Rule.checkAll rs

end

def RuleSet.check (r : RuleSet) : Except Violation Unit := r.toRule.check

def Group.check (g : Group) : Except Violation Unit :=
  if g.isEmpty then .error .emptyGroup
  else if Text.allBlank g.name.toList then .error .nameExpected
  else g.rules.check

end AssetGroups
