import AssetGroups.Error
import AssetGroups.Inventory.Basic
import AssetGroups.Rule.Check
import AssetGroups.Text.Digits

/-!
Resolution: from a rule set to the assets that satisfy it. Every condition is answered by a set of
ids, and the sets of the members of a rule set are joined by its connective. Groups that a condition
refers to are asked for one by one in a monad of the caller's choice, so that nothing is said here
about where they are stored and what happens between two questions.
-/

namespace AssetGroups

open Text

/-- Against what groups are resolved: the inventory, the internal name of an asset that is never
shown, and how many references may follow one another. -/
structure Resolver where
  inventory : Inventory := {}
  reserved : Option String := none
  maxDepth : Nat := 10
deriving Repr

namespace Resolver

def contactKeys : List AttributeKey := [.exact "device.contact", .exact "contact_email"]
def hostNameKeys : List AttributeKey := [.family "hostname."]
def addressKeys : List AttributeKey := [.family "ip."]

/-! Attributes of the hypervisor that hosts a virtual machine. -/

def hypervisorNameKeys : List AttributeKey := [.exact "hostName"]
def hypervisorAddressKeys : List AttributeKey := [.exact "address"]

/-! ## Conditions on an asset -/

/-- Devices bear the value in their own attributes, virtual machines in those of their host. -/
def deviceOrVm (inv : Inventory) (own ofHost : List AttributeKey) (m : TextMatch) : IdSet :=
  ((inv.byAttribute own m).union (inv.byHostAttribute ofHost m)).inter (inv.inDomain .devicesAndVms)

/-- What the positive form of a condition finds; `none` for a field that is none of an asset's. -/
def positive? (inv : Inventory) (field : Field) (op : Operator) (value : String) : Option IdSet :=
  let m := TextMatch.ofText op value
  match field with
  | .name => some (inv.byName m)
  | .internalName => some (inv.byInternalName m)
  | .location => some (inv.byLocation m)
  | .type => some (inv.byType m)
  | .subtype => some (inv.bySubtype m)
  | .contact => some (inv.byAttribute contactKeys m)
  | .hostName => some (deviceOrVm inv hostNameKeys hypervisorNameKeys m)
  | .ipAddress =>
    some (deviceOrVm inv addressKeys hypervisorAddressKeys (TextMatch.ofAddress op value))
  | .hostedBy => some (inv.hostedBy m)
  | .group => none
  | .unknown => none

/-- What a condition finds when its positive form finds `found`. -/
def applyOperator (inv : Inventory) (c : Condition) (found : IdSet) : IdSet :=
  if c.operator.isNegated then (inv.inDomain c.field.domain).diff found else found

/-- Joins what the members of a rule set found. -/
def joinAll (connective : Connective) : List IdSet → IdSet
  | [] => .empty
  | s :: ss =>
    ss.foldl (fun acc s => if connective = .and then acc.inter s else acc.union s) s

/-! ## Rule sets

`refer` answers the text that a condition refers to a group by. -/

section

variable {m : Type → Type} [Monad m] [MonadExceptOf GroupError m]

def condition (inv : Inventory) (refer : String → m IdSet) (c : Condition) : m IdSet := do
  let value := c.value.getD ""
  if value == "" then throw (GroupError.ofViolation .valueExpected)
  if c.operator = .unknown then throw (GroupError.ofViolation .operatorExpected)
  if c.field = .group then
    if c.operator ≠ .equals ∧ c.operator ≠ .differs then
      throw (GroupError.ofViolation .linkExpected)
    return applyOperator inv c (← refer value)
  match positive? inv c.field c.operator value with
  | some found => return applyOperator inv c found
  | none => throw (GroupError.unsupportedField c.field.text)

mutual

def compile (inv : Inventory) (refer : String → m IdSet) : Rule → m IdSet
  | .condition c => condition inv refer c
  | .nested connective rules =>
    match connective.check rules with
    | .error v => throw (GroupError.ofViolation v)
    | .ok () => return joinAll connective (← compileAll inv refer rules)

def compileAll (inv : Inventory) (refer : String → m IdSet) : List Rule → m (List IdSet)
  | [] => return []
  | r :: rs => do
    let s ← compile inv refer r
    return s :: (← compileAll inv refer rs)

end

/-- The id that a condition refers to a group by. -/
def referredId? (value : String) : Option Nat := readWord? (trim value.toList)

/-- Resolves the group that a condition refers to. `trail` holds the ids of the groups that are being
resolved, outermost first, and `allowance` how many may still be added to it. -/
def follow (r : Resolver) (lookup : Nat → m Group) : (allowance : Nat) → (trail : List Nat) →
    String → m IdSet
  | allowance, trail, value =>
    match referredId? value with
    | none => throw (GroupError.noLinkedGroup value)
    | some id =>
      if trail.contains id then throw (GroupError.cycle (trail ++ [id]))
      else
        match allowance with
        | 0 => throw (GroupError.tooDeep r.maxDepth)
        | allowance + 1 => do
          let g ← lookup id
          compile r.inventory (follow r lookup allowance (trail ++ [id])) g.rules.toRule

/-- The assets of a rule set below a trail, without the reserved one. -/
def resolveFrom (r : Resolver) (lookup : Nat → m Group) (trail : List Nat) (rules : RuleSet) :
    m (List Inventory.AssetRef) := do
  let found ← compile r.inventory (follow r lookup (r.maxDepth + 1 - trail.length) trail) rules.toRule
  let shown := match r.reserved with
    | none => found
    | some name => found.diff (r.inventory.byInternalName (.exact name))
  return r.inventory.describe shown

/-- Resolves a rule set on its own, unchecked. -/
def resolveRules (r : Resolver) (lookup : Nat → m Group) (rules : RuleSet) :
    m (List Inventory.AssetRef) :=
  r.resolveFrom lookup [] rules

/-- Resolves a stored group, which was checked when it was stored. -/
def resolveId (r : Resolver) (lookup : Nat → m Group) (id : Nat) : m (List Inventory.AssetRef) := do
  let g ← lookup id
  r.resolveFrom lookup g.id.toList g.rules

/-- Resolves a group as it is given, after checking it. -/
def resolve (r : Resolver) (lookup : Nat → m Group) (g : Group) : m (List Inventory.AssetRef) :=
  match g.check with
  | .error v => throw (GroupError.ofViolation v)
  | .ok () => r.resolveFrom lookup g.id.toList g.rules

end

end Resolver

end AssetGroups
