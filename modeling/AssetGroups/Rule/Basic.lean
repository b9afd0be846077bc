/-!
Groups and the rules that describe them: conditions on a field of an asset, joined by AND and OR.
-/

namespace AssetGroups

/-- What a condition looks at. -/
inductive Field where
  | name
  | internalName
  | location
  | type
  | subtype
  | contact
  | hostName
  | ipAddress
  | hostedBy
  | group
  | unknown
deriving DecidableEq, Repr

/-- How a condition compares. -/
inductive Operator where
  | contains
  | doesNotContain
  | equals
  | differs
  | unknown
deriving DecidableEq, Repr

/-- How the members of a rule set are joined. -/
inductive Connective where
  | and
  | or
  | unknown
deriving DecidableEq, Repr

structure Condition where
  field : Field
  operator : Operator := .unknown
  value : Option String := none
deriving DecidableEq, Repr

inductive Rule where
  | condition (c : Condition)
  | nested (connective : Connective) (rules : List Rule)
deriving Repr

structure RuleSet where
  connective : Connective := .unknown
  rules : List Rule := []
deriving Repr

/-- A named rule set; it has an id once it is stored. -/
structure Group where
  id : Option Nat := none
  name : String := ""
  rules : RuleSet := {}
deriving Repr

/-! ## Names -/

namespace Field

def text : Field → String
  | .name => "name"
  | .internalName => "asset"
  | .location => "location"
  | .type => "type"
  | .subtype => "subtype"
  | .contact => "contact"
  | .hostName => "host-name"
  | .ipAddress => "ip-address"
  | .hostedBy => "hosted-by"
  | .group => "group"
  | .unknown => "unknown"

def known : List Field :=
  [.name, .internalName, .location, .type, .subtype, .contact, .hostName, .ipAddress, .hostedBy, .group]

/-- A word that names no field is read as `unknown`. -/
def ofText (s : String) : Field := (known.find? (·.text == s)).getD .unknown

end Field

namespace Operator

def text : Operator → String
  | .contains => "CONTAINS"
  | .doesNotContain => "DOESNOTCONTAIN"
  | .equals => "IS"
  | .differs => "ISNOT"
  | .unknown => "UNKNOWN"

def known : List Operator := [.contains, .doesNotContain, .equals, .differs]

def ofText (s : String) : Operator := (known.find? (·.text == s)).getD .unknown

/-- A negated operator is answered by the complement of what its positive form finds. -/
def isNegated : Operator → Bool
  | .differs | .doesNotContain => true
  | _ => false

/-- Whether a part of the text is enough. -/
def isPartial : Operator → Bool
  | .contains | .doesNotContain => true
  | _ => false

end Operator

namespace Connective

def text : Connective → String
  | .and => "AND"
  | .or => "OR"
  | .unknown => "UNKNOWN"

def ofText (s : String) : Connective :=
  (([.and, .or] : List Connective).find? (·.text == s)).getD .unknown

end Connective

/-! ## Building -/

def Condition.of (field : Field) (operator : Operator) (value : String) : Condition :=
  ⟨field, operator, some value⟩

def RuleSet.toRule (r : RuleSet) : Rule := .nested r.connective r.rules

namespace RuleSet

def join (connective : Connective) : RuleSet := ⟨connective, []⟩

def all : RuleSet := join .and

def any : RuleSet := join .or

def add (r : RuleSet) (rule : Rule) : RuleSet := { r with rules := r.rules ++ [rule] }

/-- Nothing was filled in. -/
def isEmpty (r : RuleSet) : Bool := r.connective == .unknown && r.rules.isEmpty

end RuleSet

namespace Group

def named (name : String) (rules : RuleSet) : Group := ⟨none, name, rules⟩

/-- Nothing was filled in at all. -/
def isEmpty (g : Group) : Bool := g.id.isNone && g.name.isEmpty && g.rules.isEmpty

end Group

mutual

/-- The same tree with a value in every condition; a missing one becomes the empty text. -/
def Rule.filled : Rule → Rule
  | .condition c => .condition (Condition.of c.field c.operator (c.value.getD ""))
  | .nested connective rules => .nested connective (Rule.allFilled rules)

def Rule.allFilled : List Rule → List Rule
  | [] => []
  | r :: rs => r.filled :: Rule.allFilled rs

end

/-- A rule set built member by member, with a value in every condition. -/
def RuleSet.filled (r : RuleSet) : RuleSet :=
  (Rule.allFilled r.rules).foldl RuleSet.add (RuleSet.join r.connective)

end AssetGroups
