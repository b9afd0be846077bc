import AssetGroups.Glob
import AssetGroups.Rule.Basic
import AssetGroups.Text.Blank

/-!
Predicates on the texts and the attribute keys of an asset, and those that a condition stands for.
-/

namespace AssetGroups

open Text

inductive TextMatch where
  | exact (s : String)
  | contains (s : String)
  | wildcard (s : String)
  | anyOf (ms : List TextMatch)
deriving Repr, Inhabited

namespace TextMatch

mutual

def accepts : TextMatch → String → Bool
  | .exact s, text => text == s
  | .contains s, text => occursIn s.toList text.toList
  | .wildcard s, text => Glob.accepts s.toList text.toList
  | .anyOf ms, text => anyAccepts ms text

def anyAccepts : List TextMatch → String → Bool
  | [], _ => false
  | m :: ms, text => m.accepts text || anyAccepts ms text

end

/-- The match of a condition on a text. A negated operator has the match of its positive form; who
asks takes the complement. -/
def ofText (op : Operator) (value : String) : TextMatch :=
  if op.isPartial then .contains value else .exact value

/-- The alternatives of an address: what stands between bars, without the white space around it and
without the empty ones. -/
def alternatives (value : String) : List (List Char) :=
  ((splitAt '|' value.toList).map trim).filter (!·.isEmpty)

/-- The match of one alternative of an address, in which `*` stands for any run of characters. -/
def ofAlternative (op : Operator) (c : List Char) : TextMatch :=
  match c.contains '*', op.isPartial with
  | true, true => .wildcard (String.ofList ('*' :: c ++ ['*']))
  | true, false => .wildcard (String.ofList c)
  | false, true => .contains (String.ofList c)
  | false, false => .exact (String.ofList c)

/-- The match of a condition on an address; a single alternative stands for itself. -/
def ofAddress (op : Operator) (value : String) : TextMatch :=
  match (alternatives value).map (ofAlternative op) with
  | [m] => m
  | ms => .anyOf ms

end TextMatch

/-- Selects attributes by their key; `family` selects keys with a common beginning, such as `ip.1` and
`ip.2`. -/
inductive AttributeKey where
  | exact (key : String)
  | family (front : String)
deriving DecidableEq, Repr

def AttributeKey.accepts : AttributeKey → String → Bool
  | .exact k, key => key == k
  | .family front, key => (afterFront front.toList key.toList).isSome

end AssetGroups
