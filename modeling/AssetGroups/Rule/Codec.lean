import AssetGroups.Json.Decoder
import AssetGroups.Json.Printer
import AssetGroups.Rule.Basic

/-!
Groups and rules in JSON. An entry of a rule set is a condition if it has a key `field`, and a nested
rule set otherwise; it is read as a value before its form is looked at.
-/

namespace AssetGroups

open Json

/-! ## Writing -/

def Condition.toJson (c : Condition) : Value :=
  .ofMembers [("field", some (.string c.field.text)), ("operator", some (.string c.operator.text)),
    ("value", c.value.map .string)]

mutual

def Rule.toJson : Rule → Value
  | .condition c => c.toJson
  | .nested connective rules =>
    .object [("operator", .string connective.text), ("conditions", .list (Rule.allToJson rules))]

def Rule.allToJson : List Rule → List Value
  | [] => []
  | r :: rs => r.toJson :: Rule.allToJson rs

end

def RuleSet.toJson (r : RuleSet) : Value := r.toRule.toJson

def Group.toJson (g : Group) : Value :=
  .ofMembers [("id", g.id.map .nat), ("name", some (.string g.name)), ("rules", some g.rules.toJson)]

/-! ## Reading -/

def Field.decoder : Decoder Field := .named (some ∘ Field.ofText)

def Operator.decoder : Decoder Operator := .named (some ∘ Operator.ofText)

def Connective.decoder : Decoder Connective := .named (some ∘ Connective.ofText)

def Condition.decoder : Decoder Condition :=
  .record ⟨.unknown, .unknown, none⟩ [
    .needed "field" Field.decoder fun v c => { c with field := v },
    .optional "operator" Operator.decoder fun v c => { c with operator := v },
    .optional "value" (.nullable .text) fun v c => { c with value := v }]

/-- A rule set whose entries are read by `entry`. -/
def RuleSet.decoderOf (entry : Decoder Rule) : Decoder RuleSet :=
  .record {} [
    .optional "operator" Connective.decoder fun v r => { r with connective := v },
    .optional "conditions" (.listOf entry) fun v r => { r with rules := v }]

/-- An entry that was read as a value before; rule sets are nested at most `levels` deep. -/
def Rule.entryDecoder : (levels : Nat) → Decoder Rule
  | 0 => fun _ _ => .error .mismatch
  | levels + 1 => fun room s =>
    if s.hasKey "field" then (Condition.decoder room s).map .condition
    else (RuleSet.decoderOf (Rule.entryDecoder levels) room s).map RuleSet.toRule

def Rule.ofJson (v : Value) : Except Fault Rule := decodeValue (Rule.entryDecoder (v.depth + 1)) v

def Rule.decoder : Decoder Rule := fun room s =>
  match Decoder.anything room s with
  | .error e => .error e
  | .ok v =>
    match Rule.ofJson v with
    | .ok r => .ok r
    | .error _ => .error .mismatch

def RuleSet.decoder : Decoder RuleSet := RuleSet.decoderOf Rule.decoder

def Group.decoder : Decoder Group :=
  .record {} [
    .optional "id" (.nullable .word) fun v g => { g with id := v },
    .optional "name" .text fun v g => { g with name := v },
    .optional "rules" RuleSet.decoder fun v g => { g with rules := v }]

end AssetGroups
