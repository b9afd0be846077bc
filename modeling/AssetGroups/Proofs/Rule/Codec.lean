import AssetGroups.Proofs.Json.Inversion
import AssetGroups.Proofs.Json.RoundTrip
import AssetGroups.Rule.Codec

/-!
# Groups are read as they were written

A group, or a rule in it, is taken back from its JSON exactly when there is room for its depth. An
entry of a rule set is understood as a value before, whose objects have their keys in order; so it is
followed through that value.
-/

namespace AssetGroups

open Json

/-! ## Words -/

theorem Field.ofText_text (f : Field) : Field.ofText f.text = f := by
  cases f <;> rfl

theorem Operator.ofText_text (op : Operator) : Operator.ofText op.text = op := by
  cases op <;> rfl

theorem Connective.ofText_text (c : Connective) : Connective.ofText c.text = c := by
  cases c <;> rfl

theorem Field.decoder_inverts (f : Field) : Field.decoder.Inverts (.string f.text) f :=
  Decoder.named_inverts (by rw [Function.comp_apply, Field.ofText_text])

theorem Operator.decoder_inverts (op : Operator) : Operator.decoder.Inverts (.string op.text) op :=
  Decoder.named_inverts (by rw [Function.comp_apply, Operator.ofText_text])

theorem Connective.decoder_inverts (c : Connective) : Connective.decoder.Inverts (.string c.text) c :=
  Decoder.named_inverts (by rw [Function.comp_apply, Connective.ofText_text])

/-! ## Conditions -/

/-- The members of a condition as they are written. -/
def Condition.written (c : Condition) : List (Written Condition) :=
  ⟨"field", .string c.field.text, fun d => { d with field := c.field }⟩ ::
    ⟨"operator", .string c.operator.text, fun d => { d with operator := c.operator }⟩ ::
      (c.value.map fun v => ⟨"value", .string v, fun d => { d with value := some v }⟩).toList

theorem Condition.decoder_inverts (c : Condition) : Condition.decoder.Inverts c.toJson c := by
  obtain ⟨field, op, _ | value⟩ := c
  · refine Decoder.record_inverts _ (written ⟨field, op, none⟩) ?_ (by simp [written])
      (by simp [written, Member.needed, Member.optional])
    simp only [written, Option.map_none, Option.toList_none, List.forall_mem_cons]
    exact ⟨.of_inverts rfl field.decoder_inverts rfl,
      .of_inverts rfl op.decoder_inverts rfl, by simp⟩
  · refine Decoder.record_inverts _ (written ⟨field, op, some value⟩) ?_ (by simp [written])
      (by simp [written, Member.needed, Member.optional])
    have hvalue := Decoder.nullable_inverts (Decoder.text_inverts value) (by simp [Source.ofValue])
    simp only [written, Option.map_some, Option.toList_some, List.forall_mem_cons]
    exact ⟨.of_inverts rfl field.decoder_inverts rfl,
      .of_inverts rfl op.decoder_inverts rfl, .of_inverts rfl hvalue rfl, by simp⟩

/-! ## Rule sets -/

/-- The members of a rule set as they are written. -/
def RuleSet.written (toJson : Rule → Value) (r : RuleSet) : List (Written RuleSet) :=
  [⟨"operator", .string r.connective.text, fun s => { s with connective := r.connective }⟩,
    ⟨"conditions", .list (r.rules.map toJson), fun s => { s with rules := r.rules }⟩]

theorem RuleSet.decoderOf_inverts {entry : Decoder Rule} {toJson : Rule → Value} (r : RuleSet)
    (h : ∀ rule ∈ r.rules, entry.Inverts (toJson rule) rule) (ws : List (Written RuleSet))
    (hws : ws = r.written toJson ∨ ws = (r.written toJson).reverse) :
    (decoderOf entry).Inverts (.object (ws.map fun w => (w.key, w.value))) r := by
  have hrules := Decoder.listOf_inverts h
  have hfits : ∀ w ∈ r.written toJson, w.Fits [
      .optional "operator" Connective.decoder fun v r => { r with connective := v },
      .optional "conditions" (.listOf entry) fun v r => { r with rules := v }] := by
    simp only [written, List.forall_mem_cons]
    exact ⟨.of_inverts rfl r.connective.decoder_inverts rfl, .of_inverts rfl hrules rfl, by simp⟩
  rcases hws with rfl | rfl
  · exact Decoder.record_inverts {} _ hfits (by simp [written]) (by simp [Member.optional])
  · exact Decoder.record_inverts {} _ (fun w hw => hfits w (List.mem_reverse.mp hw))
      (by simp [written]) (by simp [Member.optional])

mutual

/-- The value that a rule is understood as: the keys of an object are in order. -/
def Rule.understood : Rule → Value
  | .condition c => c.toJson
  | .nested connective rules =>
    .object [("conditions", .list (Rule.allUnderstood rules)), ("operator", .string connective.text)]

def Rule.allUnderstood : List Rule → List Value
  | [] => []
  | r :: rs => r.understood :: Rule.allUnderstood rs

end

namespace Rule

theorem allToJson_eq_map (rs : List Rule) : allToJson rs = rs.map toJson := by
  induction rs with
  | nil => rfl
  | cons r rs ih => rw [allToJson, ih, List.map_cons]

theorem allUnderstood_eq_map (rs : List Rule) : allUnderstood rs = rs.map understood := by
  induction rs with
  | nil => rfl
  | cons r rs ih => rw [allUnderstood, ih, List.map_cons]

mutual

theorem depth_understood : (r : Rule) → r.understood.depth = r.toJson.depth
  | .condition c => rfl
  | .nested connective rules => by
      have hrules := depth_allUnderstood rules
      simp only [understood, toJson, Value.depth, Value.depthOfMembers, hrules]
      omega

theorem depth_allUnderstood : (rs : List Rule) →
    Value.depthOfItems (allUnderstood rs) = Value.depthOfItems (allToJson rs)
  | [] => rfl
  | r :: rs => by
      rw [allUnderstood, allToJson, Value.depthOfItems, Value.depthOfItems, depth_understood r,
        depth_allUnderstood rs]

end

theorem ofEntries_condition (field op : Value) : Dict.ofEntries [("field", field), ("operator", op)] =
    [("field", field), ("operator", op)] :=
  Dict.ofEntries_ascending (show ["field", "operator"].Pairwise (· < ·) by decide)

theorem ofEntries_condition_value (field op value : Value) :
    Dict.ofEntries [("field", field), ("operator", op), ("value", value)] =
      [("field", field), ("operator", op), ("value", value)] :=
  Dict.ofEntries_ascending (show ["field", "operator", "value"].Pairwise (· < ·) by decide)

theorem ofEntries_nested (op rules : Value) :
    Dict.ofEntries [("operator", op), ("conditions", rules)] =
      [("conditions", rules), ("operator", op)] := by
  have hlt : "conditions" < "operator" := by decide
  rw [Dict.ofEntries, List.foldl_cons, List.foldl_cons, List.foldl_nil, Dict.insert]
  exact Dict.insert_first (List.forall_mem_singleton.mpr hlt)

theorem value?_condition (c : Condition) (room : Nat) :
    (Source.ofValue c.toJson).value? room = if c.toJson.depth ≤ room then some c.toJson else none := by
  obtain ⟨field, op, _ | value⟩ := c <;> cases room <;>
    simp [Condition.toJson, Value.ofMembers, Source.ofValue, Source.ofEntries, Source.value?,
      Source.entries?, ofEntries_condition, ofEntries_condition_value, Value.depth,
      Value.depthOfMembers]

mutual

theorem value?_toJson : (r : Rule) → (room : Nat) → (Source.ofValue r.toJson).value? room =
    if r.toJson.depth ≤ room then some r.understood else none
  | .condition c, room => value?_condition c room
  | .nested connective rules, room => by
      have hrules := values?_allToJson rules (room - 2)
      have hdepth : (nested connective rules).toJson.depth =
          Value.depthOfItems (allToJson rules) + 2 := by
        simp [toJson, Value.depth, Value.depthOfMembers]
      rw [hdepth]
      rcases room with _ | _ | room
      · simp [toJson, Source.ofValue, Source.value?]
      · simp [toJson, Source.ofValue, Source.ofEntries, Source.value?, Source.entries?]
      · rw [show room + 1 + 1 - 2 = room from rfl] at hrules
        by_cases hroom : Value.depthOfItems (allToJson rules) ≤ room <;>
          simp [toJson, Source.ofValue, Source.ofEntries, Source.value?, Source.entries?, hrules,
            hroom, understood, ofEntries_nested]

theorem values?_allToJson : (rs : List Rule) → (room : Nat) →
    Source.values? room (Source.ofValues (allToJson rs)) =
      if Value.depthOfItems (allToJson rs) ≤ room then some (allUnderstood rs) else none
  | [], _ => rfl
  | r :: rs, room => by
      have hfirst := value?_toJson r room
      have hrest := values?_allToJson rs room
      rw [allToJson, Source.ofValues, Source.values?, hfirst, hrest, Value.depthOfItems,
        allUnderstood]
      simp only [Nat.max_le]
      by_cases hr : r.toJson.depth ≤ room <;>
        by_cases hrs : Value.depthOfItems (allToJson rs) ≤ room <;> simp [hr, hrs]

end

mutual

theorem entryDecoder_inverts : (r : Rule) → (levels : Nat) → r.understood.depth < levels →
    (entryDecoder levels).Inverts r.understood r
  | .condition c, levels + 1, _ => by
      intro room
      have hkey : (Source.ofValue c.toJson).hasKey "field" = true := by
        simp [Condition.toJson, Value.ofMembers, Source.ofValue, Source.ofEntries, Source.hasKey]
      rw [understood, entryDecoder]
      simp only [hkey, if_true]
      exact c.decoder_inverts.map condition room
  | .nested connective rules, levels + 1, hlevels => by
      intro room
      have hrules := entryDecoder_inverts_all rules levels (by
        simp only [understood, Value.depth, Value.depthOfMembers] at hlevels
        omega)
      have hkey : (Source.ofValue (nested connective rules).understood).hasKey "field" = false := by
        simp [understood, Source.ofValue, Source.ofEntries, Source.hasKey]
      rw [entryDecoder]
      simp only [hkey, Bool.false_eq_true, if_false]
      rw [understood, allUnderstood_eq_map]
      exact (RuleSet.decoderOf_inverts ⟨connective, rules⟩ hrules _ (Or.inr rfl)).map
        RuleSet.toRule room

theorem entryDecoder_inverts_all : (rs : List Rule) → (levels : Nat) →
    Value.depthOfItems (allUnderstood rs) < levels →
    ∀ r ∈ rs, (entryDecoder levels).Inverts r.understood r
  | [], _, _ => by simp
  | r :: rs, levels, hlevels => by
      rw [allUnderstood, Value.depthOfItems] at hlevels
      exact List.forall_mem_cons.mpr ⟨entryDecoder_inverts r levels (by omega),
        entryDecoder_inverts_all rs levels (by omega)⟩

end

theorem ofJson_understood (r : Rule) : ofJson r.understood = .ok r := by
  rw [ofJson, decodeValue, entryDecoder_inverts r _ (Nat.lt_succ_self _), if_pos (Nat.le_refl _)]

theorem decoder_inverts (r : Rule) : decoder.Inverts r.toJson r := by
  intro room
  unfold decoder Decoder.anything
  rw [value?_toJson]
  by_cases h : r.toJson.depth ≤ room <;> simp [h, ofJson_understood]

end Rule

/-! ## Groups -/

theorem RuleSet.decoder_inverts (r : RuleSet) : decoder.Inverts r.toJson r := by
  have h := decoderOf_inverts r (fun rule _ => rule.decoder_inverts) _ (Or.inl rfl)
  rw [toJson, toRule, Rule.toJson, Rule.allToJson_eq_map]
  exact h

/-- The members of a group as they are written. -/
def Group.written (g : Group) : List (Written Group) :=
  (g.id.map fun id => ⟨"id", .nat id, fun h => { h with id := some id }⟩).toList ++
    [⟨"name", .string g.name, fun h => { h with name := g.name }⟩,
      ⟨"rules", g.rules.toJson, fun h => { h with rules := g.rules }⟩]

theorem Group.decoder_inverts (g : Group) (hid : ∀ id, g.id = some id → id < Text.wordLimit) :
    decoder.Inverts g.toJson g := by
  obtain ⟨_ | id, name, rules⟩ := g
  · refine Decoder.record_inverts _ (written ⟨none, name, rules⟩) ?_ (by simp [written])
      (by simp [written, Member.optional])
    simp only [written, Option.map_none, Option.toList_none, List.nil_append, List.forall_mem_cons]
    exact ⟨.of_inverts rfl (Decoder.text_inverts name) rfl,
      .of_inverts rfl rules.decoder_inverts rfl, by simp⟩
  · refine Decoder.record_inverts _ (written ⟨some id, name, rules⟩) ?_ (by simp [written])
      (by simp [written, Member.optional])
    have hid := Decoder.nullable_inverts (Decoder.word_inverts (hid id rfl))
      (by simp [Value.nat, Source.ofValue])
    simp only [written, Option.map_some, Option.toList_some, List.cons_append, List.nil_append,
      List.forall_mem_cons]
    exact ⟨.of_inverts rfl hid rfl, .of_inverts rfl (Decoder.text_inverts name) rfl,
      .of_inverts rfl rules.decoder_inverts rfl, by simp⟩

end AssetGroups
