import AssetGroups.Proofs.Inventory.Queries
import AssetGroups.Proofs.Outcome
import AssetGroups.Resolver

/-!
# When a rule set is resolved

What has to be the case for the set of a condition, of a rule set or of a reference to be found, and
which set it is then. A rule that is resolved has passed its check: resolving refuses whatever the
check refuses.
-/

namespace AssetGroups

namespace Resolver

variable {inv : Inventory} {refer : String → Except GroupError IdSet} {s : IdSet}

/-! ## Conditions -/

/-- The set that the positive form of a condition finds. -/
def Finds (inv : Inventory) (refer : String → Except GroupError IdSet) (c : Condition)
    (found : IdSet) : Prop :=
  if c.field = .group then refer (c.value.getD "") = .ok found
  else positive? inv c.field c.operator (c.value.getD "") = some found

theorem positive?_eq_none (inv : Inventory) {field : Field} (op : Operator) (value : String)
    (hfield : field ≠ .group) : positive? inv field op value = none ↔ field = .unknown := by
  cases field <;> simp_all [positive?]

theorem condition_ok {c : Condition} :
    condition inv refer c = .ok s ↔
      c.check = .ok () ∧ ∃ found, Finds inv refer c found ∧ s = applyOperator inv c found := by
  by_cases hvalue : c.value.getD "" = ""
  · simp [condition, Condition.check, lacksText, hvalue, bind_eq_ok, ite_eq_iff]
  by_cases hop : c.operator = .unknown
  · simp [condition, Condition.check, hop, bind_eq_ok, ite_eq_iff]
  by_cases hfield : c.field = .group
  · by_cases hlink : c.operator ≠ .equals ∧ c.operator ≠ .differs
    · simp [condition, Condition.check, lacksText, hvalue, hop, hfield, hlink, bind_eq_ok]
    · simp [condition, Condition.check, lacksText, hvalue, hop, hfield, hlink, map_eq_ok, Finds]
  · cases hp : positive? inv c.field c.operator (c.value.getD "") with
    | none =>
        have hunknown := (positive?_eq_none inv _ _ hfield).mp hp
        simp [condition, Condition.check, hvalue, hop, hunknown, positive?]
    | some found =>
        have hknown : c.field ≠ .unknown := by
          intro hunknown
          simp [hunknown, positive?] at hp
        simp [condition, Condition.check, lacksText, hvalue, hop, hfield, hknown, hp, pure_eq_ok,
          Finds]

/-! ## Rule sets -/

theorem compile_nested_ok {connective : Connective} {rules : List Rule} :
    compile inv refer (.nested connective rules) = .ok s ↔
      connective.check rules = .ok () ∧
        ∃ ss, compileAll inv refer rules = .ok ss ∧ s = joinAll connective ss := by
  rw [compile]
  cases connective.check rules with
  | error v => simp
  | ok => simp [map_eq_ok]

theorem compileAll_cons_ok {r : Rule} {rs : List Rule} {ss : List IdSet} :
    compileAll inv refer (r :: rs) = .ok ss ↔
      ∃ first rest, compile inv refer r = .ok first ∧ compileAll inv refer rs = .ok rest ∧
        ss = first :: rest := by
  rw [compileAll]
  simp [bind_eq_ok, map_eq_ok]

/-! ## References -/

theorem follow_ok {r : Resolver} {lookup : Nat → Except GroupError Group} {allowance : Nat}
    {trail : List Nat} {value : String} :
    follow r lookup allowance trail value = .ok s ↔
      ∃ id g left, referredId? value = some id ∧ id ∉ trail ∧ allowance = left + 1 ∧
        lookup id = .ok g ∧
        compile r.inventory (follow r lookup left (trail ++ [id])) g.rules.toRule = .ok s := by
  rw [follow.eq_def]
  cases hid : referredId? value with
  | none => simp [hid]
  | some id =>
      by_cases hmem : id ∈ trail
      · simp [hid, hmem]
      · cases allowance with
        | zero => simp [hid, hmem]
        | succ left => simp [hid, hmem, bind_eq_ok]

end Resolver

end AssetGroups
