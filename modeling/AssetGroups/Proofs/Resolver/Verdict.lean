import AssetGroups.Proofs.Inventory.Places
import AssetGroups.Proofs.Text.Pieces
import AssetGroups.Resolver

/-!
# What a rule says about a single asset

The meaning of rules without any set of assets: a condition is looked up in the asset itself, a
reference to a group is answered by the rules of that group, and a rule set joins the answers of its
members. The rules of a group may lead back to the group; then there is no verdict.
-/

namespace AssetGroups

/-! ## Positive conditions -/

/-- A value of one of the attributes with a selected key matches. -/
def Asset.Bears (a : Asset) (selected : String → Prop) (m : TextMatch) : Prop :=
  ∃ entry ∈ a.attributes, selected entry.1 ∧
    ∃ value ∈ attributeValues entry.2, m.accepts value = true

/-- The keys that begin with a text. -/
def HasFront (front key : String) : Prop := front.toList <+: key.toList

namespace Inventory

/-- The asset bears the value itself, or the asset that hosts it does; it has to be a device or a
virtual machine. -/
def FitsDeviceOrVm (inv : Inventory) (own ofHost : String → Prop) (m : TextMatch) (a : Asset) : Prop :=
  (a.kind = .device ∨ a.kind = .virtualMachine) ∧
    (a.Bears own m ∨ ∃ host, inv.hostOf? a = some host ∧ host.Bears ofHost m)

/-- Whether an asset fits the positive form of a condition on a field. -/
def Fits (inv : Inventory) (field : Field) (op : Operator) (value : String) (a : Asset) : Prop :=
  let m := TextMatch.ofText op value
  match field with
  | .name => ∃ shown, a.displayName = some shown ∧ m.accepts shown = true
  | .internalName => m.accepts a.name = true
  | .location => inv.LiesBelow m a.id ∨ ∃ host, a.host = some host ∧ inv.LiesBelow m host
  | .type => m.accepts a.type = true
  | .subtype => a.subtype ≠ "" ∧ m.accepts a.subtype = true
  | .contact => a.Bears (fun key => key = "device.contact" ∨ key = "contact_email") m
  | .hostName => inv.FitsDeviceOrVm (HasFront "hostname.") (· = "hostName") m a
  | .ipAddress =>
    inv.FitsDeviceOrVm (HasFront "ip.") (· = "address") (TextMatch.ofAddress op value) a
  | .hostedBy => ∃ host, inv.hostOf? a = some host ∧ m.accepts host.name = true
  | .group => False
  | .unknown => False

end Inventory

/-! ## Verdicts -/

/-- The answer of a condition for an asset of a kind, given the answer of its positive form. -/
def Condition.answer (c : Condition) (k : Kind) (positive : Bool) : Bool :=
  if c.operator.isNegated then c.field.domain.contains k && !positive else positive

mutual

/-- Whether the asset `a` satisfies a rule; `stored?` gives the groups that may be referred to. -/
inductive Verdict (inv : Inventory) (stored? : Nat → Option Group) (a : Asset) : Rule → Bool → Prop
  where
  | condition {c : Condition} {b : Bool} : c.field ≠ .group →
      (b = true ↔ inv.Fits c.field c.operator (c.value.getD "") a) →
      Verdict inv stored? a (.condition c) (c.answer a.kind b)
  | reference {c : Condition} {id : Nat} {g : Group} {b : Bool} : c.field = .group →
      Resolver.referredId? (c.value.getD "") = some id → stored? id = some g →
      Verdict inv stored? a g.rules.toRule b →
      Verdict inv stored? a (.condition c) (c.answer a.kind b)
  | all {rules : List Rule} {bs : List Bool} : Verdicts inv stored? a rules bs →
      Verdict inv stored? a (.nested .and rules) (bs.all id)
  | any {rules : List Rule} {bs : List Bool} : Verdicts inv stored? a rules bs →
      Verdict inv stored? a (.nested .or rules) (bs.any id)

inductive Verdicts (inv : Inventory) (stored? : Nat → Option Group) (a : Asset) :
    List Rule → List Bool → Prop where
  | nil : Verdicts inv stored? a [] []
  | cons {r : Rule} {rs : List Rule} {b : Bool} {bs : List Bool} : Verdict inv stored? a r b →
      Verdicts inv stored? a rs bs → Verdicts inv stored? a (r :: rs) (b :: bs)

end

variable {inv : Inventory} {stored? : Nat → Option Group} {a : Asset}

mutual

theorem Verdict.unique {r : Rule} {b b' : Bool} (h : Verdict inv stored? a r b)
    (h' : Verdict inv stored? a r b') : b = b' := by
  match h, h' with
  | .condition _ hb, .condition _ hb' => rw [Bool.eq_iff_iff.mpr (hb.trans hb'.symm)]
  | .condition hf _, .reference hf' _ _ _ => exact absurd hf' hf
  | .reference hf _ _ _, .condition hf' _ => exact absurd hf hf'
  | .reference _ hid hg hb, .reference _ hid' hg' hb' =>
      rw [hid, Option.some.injEq] at hid'
      subst hid'
      rw [hg, Option.some.injEq] at hg'
      subst hg'
      rw [Verdict.unique hb hb']
  | .all hbs, .all hbs' => rw [Verdicts.unique hbs hbs']
  | .any hbs, .any hbs' => rw [Verdicts.unique hbs hbs']

theorem Verdicts.unique {rs : List Rule} {bs bs' : List Bool} (h : Verdicts inv stored? a rs bs)
    (h' : Verdicts inv stored? a rs bs') : bs = bs' := by
  match h, h' with
  | .nil, .nil => rfl
  | .cons hb hbs, .cons hb' hbs' => rw [Verdict.unique hb hb', Verdicts.unique hbs hbs']

end

/-! ## Queries and positive conditions -/

theorem AttributeKey.family_accepts {front key : String} :
    (AttributeKey.family front).accepts key = true ↔ HasFront front key := by
  simp only [accepts, Option.isSome_iff_exists, Text.afterFront_eq_some_iff]
  constructor
  · rintro ⟨rest, hkey⟩
    exact ⟨rest, hkey.symm⟩
  · rintro ⟨rest, hkey⟩
    exact ⟨rest, hkey.symm⟩

theorem Asset.hasAttribute_iff {keys : List AttributeKey} {m : TextMatch} {selected : String → Prop}
    (hkeys : ∀ key, (keys.any (·.accepts key)) = true ↔ selected key) :
    a.hasAttribute keys m = true ↔ a.Bears selected m := by
  simp only [hasAttribute, Bears, List.any_eq_true (l := a.attributes), Bool.and_eq_true, hkeys,
    List.any_eq_true (l := attributeValues _)]

theorem Inventory.Numbered.mem_deviceOrVm (h : inv.Numbered) (ha : a ∈ inv.assets)
    {own ofHost : List AttributeKey} {m : TextMatch} {bearsOwn bearsHost : String → Prop}
    (hown : ∀ key, (own.any (·.accepts key)) = true ↔ bearsOwn key)
    (hhost : ∀ key, (ofHost.any (·.accepts key)) = true ↔ bearsHost key) :
    a.id ∈ Resolver.deviceOrVm inv own ofHost m ↔ inv.FitsDeviceOrVm bearsOwn bearsHost m a := by
  simp only [Resolver.deviceOrVm, IdSet.mem_inter, IdSet.mem_union, Inventory.inDomain,
    Inventory.byAttribute, Inventory.byHostAttribute, h.id_mem_select ha, Domain.contains,
    Bool.or_eq_true, beq_iff_eq, Option.any_eq_true, Asset.hasAttribute_iff hown,
    Asset.hasAttribute_iff hhost, FitsDeviceOrVm, and_comm]

theorem Inventory.Numbered.mem_positive? (h : inv.Numbered) (ha : a ∈ inv.assets) {field : Field}
    {op : Operator} {value : String} {found : IdSet}
    (hfound : Resolver.positive? inv field op value = some found) :
    a.id ∈ found ↔ inv.Fits field op value a := by
  cases field <;> simp only [Resolver.positive?, Option.some.injEq, reduceCtorEq] at hfound <;>
    subst hfound
  case name => simp [byName, h.id_mem_select ha, Fits, Option.any_eq_true]
  case internalName => simp [byInternalName, h.id_mem_select ha, Fits]
  case location => exact h.mem_byLocation ha
  case type => simp [byType, h.id_mem_select ha, Fits]
  case subtype => simp [bySubtype, h.id_mem_select ha, Fits]
  case contact =>
    have hkeys : ∀ key, (Resolver.contactKeys.any (·.accepts key)) = true ↔
        key = "device.contact" ∨ key = "contact_email" := by
      simp [Resolver.contactKeys, AttributeKey.accepts]
    rw [byAttribute, h.id_mem_select ha, Asset.hasAttribute_iff hkeys, Fits]
  case hostName =>
    exact h.mem_deviceOrVm ha (by simp [Resolver.hostNameKeys, AttributeKey.family_accepts])
      (by simp [Resolver.hypervisorNameKeys, AttributeKey.accepts])
  case ipAddress =>
    exact h.mem_deviceOrVm ha (by simp [Resolver.addressKeys, AttributeKey.family_accepts])
      (by simp [Resolver.hypervisorAddressKeys, AttributeKey.accepts])
  case hostedBy => simp [Inventory.hostedBy, h.id_mem_select ha, Fits, Option.any_eq_true]

theorem Inventory.Numbered.knows_positive? (h : inv.Numbered) {field : Field} {op : Operator}
    {value : String} {found : IdSet}
    (hfound : Resolver.positive? inv field op value = some found) : inv.Knows found := by
  have hinter : ∀ own ofHost m, inv.Knows (Resolver.deviceOrVm inv own ofHost m) :=
    fun _ _ _ x hx => knows_select _ x (IdSet.mem_inter.mp hx).2
  cases field <;> simp only [Resolver.positive?, Option.some.injEq, reduceCtorEq] at hfound <;>
    subst hfound
  case location => exact h.knows_byLocation
  case hostName => exact hinter _ _ _
  case ipAddress => exact hinter _ _ _
  all_goals exact knows_select _

end AssetGroups
