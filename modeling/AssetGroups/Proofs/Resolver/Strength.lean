import AssetGroups.Proofs.Inventory.Matching
import AssetGroups.Proofs.Inventory.Places
import AssetGroups.Proofs.Resolver.Compile

/-!
# The strength of operators

A condition with IS asks for more than one with CONTAINS, and so one with DOESNOTCONTAIN for more than
one with ISNOT. This comes from the matches alone: every query finds no less for a match that accepts
more.
-/

namespace AssetGroups

open Text Glob

/-! ## Matches -/

/-- Whatever the first match accepts, the second one accepts too. -/
def TextMatch.Narrows (m m' : TextMatch) : Prop := ∀ text, m.accepts text = true → m'.accepts text = true

theorem Operator.Covers.part {c text : List Char} (h : Operator.equals.Covers c text) :
    Operator.contains.Covers c text :=
  ⟨text, List.infix_rfl, h⟩

namespace TextMatch

theorem ofText_narrows (value : String) :
    (ofText .equals value).Narrows (ofText .contains value) := by
  intro text h
  have hwhole : text = value := by simpa [ofText, Operator.isPartial, accepts] using h
  have hpart : occursIn value.toList text.toList = true := by
    rw [hwhole]
    exact occursIn_iff.mpr List.infix_rfl
  simpa [ofText, Operator.isPartial, accepts] using hpart

/-- The alternatives are the same for both operators, and a text that one of them stands for is a part of
itself. -/
theorem ofAddress_narrows (value : String) :
    (ofAddress .equals value).Narrows (ofAddress .contains value) := by
  intro text h
  obtain ⟨c, hc, hcovers⟩ := (accepts_of_rendersAll (ofAddress_renders .equals value)).mp h
  exact (accepts_of_rendersAll (ofAddress_renders .contains value)).mpr ⟨c, hc, hcovers.part⟩

end TextMatch

/-! ## Queries -/

namespace Inventory

variable {inv : Inventory}

/-- A query that finds no less for a match that accepts more. -/
def Growing (query : TextMatch → IdSet) : Prop :=
  ∀ m m' : TextMatch, m.Narrows m' → ∀ id ∈ query m, id ∈ query m'

theorem growing_select {p : TextMatch → Asset → Bool}
    (h : ∀ m m' : TextMatch, m.Narrows m' → ∀ a, p m a = true → p m' a = true) :
    Growing fun m => inv.select (p m) := by
  intro m m' hm id hid
  obtain ⟨a, ha, hp, rfl⟩ := mem_select.mp hid
  exact mem_select.mpr ⟨a, ha, h m m' hm a hp, rfl⟩

theorem growing_byName : Growing inv.byName := by
  refine growing_select fun m m' hm a ha => ?_
  rw [Option.any_eq_true] at ha ⊢
  obtain ⟨shown, hshown, hacc⟩ := ha
  exact ⟨shown, hshown, hm shown hacc⟩

theorem growing_byInternalName : Growing inv.byInternalName :=
  growing_select fun _ _ hm a => hm a.name

theorem growing_byType : Growing inv.byType :=
  growing_select fun _ _ hm a => hm a.type

theorem growing_bySubtype : Growing inv.bySubtype := by
  refine growing_select fun m m' hm a ha => ?_
  rw [Bool.and_eq_true] at ha ⊢
  exact ⟨ha.1, hm a.subtype ha.2⟩

theorem hasAttribute_of_narrows {keys : List AttributeKey} {m m' : TextMatch} (hm : m.Narrows m')
    {a : Asset} (h : a.hasAttribute keys m = true) : a.hasAttribute keys m' = true := by
  simp only [Asset.hasAttribute, List.any_eq_true, Bool.and_eq_true] at h ⊢
  obtain ⟨entry, hentry, hkey, value, hvalue, hacc⟩ := h
  exact ⟨entry, hentry, hkey, value, hvalue, hm value hacc⟩

theorem growing_byAttribute (keys : List AttributeKey) : Growing (inv.byAttribute keys) :=
  growing_select fun _ _ hm _ => hasAttribute_of_narrows hm

/-- A condition on the host of an asset asks no more of the asset for a match that accepts more. -/
theorem growing_select_host {p : TextMatch → Asset → Bool}
    (h : ∀ m m' : TextMatch, m.Narrows m' → ∀ host, p m host = true → p m' host = true) :
    Growing fun m => inv.select fun a => (inv.hostOf? a).any (p m) := by
  refine growing_select fun m m' hm a ha => ?_
  rw [Option.any_eq_true] at ha ⊢
  obtain ⟨host, hhost, hp⟩ := ha
  exact ⟨host, hhost, h m m' hm host hp⟩

theorem growing_byHostAttribute (keys : List AttributeKey) : Growing (inv.byHostAttribute keys) :=
  growing_select_host fun _ _ hm _ => hasAttribute_of_narrows hm

theorem growing_hostedBy : Growing inv.hostedBy :=
  growing_select_host fun _ _ hm host => hm host.name

theorem growing_below : Growing inv.below := by
  intro m m' hm id hid
  obtain ⟨place, ⟨a, ha, hplace, hkind, hacc⟩, hto⟩ := mem_below.mp hid
  exact mem_below.mpr ⟨place, ⟨a, ha, hplace, hkind, hm a.name hacc⟩, hto⟩

theorem growing_byLocation : Growing inv.byLocation := by
  intro m m' hm id hid
  simp only [byLocation, IdSet.mem_union, mem_select, Option.any_eq_true, decide_eq_true_eq] at hid ⊢
  rcases hid with hid | ⟨a, ha, ⟨host, hhost, hbelow⟩, rfl⟩
  · exact .inl (growing_below m m' hm id hid)
  · exact .inr ⟨a, ha, ⟨host, hhost, growing_below m m' hm host hbelow⟩, rfl⟩

end Inventory

namespace Resolver

open Inventory

variable {inv : Inventory}

theorem growing_deviceOrVm (own ofHost : List AttributeKey) :
    Growing (deviceOrVm inv own ofHost) := by
  intro m m' hm id hid
  simp only [deviceOrVm, IdSet.mem_inter, IdSet.mem_union] at hid ⊢
  obtain ⟨hid | hid, hdomain⟩ := hid
  · exact ⟨.inl (growing_byAttribute own m m' hm id hid), hdomain⟩
  · exact ⟨.inr (growing_byHostAttribute ofHost m m' hm id hid), hdomain⟩

/-! ## Conditions -/

theorem positive?_narrows {field : Field} {op op' : Operator} {value : String} {found found' : IdSet}
    (htext : (TextMatch.ofText op value).Narrows (.ofText op' value))
    (haddress : (TextMatch.ofAddress op value).Narrows (.ofAddress op' value))
    (h : positive? inv field op value = some found)
    (h' : positive? inv field op' value = some found') : ∀ id ∈ found, id ∈ found' := by
  cases field <;> simp only [positive?, Option.some.injEq, reduceCtorEq] at h h' <;>
    subst h h'
  case name => exact growing_byName _ _ htext
  case internalName => exact growing_byInternalName _ _ htext
  case location => exact growing_byLocation _ _ htext
  case type => exact growing_byType _ _ htext
  case subtype => exact growing_bySubtype _ _ htext
  case contact => exact growing_byAttribute _ _ _ htext
  case hostName => exact growing_deviceOrVm _ _ _ _ htext
  case ipAddress => exact growing_deviceOrVm _ _ _ _ haddress
  case hostedBy => exact growing_hostedBy _ _ htext

section

variable {m : Type → Type} [Monad m] [MonadExceptOf GroupError m] (refer : String → m IdSet)
    {field : Field} {op : Operator} {v : String} {found : IdSet}

/-- A condition on the assets themselves is answered without any question to the store. -/
theorem condition_eq_pure (hlink : field ≠ .group) (hop : op ≠ .unknown) (hv : v ≠ "")
    (hfound : positive? inv field op v = some found) :
    condition inv refer (.of field op v) = pure (applyOperator inv (.of field op v) found) := by
  simp [condition, Condition.of, hlink, hop, hv, hfound]

/-- A negated operator has the match of its positive form. -/
theorem positive?_negated (inv : Inventory) (field : Field) (v : String) :
    positive? inv field .differs v = positive? inv field .equals v ∧
      positive? inv field .doesNotContain v = positive? inv field .contains v := by
  cases field <;> exact ⟨rfl, rfl⟩

/-- Whatever the inventory and the value are, the assets with IS are among those with CONTAINS, and the
assets with DOESNOTCONTAIN among those with ISNOT. -/
theorem condition_strength (inv : Inventory) (hlink : field ≠ .group) (hknown : field ≠ .unknown)
    (hv : v ≠ "") : ∃ whole part withoutPart withoutWhole : IdSet,
      condition inv refer (.of field .equals v) = pure whole ∧
      condition inv refer (.of field .contains v) = pure part ∧
      condition inv refer (.of field .doesNotContain v) = pure withoutPart ∧
      condition inv refer (.of field .differs v) = pure withoutWhole ∧
      (∀ id ∈ whole, id ∈ part) ∧ ∀ id ∈ withoutPart, id ∈ withoutWhole := by
  have hfound (op : Operator) : ∃ found, positive? inv field op v = some found :=
    Option.ne_none_iff_exists'.mp (mt (positive?_eq_none inv op v hlink).mp hknown)
  obtain ⟨whole, hwhole⟩ := hfound .equals
  obtain ⟨part, hpart⟩ := hfound .contains
  obtain ⟨hdiffers, hdoesNotContain⟩ := positive?_negated inv field v
  have hsubset : ∀ id ∈ whole, id ∈ part :=
    positive?_narrows (TextMatch.ofText_narrows v) (TextMatch.ofAddress_narrows v) hwhole hpart
  refine ⟨whole, part, (inv.inDomain field.domain).diff part, (inv.inDomain field.domain).diff whole,
    condition_eq_pure refer hlink (by decide) hv hwhole,
    condition_eq_pure refer hlink (by decide) hv hpart,
    condition_eq_pure refer hlink (by decide) hv (hdoesNotContain.trans hpart),
    condition_eq_pure refer hlink (by decide) hv (hdiffers.trans hwhole), hsubset, fun id hid => ?_⟩
  rw [IdSet.mem_diff] at hid ⊢
  exact ⟨hid.1, fun hin => hid.2 (hsubset id hin)⟩

end

/-- Three devices: the address of the first is covered as a whole, that of the second in a part. -/
def addressed : Inventory where
  assets := [
    { id := 1, name := "a", type := "device", attributes := [("ip.1", "10.0.0.1")] },
    { id := 2, name := "b", type := "device", attributes := [("ip.1", "[/110.0.0.19,::1]")] },
    { id := 3, name := "c", type := "device" }]

/-- What a condition on these addresses finds, given two alternatives with a star in one of them and white
space around them. -/
def addressedBy (op : Operator) : Except GroupError IdSet :=
  condition addressed (fun _ => .ok .empty) (.of .ipAddress op " 10.*.1 | fe80::1 |")

theorem condition_strength_addresses :
    (·.ids) <$> addressedBy .equals = .ok [1] ∧ (·.ids) <$> addressedBy .contains = .ok [1, 2] ∧
    (·.ids) <$> addressedBy .doesNotContain = .ok [3] ∧
    (·.ids) <$> addressedBy .differs = .ok [2, 3] ∧ [1] ⊆ [1, 2] ∧ [3] ⊆ [2, 3] := by
  have hwhole : (·.ids) <$> addressedBy .equals = .ok [1] := by decide +kernel
  have hpart : (·.ids) <$> addressedBy .contains = .ok [1, 2] := by decide +kernel
  have hwithoutPart : (·.ids) <$> addressedBy .doesNotContain = .ok [3] := by decide +kernel
  have hwithoutWhole : (·.ids) <$> addressedBy .differs = .ok [2, 3] := by decide +kernel
  obtain ⟨whole, part, withoutPart, withoutWhole, h₁, h₂, h₃, h₄, hsubset, hsubset'⟩ :=
    condition_strength (fun _ => (.ok .empty : Except GroupError IdSet)) addressed
      (by decide : Field.ipAddress ≠ .group) (by decide) (by decide : " 10.*.1 | fe80::1 |" ≠ "")
  have hids {op : Operator} {s : IdSet} {ids : List Nat} (h : addressedBy op = .ok s)
      (h' : (·.ids) <$> addressedBy op = .ok ids) : s.ids = ids := by
    rw [h] at h'
    exact Except.ok.inj h'
  refine ⟨hwhole, hpart, hwithoutPart, hwithoutWhole, ?_, ?_⟩
  · rw [← hids h₁ hwhole, ← hids h₂ hpart]
    exact hsubset
  · rw [← hids h₄ hwithoutWhole, ← hids h₃ hwithoutPart]
    exact hsubset'

end Resolver

end AssetGroups
