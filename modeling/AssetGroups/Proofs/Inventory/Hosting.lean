import AssetGroups.Proofs.Inventory.Document
import AssetGroups.Proofs.Resolver.Compile
import AssetGroups.Proofs.Text.Pieces

/-!
# What hosting links bring in

The queries on hosts are meant to speak of virtual machines, but a document may say of any item that
it is hosted. What the queries find is said here for all documents, and for which of them it is
virtual machines alone.
-/

namespace AssetGroups

/-- The hosting links of a document lead to virtual machines. -/
def Document.HostsMachines (d : Document) : Prop :=
  ∀ l ∈ d.links, l.isHosting = true → ∀ item ∈ d.everyItem, item.parts.name = l.destination →
    Kind.ofType item.parts.type = .virtualMachine

/-- The second operator negates the first one. -/
inductive Operator.NegatedBy : Operator → Operator → Prop where
  | whole : NegatedBy .equals .differs
  | part : NegatedBy .contains .doesNotContain

theorem exists_related {α β : Type} {r : α → β → Prop} {as : List α} {bs : List β}
    (h : List.Forall₂ r as bs) {a : α} (ha : a ∈ as) : ∃ b ∈ bs, r a b := by
  induction h with
  | nil => cases ha
  | cons hr _ ih =>
      rcases List.mem_cons.mp ha with rfl | ha
      · exact ⟨_, List.mem_cons_self, hr⟩
      · obtain ⟨b, hb, hr⟩ := ih ha
        exact ⟨b, List.mem_cons_of_mem _ hb, hr⟩

namespace Inventory

def IsOfKind (inv : Inventory) (k : Kind) (id : Nat) : Prop :=
  ∃ a ∈ inv.assets, a.id = id ∧ a.kind = k

/-- The asset with the id `host` is the host of the one with the id `id`. -/
def IsHost (inv : Inventory) (host id : Nat) : Prop := ∃ a ∈ inv.assets, a.id = id ∧ a.host = some host

variable {inv : Inventory} {d : Document} {m : TextMatch}

/-! ## Hosts -/

theorem Mirrors.kind_eq (h : inv.Mirrors d) {k k' : Kind} {id : Nat} (hk : inv.IsOfKind k id)
    (hk' : inv.IsOfKind k' id) : k = k' := by
  obtain ⟨a, ha, rfl, rfl⟩ := hk
  obtain ⟨b, hb, hid, rfl⟩ := hk'
  have hsame : inv.asset? a.id = some b := (h.asset _ _).mpr ⟨hb, hid⟩
  rw [(h.asset _ _).mpr ⟨ha, rfl⟩, Option.some.injEq] at hsame
  rw [hsame]

theorem Mirrors.isOfKind_of_isHost (h : inv.Mirrors d) (hd : d.HostsMachines) {host id : Nat}
    (hhost : inv.IsHost host id) : inv.IsOfKind .virtualMachine id := by
  obtain ⟨a, ha, rfl, hhost⟩ := hhost
  obtain ⟨source, ⟨before, l, after, hlinks, hhosting, hdest, -⟩, -⟩ := (h.host a ha host).mp hhost
  obtain ⟨item, hitem, hshows⟩ := exists_related h.order ha
  refine ⟨a, ha, rfl, ?_⟩
  rw [Asset.kind, hshows.type]
  exact hd l (by simp [hlinks]) hhosting item hitem (hshows.name.symm.trans hdest.symm)

theorem Mirrors.exists_isHost (h : inv.Mirrors d) (hjoins : ∀ l ∈ d.links, l.Joins d.names)
    {l : Link} (hl : l ∈ d.links) (hhosting : l.isHosting = true) {a : Asset} (ha : a ∈ inv.assets)
    (hdest : l.destination = a.name) :
    ∃ host b, inv.IsHost host a.id ∧ inv.asset? host = some b := by
  -- The asset's host is given by the last of the links that lead to it, which need not be `l`.
  obtain ⟨l', hl', hlast⟩ := exists_lastHosting hl hhosting
  obtain ⟨hsource, -⟩ := hjoins l' hl'
  rw [Document.names, ← names_of_show h.order] at hsource
  obtain ⟨b, hb, hname⟩ := List.mem_map.mp hsource
  have hfound : inv.asset? b.id = some b := (h.asset _ _).mpr ⟨hb, rfl⟩
  refine ⟨b.id, b, ⟨a, ha, rfl, (h.host a ha b.id).mpr ⟨l'.source, hdest ▸ hlast, ?_⟩⟩, hfound⟩
  exact (h.idOf _ _).mpr ⟨b, hfound, hname⟩

/-- A document whose hosting links lead to virtual machines is one in which only these have hosts. -/
theorem Mirrors.hostsMachines_iff (h : inv.Mirrors d) (hjoins : ∀ l ∈ d.links, l.Joins d.names) :
    d.HostsMachines ↔ ∀ host id b, inv.IsHost host id → inv.asset? host = some b →
      inv.IsOfKind .virtualMachine id := by
  constructor
  · intro hd host id b hhost _
    exact h.isOfKind_of_isHost hd hhost
  · intro hmachines l hl hhosting item hitem hname
    obtain ⟨a, ha, hshows⟩ := exists_related h.order.flip hitem
    obtain ⟨host, b, hhost, hb⟩ :=
      h.exists_isHost hjoins hl hhosting ha (hname.symm.trans hshows.name.symm)
    rw [← hshows.type]
    exact h.kind_eq ⟨a, ha, rfl, rfl⟩ (hmachines host a.id b hhost hb)

/-! ## Places -/

theorem Numbered.lt_of_below (h : inv.Numbered) {p c : Nat}
    (hto : Relation.TransGen inv.IsParent p c) : p < c := by
  have hstep : ∀ {p c : Nat}, inv.IsParent p c → p < c := by
    intro p c hp
    obtain ⟨a, ha, rfl, hparent⟩ := h.parentOf?_eq_some.mp hp
    exact (h.parents a ha p hparent).2
  induction hto with
  | single hp => exact hstep hp
  | tail _ hp ih => exact Nat.lt_trans ih (hstep hp)

theorem Numbered.mem_byLocation_id (h : inv.Numbered) {id : Nat} :
    id ∈ inv.byLocation m ↔
      inv.LiesBelow m id ∨ ∃ host, inv.IsHost host id ∧ inv.LiesBelow m host := by
  constructor
  · intro hid
    obtain ⟨a, ha, rfl⟩ := h.knows_byLocation id hid
    rcases (h.mem_byLocation ha).mp hid with hbelow | ⟨host, hhost, hbelow⟩
    · exact .inl hbelow
    · exact .inr ⟨host, ⟨a, ha, rfl, hhost⟩, hbelow⟩
  · rintro (hbelow | ⟨host, ⟨a, ha, rfl, hhost⟩, hbelow⟩)
    · obtain ⟨a, ha, rfl⟩ := h.exists_asset hbelow
      exact (h.mem_byLocation ha).mpr (.inl hbelow)
    · exact (h.mem_byLocation ha).mpr (.inr ⟨host, hhost, hbelow⟩)

theorem IsPlace.isOfKind {id : Nat} (h : inv.IsPlace m id) : inv.IsOfKind .location id := by
  obtain ⟨a, ha, hid, hkind, -⟩ := h
  exact ⟨a, ha, hid, hkind⟩

theorem isPlace_anyOf_exact {a b : Asset} {id : Nat} :
    inv.IsPlace (.anyOf [.exact a.name, .exact b.name]) id ↔
      ∃ c ∈ inv.assets, c.id = id ∧ c.kind = .location ∧ (c.name = a.name ∨ c.name = b.name) := by
  simp [IsPlace, TextMatch.accepts, TextMatch.anyAccepts]

/-- A matching place is found only if it lies below another one. -/
def FindsNestedPlaces (inv : Inventory) : Prop :=
  ∀ m id, inv.IsPlace m id → id ∈ inv.byLocation m →
    ∃ place, place ≠ id ∧ inv.IsPlace m place ∧ Relation.TransGen inv.IsParent place id

/-- Whatever place stands above the host of a place stands above the place too. -/
def PlacesFollowHosts (inv : Inventory) : Prop :=
  ∀ place id host, inv.IsOfKind .location place → inv.IsOfKind .location id → inv.IsHost host id →
    Relation.TransGen inv.IsParent place host → Relation.TransGen inv.IsParent place id

theorem Mirrors.findsNestedPlaces_iff (h : inv.Mirrors d) (hnum : inv.Numbered) :
    inv.FindsNestedPlaces ↔ inv.PlacesFollowHosts := by
  constructor
  · -- The query is for the place and the hosted one together, so that both of them match.
    rintro hnested _ _ host ⟨a, ha, rfl, hplace⟩ ⟨b, hb, rfl, hkind⟩ hhost hto
    have hm : inv.IsPlace (.anyOf [.exact a.name, .exact b.name]) a.id :=
      isPlace_anyOf_exact.mpr ⟨a, ha, rfl, hplace, .inl rfl⟩
    obtain ⟨above, hne, habove, hto'⟩ := hnested _ b.id
      (isPlace_anyOf_exact.mpr ⟨b, hb, rfl, hkind, .inr rfl⟩)
      (hnum.mem_byLocation_id.mpr (.inr ⟨host, hhost, a.id, hm, hto⟩))
    obtain ⟨c, hc, rfl, -, hname | hname⟩ := isPlace_anyOf_exact.mp habove
    · exact h.id_of_name hc ha hname ▸ hto'
    · exact absurd (h.id_of_name hc hb hname) hne
  · intro hfollow m id hplace hid
    rcases hnum.mem_byLocation_id.mp hid with ⟨place, hm, hto⟩ | ⟨host, hhost, place, hm, hto⟩
    · exact ⟨place, Nat.ne_of_lt (hnum.lt_of_below hto), hm, hto⟩
    · have hto' := hfollow place id host hm.isOfKind hplace.isOfKind hhost hto
      exact ⟨place, Nat.ne_of_lt (hnum.lt_of_below hto'), hm, hto'⟩

theorem Mirrors.placesFollowHosts (h : inv.Mirrors d) (hd : d.HostsMachines) :
    inv.PlacesFollowHosts := by
  intro place id host _ hkind hhost _
  cases h.kind_eq hkind (h.isOfKind_of_isHost hd hhost)

/-- What a query by location finds: the assets below a matching place, and those that one of them
hosts. A matching place itself is found below another one only, if and only if places follow their
hosts, as they do where only virtual machines have hosts. -/
theorem byLocation_finds (h : ofDocument d = .ok inv) :
    (∀ m id, id ∈ inv.byLocation m ↔
      inv.LiesBelow m id ∨ ∃ host, inv.IsHost host id ∧ inv.LiesBelow m host) ∧
    (inv.FindsNestedPlaces ↔ inv.PlacesFollowHosts) ∧
    (d.HostsMachines → inv.FindsNestedPlaces) := by
  have hnum := numbered_of_ofDocument h
  have hmirrors := mirrors_of_ofDocument h
  have hnested := hmirrors.findsNestedPlaces_iff hnum
  exact ⟨fun m id => hnum.mem_byLocation_id, hnested,
    fun hd => hnested.mpr (hmirrors.placesFollowHosts hd)⟩

/-- A room that a hypervisor inside it is said to host. -/
def hostedRoom : Document where
  items := [.mk "room" none "lab" none [] [.mk "hypervisor" none "hyper" none [] []]]
  links := [⟨"hyper", "lab", "vmware.hosts.vm"⟩]

theorem byLocation_finds_hosted : ∃ inv, ofDocument hostedRoom = .ok inv ∧
    inv.IsPlace (.exact "lab") 1 ∧ 1 ∈ inv.byLocation (.exact "lab") ∧
    ¬ inv.LiesBelow (.exact "lab") 1 ∧ ¬ inv.PlacesFollowHosts := by
  let inv : Inventory := {
    assets := [
      { id := 1, name := "lab", type := "room", host := some 2 },
      { id := 2, name := "hyper", type := "hypervisor", parent := some 1 }]
    children := [(1, [2])] }
  have hok : ofDocument hostedRoom = .ok inv := rfl
  have hplace : inv.IsPlace (.exact "lab") 1 := ⟨_, List.mem_cons_self, rfl, rfl, rfl⟩
  have hhost : inv.IsHost 2 1 := ⟨_, List.mem_cons_self, rfl, rfl⟩
  have hbelow : ¬ inv.LiesBelow (.exact "lab") 1 := by
    rw [liesBelow_iff]
    rintro ⟨p, hp, -⟩
    cases hp
  obtain ⟨hfinds, hnested, -⟩ := byLocation_finds hok
  have hfound := (hfinds (.exact "lab") 1).mpr (.inr ⟨2, hhost, 1, hplace, .single rfl⟩)
  refine ⟨inv, hok, hplace, hfound, hbelow, fun hfollow => ?_⟩
  obtain ⟨place, -, hm, hto⟩ := hnested.mpr hfollow (.exact "lab") 1 hplace hfound
  exact hbelow ⟨place, hm, hto⟩

/-! ## Virtual machines -/

/-- The asset with the id runs on a host that satisfies `p`. -/
def RunsOn (inv : Inventory) (p : Asset → Bool) (id : Nat) : Prop :=
  ∃ host b, inv.IsHost host id ∧ inv.asset? host = some b ∧ p b = true

theorem mem_select_host {p : Asset → Bool} {id : Nat} :
    id ∈ inv.select (fun a => (inv.hostOf? a).any p) ↔ inv.RunsOn p id := by
  simp only [mem_select, hostOf?, Option.any_eq_true, Option.bind_eq_some_iff]
  constructor
  · rintro ⟨a, ha, ⟨b, ⟨host, hhost, hb⟩, hp⟩, hid⟩
    exact ⟨host, b, ⟨a, ha, hid, hhost⟩, hb, hp⟩
  · rintro ⟨host, b, ⟨a, ha, hid, hhost⟩, hb, hp⟩
    exact ⟨a, ha, ⟨b, ⟨host, hhost, hb⟩, hp⟩, hid⟩

theorem mem_inDomain_virtualMachines {id : Nat} :
    id ∈ inv.inDomain .virtualMachines ↔ inv.IsOfKind .virtualMachine id := by
  simp [inDomain, mem_select, Domain.contains, IsOfKind, and_comm]

/-- What the queries on hosts find are virtual machines. -/
def FindsMachines (inv : Inventory) : Prop :=
  (∀ m, ∀ id ∈ inv.hostedBy m, inv.IsOfKind .virtualMachine id) ∧
  ∀ keys m, ∀ id ∈ inv.byHostAttribute keys m, inv.IsOfKind .virtualMachine id

theorem findsMachines_iff : inv.FindsMachines ↔
    ∀ host id b, inv.IsHost host id → inv.asset? host = some b → inv.IsOfKind .virtualMachine id := by
  constructor
  · -- The empty text is a part of every name.
    rintro ⟨hhosted, -⟩ host id b hhost hb
    have hname : TextMatch.accepts (.contains "") b.name = true := by
      simp [TextMatch.accepts, Text.occursIn_iff]
    exact hhosted (.contains "") id (mem_select_host.mpr ⟨host, b, hhost, hb, hname⟩)
  · intro hmachines
    have hruns (p : Asset → Bool) (id : Nat) (hid : inv.RunsOn p id) :
        inv.IsOfKind .virtualMachine id := by
      obtain ⟨host, b, hhost, hb, -⟩ := hid
      exact hmachines host id b hhost hb
    exact ⟨fun m id hid => hruns _ id (mem_select_host.mp hid),
      fun keys m id hid => hruns _ id (mem_select_host.mp hid)⟩

/-- A condition on the host and its negation are answered from what one query finds. -/
theorem condition_hostedBy (inv : Inventory) {op negation : Operator} (hop : op.NegatedBy negation)
    {v : String} (hv : v ≠ "") (refer : String → Except GroupError IdSet) :
    Resolver.condition inv refer (.of .hostedBy op v) = .ok (inv.hostedBy (.ofText op v)) ∧
    Resolver.condition inv refer (.of .hostedBy negation v) =
      .ok ((inv.inDomain .virtualMachines).diff (inv.hostedBy (.ofText op v))) := by
  cases hop <;>
    simp [Resolver.condition_ok, Condition.of, Condition.check, lacksText, hv, Resolver.Finds,
      Resolver.positive?, Resolver.applyOperator, Operator.isNegated, Operator.isPartial,
      TextMatch.ofText, Field.domain]

/-- The queries on hosts find virtual machines alone exactly if the hosting links lead to these. A
condition on the host and its negation share nothing in any document; beside the virtual machines
they find what else runs on a matching host. Neither is answered for the empty text. -/
theorem hosted_machines (h : ofDocument d = .ok inv) :
    (inv.FindsMachines ↔ d.HostsMachines) ∧
    ∀ refer : String → Except GroupError IdSet,
      (∀ op, Resolver.condition inv refer (.of .hostedBy op "") =
        .error (.ofViolation .valueExpected)) ∧
      ∀ op negation v, Operator.NegatedBy op negation → v ≠ "" → ∃ found others : IdSet,
        Resolver.condition inv refer (.of .hostedBy op v) = .ok found ∧
        Resolver.condition inv refer (.of .hostedBy negation v) = .ok others ∧
        (∀ id ∈ found, id ∉ others) ∧
        (∀ id, id ∈ found ∨ id ∈ others ↔ inv.IsOfKind .virtualMachine id ∨
          inv.RunsOn (fun host => (TextMatch.ofText op v).accepts host.name) id) ∧
        (d.HostsMachines → ∀ id, id ∈ found ∨ id ∈ others ↔ inv.IsOfKind .virtualMachine id) := by
  have hmirrors := mirrors_of_ofDocument h
  have hmachines : inv.FindsMachines ↔ d.HostsMachines :=
    findsMachines_iff.trans (hmirrors.hostsMachines_iff (accepted_of_ofDocument h).2).symm
  refine ⟨hmachines, fun refer => ⟨fun op => rfl, fun op negation v hop hv => ?_⟩⟩
  obtain ⟨hcondition, hnegation⟩ := condition_hostedBy inv hop hv refer
  have hunion (id : Nat) : id ∈ inv.hostedBy (.ofText op v) ∨
      id ∈ (inv.inDomain .virtualMachines).diff (inv.hostedBy (.ofText op v)) ↔
      inv.IsOfKind .virtualMachine id ∨ id ∈ inv.hostedBy (.ofText op v) := by
    rw [IdSet.mem_diff, mem_inDomain_virtualMachines]
    tauto
  refine ⟨_, _, hcondition, hnegation, ?_, ?_, ?_⟩
  · intro id hid hother
    exact (IdSet.mem_diff.mp hother).2 hid
  · intro id
    rw [hunion, hostedBy, mem_select_host]
  · intro hd id
    rw [hunion]
    exact ⟨fun hid => hid.elim (fun hkind => hkind) ((hmachines.mpr hd).1 _ id), .inl⟩

/-- A device that is said to be hosted. -/
def hostedDevice : Document where
  items := [.mk "hypervisor" none "hyper" none [] [], .mk "device" none "srv" none [] [],
    .mk "vm" none "guest" none [] []]
  links := [⟨"hyper", "srv", "vmware.hosts.vm"⟩]

theorem hosted_machines_device : ∃ inv, ofDocument hostedDevice = .ok inv ∧
    ¬ inv.IsOfKind .virtualMachine 2 ∧ ¬ inv.FindsMachines ∧ ¬ hostedDevice.HostsMachines ∧
    ∃ (refer : String → Except GroupError IdSet) (found others : IdSet),
      Resolver.condition inv refer (.of .hostedBy .equals "hyper") = .ok found ∧
      Resolver.condition inv refer (.of .hostedBy .differs "hyper") = .ok others ∧
      (2 ∈ found ∨ 2 ∈ others) := by
  let inv : Inventory := {
    assets := [
      { id := 1, name := "hyper", type := "hypervisor" },
      { id := 2, name := "srv", type := "device", host := some 1 },
      { id := 3, name := "guest", type := "vm" }] }
  have hok : ofDocument hostedDevice = .ok inv := rfl
  have hkind : ¬ inv.IsOfKind .virtualMachine 2 := by
    rintro ⟨a, ha, hid, hvm⟩
    rcases ha with _ | ⟨_, _ | ⟨_, _ | ⟨_, ha⟩⟩⟩
    · cases hid
    · cases hvm
    · cases hid
    · cases ha
  have hhost : inv.IsHost 1 2 := ⟨_, List.mem_cons_of_mem _ List.mem_cons_self, rfl, rfl⟩
  obtain ⟨hmachines, hconditions⟩ := hosted_machines hok
  have hfinds : ¬ inv.FindsMachines := by
    intro hfinds
    exact hkind (findsMachines_iff.mp hfinds 1 2 _ hhost rfl)
  obtain ⟨found, others, hfound, hothers, -, hunion, -⟩ :=
    (hconditions fun _ => .ok .empty).2 .equals .differs "hyper" .whole (by decide)
  exact ⟨inv, hok, hkind, hfinds, hmachines.not.mp hfinds, _, found, others, hfound, hothers,
    (hunion 2).mpr (.inr ⟨1, _, hhost, rfl, rfl⟩)⟩

end Inventory

end AssetGroups
