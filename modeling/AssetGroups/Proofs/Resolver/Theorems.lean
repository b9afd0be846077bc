import AssetGroups.Proofs.Inventory.Links
import AssetGroups.Proofs.Resolver.Meaning
import AssetGroups.Proofs.Resolver.Reading
import AssetGroups.Proofs.Resolver.References
import AssetGroups.Proofs.Store.Sound

/-!
# Resolution at a service

What resolving answers at an instance, wherever the content of its store comes from: which assets it
lists, and of which stored groups it fails.
-/

namespace AssetGroups

/-- The group with an id in the content that an instance finds. -/
def Site.stored? (cfg : Storage) (s : Site) (id : Nat) : Option Group :=
  (groupIn (s.content cfg) id).toOption

theorem Site.stored?_of_groupIn {cfg : Storage} {s : Site} {id : Nat} {g : Group}
    (h : groupIn (s.content cfg) id = .ok g) : s.stored? cfg id = some g := by
  rw [stored?, h]
  rfl

namespace Service

/-! ## What is listed -/

/-- Whenever resolving succeeds, of a stored group, of a group to preview or of rules on their own, it
lists the assets that satisfy the rules. -/
theorem resolve_lists (sv : Service) {d : Document} (s t : Site)
    (hinventory : Inventory.ofDocument d = .ok sv.resolver.inventory) :
    (∀ id found, (sv.resolve (.id id)).outcome s = (.ok found, t) →
      ∃ g, s.stored? sv.storage id = some g ∧
        sv.resolver.Lists (s.stored? sv.storage) g.rules found) ∧
    (∀ g found, (sv.resolve (.group g)).outcome s = (.ok found, t) →
      sv.resolver.Lists (s.stored? sv.storage) g.rules found) ∧
    (∀ rules found, (sv.resolveRules rules).outcome s = (.ok found, t) →
      sv.resolver.Lists (s.stored? sv.storage) rules found) := by
  have hnumbered := Inventory.numbered_of_ofDocument hinventory
  refine ⟨fun id found hok => ?_, fun g found hok => ?_, fun rules found hok => ?_⟩
  · have hfound := (sv.resolveId_reads id).eq_ok hok
    obtain ⟨g, hg, hfound⟩ := bind_eq_ok.mp hfound
    exact ⟨g, Site.stored?_of_groupIn hg, Resolver.resolveFrom_lists hnumbered hfound⟩
  · have hfound := (sv.resolveGroup_reads g).eq_ok hok
    unfold Resolver.resolve at hfound
    cases hcheck : g.check with
    | error v =>
        rw [hcheck] at hfound
        cases hfound
    | ok =>
        rw [hcheck] at hfound
        exact Resolver.resolveFrom_lists hnumbered hfound
  · exact Resolver.resolveFrom_lists hnumbered ((sv.resolveRules_reads rules).eq_ok hok)

/-- Two devices in a room, one of which hosts a virtual machine. -/
def sampleItems : Document where
  items := [.mk "room" none "lab" (some "Laboratory") [] [
    .mk "device" (some "server") "srv" none [("ip.1", "10.0.0.1")] [
      .mk "vm" none "guest" (some "Guest") [] []],
    .mk "device" (some "ups") "power" (some "Power") [("device.contact", "[ann,bob]")] []]]
  links := [⟨"srv", "guest", "vmware.hosts.vm"⟩]

def sampleInventory : Inventory :=
  ⟨[{ id := 1, name := "lab", displayName := some "Laboratory", type := "room" },
    { id := 2, name := "srv", type := "device", subtype := "server", parent := some 1,
      attributes := [("ip.1", "10.0.0.1")] },
    { id := 3, name := "guest", displayName := some "Guest", type := "vm", parent := some 2,
      host := some 2 },
    { id := 4, name := "power", displayName := some "Power", type := "device", subtype := "ups",
      parent := some 1, attributes := [("device.contact", "[ann,bob]")] }],
    [(1, [2, 4]), (2, [3])]⟩

/-- The groups 2 and 3 refer to 1 and 4 refers to both of them; 5 and 6 refer to each other. -/
def sampleGroups : Database where
  lastId := 6
  groups := [
    ⟨some 1, "in the lab", ⟨.and, [.condition (.of .location .equals "lab")]⟩⟩,
    ⟨some 2, "hosts", ⟨.and, [.condition (.of .group .equals "1"),
      .condition (.of .subtype .contains "serv")]⟩⟩,
    ⟨some 3, "elsewhere or cared for", ⟨.or, [.condition (.of .group .differs " 1 "),
      .condition (.of .contact .equals "bob")]⟩⟩,
    ⟨some 4, "either", ⟨.or, [.condition (.of .group .equals "2"),
      .nested .and [.condition (.of .group .equals "3")]]⟩⟩,
    ⟨some 5, "there", ⟨.and, [.condition (.of .group .equals "6")]⟩⟩,
    ⟨some 6, "and back", ⟨.and, [.condition (.of .group .differs "5")]⟩⟩]

def sample : Service := { resolver := { inventory := sampleInventory, reserved := some "srv" } }

/-- An instance that has read the groups. -/
def sampleSite : Site := { slot := ⟨true, sampleGroups⟩ }

theorem resolve_lists_sample :
    Inventory.ofDocument sampleItems = .ok sample.resolver.inventory ∧
      ∃ g, sampleSite.stored? sample.storage 4 = some g ∧
        sample.resolver.Lists (sampleSite.stored? sample.storage) g.rules [⟨4, "power"⟩] :=
  have hinventory : Inventory.ofDocument sampleItems = .ok sample.resolver.inventory := by rfl
  have hrun : ((sample.resolve (.id 4)).outcome sampleSite).1 = .ok [⟨4, "power"⟩] := by
    decide +kernel
  ⟨hinventory, (resolve_lists sample sampleSite _ hinventory).1 4 _ (Outcome.eq_of_fst hrun)⟩

/-! ## When it succeeds -/

theorem resolve_id_iff (sv : Service) (s : Site) {db : Database}
    (hcontent : s.content sv.storage = .ok db)
    (hquiet : s.disk.refusals = []) (id : Nat) :
    (∃ found t, (sv.resolve (.id id)).outcome s = (.ok found, t)) ↔
      Resolvable db.byId? sv.resolver.maxDepth id := by
  have hanswer := (sv.resolveId_reads id).fst_eq hquiet
  rw [hcontent] at hanswer
  rw [← Resolver.resolveId_resolves (groupIn (.ok db)) (fun _ _ => Database.byId_eq_ok)
    (fun _ => Database.id_of_byId?)]
  constructor
  · rintro ⟨found, t, hok⟩
    rw [hok] at hanswer
    exact ⟨found, hanswer.symm⟩
  · rintro ⟨found, hfound⟩
    exact ⟨found, _, Outcome.eq_of_fst (hanswer.trans hfound)⟩

/-- A group that is referred to twice is no obstacle, groups that refer to each other are. -/
theorem resolvable_sample :
    Resolvable sampleGroups.byId? sample.resolver.maxDepth 4 ∧
      ¬ Resolvable sampleGroups.byId? sample.resolver.maxDepth 5 := by
  constructor
  · have hrun : ((sample.resolve (.id 4)).outcome sampleSite).1 = .ok [⟨4, "power"⟩] := by
      decide +kernel
    exact (resolve_id_iff sample sampleSite rfl rfl 4).mp ⟨_, _, Outcome.eq_of_fst hrun⟩
  · intro h
    obtain ⟨found, t, hok⟩ := (resolve_id_iff sample sampleSite rfl rfl 5).mpr h
    have hcycle : ((sample.resolve (.id 5)).outcome sampleSite).1 = .error (.cycle [5, 6, 5]) := by
      decide +kernel
    rw [hok] at hcycle
    cases hcycle

end Service

end AssetGroups
