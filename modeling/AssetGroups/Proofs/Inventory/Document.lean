import AssetGroups.Proofs.Inventory.Links
import AssetGroups.Proofs.Inventory.Places

/-!
# The inventory of a document

A document is accepted when no name is given twice and every link has its ends among the names; the
inventory then mirrors it, in all that it can be asked.
-/

namespace AssetGroups

/-- An item with the name `inner` is written directly inside one with the name `outer`. -/
def Document.Encloses (d : Document) (outer inner : String) : Prop :=
  ∃ item ∈ d.everyItem, item.parts.name = outer ∧ ∃ i ∈ item.parts.items, i.parts.name = inner

theorem Document.Fault.not_joins {d : Document} {e : GroupError} (h : d.Fault e)
    (hnames : d.names.Nodup) : ¬ ∀ l ∈ d.links, l.Joins d.names := by
  intro hjoins
  cases h with
  | repeated hsplit _ hseen =>
      rw [hsplit, List.nodup_append] at hnames
      exact hnames.2.2 _ hseen _ List.mem_cons_self rfl
  | astray _ hlinks _ hstrays =>
      obtain ⟨hsource, hdest⟩ := hjoins _ (hlinks ▸ List.mem_append_right _ List.mem_cons_self)
      rcases hstrays with ⟨hnew, rfl | ⟨-, rfl⟩⟩
      · exact hnew hsource
      · exact hnew hdest

namespace Inventory

/-- What the queries answer with. -/
inductive IsAnswer (inv : Inventory) : IdSet → Prop where
  | inDomain (d : Domain) : inv.IsAnswer (inv.inDomain d)
  | byName (m : TextMatch) : inv.IsAnswer (inv.byName m)
  | byInternalName (m : TextMatch) : inv.IsAnswer (inv.byInternalName m)
  | byLocation (m : TextMatch) : inv.IsAnswer (inv.byLocation m)
  | byType (m : TextMatch) : inv.IsAnswer (inv.byType m)
  | bySubtype (m : TextMatch) : inv.IsAnswer (inv.bySubtype m)
  | byAttribute (keys : List AttributeKey) (m : TextMatch) : inv.IsAnswer (inv.byAttribute keys m)
  | byHostAttribute (keys : List AttributeKey) (m : TextMatch) :
      inv.IsAnswer (inv.byHostAttribute keys m)
  | hostedBy (m : TextMatch) : inv.IsAnswer (inv.hostedBy m)

/-- How an inventory says what a document says. -/
structure Mirrors (inv : Inventory) (d : Document) : Prop where
  /-- The assets are the items, each before those inside it. -/
  order : List.Forall₂ Asset.Shows inv.assets d.everyItem
  ids : inv.assets.map (·.id) = List.range' 1 inv.assets.length
  asset : ∀ id a, inv.asset? id = some a ↔ a ∈ inv.assets ∧ a.id = id
  idOf : ∀ name id, inv.idOf? name = some id ↔ ∃ a, inv.asset? id = some a ∧ a.name = name
  parent : ∀ p c, inv.parentOf? c = some p ↔ ∃ outer inner, d.Encloses outer inner ∧
    inv.idOf? outer = some p ∧ inv.idOf? inner = some c
  parent_lt : ∀ p c, inv.parentOf? c = some p → p < c
  children : ∀ p, (inv.children.find p).Pairwise (· < ·) ∧
    ∀ c, c ∈ inv.children.find p ↔ inv.parentOf? c = some p
  host : ∀ a ∈ inv.assets, ∀ host, a.host = some host ↔
    ∃ source, LastHosting d.links a.name source ∧ inv.idOf? source = some host
  described : ∀ s, inv.IsAnswer s → (inv.describe s).map (·.id) = s.ids

variable {inv inv' : Inventory} {d : Document}

theorem Numbered.knows_answer (h : inv.Numbered) {s : IdSet} (hs : inv.IsAnswer s) :
    inv.Knows s := by
  cases hs with
  | byLocation => exact h.knows_byLocation
  | _ => exact knows_select _

theorem Numbered.children_ascending (h : inv.Numbered) (p : Nat) :
    (inv.children.find p).Pairwise (· < ·) := by
  rw [h.children, List.pairwise_map]
  exact h.ascending.filter _

theorem SameButHosts.forall_shows (h : inv.SameButHosts inv') {items : List Item}
    (hshows : List.Forall₂ Asset.Shows inv.assets items) :
    List.Forall₂ Asset.Shows inv'.assets items := by
  have hunhosted (assets : List Asset) : List.Forall₂ Asset.Shows (assets.map (·.unhosted)) items ↔
      List.Forall₂ Asset.Shows assets items := by
    simp only [List.forall₂_map_left_iff, Asset.unhosted_shows]
  rwa [← hunhosted, h.assets, hunhosted]

/-! ## Names -/

theorem idOf?_eq_some (h : (inv.assets.map (·.name)).Nodup) {name : String} {id : Nat} :
    inv.idOf? name = some id ↔ ∃ a ∈ inv.assets, a.name = name ∧ a.id = id := by
  rw [idOf?, Option.map_eq_some_iff]
  constructor
  · rintro ⟨a, ha, hid⟩
    exact ⟨a, List.mem_of_find?_eq_some ha, by simpa using List.find?_some ha, hid⟩
  · rintro ⟨a, ha, rfl, rfl⟩
    cases hfind : inv.assets.find? (·.name == a.name) with
    | none => exact absurd (List.find?_eq_none.mp hfind a ha) (by simp)
    | some b =>
        have hb : b.name = a.name := by simpa using List.find?_some hfind
        rw [List.inj_on_of_nodup_map h (List.mem_of_find?_eq_some hfind) ha hb]
        exact ⟨a, rfl, rfl⟩

theorem SameButHosts.idOf?_eq (h : inv.SameButHosts inv') (name : String) :
    inv'.idOf? name = inv.idOf? name := by
  have hunhosted (inv : Inventory) : inv.idOf? name =
      ((inv.assets.map (·.unhosted)).find? (·.name == name)).map (·.id) := by
    rw [List.find?_map, Option.map_map]
    rfl
  rw [hunhosted, hunhosted inv, h.assets]

theorem SameButHosts.parentOf?_eq (h : inv.SameButHosts inv') (id : Nat) :
    inv'.parentOf? id = inv.parentOf? id := by
  have hunhosted (inv : Inventory) (i : Nat) : inv.parentOf? (i + 1) =
      ((inv.assets.map (·.unhosted))[i]?).bind (·.parent) := by
    rw [List.getElem?_map, Option.bind_map]
    rfl
  cases id with
  | zero => rfl
  | succ i => rw [hunhosted, hunhosted inv, h.assets]

/-! ## Parents -/

theorem parentOf?_insertAll (hnames : d.names.Nodup) {p c : Nat} :
    (insertAll {} none d.items).parentOf? c = some p ↔ ∃ outer inner, d.Encloses outer inner ∧
      (insertAll {} none d.items).idOf? outer = some p ∧
      (insertAll {} none d.items).idOf? inner = some c := by
  have hnodup : ((insertAll {} none d.items).assets.map (·.name)).Nodup :=
    names_of_show (insertAll_shows d).2 ▸ hnames
  rw [(numbered_insertAll d.items).parentOf?_eq_some]
  simp only [idOf?_eq_some hnodup]
  rw [assets_insertAll] at hnodup ⊢
  constructor
  · rintro ⟨a, ha, hid, hparent⟩
    rcases Item.allAssets_standIn none 1 d.items a ha with
      ⟨htop, -⟩ | ⟨b, hb, hab, outer, houter, hshows, inner, hinner, hshows'⟩
    · rw [htop] at hparent
      cases hparent
    · rw [hab, Option.some.injEq] at hparent
      exact ⟨_, _, ⟨outer, houter, rfl, inner, hinner, rfl⟩, ⟨b, hb, hshows.name, hparent⟩,
        a, ha, hshows'.name, hid⟩
  · rintro ⟨_, _, ⟨outer, houter, rfl, inner, hinner, rfl⟩, ⟨b', hb', hname, rfl⟩, a', ha', hname', rfl⟩
    obtain ⟨b, hb, a, ha, hshows, hshows', hab⟩ :=
      Item.allAssets_enclose none 1 d.items outer houter inner hinner
    obtain rfl := List.inj_on_of_nodup_map hnodup hb' hb (hname.trans hshows.name.symm)
    obtain rfl := List.inj_on_of_nodup_map hnodup ha' ha (hname'.trans hshows'.name.symm)
    exact ⟨a', ha, rfl, hab⟩

/-! ## Whole documents -/

theorem Follows.mirrors {ids : List (String × Nat)} (hnames : d.names.Nodup)
    (hnamed : (insertAll {} none d.items).Named ids)
    (h : Follows ids (insertAll {} none d.items) d.links inv) : inv.Mirrors d := by
  obtain ⟨-, hshows⟩ := insertAll_shows d
  have hnum := h.same.numbered (numbered_insertAll d.items)
  have hnodup : (inv.assets.map (·.name)).Nodup := by
    rw [h.same.map_eq (·.name) fun _ => rfl, names_of_show hshows]
    exact hnames
  have hids (name : String) (id : Nat) : inv.idOf? name = some id ↔ ids.lookup name = some id := by
    rw [idOf?_eq_some hnodup, h.same.named hnamed]
    simp
  constructor
  case order => exact h.same.forall_shows hshows
  case ids => exact hnum.ids
  case asset => exact fun _ _ => hnum.asset?_eq_some
  case idOf =>
    intro name id
    rw [idOf?_eq_some hnodup]
    simp only [hnum.asset?_eq_some, and_assoc, and_comm (a := _ = id)]
  case parent =>
    intro p c
    simp only [h.same.parentOf?_eq, h.same.idOf?_eq]
    exact parentOf?_insertAll hnames
  case parent_lt =>
    intro p c hp
    obtain ⟨a, ha, rfl, hparent⟩ := hnum.parentOf?_eq_some.mp hp
    exact (hnum.parents a ha p hparent).2
  case children => exact fun p => ⟨hnum.children_ascending p, fun c => hnum.mem_children⟩
  case host =>
    intro a ha host
    simp only [h.hosts a ha host, hids]
  case described => exact fun s hs => hnum.describe_ids (hnum.knows_answer hs)

/-- The inventory of every document that is accepted mirrors it. -/
theorem mirrors_of_ofDocument (h : ofDocument d = .ok inv) : inv.Mirrors d := by
  rcases ofDocument_cases d with ⟨inv', ids, hok, hnames, -, hnamed, hfollows⟩ | ⟨e, herr, -⟩
  · cases h.symm.trans hok
    exact hfollows.mirrors hnames hnamed
  · cases h.symm.trans herr

theorem Mirrors.id_of_name (h : inv.Mirrors d) {a b : Asset} (ha : a ∈ inv.assets)
    (hb : b ∈ inv.assets) (hname : a.name = b.name) : a.id = b.id := by
  have hida := (h.idOf a.name a.id).mpr ⟨a, (h.asset _ _).mpr ⟨ha, rfl⟩, rfl⟩
  have hidb := (h.idOf b.name b.id).mpr ⟨b, (h.asset _ _).mpr ⟨hb, rfl⟩, rfl⟩
  rw [hname, hidb, Option.some.injEq] at hida
  exact hida.symm

/-- A document is accepted exactly if its names are distinct and its links join names; else the first
repeated name is reported, and the first stray end of a link only if there is none. The inventory of
an accepted document mirrors it. -/
theorem ofDocument_mirrors (d : Document) :
    ((∃ inv, ofDocument d = .ok inv) ↔ d.names.Nodup ∧ ∀ l ∈ d.links, l.Joins d.names) ∧
    (∀ e, ofDocument d = .error e → d.Fault e) ∧
    ∀ inv, ofDocument d = .ok inv → inv.Mirrors d := by
  refine ⟨?_, ?_, fun inv hok => mirrors_of_ofDocument hok⟩
  · constructor
    · rintro ⟨inv, hok⟩
      exact accepted_of_ofDocument hok
    · rintro ⟨hnames, hjoins⟩
      rcases ofDocument_cases d with ⟨inv, _, hok, -⟩ | ⟨e, -, hfault⟩
      · exact ⟨inv, hok⟩
      · exact absurd hjoins (hfault.not_joins hnames)
  · intro e herr
    rcases ofDocument_cases d with ⟨inv, _, hok, -⟩ | ⟨e', herr', hfault⟩
    · cases hok.symm.trans herr
    · cases herr.symm.trans herr'
      exact hfault

/-- A virtual machine that moved from one host to another, beside a link that hosts nothing. -/
def movedGuest : Document where
  items := [.mk "room" none "lab" none [] [
    .mk "hypervisor" none "old" none [] [.mk "vm" none "guest" (some "Guest") [] []],
    .mk "hypervisor" none "new" none [] []]]
  links := [⟨"old", "guest", "vmware.hosts.vm"⟩, ⟨"new", "guest", "hosts.vm"⟩, ⟨"lab", "guest", "power"⟩]

theorem ofDocument_mirrors_moved :
    (∃ inv, ofDocument movedGuest = .ok inv ∧ inv.Mirrors movedGuest ∧
      (inv.asset? 3).bind (·.host) = inv.idOf? "new") ∧
    ofDocument { movedGuest with links := [⟨"guest", "nowhere", ""⟩] } =
      .error (.unknownLinkEnd "nowhere") ∧
    { movedGuest with links := [⟨"guest", "nowhere", ""⟩] : Document }.Fault
      (.unknownLinkEnd "nowhere") :=
  ⟨⟨_, rfl, (ofDocument_mirrors movedGuest).2.2 _ rfl, rfl⟩, rfl,
    (ofDocument_mirrors { movedGuest with links := [⟨"guest", "nowhere", ""⟩] }).2.1 _ rfl⟩

end Inventory

end AssetGroups
